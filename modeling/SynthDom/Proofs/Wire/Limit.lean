import SynthDom.Proofs.Wire.Extent
import SynthDom.Proofs.Wire.Text

/-!
# How deep a document may be written

A printed document is read as far as there is room for it, and is decoded from that only if nothing
of it was cut off: a part that is `unreadable` is passed over only where a record does not know the
field, and what is written has no such fields.  So a document is read back from its text if and only
if what is written for it is not nested too deep.

* `Json.depth_le_of_isReadable_cut`: what is readable when it is cut is not too deep.
* `Json.slots_cut`: the fields of a record that is cut.
* `Element.depth_le_of_cut`, `Tree.depth_le_of_cut`: what is decoded when it is cut is not too deep.
* `Tree.decodeText_print`: when a printed document is decoded.
* `Tree.depth_toJson_le`, `Tree.depth_toJson_le_of_read`: a document is written one level deeper than it
  was read, at most.
-/

namespace SynthDom

/-! ## What is cut off -/

namespace Json

variable {room : Nat}

/-- If nothing is unreadable with so much room, there is room enough. -/
theorem depth_le_of_isReadable_cut {j : Json} (h : (j.cut room).isReadable = true) :
    j.depth ≤ room := by
  induction j generalizing room with
  | null | bool | natural | real | string | unreadable => exact Nat.zero_le room
  | array items ih =>
    cases room with
    | zero => cases h
    | succ room =>
      refine Nat.succ_le_succ (depthItems_le_iff.mpr fun j hj => ?_)
      exact ih j hj (allReadable_iff.mp h _ (List.mem_map_of_mem hj))
  | object fields ih =>
    cases room with
    | zero => cases h
    | succ room =>
      refine Nat.succ_le_succ (depthFields_le_iff.mpr fun f hf => ?_)
      exact ih f hf (allFieldsReadable_iff.mp h _ (List.mem_map_of_mem hf))

theorem lookup_map (g : Json → Json) (name : String) (fields : List (String × Json)) :
    lookup name (fields.map fun f => (f.1, g f.2)) = (lookup name fields).map g := by
  induction fields with
  | nil => rfl
  | cons f fields ih =>
    rw [List.map_cons, lookup_cons, ih]
    obtain ⟨n, j⟩ := f
    rw [lookup_cons]
    split <;> rfl

theorem occurrences_map (g : Json → Json) (name : String) (fields : List (String × Json)) :
    occurrences name (fields.map fun f => (f.1, g f.2)) = occurrences name fields := by
  rw [occurrences, List.filter_map, List.length_map]
  rfl

/-- The values of a record's fields are cut one by one. -/
theorem slots_cut (names : List String) (fields : List (String × Json)) :
    ((object fields).cut (room + 1)).slots names =
      ((object fields).slots names).map (List.map (Option.map (cut room))) := by
  have hdistinct : distinct names (fields.map fun f => (f.1, f.2.cut room)) = distinct names fields := by
    simp only [distinct, occurrences_map]
  simp only [cut, slots, hdistinct, lookup_map]
  split
  · rw [Option.map_some, List.map_map]
    rfl
  · rfl

/-- Each item of a list is read if the list is. -/
theorem exists_of_mapM_eq_some {α β : Type} {read : α → Option β} {xs : List α} {ys : List β}
    (h : xs.mapM read = some ys) : ∀ x ∈ xs, ∃ y, read x = some y := by
  intro x hx
  obtain ⟨i, hi⟩ := List.getElem?_of_mem hx
  rcases forall₂_getElem? (mapM_eq_some_iff.mp h) i with ⟨z, y, hz, -, hzy⟩ | ⟨hnone, -⟩
  · cases hi.symm.trans hz
    exact ⟨y, hzy⟩
  · cases hi.symm.trans hnone

/-- A list that is cut is read only if there is room for it, where items that are unreadable in any
part are refused. -/
theorem depth_le_of_items_cut {α : Type} {read : Json → Option α} {items : List Json} {ys : List α}
    (hread : ∀ j x, read j = some x → j.isReadable = true)
    (h : ((array items).cut room).items? read = some ys) : (array items).depth ≤ room := by
  cases room with
  | zero => cases h
  | succ room =>
    have hitems : (items.map (cut room)).mapM read = some ys := h
    refine Nat.succ_le_succ (depthItems_le_iff.mpr fun j hj => ?_)
    obtain ⟨x, hx⟩ := exists_of_mapM_eq_some hitems _ (List.mem_map_of_mem hj)
    exact depth_le_of_isReadable_cut (hread _ _ hx)

end Json

/-! ## Rules and nodes -/

/-- A rule that does not stand inside another is taken in as a whole. -/
theorem Rule.isReadable_of_ofJson? (j : Json) (r : Rule) (h : ofJson? false j = some r) :
    j.isReadable = true := by
  rw [ofJson?.eq_def] at h
  split at h
  · cases h
  · next hreadable => simpa using hreadable

theorem Node.isReadable_of_ofJson? (j : Json) (n : Node) (h : ofJson? false j = some n) :
    j.isReadable = true := by
  rw [ofJson?.eq_def] at h
  split at h
  · cases h
  · next hreadable => simpa using hreadable

variable {room : Nat}

theorem PropertyList.depth_toJson_le (l : PropertyList) : l.toJson.depth ≤ 2 :=
  Json.depth_map_le fun _ _ => Nat.le_refl 1

theorem Stylesheet.depth_le_of_cut {s s' : Stylesheet}
    (h : ofJson? false (s.toJson.cut (room + 1)) = some s') : s.toJson.depth ≤ room + 1 := by
  have hslots : (s.toJson.cut (room + 1)).slots ["rules"]
      = some [some ((Json.array (Rule.toJsonList s.rules)).cut room)] := rfl
  simp only [ofJson?, hslots, Json.orDefault] at h
  obtain ⟨rules, hrules, -⟩ := Option.map_eq_some_iff.mp h
  have hdepth := Json.depth_le_of_items_cut Rule.isReadable_of_ofJson? hrules
  exact Nat.succ_le_succ (Nat.max_le.mpr ⟨hdepth, Nat.zero_le _⟩)

/-! ## Elements and documents -/

theorem Element.depth_le_of_cut {e e' : Element}
    (h : ofJson? (e.toJson.cut (room + 3)) = some e') : e.toJson.depth ≤ room + 3 := by
  have hslots : (e.toJson.cut (room + 3)).slots fieldNames = some [some (.string e.tag),
      e.attributesSlot.map (Json.cut (room + 2)), e.childrenSlot.map (Json.cut (room + 2)),
      (e.stylesheet.map Stylesheet.toJson).map (Json.cut (room + 2))] := by
    have hwritten := e.slots_toJson
    rw [toJson] at hwritten ⊢
    rw [Json.slots_cut, hwritten]
    rfl
  simp only [ofJson?, hslots] at h
  obtain ⟨children, hchildren, helement⟩ := Option.bind_eq_some_iff.mp h
  simp only [elementOfJson?, hslots, Option.bind_eq_bind, Option.bind_eq_some_iff] at helement
  obtain ⟨-, -, -, -, sheet, hsheet, -⟩ := helement
  have hchildren : (Json.array (Node.toJsonList e.children)).depth ≤ room + 2 := by
    unfold childrenSlot at hchildren
    split at hchildren
    · next hempty =>
      rw [List.isEmpty_iff.mp hempty]
      exact Nat.le_add_left 1 (room + 1)
    · exact Json.depth_le_of_items_cut Node.isReadable_of_ofJson? hchildren
  have hsheet (s : Stylesheet) (hs : s ∈ e.stylesheet) : s.toJson.depth ≤ room + 2 := by
    rw [Option.mem_def.mp hs] at hsheet
    obtain ⟨s', hs', -⟩ := Option.map_eq_some_iff.mp hsheet
    exact Stylesheet.depth_le_of_cut hs'
  have hattributes := Nat.le_trans e.attributes.depth_toJson_le (Nat.le_add_left 2 room)
  exact Nat.succ_le_succ (Json.depthFields_le_iff.mpr
    (forall_fields (P := fun j => j.depth ≤ room + 2) (Nat.zero_le _) hattributes hchildren hsheet))

namespace Tree

variable {t : Tree}

/-- How deep a document is written, by its root. -/
theorem depth_toJson_le_iff {n : Nat} : t.toJson.depth ≤ n + 2 ↔ t.root.toJson.depth ≤ n + 1 := by
  have hmodules : Json.depthFields (if t.modules.isEmpty then []
      else [("modules", .array (t.modules.map .string))]) ≤ n + 1 := by
    refine Json.depthFields_le_iff.mpr fun f hf => ?_
    split at hf
    · cases hf
    · rw [List.mem_singleton.mp hf]
      exact Json.depth_map_le fun _ _ => Nat.zero_le n
  simp only [toJson, Json.depth, Json.depthFields, Nat.succ_le_succ_iff, Nat.max_le]
  exact and_iff_left hmodules

theorem depth_le_of_cut {t' : Tree} (h : ofJson? (t.toJson.cut (room + 4)) = some t') :
    t.toJson.depth ≤ room + 4 := by
  have hslots : (t.toJson.cut (room + 4)).slots ["root", "modules"]
      = some [some (t.root.toJson.cut (room + 3)), t.modulesSlot.map (Json.cut (room + 3))] := by
    have hwritten := t.slots_toJson
    rw [toJson] at hwritten ⊢
    rw [Json.slots_cut, hwritten]
    rfl
  simp only [ofJson?, hslots, Option.bind_eq_bind, Option.bind_eq_some_iff] at h
  obtain ⟨e, he, -⟩ := h
  exact depth_toJson_le_iff.mpr (Element.depth_le_of_cut he)

/-- A printed document is decoded as it was if what is written for it is not nested too deep, and is
refused otherwise. -/
theorem decodeText_print {l : Json.Layout} (hl : l.Spaced) (t : Tree) (blanks : String)
    (hblanks : ∀ c ∈ blanks.toList, Json.isBlank c = true) :
    decodeText (orMalformed ofJson?) (t.toJson.print l ++ blanks) =
      if t.toJson.depth ≤ Json.maxDepth then .ok t else .error .malformed := by
  split
  · next hdepth =>
    exact SynthDom.decodeText_print hl t.plain_toJson hdepth
      (orMalformed_eq_ok_iff.mpr t.ofJson?_toJson) blanks hblanks
  · next hdepth =>
    refine decodeText_orMalformed fun u hu => hdepth ?_
    rw [decodeText_print_iff hl t.plain_toJson blanks hblanks, orMalformed_eq_ok_iff] at hu
    exact depth_le_of_cut (show ofJson? (t.toJson.cut (123 + 4)) = some u from hu)

/-- So is the text that is the printed document alone. -/
theorem decodeText_printed {l : Json.Layout} (hl : l.Spaced) (t : Tree) :
    decodeText (orMalformed ofJson?) (t.toJson.print l) =
      if t.toJson.depth ≤ Json.maxDepth then .ok t else .error .malformed := by
  have hprinted := t.decodeText_print hl "" (by simp)
  rwa [String.append_empty] at hprinted

/-- A document is written one level deeper than it was read, at most. -/
theorem depth_toJson_le {width : Nat} {j : Json} (h : ofJson? j = some t)
    (hj : Json.Within width room j) : t.toJson.depth ≤ j.depth + 1 := by
  obtain ⟨depth, hdepth⟩ : ∃ depth, j.depth = depth + 1 := by
    unfold ofJson? at h
    split at h
    · next hslots => exact Nat.exists_eq_add_of_le' (Json.depth_pos_of_slots hslots)
    · cases h
  have hroot := (within_root h (hj.of_depth_le (Nat.le_of_eq hdepth))).depth_le
  simp only [Node.toJson, Json.depth, Json.depthFields, Nat.zero_max] at hroot
  rw [hdepth]
  exact depth_toJson_le_iff.mpr hroot

/-- A document that is decoded from so many levels of a text is written one level deeper than these, at
most. -/
theorem depth_toJson_le_of_read {levels : Nat} {text : String}
    (h : ofJson? (Json.read levels text).value = some t) : t.toJson.depth ≤ levels + 1 := by
  have hwithin := Json.read_within levels text
  exact Nat.le_trans (depth_toJson_le h hwithin) (Nat.succ_le_succ hwithin.depth_le)

end Tree

end SynthDom
