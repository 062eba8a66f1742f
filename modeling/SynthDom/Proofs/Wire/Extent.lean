import SynthDom.Proofs.Json.Extent
import SynthDom.Proofs.Wire.RoundTrip

/-!
# Decoding and encoding adds one level

A record may leave out a field that is written always: declarations of a rule, rules of a condition
or of a stylesheet.  So what is written for a value may be deeper than what it was read from, but by
one level only, since an array that is written for a missing field is empty.  Arrays do not grow.

* `Json.Part`: an item of an array or the value of a field.
* `Rule.within_toJson`, `Stylesheet.within_toJson`, `Node.within_toJson`, `Element.within_toJson`:
  if a value is read from what is within some room, then what is written for it is within one place
  more.

For rules and nodes the induction is on the room: what is inside is read from a value with less of
it.
-/

namespace SynthDom

/-! ## Parts of a value -/

namespace Json

/-- An item of an array, or the value of a field of an object. -/
inductive Part (x : Json) : Json → Prop
  | item {items : List Json} : x ∈ items → Part x (.array items)
  | field {fields : List (String × Json)} {name : String} :
      (name, x) ∈ fields → Part x (.object fields)

variable {width room : Nat} {j x : Json}

/-- The parts of an array or object have one place less. -/
theorem Within.parts (h : Within width room j) (hdepth : 0 < j.depth) :
    ∃ room', room = room' + 1 ∧ ∀ x, Part x j → Within width room' x := by
  cases h with
  | leaf hleaf => exact absurd hleaf (Nat.ne_of_gt hdepth)
  | array _ hitems =>
    refine ⟨_, rfl, fun x hx => ?_⟩
    cases hx with
    | item hx => exact hitems x hx
  | object hfields =>
    refine ⟨_, rfl, fun x hx => ?_⟩
    cases hx with
    | field hx => exact hfields _ hx

theorem Within.fields {fields : List (String × Json)}
    (h : fields.Forall fun f => Within width room f.2) : Within width (room + 1) (.object fields) :=
  .object (List.forall_iff_forall_mem.mp h)

theorem mem_of_lookup {name : String} {fields : List (String × Json)}
    (h : lookup name fields = some x) : (name, x) ∈ fields := by
  induction fields with
  | nil => cases h
  | cons f fields ih =>
    obtain ⟨n, j⟩ := f
    rw [lookup_cons] at h
    split at h
    · next hname =>
      cases h
      exact hname ▸ List.mem_cons_self
    · exact List.mem_cons_of_mem _ (ih h)

/-- An array without its first item has no other parts. -/
theorem Part.cons {k : Json} {items : List Json} (h : Part x (.array items)) :
    Part x (.array (k :: items)) := by
  cases h with
  | item h => exact .item (List.mem_cons_of_mem _ h)

/-- The values of a record's fields, as far as it has them, are parts of it. -/
theorem part_of_slots {names : List String} {values : List (Option Json)} {held : Option Json}
    (h : j.slots names = some values) (hheld : held ∈ values) : ∀ x ∈ held, Part x j := by
  rintro x ⟨⟩
  unfold slots at h
  split at h
  · split at h
    · cases h
      obtain ⟨name, -, hlookup⟩ := List.mem_map.mp hheld
      exact .field (mem_of_lookup hlookup)
    · cases h
  · split at h
    · cases h
      obtain ⟨i, -, hitem⟩ := List.mem_map.mp hheld
      exact .item (List.mem_of_getElem? hitem)
    · cases h
  · cases h

theorem depth_pos_of_slots {names : List String} {values : List (Option Json)}
    (h : j.slots names = some values) : 0 < j.depth := by
  unfold slots at h
  split at h
  · exact Nat.succ_pos _
  · exact Nat.succ_pos _
  · cases h

/-! ## Lists -/

/-- What is read from the items of a list comes from one of them each. -/
theorem mapM_eq_some {α β : Type} {read : α → Option β} {xs : List α} {ys : List β}
    (h : xs.mapM read = some ys) :
    ys.length = xs.length ∧ ∀ y ∈ ys, ∃ x ∈ xs, read x = some y := by
  have hread := mapM_eq_some_iff.mp h
  refine ⟨hread.length_eq.symm, fun y hy => ?_⟩
  obtain ⟨i, hi⟩ := List.getElem?_of_mem hy
  rcases forall₂_getElem? hread i with ⟨x, z, hx, hz, hxz⟩ | ⟨-, hnone⟩
  · cases hi.symm.trans hz
    exact ⟨x, List.mem_of_getElem? hx, hxz⟩
  · cases hi.symm.trans hnone

/-- A list is no longer than the array it is read from, and its members are read from the items. -/
theorem Within.items {α : Type} {read : Json → Option α} {ys : List α} (h : Within width room j)
    (hread : j.items? read = some ys) : ∃ room', room = room' + 1 ∧ ys.length ≤ width ∧
      ∀ y ∈ ys, ∃ x, Within width room' x ∧ read x = some y := by
  cases h with
  | leaf hleaf => cases j <;> first | cases hread | cases hleaf
  | object => cases hread
  | array hlength hitems =>
    obtain ⟨heq, hmem⟩ := mapM_eq_some hread
    refine ⟨_, rfl, heq ▸ hlength, fun y hy => ?_⟩
    obtain ⟨x, hx, hread⟩ := hmem y hy
    exact ⟨x, hitems x hx, hread⟩

/-- A list that may be missing is written again one level deeper at most, if its members are. -/
theorem within_map_items {α : Type} {read : Json → Option α} {write : α → Json} {held : Option Json}
    {ys : List α} (h : orDefault [] (·.items? read) held = some ys)
    (hheld : ∀ x ∈ held, Within width room x)
    (hread : ∀ room' < room, ∀ x y, read x = some y → Within width room' x →
      Within width (room' + 1) (write y)) : Within width (room + 1) (.array (ys.map write)) := by
  cases held with
  | none =>
    cases h
    exact .array (Nat.zero_le _) nofun
  | some x =>
    obtain ⟨room', rfl, hlength, hmem⟩ := (hheld x rfl).items h
    refine .array (List.length_map write ▸ hlength) fun j hj => ?_
    obtain ⟨y, hy, rfl⟩ := List.mem_map.mp hj
    obtain ⟨x', hx', hy'⟩ := hmem y hy
    exact hread room' (Nat.lt_succ_self _) x' y hy' hx'

end Json

open Json (Within Part)

variable {width room : Nat} {inside : Bool} {j : Json}

/-! ## Property lists and at-keywords -/

theorem pairOfJson?_eq_some {e : String × String} (h : pairOfJson? j = some e) :
    j = .array [.string e.1, .string e.2] := by
  unfold pairOfJson? at h
  split at h
  · cases h
    rfl
  · cases h

theorem PropertyList.within_toJson {l : PropertyList} (h : ofJson? j = some l)
    (hj : Within width room j) : Within width room l.toJson := by
  obtain ⟨pairs, hpairs, rfl⟩ := Option.map_eq_some_iff.mp h
  obtain ⟨room, rfl, hlength, hmem⟩ := hj.items hpairs
  have hle := Nat.le_trans (length_ofPairs_le pairs) hlength
  refine .array (Nat.le_trans (Nat.le_of_eq (List.length_map _)) hle) fun k hk => ?_
  obtain ⟨e, he, rfl⟩ := List.mem_map.mp hk
  -- The entry need not be one of the pairs, but there is a pair, and it takes as much room.
  have hne : pairs ≠ [] := by
    rintro rfl
    cases he
  obtain ⟨e', he'⟩ := List.exists_mem_of_ne_nil pairs hne
  obtain ⟨x, hx, hread⟩ := hmem e' he'
  rw [pairOfJson?_eq_some hread] at hx
  cases hx with
  | leaf hleaf => cases hleaf
  | array hpair _ =>
    refine .array hpair fun k hk => ?_
    rcases List.mem_cons.mp hk with rfl | hk
    · exact .leaf rfl
    · rw [List.mem_singleton.mp hk]
      exact .leaf rfl

/-- A property list that may be missing. -/
theorem PropertyList.within_default {held : Option Json} {l : PropertyList}
    (h : Json.orDefault ∅ ofJson? held = some l) (hheld : ∀ x ∈ held, Within width room x) :
    Within width (room + 1) l.toJson := by
  cases held with
  | none =>
    cases h
    exact .array (Nat.zero_le _) nofun
  | some x => exact (within_toJson h (hheld x rfl)).mono (Nat.le_refl _) (Nat.le_succ _)

theorem ConditionKind.within_toJson (k : ConditionKind) : Within width (room + 1) k.toJson := by
  cases k with
  | media | supports | keyframes => exact .leaf rfl
  | unknown keyword => exact .fields (.leaf rfl)

/-! ## Rules -/

theorem rulesValue?_eq (j : Json) : rulesValue? j = j.items? (Rule.ofJson? true) := by
  have hitems (items : List Json) : rulesOfItems? items = items.mapM (Rule.ofJson? true) := by
    induction items with
    | nil => rfl
    | cons j js ih =>
      rw [rulesOfItems?, ih, List.mapM_cons]
      cases Rule.ofJson? true j <;> cases js.mapM (Rule.ofJson? true) <;> rfl
  cases j with
  | array items => exact hitems items
  | _ => rfl

theorem rulesField?_eq (fields : List (String × Json)) : rulesField? fields
    = Json.orDefault [] (·.items? (Rule.ofJson? true)) (Json.lookup "rules" fields) := by
  induction fields with
  | nil => rfl
  | cons f fields ih =>
    obtain ⟨name, j⟩ := f
    rw [rulesField?, Json.lookup_cons]
    split
    · exact rulesValue?_eq j
    · exact ih

theorem rulesItem?_eq (items : List Json) : rulesItem? items
    = Json.orDefault [] (·.items? (Rule.ofJson? true)) items[2]? := by
  match items with
  | [] | [_] | [_, _] => rfl
  | _ :: _ :: j :: _ => exact rulesValue?_eq j

/-- The body that a rule is read from: all of an object, or an array without its kind.  What is read
from it as rules is one of its parts. -/
theorem Rule.ofJson?_eq_some {r : Rule} (h : Rule.ofJson? inside j = some r) :
    0 < j.depth ∧ ∃ body, (∀ x, Part x body → Part x j) ∧
      ((∃ tag : RuleTag, tag.leafOfJson? body = some r) ∨
        ∃ held rules, (∀ x ∈ held, Part x body) ∧
          Json.orDefault [] (·.items? (Rule.ofJson? true)) held = some rules ∧
          conditionOfJson? body rules = some r) := by
  cases j with
  | object fields =>
    refine ⟨Nat.succ_pos _, .object fields, fun _ => id, ?_⟩
    rw [Rule.ofJson?] at h
    split at h
    · cases h
    split at h
    · obtain ⟨rules, hrules, hr⟩ := Option.bind_eq_some_iff.mp h
      rw [rulesField?_eq] at hrules
      exact .inr ⟨_, rules, fun x hx => .field (Json.mem_of_lookup hx), hrules, hr⟩
    · exact .inl ⟨_, h⟩
    · cases h
  | array items =>
    cases items with
    | nil => simp [Rule.ofJson?] at h
    | cons kind items =>
      refine ⟨Nat.succ_pos _, .array items, fun _ => Part.cons, ?_⟩
      rw [Rule.ofJson?] at h
      split at h
      · cases h
      split at h
      · obtain ⟨rules, hrules, hr⟩ := Option.bind_eq_some_iff.mp h
        rw [rulesItem?_eq] at hrules
        exact .inr ⟨_, rules, fun x hx => .item (List.mem_of_getElem? hx), hrules, hr⟩
      · exact .inl ⟨_, h⟩
      · cases h
  | _ => simp [Rule.ofJson?] at h

/-- Declarations are read from a part. -/
theorem blockOfJson?_eq_some {header : String} {b : String × PropertyList}
    (h : blockOfJson? header j = some b) :
    ∃ held, (∀ x ∈ held, Part x j) ∧ Json.orDefault ∅ PropertyList.ofJson? held = some b.2 := by
  unfold blockOfJson? at h
  split at h
  · next hslots =>
    simp only [Option.bind_eq_bind, Option.bind_eq_some_iff, Option.pure_def,
      Option.some.injEq] at h
    obtain ⟨_, -, _, hds, rfl⟩ := h
    exact ⟨_, Json.part_of_slots hslots (.tail _ List.mem_cons_self), hds⟩
  · cases h

/-- A rule of a kind that holds no rules. -/
theorem RuleTag.within_toJson {tag : RuleTag} {r : Rule} (h : tag.leafOfJson? j = some r)
    (hj : ∀ x, Part x j → Within width room x) : Within width (room + 2) r.toJson := by
  cases tag with
  | style | keyframeStep =>
    obtain ⟨b, hb, rfl⟩ := Option.map_eq_some_iff.mp h
    obtain ⟨held, hheld, hds⟩ := blockOfJson?_eq_some hb
    have hds := PropertyList.within_default hds fun x hx => hj x (hheld x hx)
    exact .fields ⟨.leaf rfl, .leaf rfl, hds⟩
  | condition => cases h

theorem within_conditionOfJson? {rules : List Rule} {r : Rule}
    (h : conditionOfJson? j rules = some r)
    (hrules : Within width (room + 1) (.array (rules.map Rule.toJson))) :
    Within width (room + 2) r.toJson := by
  unfold conditionOfJson? at h
  split at h
  · simp only [Option.bind_eq_bind, Option.bind_eq_some_iff, Option.pure_def,
      Option.some.injEq] at h
    obtain ⟨k, -, c, -, rfl⟩ := h
    rw [← Rule.toJsonList_eq] at hrules
    exact .fields ⟨.leaf rfl, k.within_toJson, .leaf rfl, hrules⟩
  · cases h

/-- A rule is written one level deeper than it was read, at most. -/
theorem Rule.within_toJson {r : Rule} (h : Rule.ofJson? inside j = some r)
    (hj : Within width room j) : Within width (room + 1) r.toJson := by
  induction room using Nat.strongRecOn generalizing inside j r with
  | ind room ih =>
    obtain ⟨hdepth, body, hbody, hcases⟩ := Rule.ofJson?_eq_some h
    obtain ⟨room, rfl, hparts⟩ := hj.parts hdepth
    rcases hcases with ⟨tag, hleaf⟩ | ⟨held, rules, hheld, hrules, hcondition⟩
    · exact RuleTag.within_toJson hleaf fun x hx => hparts x (hbody x hx)
    · refine within_conditionOfJson? hcondition ?_
      refine Json.within_map_items hrules (fun x hx => hparts x (hbody x (hheld x hx))) ?_
      intro room' hlt x r hr hx
      exact ih room' (Nat.lt_succ_of_lt hlt) hr hx

theorem Stylesheet.within_toJson {s : Stylesheet} (h : Stylesheet.ofJson? inside j = some s)
    (hj : Within width room j) : Within width (room + 1) s.toJson := by
  unfold Stylesheet.ofJson? at h
  split at h
  · next held hslots =>
    obtain ⟨room, rfl, hparts⟩ := hj.parts (Json.depth_pos_of_slots hslots)
    obtain ⟨rules, hrules, rfl⟩ := Option.map_eq_some_iff.mp h
    have hwithin : Within width (room + 1) (.array (rules.map Rule.toJson)) := by
      refine Json.within_map_items hrules (fun x hx => ?_) fun _ _ _ _ => Rule.within_toJson
      exact hparts x (Json.part_of_slots hslots List.mem_cons_self x hx)
    rw [← Rule.toJsonList_eq] at hwithin
    exact .fields hwithin
  · cases h

/-! ## Nodes -/

theorem childrenValue?_eq (j : Json) : childrenValue? j = j.items? (Node.ofJson? true) := by
  have hitems (items : List Json) : childrenOfItems? items = items.mapM (Node.ofJson? true) := by
    induction items with
    | nil => rfl
    | cons j js ih =>
      rw [childrenOfItems?, ih, List.mapM_cons]
      cases Node.ofJson? true j <;> cases js.mapM (Node.ofJson? true) <;> rfl
  cases j with
  | array items => exact hitems items
  | _ => rfl

theorem childrenField?_eq (fields : List (String × Json)) : childrenField? fields
    = Json.orDefault [] (·.items? (Node.ofJson? true)) (Json.lookup "children" fields) := by
  induction fields with
  | nil => rfl
  | cons f fields ih =>
    obtain ⟨name, j⟩ := f
    rw [childrenField?, Json.lookup_cons]
    split
    · exact childrenValue?_eq j
    · exact ih

theorem childrenItem?_eq (items : List Json) : childrenItem? items
    = Json.orDefault [] (·.items? (Node.ofJson? true)) items[2]? := by
  match items with
  | [] | [_] | [_, _] => rfl
  | _ :: _ :: j :: _ => exact childrenValue?_eq j

/-- The body that a node is read from, and the part of it that children are read from. -/
theorem Node.ofJson?_eq_some {n : Node} (h : Node.ofJson? inside j = some n) :
    0 < j.depth ∧ ∃ body, (∀ x, Part x body → Part x j) ∧
      (textOfJson? body = some n ∨
        ∃ held children e, (∀ x ∈ held, Part x body) ∧
          Json.orDefault [] (·.items? (Node.ofJson? true)) held = some children ∧
          elementOfJson? true body children = some e ∧ n = .element e) := by
  cases j with
  | object fields =>
    refine ⟨Nat.succ_pos _, .object fields, fun _ => id, ?_⟩
    rw [Node.ofJson?] at h
    split at h
    · cases h
    split at h
    · obtain ⟨children, hchildren, hn⟩ := Option.bind_eq_some_iff.mp h
      obtain ⟨e, he, rfl⟩ := Option.map_eq_some_iff.mp hn
      rw [childrenField?_eq] at hchildren
      exact .inr ⟨_, children, e, fun x hx => .field (Json.mem_of_lookup hx), hchildren, he, rfl⟩
    · exact .inl h
    · cases h
  | array items =>
    cases items with
    | nil => simp [Node.ofJson?] at h
    | cons kind items =>
      refine ⟨Nat.succ_pos _, .array items, fun _ => Part.cons, ?_⟩
      rw [Node.ofJson?] at h
      split at h
      · cases h
      split at h
      · obtain ⟨children, hchildren, hn⟩ := Option.bind_eq_some_iff.mp h
        obtain ⟨e, he, rfl⟩ := Option.map_eq_some_iff.mp hn
        rw [childrenItem?_eq] at hchildren
        exact .inr ⟨_, children, e, fun x hx => .item (List.mem_of_getElem? hx), hchildren, he, rfl⟩
      · exact .inl h
      · cases h
  | _ => simp [Node.ofJson?] at h

/-- Attributes and stylesheet are read from parts. -/
theorem elementOfJson?_eq_some {children : List Node} {e : Element}
    (h : elementOfJson? inside j children = some e) :
    e.children = children ∧
      (∃ held, (∀ x ∈ held, Part x j) ∧
        Json.orDefault ∅ PropertyList.ofJson? held = some e.attributes) ∧
      ∃ held, (∀ x ∈ held, Part x j) ∧
        Json.nullable (Stylesheet.ofJson? inside) held = some e.stylesheet := by
  unfold elementOfJson? at h
  split at h
  · next attributes _ stylesheet hslots =>
    simp only [Option.bind_eq_bind, Option.bind_eq_some_iff, Option.pure_def,
      Option.some.injEq] at h
    obtain ⟨_, -, _, hattributes, _, hsheet, rfl⟩ := h
    refine ⟨rfl, ⟨attributes, ?_, hattributes⟩, stylesheet, ?_, hsheet⟩
    · exact Json.part_of_slots hslots (.tail _ List.mem_cons_self)
    · exact Json.part_of_slots hslots (.tail _ (.tail _ (.tail _ List.mem_cons_self)))
  · cases h

/-- A stylesheet that may be missing. -/
theorem Stylesheet.within_nullable {held : Option Json} {sheet : Option Stylesheet}
    (h : Json.nullable (Stylesheet.ofJson? inside) held = some sheet)
    (hheld : ∀ x ∈ held, Within width room x) : ∀ s ∈ sheet, Within width (room + 1) s.toJson := by
  rintro s ⟨⟩
  unfold Json.nullable at h
  split at h
  · cases h
  · cases h
  · next x _ =>
    obtain ⟨s', hs, heq⟩ := Option.map_eq_some_iff.mp h
    cases heq
    exact Stylesheet.within_toJson hs (hheld x rfl)

/-- An element as it is written with its kind, if its children are written one level deeper than
they were read. -/
theorem within_elementOfJson? {children : List Node} {e : Element}
    (h : elementOfJson? inside j children = some e) (hj : ∀ x, Part x j → Within width room x)
    (hchildren : Within width (room + 1) (.array (children.map Node.toJson))) :
    Within width (room + 2) (Node.element e).toJson := by
  obtain ⟨rfl, ⟨attributes, hparts, hattributes⟩, sheet, hparts', hsheet⟩ :=
    elementOfJson?_eq_some h
  have hattributes := PropertyList.within_default hattributes fun x hx => hj x (hparts x hx)
  have hsheet := Stylesheet.within_nullable hsheet fun x hx => hj x (hparts' x hx)
  rw [← Node.toJsonList_eq] at hchildren
  refine .object fun f hf => ?_
  rcases List.mem_cons.mp hf with rfl | hf
  · exact .leaf rfl
  · exact Element.forall_fields (.leaf rfl) hattributes hchildren hsheet f hf

theorem within_textOfJson? {n : Node} (h : textOfJson? j = some n) :
    Within width (room + 1) n.toJson := by
  unfold textOfJson? at h
  split at h
  · obtain ⟨value, -, rfl⟩ := Option.map_eq_some_iff.mp h
    exact .fields ⟨.leaf rfl, .leaf rfl⟩
  · cases h

/-- A node is written one level deeper than it was read, at most. -/
theorem Node.within_toJson {n : Node} (h : Node.ofJson? inside j = some n)
    (hj : Within width room j) : Within width (room + 1) n.toJson := by
  induction room using Nat.strongRecOn generalizing inside j n with
  | ind room ih =>
    obtain ⟨hdepth, body, hbody, hcases⟩ := Node.ofJson?_eq_some h
    obtain ⟨room, rfl, hparts⟩ := hj.parts hdepth
    rcases hcases with htext | ⟨held, children, e, hheld, hchildren, helement, rfl⟩
    · exact within_textOfJson? htext
    · refine within_elementOfJson? helement (fun x hx => hparts x (hbody x hx)) ?_
      refine Json.within_map_items hchildren (fun x hx => hparts x (hbody x (hheld x hx))) ?_
      intro room' hlt x n hn hx
      exact ih room' (Nat.lt_succ_of_lt hlt) hn hx

/-- So is an element that is read where nothing but an element can stand, even if its kind is
written. -/
theorem Element.within_toJson {e : Element} (h : Element.ofJson? j = some e)
    (hj : Within width room j) : Within width (room + 1) (Node.element e).toJson := by
  unfold Element.ofJson? at h
  split at h
  · next held _ hslots =>
    obtain ⟨room, rfl, hparts⟩ := hj.parts (Json.depth_pos_of_slots hslots)
    obtain ⟨children, hchildren, helement⟩ := Option.bind_eq_some_iff.mp h
    refine within_elementOfJson? helement hparts ?_
    refine Json.within_map_items hchildren (fun x hx => ?_) fun _ _ _ _ => Node.within_toJson
    exact hparts x (Json.part_of_slots hslots (.tail _ (.tail _ List.mem_cons_self)) x hx)
  · cases h

/-- The root of a document is read one level below the document. -/
theorem Tree.within_root {t : Tree} (h : Tree.ofJson? j = some t) (hj : Within width (room + 1) j) :
    Within width (room + 1) (Node.element t.root).toJson := by
  unfold Tree.ofJson? at h
  split at h
  · next root _ hslots =>
    obtain ⟨_, hroom, hparts⟩ := hj.parts (Json.depth_pos_of_slots hslots)
    cases hroom
    simp only [Option.bind_eq_bind, Option.bind_eq_some_iff, Option.pure_def,
      Option.some.injEq] at h
    obtain ⟨e, he, _, -, rfl⟩ := h
    have hroot := hparts root (Json.part_of_slots hslots List.mem_cons_self root rfl)
    exact Element.within_toJson he hroot
  · cases h

end SynthDom
