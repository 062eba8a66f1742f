import SynthDom.Proofs.Mutation.Sync
import SynthDom.Proofs.Wire.Extent

/-!
# How deep and how wide a diff is

Every index in a diff is the position of a member of some list in one of the two documents, and
everything that a diff inserts is a part of the new document.  So the mutations of a diff are as
wide as the documents, and no deeper than the parts below the roots.

* `Mutation.Within`: indexes are below a width, and what is inserted is written within a width and
  room.
* `Rule.diffAt_within`, `Node.diffAt_within`, `Element.diff_within`: the mutations of a diff are
  within what the old and the new part are written within.
* `Mutation.depth_listToJson_le`: a list of mutations is written two levels deeper than what it
  inserts.
-/

namespace SynthDom

open Json (Within Part)

variable {width room : Nat}

/-! ## Lists in what is written -/

/-- The items of an array that is written for a list. -/
theorem Json.Within.list {α : Type} {write : α → Json} {l : List α}
    (h : Within width (room + 1) (.array (l.map write))) :
    l.length ≤ width ∧ ∀ x ∈ l, Within width room (write x) := by
  cases h with
  | leaf hleaf => cases hleaf
  | array hlength hitems =>
    rw [List.length_map] at hlength
    exact ⟨hlength, fun x hx => hitems _ (List.mem_map_of_mem hx)⟩

/-- The value of a field of an object. -/
theorem Json.Within.field {fields : List (String × Json)} {name : String} {x : Json}
    (h : Within width (room + 1) (.object fields)) (hx : (name, x) ∈ fields) :
    Within width room x := by
  obtain ⟨_, hroom, hparts⟩ := h.parts (Nat.succ_pos _)
  cases hroom
  exact hparts x (.field hx)

theorem PropertyList.length_le_of_within {l : PropertyList} (h : Within width room l.toJson) :
    l.length ≤ width :=
  (h.mono (Nat.le_refl _) (Nat.le_succ room)).list.1

theorem Rule.length_declarations_le {r : Rule} {ds : PropertyList} (h : Within width room r.toJson)
    (hds : r.declarations? = some ds) : ds.length ≤ width := by
  have h := h.mono (Nat.le_refl _) (Nat.le_succ room)
  cases r with
  | style | keyframeStep =>
    cases hds
    exact PropertyList.length_le_of_within (h.field (.tail _ (.tail _ List.mem_cons_self)))
  | condition => cases hds

theorem Rule.within_rules {k : ConditionKind} {c : String} {rules : List Rule}
    (h : Within width room (Rule.condition k c rules).toJson) :
    rules.length ≤ width ∧ ∀ r ∈ rules, Within width room r.toJson := by
  have h := h.mono (Nat.le_refl _) (Nat.le_add_right room 2)
  have hrules := h.field (.tail _ (.tail _ (.tail _ List.mem_cons_self)))
  rw [Rule.toJsonList_eq] at hrules
  exact hrules.list

namespace Element

variable {e : Element}

/-- A part of an element as it is written. -/
theorem within_slot {x : Json} (h : Within width (room + 1) (Node.element e).toJson)
    (hx : some x ∈ [some (.string e.tag), e.attributesSlot, e.childrenSlot,
      e.stylesheet.map Stylesheet.toJson]) : Within width room x := by
  obtain ⟨_, hroom, hparts⟩ := h.parts (Nat.succ_pos _)
  cases hroom
  exact hparts x (Json.part_of_slots (e.slots_fields _) hx x rfl)

theorem length_attributes_le (h : Within width (room + 1) (Node.element e).toJson) :
    e.attributes.length ≤ width := by
  by_cases hempty : e.attributes.isEmpty = true
  · have hnil : e.attributes.entries = [] := List.isEmpty_iff.mp hempty
    rw [PropertyList.length, hnil]
    exact Nat.zero_le _
  · have hslot : e.attributesSlot = some e.attributes.toJson := if_neg hempty
    refine PropertyList.length_le_of_within (within_slot h ?_)
    rw [← hslot]
    exact .tail _ List.mem_cons_self

theorem within_children (h : Within width (room + 2) (Node.element e).toJson) :
    e.children.length ≤ width ∧ ∀ n ∈ e.children, Within width room n.toJson := by
  by_cases hempty : e.children.isEmpty = true
  · rw [List.isEmpty_iff.mp hempty]
    exact ⟨Nat.zero_le _, nofun⟩
  · have hslot : e.childrenSlot = some (.array (Node.toJsonList e.children)) := if_neg hempty
    have hchildren : Within width (room + 1) (.array (Node.toJsonList e.children)) := by
      refine within_slot h ?_
      rw [← hslot]
      exact .tail _ (.tail _ List.mem_cons_self)
    rw [Node.toJsonList_eq] at hchildren
    exact hchildren.list

theorem within_rules (h : Within width (room + 2) (Node.element e).toJson) :
    e.rules.length ≤ width ∧ ∀ r ∈ e.rules, Within width room r.toJson := by
  obtain ⟨tag, attributes, children, _ | s⟩ := e
  · exact ⟨Nat.zero_le _, nofun⟩
  · have hsheet : Within width (room + 1) s.toJson :=
      within_slot h (.tail _ (.tail _ (.tail _ List.mem_cons_self)))
    have hrules := hsheet.field List.mem_cons_self
    rw [Rule.toJsonList_eq] at hrules
    exact (hrules.mono (Nat.le_refl _) (Nat.le_succ room)).list

end Element

/-! ## Mutations -/

/-- The indexes of a mutation are below the width, and what it inserts is written within the width
and the room. -/
structure Mutation.Within (width room : Nat) (m : Mutation) : Prop where
  below : m.Below width
  inserted : ∀ p ∈ m.action.inserted?.map Prod.fst, Json.Within width room p.toJson

/-- A mutation of a part. -/
theorem Mutation.Within.under {m : Mutation} {s : Segment} (h : m.Within width room)
    (hs : s.Below width) : (m.under [s]).Within width room where
  below := {
    target := fun s' hs' => by
      rcases List.mem_cons.mp hs' with rfl | hs'
      · exact hs
      · exact h.below.target s' hs'
    index := h.below.index }
  inserted := h.inserted

theorem forall_within_under {ms : List Mutation} {s : Segment}
    (h : ∀ m ∈ ms, m.Within width room) (hs : s.Below width) :
    ∀ m ∈ ms.map (Mutation.under [s]), m.Within width room := by
  intro m hm
  obtain ⟨m', hm', rfl⟩ := List.mem_map.mp hm
  exact (h m' hm').under hs

/-- A mutation of the item itself that inserts nothing. -/
theorem Mutation.within_here {a : Action} (hindex : ∀ i ∈ a.index?, i < width)
    (hinserted : a.inserted? = none) : Mutation.Within width room ⟨[], a⟩ where
  below := { target := nofun, index := hindex }
  inserted := by
    rw [hinserted]
    exact nofun

theorem removal_within {i : Nat} (h : i < width) : (removal i).Within width room :=
  Mutation.within_here (by rintro _ ⟨⟩; exact h) rfl

theorem insertion_within {i : Nat} {p : Payload} (h : i < width) (hp : Within width room p.toJson) :
    (insertion i p).Within width room where
  below := { target := nofun, index := by rintro _ ⟨⟩; exact h }
  inserted := by
    rintro _ ⟨⟩
    exact hp

theorem replacement_within {i : Nat} {p : Payload} (h : i < width)
    (hp : Within width room p.toJson) : ∀ m ∈ replacement i p, m.Within width room := by
  intro m hm
  rcases List.mem_cons.mp hm with rfl | hm
  · exact removal_within h
  · rw [List.mem_singleton.mp hm]
    exact insertion_within h hp

theorem truncation_within {start count : Nat} (h : start + count ≤ width) :
    ∀ m ∈ truncation start count, m.Within width room := by
  intro m hm
  obtain ⟨i, hi, rfl⟩ := List.mem_map.mp (List.mem_reverse.mp hm)
  exact removal_within (Nat.lt_of_lt_of_le (List.mem_range'_1.mp hi).2 h)

theorem extension_within {start : Nat} {ps : List Payload} (h : start + ps.length ≤ width)
    (hps : ∀ p ∈ ps, Within width room p.toJson) :
    ∀ m ∈ extension start ps, m.Within width room := by
  induction ps generalizing start with
  | nil => exact nofun
  | cons p ps ih =>
    rw [List.length_cons] at h
    intro m hm
    rcases List.mem_cons.mp hm with rfl | hm
    · exact insertion_within (by omega) (hps p List.mem_cons_self)
    · exact ih (by omega) (fun q hq => hps q (List.mem_cons_of_mem _ hq)) m hm

/-- The mutations of two lists, given those of two members. -/
theorem diffsInStep_within {α : Type} {payload : α → Payload}
    {diffAt : Nat → α → α → List Mutation} {olds news : List α} {index : Nat}
    (holds : index + olds.length ≤ width) (hnews : index + news.length ≤ width)
    (hpayload : ∀ new ∈ news, Within width room (payload new).toJson)
    (hmember : ∀ old ∈ olds, ∀ new ∈ news, ∀ i < width, ∀ m ∈ diffAt i old new,
      m.Within width room) :
    ∀ m ∈ diffsInStep payload diffAt index olds news, m.Within width room := by
  induction olds generalizing index news with
  | nil =>
    refine extension_within (List.length_map payload ▸ hnews) fun p hp => ?_
    obtain ⟨new, hnew, rfl⟩ := List.mem_map.mp hp
    exact hpayload new hnew
  | cons old olds ih =>
    cases news with
    | nil => exact truncation_within holds
    | cons new news =>
      rw [List.length_cons] at holds hnews
      intro m hm
      rcases List.mem_append.mp hm with hm | hm
      · exact hmember old List.mem_cons_self new List.mem_cons_self index (by omega) m hm
      · refine ih (by omega) (by omega) (fun x hx => hpayload x (List.mem_cons_of_mem _ hx)) ?_ m hm
        exact fun x hx y hy => hmember x (List.mem_cons_of_mem _ hx) y (List.mem_cons_of_mem _ hy)

/-! ## Property lists -/

namespace PropertyList

/-- The index that a change records. -/
def Change.index? : Change → Option Nat
  | .removed .. => none
  | .changed _ index .. | .inserted _ index _ => some index

/-- A change records a position in the new list. -/
theorem Change.index_lt {old new : PropertyList} {c : Change} (hc : c ∈ changes old new) :
    ∀ i ∈ c.index?, i < new.length := by
  have hbetween := Change.between_of_mem hc
  cases c with
  | removed => exact nofun
  | changed | inserted =>
    rintro _ ⟨⟩
    exact (List.getElem?_eq_some_iff.mp hbetween.1).1

end PropertyList

/-- Changes become mutations within the width if an action takes over no index but that of the
change. -/
theorem map_changes_within {toAction : PropertyList.Change → Action} {old new : PropertyList}
    (hindex : ∀ c, ∀ i ∈ (toAction c).index?, i ∈ c.index?)
    (hinserted : ∀ c, (toAction c).inserted? = none) (h : new.length ≤ width) :
    ∀ m ∈ (PropertyList.changes old new).map fun c => (⟨[], toAction c⟩ : Mutation),
      m.Within width room := by
  intro m hm
  obtain ⟨c, hc, rfl⟩ := List.mem_map.mp hm
  refine Mutation.within_here (fun i hi => ?_) (hinserted c)
  exact Nat.lt_of_lt_of_le (PropertyList.Change.index_lt hc i (hindex c i hi)) h

theorem attributeMutations_within {old new : PropertyList} (h : new.length ≤ width) :
    ∀ m ∈ attributeMutations old new, m.Within width room := by
  refine map_changes_within (fun c i hi => ?_) (fun c => ?_) h
  · cases c with
    | removed | changed => cases hi
    | inserted => exact hi
  · cases c <;> rfl

theorem declarationMutations_within {old new : PropertyList} (h : new.length ≤ width) :
    ∀ m ∈ declarationMutations old new, m.Within width room := by
  refine map_changes_within (fun c i hi => ?_) (fun c => ?_) h
  · cases c with
    | removed => cases hi
    | changed | inserted => exact hi
  · cases c <;> rfl

/-! ## Rules -/

theorem Rule.diffAt_within {old new : Rule} (hold : Within width room old.toJson)
    (hnew : Within width room new.toJson) {index : Nat} (hindex : index < width) :
    ∀ m ∈ Rule.diffAt index old new, m.Within width room := by
  induction old using Rule.induct_nested generalizing new index with
  | h old ih =>
    cases Rule.verdict old new with
    | kept _ hdiff _ =>
      rw [hdiff]
      exact nofun
    | @edited own ds es hown _ hdiff _ =>
      rw [hdiff]
      have hes : es.length ≤ width := Rule.length_declarations_le hnew (hown.declarations? es)
      exact forall_within_under (declarationMutations_within hes) hindex
    | @entered k c rules news _ _ hdiff _ =>
      obtain ⟨hlength, hrules⟩ := Rule.within_rules hold
      obtain ⟨hlength', hrules'⟩ := Rule.within_rules hnew
      rw [hdiff, Rule.diffList_eq]
      refine forall_within_under (diffsInStep_within (by omega) (by omega) hrules' ?_) hindex
      exact fun r hr r' hr' i hi => ih k c rules rfl r hr (hrules r hr) (hrules' r' hr') hi
    | replaced _ _ hdiff _ =>
      rw [hdiff]
      exact replacement_within hindex hnew

theorem Rule.diffList_within {olds news : List Rule}
    (holds : olds.length ≤ width ∧ ∀ r ∈ olds, Within width room r.toJson)
    (hnews : news.length ≤ width ∧ ∀ r ∈ news, Within width room r.toJson) :
    ∀ m ∈ Rule.diffList 0 olds news, m.Within width room := by
  rw [Rule.diffList_eq]
  refine diffsInStep_within (by omega) (by omega) hnews.2 ?_
  exact fun r hr r' hr' i hi => Rule.diffAt_within (holds.2 r hr) (hnews.2 r' hr') hi

/-! ## Nodes -/

/-- The mutations of two elements, given those of two children. -/
theorem Element.diff_within_of_children {e f : Element}
    (he : Within width (room + 2) (Node.element e).toJson)
    (hf : Within width (room + 2) (Node.element f).toJson)
    (hmember : ∀ old ∈ e.children, ∀ new ∈ f.children, ∀ i < width,
      ∀ m ∈ Node.diffAt i old new, m.Within width room) :
    ∀ m ∈ e.diff f, m.Within width room := by
  have hrules := Rule.diffList_within (Element.within_rules he) (Element.within_rules hf)
  obtain ⟨holds, -⟩ := Element.within_children he
  obtain ⟨hnews, hnodes⟩ := Element.within_children hf
  rw [Element.diff_eq, Node.diffList_eq]
  intro m hm
  rcases List.mem_append.mp hm with hm | hm
  · rcases List.mem_append.mp hm with hm | hm
    · exact attributeMutations_within (Element.length_attributes_le hf) m hm
    · exact forall_within_under (s := .shadow) hrules trivial m hm
  · exact diffsInStep_within (by omega) (by omega) hnodes hmember m hm

theorem Node.diffAt_within {old new : Node} (hold : Within width room old.toJson)
    (hnew : Within width room new.toJson) {index : Nat} (hindex : index < width) :
    ∀ m ∈ Node.diffAt index old new, m.Within width room := by
  induction old using Node.induct_children generalizing new index with
  | h old ih =>
    cases Node.verdict old new with
    | kept v hdiff =>
      rw [hdiff]
      exact nofun
    | @rewritten v w _ hdiff =>
      rw [hdiff]
      intro m hm
      rw [List.mem_singleton.mp hm]
      have htext : Mutation.Within width room ⟨[], .setText w (some v)⟩ :=
        Mutation.within_here nofun rfl
      exact htext.under (s := .child index) hindex
    | @entered e f _ hdiff _ =>
      have he := hold.mono (Nat.le_refl _) (Nat.le_add_right room 2)
      have hf := hnew.mono (Nat.le_refl _) (Nat.le_add_right room 2)
      rw [hdiff]
      refine forall_within_under (Element.diff_within_of_children he hf ?_) hindex
      intro n hn n' hn' i hi
      have hchild := (Element.within_children he).2 n hn
      exact ih e rfl n hn hchild ((Element.within_children hf).2 n' hn') hi
    | replaced _ hdiff _ =>
      rw [hdiff]
      exact replacement_within hindex hnew

/-- The mutations of two elements insert what is two levels below the new one. -/
theorem Element.diff_within {e f : Element} (he : Within width (room + 2) (Node.element e).toJson)
    (hf : Within width (room + 2) (Node.element f).toJson) :
    ∀ m ∈ e.diff f, m.Within width room :=
  Element.diff_within_of_children he hf fun n hn n' hn' _ hi =>
    Node.diffAt_within ((Element.within_children he).2 n hn) ((Element.within_children hf).2 n' hn') hi

/-! ## Lists of mutations -/

theorem Segment.depth_toJson_le (s : Segment) : s.toJson.depth ≤ 1 := by
  cases s <;> exact Nat.le_of_ble_eq_true rfl

theorem Address.depth_toJson_le (a : Address) : a.toJson.depth ≤ 2 :=
  Json.depth_map_le fun s _ => s.depth_toJson_le

theorem Mutation.depth_toJson_le {m : Mutation} (h : m.Within width room) (hroom : 2 ≤ room) :
    m.toJson.depth ≤ room + 1 := by
  refine Nat.succ_le_succ (Json.depthFields_le_iff.mpr ?_)
  exact forall_fields (P := fun j => j.depth ≤ room) rfl (fun _ => Nat.zero_le _) (Nat.zero_le _)
    (Nat.le_trans (Address.depth_toJson_le _) hroom) (fun _ _ => Nat.zero_le _)
    (fun p hp => (h.inserted p hp).depth_le) (fun _ => Nat.zero_le _)

/-- The list and the record around what is inserted take a level each. -/
theorem Mutation.depth_listToJson_le {ms : List Mutation} (h : ∀ m ∈ ms, m.Within width room)
    (hroom : 2 ≤ room) : (listToJson ms).depth ≤ room + 2 :=
  Json.depth_map_le fun m hm => depth_toJson_le (h m hm) hroom

end SynthDom
