import SynthDom.Proofs.Mutation.Source

/-!
# Which nodes are replaced

A diff keeps a node if it can: what stays in the document keeps its state for whoever shows it.  A
child is removed or inserted only below nodes that are paired, which is to say that they and all nodes
on the way to them have the same shapes in both documents, and there only if the other document has no
child in its place or one of another shape.  It happens once for each place, and nothing at all is done
to nodes that are equal.

* `Tree.PairedNodes`: the nodes at an address and on the way to it keep their shapes.
* `Mutation.place?`: where a mutation takes a child or rule, or puts one.
* `Tree.nodup_places_diff`: no place is taken from or put to twice.
* `Tree.replaces_nodes_iff`: the exact conditions.
-/

namespace SynthDom

/-! ## Addresses of nodes -/

/-- The address of a node, by the indexes of the children on the way to it. -/
def Address.ofChildren (q : List Nat) : Address := q.map .child

theorem Address.ofChildren_concat (q : List Nat) (i : Nat) :
    ofChildren (q ++ [i]) = (ofChildren q).join (.child i) := by
  simp [ofChildren, join]

/-- The nodes at an address and at all addresses on the way to it have the same shape in both
documents.  The root, which is never replaced, counts as paired. -/
def Tree.PairedNodes (old new : Tree) (q : List Nat) : Prop :=
  ∀ p, p ≠ [] → p <+: q → ∃ n k : Node, old.resolve (.ofChildren p) = .ok n.item ∧
    new.resolve (.ofChildren p) = .ok k.item ∧ n.sameShape k = true

theorem Tree.pairedNodes_nil (old new : Tree) : old.PairedNodes new [] :=
  fun _ hp hprefix => absurd (List.prefix_nil.mp hprefix) hp

theorem Tree.pairedNodes_concat_iff {old new : Tree} {q : List Nat} {i : Nat} :
    old.PairedNodes new (q ++ [i]) ↔ old.PairedNodes new q ∧
      ∃ n k : Node, old.resolve (.ofChildren (q ++ [i])) = .ok n.item ∧
        new.resolve (.ofChildren (q ++ [i])) = .ok k.item ∧ n.sameShape k = true := by
  constructor
  · intro h
    refine ⟨fun p hp hprefix => h p hp ?_, h _ (by simp) (List.prefix_refl _)⟩
    exact hprefix.trans (List.prefix_append q [i])
  · rintro ⟨hbefore, hlast⟩ p hp hprefix
    rcases List.prefix_concat_iff.mp hprefix with rfl | hprefix
    · exact hlast
    · exact hbefore p hp hprefix

/-- A step to a child leads to a node. -/
theorem Item.Part.node {x y : Item} {i : Nat} (h : x.Part (.child i) y) :
    ∃ n : Node, y = n.item := by
  cases h with
  | @child _ _ n => exact ⟨n, rfl⟩

/-- An address that leads from the root to a node is the address of a node. -/
theorem Tree.ofChildren_of_resolve {t : Tree} {a : Address} {n : Node}
    (h : (Item.element t.root).descend a = .ok n.item) : ∃ q, a = .ofChildren q := by
  induction a using List.reverseRecOn generalizing n with
  | nil => exact ⟨[], rfl⟩
  | append_singleton a s ih =>
    obtain ⟨x, ha, hs⟩ := Item.descend_join_eq_ok_iff.mp h
    obtain ⟨e, i, rfl, rfl, -⟩ := (Item.step_eq_ok_iff.mp hs).of_node
    obtain ⟨q, rfl⟩ := ih (n := .element e) ha
    exact ⟨q ++ [i], (Address.ofChildren_concat q i).symm⟩

/-- An address of a node leads from the root to a node, if it leads anywhere. -/
theorem Tree.node_of_resolve {t : Tree} {q : List Nat} {x : Item}
    (h : (Item.element t.root).descend (.ofChildren q) = .ok x) : ∃ n : Node, x = n.item := by
  induction q using List.reverseRecOn with
  | nil =>
    cases h
    exact ⟨.element t.root, rfl⟩
  | append_singleton q i _ =>
    rw [Address.ofChildren_concat, Item.descend_join_eq_ok_iff] at h
    obtain ⟨y, -, hs⟩ := h
    exact (Item.step_eq_ok_iff.mp hs).node

/-- Among nodes, a diff gets to those that are paired. -/
theorem Tree.compared_ofChildren_iff {old new : Tree} {q : List Nat} {x y : Item} :
    (Item.element old.root).Compared (.element new.root) (.ofChildren q) x y ↔
      old.PairedNodes new q ∧ old.resolve (.ofChildren q) = .ok x ∧
        new.resolve (.ofChildren q) = .ok y := by
  induction q using List.reverseRecOn generalizing x y with
  | nil =>
    constructor
    · rintro ⟨⟩
      exact ⟨old.pairedNodes_nil new, rfl, rfl⟩
    · rintro ⟨-, hx, hy⟩
      cases hx
      cases hy
      exact .here _ _
  | append_singleton q i ih =>
    rw [Tree.pairedNodes_concat_iff, Address.ofChildren_concat, Item.compared_join_iff]
    simp only [ih, Tree.resolve_eq_ok_iff, Item.descend_join_eq_ok_iff]
    constructor
    · rintro ⟨x', y', ⟨hpaired, hx', hy'⟩, hx, hy, hmatch⟩
      obtain ⟨n, rfl⟩ := (Item.step_eq_ok_iff.mp hx).node
      obtain ⟨k, rfl⟩ := (Item.step_eq_ok_iff.mp hy).node
      exact ⟨⟨hpaired, n, k, ⟨x', hx', hx⟩, ⟨y', hy', hy⟩, Node.matches_iff.mp hmatch⟩,
        ⟨x', hx', hx⟩, ⟨y', hy', hy⟩⟩
    · rintro ⟨⟨hpaired, n, k, ⟨x', hx', hn⟩, ⟨y', hy', hk⟩, hshape⟩, ⟨x'', hx'', hx⟩, ⟨y'', hy'', hy⟩⟩
      cases hx'.symm.trans hx''
      cases hy'.symm.trans hy''
      cases hn.symm.trans hx
      cases hk.symm.trans hy
      exact ⟨x', y', ⟨hpaired, hx', hy'⟩, hx, hy, Node.matches_iff.mpr hshape⟩

/-! ## Places -/

/-- Where a mutation takes a child or rule from its target, or puts one: the target, which of the two it
does, and the index. -/
def Mutation.place? (m : Mutation) : Option (Address × ActionKind × Nat) :=
  match m.action with
  | .removeChild i => some (m.target, .removeChild, i)
  | .insertChild i _ _ => some (m.target, .insertChild, i)
  | _ => none

theorem Mutation.target_of_place? {m : Mutation} {p : Address × ActionKind × Nat}
    (h : m.place? = some p) : m.target = p.1 := by
  obtain ⟨target, action⟩ := m
  cases action <;> cases h <;> rfl

/-- The places of some mutations. -/
def places (ms : List Mutation) : List (Address × ActionKind × Nat) := ms.filterMap Mutation.place?

theorem places_append (ms ns : List Mutation) : places (ms ++ ns) = places ms ++ places ns :=
  List.filterMap_append

/-- The places of mutations of a part. -/
theorem places_map_under (s : Segment) (ms : List Mutation) :
    places (ms.map (Mutation.under [s])) = (places ms).map fun p => (s :: p.1, p.2) := by
  rw [places, places, List.filterMap_map, List.map_filterMap]
  apply List.filterMap_congr
  rintro ⟨target, action⟩ -
  cases action <;> rfl

theorem nodup_places_map_under {ms : List Mutation} (s : Segment) (h : (places ms).Nodup) :
    (places (ms.map (Mutation.under [s]))).Nodup := by
  rw [places_map_under]
  refine h.map fun p q hpq => ?_
  obtain ⟨hfirst, hsecond⟩ := Prod.mk.inj hpq
  exact Prod.ext (List.cons.inj hfirst).2 hsecond

theorem places_map_changes {toAction : PropertyList.Change → Action}
    (h : ∀ c, Mutation.place? ⟨[], toAction c⟩ = none) (cs : List PropertyList.Change) :
    places (cs.map fun c => ⟨[], toAction c⟩) = [] := by
  rw [places, List.filterMap_eq_nil_iff]
  intro m hm
  obtain ⟨c, -, rfl⟩ := List.mem_map.mp hm
  exact h c

theorem places_attributeMutations (old new : PropertyList) :
    places (attributeMutations old new) = [] :=
  places_map_changes (fun c => by cases c <;> rfl) _

theorem places_declarationMutations (old new : PropertyList) :
    places (declarationMutations old new) = [] :=
  places_map_changes (fun c => by cases c <;> rfl) _

/-- The index of a step. -/
def Segment.index : Segment → Nat
  | .child i | .rule i | .declaration i => i
  | .shadow => 0

/-- The member of a list that a place is at or in, seen from the owner of the list. -/
def slot : Address × ActionKind × Nat → Nat
  | ([], _, i) => i
  | (s :: _, _) => s.index

section

variable {α : Type} {segment : Nat → Segment} {member : α → Item} {payload : α → Payload}
  {diffAt : Nat → α → α → List Mutation} {replaced : α → α → Prop}

theorem slot_replacement {i : Nat} {c : Payload} {p : Address × ActionKind × Nat}
    (h : p ∈ places (replacement i c)) : slot p = i := by
  have h : p ∈ [([], ActionKind.removeChild, i), ([], .insertChild, i)] := h
  rcases List.mem_cons.mp h with rfl | h
  · rfl
  · rw [List.mem_singleton.mp h]
    rfl

/-- The mutations at one place of two lists are at that member or in it. -/
theorem slot_placeDiff (P : Policy segment member payload diffAt replaced)
    (hsegment : ∀ i, (segment i).index = i) {i : Nat} {old new : Option α}
    {p : Address × ActionKind × Nat} (h : p ∈ places (placeDiff payload diffAt i old new)) :
    slot p = i := by
  obtain ⟨m, hm, hplace⟩ := List.mem_filterMap.mp h
  cases old with
  | none =>
    cases new with
    | none => cases hm
    | some new =>
      cases List.mem_singleton.mp hm
      cases hplace
      rfl
  | some old =>
    cases new with
    | none =>
      cases List.mem_singleton.mp hm
      cases hplace
      rfl
    | some new =>
      rcases P.mem_diffAt_iff.mp hm with ⟨-, hm⟩ | ⟨-, hm⟩
      · have h := List.mem_filterMap.mpr ⟨m, hm, hplace⟩
        rw [← places, places_map_under] at h
        obtain ⟨q, -, rfl⟩ := List.mem_map.mp h
        exact hsegment i
      · exact slot_replacement (List.mem_filterMap.mpr ⟨m, hm, hplace⟩)

/-- The diff of two members takes from each place or puts to it once, if that of what they hold does. -/
theorem nodup_places_diffAt (P : Policy segment member payload diffAt replaced) {i : Nat} {old new : α}
    (h : (places ((member old).diff (member new))).Nodup) : (places (diffAt i old new)).Nodup := by
  by_cases hmatch : (member old).Matches (member new)
  · rw [P.diffAt_of_matches i hmatch]
    exact nodup_places_map_under (segment i) h
  · by_cases hreplaced : replaced old new
    · rw [P.diffAt_of_replaced i hreplaced]
      have hkinds : ActionKind.removeChild ≠ .insertChild := nofun
      simp [places, replacement, removal, insertion, Mutation.place?, hkinds]
    · rw [P.diffAt_of_neither i hmatch hreplaced]
      exact List.nodup_nil

theorem nodup_places_truncation (start count : Nat) : (places (truncation start count)).Nodup := by
  rw [places, truncation, List.filterMap_reverse, List.nodup_reverse, List.filterMap_map]
  refine List.Nodup.filterMap ?_ (List.nodup_range' 1)
  rintro i j _ ⟨⟩ ⟨⟩
  rfl

theorem nodup_places_extension (start : Nat) (ps : List Payload) :
    (places (extension start ps)).Nodup := by
  induction ps generalizing start with
  | nil => exact List.nodup_nil
  | cons p ps ih =>
    refine List.nodup_cons.mpr ⟨fun h => ?_, ih (start + 1)⟩
    obtain ⟨m, hm, hplace⟩ := List.mem_filterMap.mp h
    obtain ⟨i, q, -, rfl⟩ := mem_extension_iff.mp hm
    have hindex : start + 1 + i = start := congrArg slot (Option.some.inj hplace)
    omega

/-- Two lists take from each place or put to it once, if their members do. -/
theorem nodup_places_diffsInStep (P : Policy segment member payload diffAt replaced)
    (hsegment : ∀ i, (segment i).index = i) {olds : List α}
    (hmember : ∀ old ∈ olds, ∀ new, (places ((member old).diff (member new))).Nodup)
    (index : Nat) (news : List α) :
    (places (diffsInStep payload diffAt index olds news)).Nodup := by
  induction olds generalizing index news with
  | nil => exact nodup_places_extension index (news.map payload)
  | cons old olds ih =>
    cases news with
    | nil => exact nodup_places_truncation index (old :: olds).length
    | cons new news =>
      rw [diffsInStep, places_append, List.nodup_append]
      refine ⟨nodup_places_diffAt P (hmember old List.mem_cons_self new),
        ih (fun r hr => hmember r (List.mem_cons_of_mem old hr)) (index + 1) news, ?_⟩
      -- what follows is at later members
      rintro p hp _ hp' rfl
      have hp : p ∈ places (placeDiff payload diffAt index (some old) (some new)) := hp
      have hhead : slot p = index := slot_placeDiff P hsegment hp
      obtain ⟨m, hm, hplace⟩ := List.mem_filterMap.mp hp'
      obtain ⟨i, hm⟩ := mem_diffsInStep_iff.mp hm
      have htail : slot p = index + 1 + i :=
        slot_placeDiff P hsegment (List.mem_filterMap.mpr ⟨m, hm, hplace⟩)
      omega

end

theorem Rule.nodup_places_diffList {olds : List Rule}
    (hmember : ∀ r ∈ olds, ∀ q, (places ((Item.rule r).diff (.rule q))).Nodup) (news : List Rule) :
    (places (Rule.diffList 0 olds news)).Nodup := by
  rw [Rule.diffList_eq]
  exact nodup_places_diffsInStep Rule.policy (fun _ => rfl) hmember 0 news

theorem Rule.nodup_places_diff (r q : Rule) : (places ((Item.rule r).diff (.rule q))).Nodup := by
  induction r generalizing q with
  | style s ds =>
    cases q with
    | style t es => exact places_declarationMutations ds es ▸ List.nodup_nil
    | condition | keyframeStep => exact List.nodup_nil
  | keyframeStep o ds =>
    cases q with
    | keyframeStep p es => exact places_declarationMutations ds es ▸ List.nodup_nil
    | condition | style => exact List.nodup_nil
  | condition k c rs ih =>
    cases q with
    | condition l d qs => exact Rule.nodup_places_diffList ih qs
    | style | keyframeStep => exact List.nodup_nil

/-- The places of two elements are those of their rules, all one step down, and those of their
children. -/
theorem Element.nodup_places_of_children {e : Element}
    (hchildren : ∀ n ∈ e.children, ∀ k : Node, (places (n.item.diff k.item)).Nodup) (f : Element) :
    (places (e.diff f)).Nodup := by
  have hrules : (places (Rule.diffList 0 e.rules f.rules)).Nodup :=
    Rule.nodup_places_diffList (fun r _ q => Rule.nodup_places_diff r q) f.rules
  rw [Element.diff_eq, places_append, places_append, places_attributeMutations, List.nil_append,
    List.nodup_append, Node.diffList_eq]
  refine ⟨nodup_places_map_under .shadow hrules,
    nodup_places_diffsInStep Node.policy (fun _ => rfl) hchildren 0 f.children, ?_⟩
  rintro p hp _ hp' rfl
  rw [places_map_under] at hp
  obtain ⟨q, -, rfl⟩ := List.mem_map.mp hp
  obtain ⟨⟨target, a⟩, hm, hplace⟩ := List.mem_filterMap.mp hp'
  obtain rfl : target = .shadow :: q.1 := Mutation.target_of_place? hplace
  obtain ⟨i, n, k, hsegment, -⟩ := Node.policy.mem_inside_iff.mp hm
  cases hsegment

theorem Node.nodup_places_diff (n k : Node) : (places (n.item.diff k.item)).Nodup := by
  induction n generalizing k with
  | text v =>
    cases k with
    | text w =>
      rw [item, item, Item.diff]
      split <;> exact List.nodup_nil
    | element f => exact List.nodup_nil
  | element e ih =>
    cases k with
    | text w => exact List.nodup_nil
    | element f => exact Element.nodup_places_of_children ih f

/-- A diff takes a child or rule from each place at most once, and puts one there at most once. -/
theorem Tree.nodup_places_diff (old new : Tree) : (places (old.diff new)).Nodup :=
  Node.nodup_places_diff (.element old.root) (.element new.root)

/-! ## Members without a match -/

/-- The one list has a member at an index, and the other has none there, or one that the member cannot
be turned into. -/
def Unmatched {α : Type} (replaced : α → α → Prop) (l m : List α) (i : Nat) : Prop :=
  ∃ x, l[i]? = some x ∧ ∀ y, m[i]? = some y → replaced x y

namespace ListDue

variable {α : Type} {payload : α → Payload} {replaced : α → α → Prop} {olds news : List α} {i : Nat}

theorem removeChild_iff :
    ListDue payload replaced olds news (.removeChild i) ↔ Unmatched replaced olds news i := by
  constructor
  · rintro ⟨hold, hreplaced⟩
    exact ⟨_, hold, hreplaced⟩
  · rintro ⟨old, hold, hreplaced⟩
    exact .removed hold hreplaced

theorem insertChild_iff (hsymm : ∀ {x y : α}, replaced x y → replaced y x) :
    (∃ p clone, ListDue payload replaced olds news (.insertChild i p clone)) ↔
      Unmatched replaced news olds i := by
  constructor
  · rintro ⟨_, _, hdue⟩
    cases hdue with
    | inserted hnew hreplaced => exact ⟨_, hnew, fun old hold => hsymm (hreplaced old hold)⟩
  · rintro ⟨new, hnew, hreplaced⟩
    exact ⟨_, _, .inserted hnew fun old hold => hsymm (hreplaced old hold)⟩

end ListDue

theorem Node.Replaced.symm {n k : Node} (h : n.Replaced k) : k.Replaced n := by
  cases n with
  | text v =>
    cases k with
    | text w => cases h
    | element f => rfl
  | element e =>
    cases k with
    | text w => rfl
    | element f => exact (BEq.comm (a := f.tag) (b := e.tag)).trans h

/-! ## Children that are replaced -/

/-- At the address of a node a diff does to the children what is due between the two lists of them, if
the nodes there are paired. -/
theorem Tree.mem_diff_ofChildren_iff {old new : Tree} {q : List Nat} {a : Action}
    (hplace : (Mutation.place? ⟨[], a⟩).isSome = true) : ⟨.ofChildren q, a⟩ ∈ old.diff new ↔
      old.PairedNodes new q ∧ ∃ e f : Element, old.resolve (.ofChildren q) = .ok (.element e) ∧
        new.resolve (.ofChildren q) = .ok (.element f) ∧
        ListDue .node Node.Replaced e.children f.children a := by
  rw [Tree.mem_diff_iff]
  simp only [Tree.compared_ofChildren_iff]
  constructor
  · rintro ⟨x, y, ⟨hpaired, hx, hy⟩, hdue⟩
    obtain ⟨n, rfl⟩ := Tree.node_of_resolve (Tree.resolve_eq_ok_iff.mp hx)
    cases n with
    | text v =>
      cases hdue with
      | text => cases hplace
    | element e =>
      cases hdue with
      | @«attribute» _ f c => cases c <;> cases hplace
      | @child _ f _ hdue => exact ⟨hpaired, e, f, hx, hy, hdue⟩
  · rintro ⟨hpaired, e, f, he, hf, hdue⟩
    exact ⟨_, _, ⟨hpaired, he, hf⟩, .child hdue⟩

/-- Nothing is done at or below an address where the two documents have equal nodes. -/
theorem Tree.not_prefix_target_of_equiv {old new : Tree} {p : Address} {n k : Node}
    (hn : old.resolve p = .ok n.item) (hk : new.resolve p = .ok k.item) (hequiv : n.equiv k = true)
    {m : Mutation} (hm : m ∈ old.diff new) : ¬p <+: m.target := by
  rintro ⟨c, hc⟩
  obtain ⟨target, a⟩ := m
  obtain rfl : p ++ c = target := hc
  obtain ⟨x, y, hcompared, hm'⟩ := (Item.mem_diff_append_iff (.element old.root new.root)).mp hm
  cases hcompared.descend_left.symm.trans (Tree.resolve_eq_ok_iff.mp hn)
  cases hcompared.descend_right.symm.trans (Tree.resolve_eq_ok_iff.mp hk)
  rw [(Node.equiv_iff_alike.mp hequiv).diff_eq_nil] at hm'
  cases hm'

/-- The element at an address has a child for which the element there in the other document has no
match: it has no child at that index, or one of another shape. -/
def Tree.UnmatchedChild (t u : Tree) (q : List Nat) (i : Nat) : Prop :=
  ∃ e f : Element, t.resolve (.ofChildren q) = .ok (.element e) ∧
    u.resolve (.ofChildren q) = .ok (.element f) ∧ Unmatched Node.Replaced e.children f.children i

/-- A child is removed exactly if it is below paired nodes and the new document has no match for it,
and inserted exactly if it is below paired nodes and the old document has none for it; both happen once
at most.  Nothing is done to nodes that are equal, nor inside them. -/
theorem Tree.replaces_nodes_iff (old new : Tree) :
    (∀ q i, ⟨.ofChildren q, .removeChild i⟩ ∈ old.diff new ↔
      old.PairedNodes new q ∧ old.UnmatchedChild new q i) ∧
    (∀ q i, (∃ p clone, ⟨.ofChildren q, .insertChild i p clone⟩ ∈ old.diff new) ↔
      old.PairedNodes new q ∧ new.UnmatchedChild old q i) ∧
    (places (old.diff new)).Nodup ∧
    ∀ (p : Address) (n k : Node), old.resolve p = .ok n.item → new.resolve p = .ok k.item →
      n.equiv k = true → ∀ m ∈ old.diff new, ¬p <+: m.target := by
  refine ⟨fun q i => ?_, fun q i => ?_, Tree.nodup_places_diff old new, ?_⟩
  · rw [Tree.mem_diff_ofChildren_iff rfl]
    simp only [ListDue.removeChild_iff]
    rfl
  · constructor
    · rintro ⟨p, clone, hm⟩
      obtain ⟨hpaired, e, f, he, hf, hdue⟩ := (Tree.mem_diff_ofChildren_iff rfl).mp hm
      exact ⟨hpaired, f, e, hf, he, (ListDue.insertChild_iff Node.Replaced.symm).mp ⟨p, clone, hdue⟩⟩
    · rintro ⟨hpaired, f, e, hf, he, hunmatched⟩
      obtain ⟨p, clone, hdue⟩ := (ListDue.insertChild_iff Node.Replaced.symm).mpr hunmatched
      exact ⟨p, clone, (Tree.mem_diff_ofChildren_iff rfl).mpr ⟨hpaired, e, f, he, hf, hdue⟩⟩
  · intro p n k hn hk hequiv m hm
    exact Tree.not_prefix_target_of_equiv hn hk hequiv hm

/-- From a paragraph and a text to a heading and that text, the paragraph goes, and nothing is done to
the text. -/
theorem Tree.replaces_nodes_iff_heading :
    let page (tag : String) : Tree := ⟨⟨"div", ∅, [.element ⟨tag, ∅, [], none⟩, .text "x"], none⟩, []⟩
    let old := page "p"
    let new := page "h1"
    ⟨[], .removeChild 0⟩ ∈ old.diff new ∧ old.PairedNodes new [] ∧ old.UnmatchedChild new [] 0 ∧
      ∀ m ∈ old.diff new, ¬[.child 1] <+: m.target := by
  intro page old new
  obtain ⟨hremoved, -, -, hequal⟩ := Tree.replaces_nodes_iff old new
  have hm : ⟨[], .removeChild 0⟩ ∈ old.diff new := List.mem_cons_self
  obtain ⟨hpaired, hunmatched⟩ := (hremoved [] 0).mp hm
  exact ⟨hm, hpaired, hunmatched, hequal [.child 1] (.text "x") (.text "x") rfl rfl rfl⟩

end SynthDom
