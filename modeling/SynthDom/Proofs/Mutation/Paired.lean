import SynthDom.Proofs.Mutation.RoundTrip

/-!
# Where a diff looks

A diff goes into two documents side by side, by the same steps in both, and goes on from a pair of
parts only while the two match: nodes of one shape, rules under one header.  Of a pair that it gets to
it reports what differs between the two themselves.  So a mutation is in a diff exactly if its target
leads to such a pair in the two documents, and its action is due there.

* `Item.Matches`, `Item.Compared`: pairs that a diff goes into, and pairs that it gets to.
* `Item.Due`: the actions that differences between two items themselves call for.
* `Policy`: which members of two lists are compared and which are replaced; it holds of nodes and of
  rules.
* `Item.mem_diff_iff`: what is in a diff.
-/

namespace SynthDom

/-! ## Pairs of items -/

/-- An at-rule with an unknown keyword. -/
def Rule.isOpaque : Rule → Bool
  | .condition k _ _ => k.isOpaque
  | _ => false

/-- Two parts that a diff goes into. -/
inductive Item.Matches : Item → Item → Prop
  /-- Elements with the same tag. -/
  | element {e f : Element} : e.tag = f.tag → Matches (.element e) (.element f)
  | text (v w : String) : Matches (.text v) (.text w)
  | stylesheet (s t : Stylesheet) : Matches (.stylesheet s) (.stylesheet t)
  /-- Rules with the same header, unless they are at-rules with an unknown keyword. -/
  | rule {r q : Rule} : r.sameHeader q = true → r.isOpaque = false → Matches (.rule r) (.rule q)

/-- Two parts that a diff gets to along an address, from the two items it starts with. -/
inductive Item.Compared : Item → Item → Address → Item → Item → Prop
  | here (x y : Item) : Compared x y [] x y
  | inside {x y x₁ y₁ x' y' : Item} {s : Segment} {a : Address} : x.step s = .ok x₁ →
      y.step s = .ok y₁ → x₁.Matches y₁ → Compared x₁ y₁ a x' y' → Compared x y (s :: a) x' y'

namespace Item.Compared

variable {x y x' y' : Item} {a : Address}

theorem descend_left (h : Compared x y a x' y') : x.descend a = .ok x' := by
  induction h with
  | here => rfl
  | inside hx _ _ _ ih =>
    rw [descend_cons, hx]
    exact ih

theorem descend_right (h : Compared x y a x' y') : y.descend a = .ok y' := by
  induction h with
  | here => rfl
  | inside _ hy _ _ ih =>
    rw [descend_cons, hy]
    exact ih

theorem append {b : Address} {x'' y'' : Item} (h : Compared x y a x' y')
    (h' : Compared x' y' b x'' y'') : Compared x y (a ++ b) x'' y'' := by
  induction h with
  | here => exact h'
  | inside hx hy hmatch _ ih => exact .inside hx hy hmatch (ih h')

/-- What is compared beyond an address is compared from the pair there. -/
theorem split {b : Address} {x'' y'' : Item} (h : Compared x y (a ++ b) x'' y'') :
    ∃ x' y', Compared x y a x' y' ∧ Compared x' y' b x'' y'' := by
  induction a generalizing x y with
  | nil => exact ⟨x, y, .here x y, h⟩
  | cons s a ih =>
    cases h with
    | inside hx hy hmatch h =>
      obtain ⟨x', y', hbefore, hafter⟩ := ih h
      exact ⟨x', y', .inside hx hy hmatch hbefore, hafter⟩

end Item.Compared

/-- With one step more a diff gets to the matching pairs of parts of a pair that it gets to. -/
theorem Item.compared_join_iff {x y x'' y'' : Item} {a : Address} {s : Segment} :
    x.Compared y (a.join s) x'' y'' ↔ ∃ x' y', x.Compared y a x' y' ∧ x'.step s = .ok x'' ∧
      y'.step s = .ok y'' ∧ x''.Matches y'' := by
  constructor
  · intro h
    obtain ⟨x', y', hbefore, hafter⟩ := h.split
    cases hafter with
    | inside hx hy hmatch h =>
      cases h
      exact ⟨x', y', hbefore, hx, hy, hmatch⟩
  · rintro ⟨x', y', hbefore, hx, hy, hmatch⟩
    exact hbefore.append (.inside hx hy hmatch (.here _ _))

/-! ## What is due between two items -/

/-- The actions that two lists of members call for, when some pairs have to be replaced. -/
inductive ListDue {α : Type} (payload : α → Payload) (replaced : α → α → Prop) (olds news : List α) :
    Action → Prop
  /-- A member goes that has no successor in its place, or one that is to replace it. -/
  | removed {i : Nat} {old : α} : olds[i]? = some old →
      (∀ new, news[i]? = some new → replaced old new) →
      ListDue payload replaced olds news (.removeChild i)
  /-- A member comes that has no predecessor in its place, or one that it is to replace. -/
  | inserted {i : Nat} {new : α} : news[i]? = some new →
      (∀ old, olds[i]? = some old → replaced old new) →
      ListDue payload replaced olds news (.insertChild i (payload new) true)

/-- Nodes that cannot be turned into each other. -/
def Node.Replaced (old new : Node) : Prop := old.sameShape new = false

/-- Rules that cannot be turned into each other: their headers differ, or nothing is known about what
they hold and it is not the same. -/
def Rule.Replaced (old new : Rule) : Prop :=
  old.sameHeader new = false ∨
    (old.isOpaque = true ∧ old.sameHeader new = true ∧ old.equiv new = false)

/-- The actions that differences between two items themselves call for. -/
inductive Item.Due : Item → Item → Action → Prop
  | text {v w : String} : v ≠ w → Due (.text v) (.text w) (.setText w (some v))
  | attribute {e f : Element} {c : PropertyList.Change} :
      c ∈ PropertyList.changes e.attributes f.attributes →
      Due (.element e) (.element f) (attributeAction c)
  | child {e f : Element} {a : Action} : ListDue .node Node.Replaced e.children f.children a →
      Due (.element e) (.element f) a
  | rule {s t : Stylesheet} {a : Action} : ListDue .rule Rule.Replaced s.rules t.rules a →
      Due (.stylesheet s) (.stylesheet t) a
  | nested {k l : ConditionKind} {c d : String} {rs qs : List Rule} {a : Action} :
      ListDue .rule Rule.Replaced rs qs a →
      Due (.rule (.condition k c rs)) (.rule (.condition l d qs)) a
  | declaration {r q : Rule} {ds es : PropertyList} {c : PropertyList.Change} :
      r.declarations? = some ds → q.declarations? = some es → c ∈ PropertyList.changes ds es →
      Due (.rule r) (.rule q) (declarationAction c)

/-! ## Diffs of items -/

/-- The mutations that turn one item into another, but for its head. -/
def Item.diff : Item → Item → List Mutation
  | .element e, .element f => e.diff f
  | .text v, .text w => if v = w then [] else [⟨[], .setText w (some v)⟩]
  | .stylesheet s, .stylesheet t => Rule.diffList 0 s.rules t.rules
  | .rule (.condition _ _ rs), .rule (.condition _ _ qs) => Rule.diffList 0 rs qs
  | .rule (.style _ ds), .rule (.style _ es) => declarationMutations ds es
  | .rule (.keyframeStep _ ds), .rule (.keyframeStep _ es) => declarationMutations ds es
  | _, _ => []

/-- The mutations at one place of two lists, where each may have a member. -/
def placeDiff {α : Type} (payload : α → Payload) (diffAt : Nat → α → α → List Mutation) (i : Nat) :
    Option α → Option α → List Mutation
  | some old, some new => diffAt i old new
  | some _, none => [removal i]
  | none, some new => [insertion i (payload new)]
  | none, none => []

theorem mem_truncation_iff {start count : Nat} {m : Mutation} :
    m ∈ truncation start count ↔ ∃ i < count, m = removal (start + i) := by
  simp only [truncation, List.mem_reverse, List.mem_map, List.mem_range'_1]
  constructor
  · rintro ⟨j, ⟨hle, hlt⟩, rfl⟩
    exact ⟨j - start, by omega, by rw [Nat.add_sub_cancel' hle]⟩
  · rintro ⟨i, hi, rfl⟩
    exact ⟨start + i, by omega, rfl⟩

theorem mem_extension_iff {start : Nat} {ps : List Payload} {m : Mutation} :
    m ∈ extension start ps ↔ ∃ i p, ps[i]? = some p ∧ m = insertion (start + i) p := by
  induction ps generalizing start with
  | nil => simp [extension]
  | cons p ps ih =>
    rw [extension, List.mem_cons, ih]
    refine Iff.trans (or_congr ?_ ?_) Nat.or_exists_add_one
    · simp
    · simp only [List.getElem?_cons_succ, Nat.add_assoc, Nat.add_comm 1]

/-- The diff of two lists is that of their places. -/
theorem mem_diffsInStep_iff {α : Type} {payload : α → Payload} {diffAt : Nat → α → α → List Mutation}
    {index : Nat} {olds news : List α} {m : Mutation} :
    m ∈ diffsInStep payload diffAt index olds news ↔
      ∃ i, m ∈ placeDiff payload diffAt (index + i) olds[i]? news[i]? := by
  induction olds generalizing index news with
  | nil =>
    rw [diffsInStep, mem_extension_iff]
    apply exists_congr
    intro i
    cases hnew : news[i]? <;> simp [placeDiff, hnew]
  | cons old olds ih =>
    cases news with
    | nil =>
      rw [diffsInStep, mem_truncation_iff]
      apply exists_congr
      intro i
      by_cases hi : i < (old :: olds).length
      · rw [List.getElem?_eq_getElem hi]
        exact (and_iff_right hi).trans List.mem_singleton.symm
      · rw [List.getElem?_eq_none (Nat.not_lt.mp hi)]
        exact iff_of_false (fun h => hi h.1) List.not_mem_nil
    | cons new news =>
      rw [diffsInStep, List.mem_append, ih]
      refine Iff.trans (or_congr ?_ ?_) Nat.or_exists_add_one
      · rfl
      · simp only [List.getElem?_cons_succ, Nat.add_assoc, Nat.add_comm 1]

/-! ## Replacing or keeping -/

/-- What the diff of two members of lists does with them: a pair that matches is changed inside, and
one that has to be replaced is replaced.  Any other pair is left alone. -/
structure Policy {α : Type} (segment : Nat → Segment) (member : α → Item) (payload : α → Payload)
    (diffAt : Nat → α → α → List Mutation) (replaced : α → α → Prop) : Prop where
  disjoint : ∀ {old new : α}, (member old).Matches (member new) → ¬replaced old new
  diffAt_of_matches : ∀ (i : Nat) {old new : α}, (member old).Matches (member new) →
    diffAt i old new = ((member old).diff (member new)).map (Mutation.under [segment i])
  diffAt_of_replaced : ∀ (i : Nat) {old new : α}, replaced old new →
    diffAt i old new = replacement i (payload new)
  diffAt_of_neither : ∀ (i : Nat) {old new : α}, ¬(member old).Matches (member new) →
    ¬replaced old new → diffAt i old new = []

theorem mem_map_under_iff {ms : List Mutation} {s t : Segment} {b : Address} {a : Action} :
    (⟨t :: b, a⟩ : Mutation) ∈ ms.map (Mutation.under [s]) ↔ s = t ∧ ⟨b, a⟩ ∈ ms := by
  constructor
  · intro h
    obtain ⟨m, hm, heq⟩ := List.mem_map.mp h
    cases m
    cases heq
    exact ⟨rfl, hm⟩
  · rintro ⟨rfl, hm⟩
    exact List.mem_map.mpr ⟨_, hm, rfl⟩

theorem not_mem_map_under {ms : List Mutation} {s : Segment} {a : Action} :
    (⟨[], a⟩ : Mutation) ∉ ms.map (Mutation.under [s]) := by
  intro h
  obtain ⟨m, -, heq⟩ := List.mem_map.mp h
  cases m
  cases heq

namespace Policy

variable {α : Type} {segment : Nat → Segment} {member : α → Item} {payload : α → Payload}
  {diffAt : Nat → α → α → List Mutation} {replaced : α → α → Prop}

theorem mem_diffAt_iff (P : Policy segment member payload diffAt replaced) {i : Nat} {old new : α}
    {m : Mutation} : m ∈ diffAt i old new ↔
      ((member old).Matches (member new) ∧
        m ∈ ((member old).diff (member new)).map (Mutation.under [segment i])) ∨
      (replaced old new ∧ m ∈ replacement i (payload new)) := by
  by_cases hmatch : (member old).Matches (member new)
  · have hkept := P.disjoint hmatch
    rw [P.diffAt_of_matches i hmatch]
    simp only [hmatch, hkept, true_and, false_and, or_false]
  · by_cases hreplaced : replaced old new
    · rw [P.diffAt_of_replaced i hreplaced]
      simp only [hmatch, hreplaced, true_and, false_and, false_or]
    · rw [P.diffAt_of_neither i hmatch hreplaced]
      simp only [hmatch, hreplaced, false_and, or_self, List.not_mem_nil]

/-- What the diff of two lists does to the lists themselves. -/
theorem mem_here_iff (P : Policy segment member payload diffAt replaced) {olds news : List α}
    {a : Action} :
    (⟨[], a⟩ : Mutation) ∈ diffsInStep payload diffAt 0 olds news ↔
      ListDue payload replaced olds news a := by
  rw [mem_diffsInStep_iff]
  constructor
  · rintro ⟨i, hm⟩
    rw [Nat.zero_add] at hm
    cases hold : olds[i]? with
    | none =>
      cases hnew : news[i]? with
      | none => simp [hold, hnew, placeDiff] at hm
      | some new =>
        simp only [hold, hnew, placeDiff, List.mem_singleton] at hm
        cases hm
        exact .inserted hnew (by simp [hold])
    | some old =>
      cases hnew : news[i]? with
      | none =>
        simp only [hold, hnew, placeDiff, List.mem_singleton] at hm
        cases hm
        exact .removed hold (by simp [hnew])
      | some new =>
        simp only [hold, hnew, placeDiff, P.mem_diffAt_iff] at hm
        rcases hm with ⟨-, hm⟩ | ⟨hreplaced, hm⟩
        · exact absurd hm not_mem_map_under
        · rcases List.mem_cons.mp hm with hm | hm
          · cases hm
            exact .removed hold (by simp [hnew, hreplaced])
          · cases List.mem_singleton.mp hm
            exact .inserted hnew (by simp [hold, hreplaced])
  · intro hdue
    cases hdue with
    | @removed i old hold hreplaced =>
      refine ⟨i, ?_⟩
      rw [Nat.zero_add, hold]
      cases hnew : news[i]? with
      | none => exact List.mem_singleton_self _
      | some new => exact P.mem_diffAt_iff.mpr (.inr ⟨hreplaced new hnew, List.mem_cons_self⟩)
    | @inserted i new hnew hreplaced =>
      refine ⟨i, ?_⟩
      rw [Nat.zero_add, hnew]
      cases hold : olds[i]? with
      | none => exact List.mem_singleton_self _
      | some old =>
        exact P.mem_diffAt_iff.mpr
          (.inr ⟨hreplaced old hold, List.mem_cons_of_mem _ List.mem_cons_self⟩)

/-- What the diff of two lists does inside their members. -/
theorem mem_inside_iff (P : Policy segment member payload diffAt replaced) {olds news : List α}
    {s : Segment} {b : Address} {a : Action} :
    (⟨s :: b, a⟩ : Mutation) ∈ diffsInStep payload diffAt 0 olds news ↔
      ∃ i old new, s = segment i ∧ olds[i]? = some old ∧ news[i]? = some new ∧
        (member old).Matches (member new) ∧ ⟨b, a⟩ ∈ (member old).diff (member new) := by
  rw [mem_diffsInStep_iff]
  constructor
  · rintro ⟨i, hm⟩
    rw [Nat.zero_add] at hm
    cases hold : olds[i]? with
    | none =>
      cases hnew : news[i]? with
      | none => simp [hold, hnew, placeDiff] at hm
      | some new => simp [hold, hnew, placeDiff, insertion] at hm
    | some old =>
      cases hnew : news[i]? with
      | none => simp [hold, hnew, placeDiff, removal] at hm
      | some new =>
        simp only [hold, hnew, placeDiff, P.mem_diffAt_iff] at hm
        rcases hm with ⟨hmatch, hm⟩ | ⟨-, hm⟩
        · obtain ⟨rfl, hinner⟩ := mem_map_under_iff.mp hm
          exact ⟨i, old, new, rfl, hold, hnew, hmatch, hinner⟩
        · cases target_of_mem_replacement hm
  · rintro ⟨i, old, new, rfl, hold, hnew, hmatch, hm⟩
    refine ⟨i, ?_⟩
    rw [Nat.zero_add, hold, hnew]
    exact P.mem_diffAt_iff.mpr (.inl ⟨hmatch, mem_map_under_iff.mpr ⟨rfl, hm⟩⟩)

end Policy

/-! ### Nodes and rules -/

theorem Node.matches_iff {n k : Node} : n.item.Matches k.item ↔ n.sameShape k = true := by
  cases n with
  | text v =>
    cases k with
    | text w => exact iff_of_true (.text v w) rfl
    | element f => exact iff_of_false nofun nofun
  | element e =>
    cases k with
    | text w => exact iff_of_false nofun nofun
    | element f =>
      constructor
      · rintro ⟨htag⟩
        exact beq_iff_eq.mpr htag
      · exact fun hshape => .element (beq_iff_eq.mp hshape)

/-- Nodes that are alike do not differ. -/
theorem Node.Alike.diff_eq_nil {n k : Node} (h : n.Alike k) : n.item.diff k.item = [] := by
  cases n with
  | text v =>
    cases h
    exact if_pos rfl
  | element e =>
    cases k with
    | text w => cases h
    | element f => exact Element.diff_eq_nil_of_sameContent (Node.alike_element_iff.mp h).2

/-- Nodes match or have to be replaced. -/
theorem Node.policy : Policy .child Node.item .node Node.diffAt Node.Replaced where
  disjoint hmatch hreplaced := absurd ((Node.matches_iff.mp hmatch).symm.trans hreplaced) nofun
  diffAt_of_matches i {old new} hmatch := by
    cases Node.verdict old new with
    | kept v hdiff => rw [hdiff, item, Item.diff, if_pos rfl, List.map_nil]
    | rewritten hvw hdiff =>
      rw [hdiff, item, item, Item.diff, if_neg hvw]
      rfl
    | entered _ hdiff _ => exact hdiff i
    | replaced hshape _ _ =>
      rw [Node.matches_iff.mp hmatch] at hshape
      cases hshape
  diffAt_of_replaced i {old new} hreplaced := by
    cases Node.verdict old new with
    | kept | rewritten => cases hreplaced
    | entered htag _ _ => exact absurd htag (beq_eq_false_iff_ne.mp hreplaced)
    | replaced _ hdiff _ => exact hdiff i
  diffAt_of_neither i {old new} hmatch hreplaced := by
    rw [Node.matches_iff, Bool.not_eq_true] at hmatch
    exact absurd hmatch hreplaced

namespace Rule

theorem Block.sameHeader {own : PropertyList → Rule} (h : Block own) (ds es : PropertyList) :
    (own ds).sameHeader (own es) = true := by
  cases h <;> exact beq_self_eq_true _

theorem Block.isOpaque {own : PropertyList → Rule} (h : Block own) (ds : PropertyList) :
    (own ds).isOpaque = false := by
  cases h <;> rfl

theorem Block.diff {own : PropertyList → Rule} (h : Block own) (ds es : PropertyList) :
    (Item.rule (own ds)).diff (.rule (own es)) = declarationMutations ds es := by
  cases h <;> rfl

theorem Alike.sameHeader {r q : Rule} (h : r.Alike q) : r.sameHeader q = true := by
  cases h <;> simp [Rule.sameHeader]

/-- Rules that are alike do not differ inside. -/
theorem Alike.diff_eq_nil {r q : Rule} (h : r.Alike q) : (Item.rule r).diff (.rule q) = [] := by
  cases h with
  | condition h => exact Rule.diffList_eq_nil_of_alike h 0
  | style h | keyframeStep h =>
    simp only [Item.diff, declarationMutations, PropertyList.changes_eq_nil_of_alike h, List.map_nil]

/-- Rules match or have to be replaced, unless they are equal and nothing is known about them. -/
theorem policy : Policy .rule Item.rule .rule Rule.diffAt Rule.Replaced where
  disjoint {old new} hmatch hreplaced := by
    cases hmatch with
    | rule hheader hopaque => simp [Rule.Replaced, hheader, hopaque] at hreplaced
  diffAt_of_matches i {old new} hmatch := by
    cases Rule.verdict old new with
    | kept halike hdiff _ =>
      rw [hdiff, halike.diff_eq_nil, List.map_nil]
    | edited hown _ hdiff _ => rw [hdiff, hown.diff]
    | entered _ _ hdiff _ => exact hdiff i
    | replaced _ hopaque _ _ =>
      cases hmatch with
      | rule hheader hknown =>
        obtain ⟨k, c, rules, rfl, hk⟩ := hopaque hheader
        exact absurd (hk.symm.trans hknown) nofun
  diffAt_of_replaced i {old new} hreplaced := by
    cases Rule.verdict old new with
    | kept halike _ _ =>
      have hequiv := Rule.equiv_iff_alike.mpr halike
      simp [Rule.Replaced, halike.sameHeader, hequiv] at hreplaced
    | edited hown _ _ _ => simp [Rule.Replaced, hown.sameHeader, hown.isOpaque] at hreplaced
    | entered hk _ _ _ => simp [Rule.Replaced, Rule.sameHeader, Rule.isOpaque, hk] at hreplaced
    | replaced _ _ hdiff _ => exact hdiff i
  diffAt_of_neither i {old new} hmatch hreplaced := by
    cases Rule.verdict old new with
    | kept _ hdiff _ => exact hdiff i
    | edited hown _ _ _ => exact absurd (.rule (hown.sameHeader _ _) (hown.isOpaque _)) hmatch
    | entered hk _ _ _ => exact absurd (.rule (by simp [Rule.sameHeader]) hk) hmatch
    | replaced hnot hopaque _ _ =>
      have hequiv : old.equiv new = false :=
        Bool.eq_false_iff.mpr fun h => hnot (Rule.equiv_iff_alike.mp h)
      cases hheader : old.sameHeader new with
      | false => exact absurd (.inl hheader) hreplaced
      | true =>
        obtain ⟨k, c, rules, rfl, hk⟩ := hopaque hheader
        exact absurd (.inr ⟨hk, hheader, hequiv⟩) hreplaced

end Rule

/-! ## What is in a diff -/

namespace Item

/-- Two items that a diff can be made of, whether or not it gets to them: they may be elements with
different tags, as roots may be, and at-rules with an unknown keyword. -/
inductive Comparable : Item → Item → Prop
  | element (e f : Element) : Comparable (.element e) (.element f)
  | text (v w : String) : Comparable (.text v) (.text w)
  | stylesheet (s t : Stylesheet) : Comparable (.stylesheet s) (.stylesheet t)
  | condition (k : ConditionKind) (c : String) (rs qs : List Rule) :
      Comparable (.rule (.condition k c rs)) (.rule (.condition k c qs))
  | block {own : PropertyList → Rule} (ds es : PropertyList) : Rule.Block own →
      Comparable (.rule (own ds)) (.rule (own es))

variable {x y : Item} {s : Segment} {b : Address} {a : Action}

theorem Matches.comparable (h : x.Matches y) : x.Comparable y := by
  cases h with
  | element => exact .element _ _
  | text => exact .text _ _
  | stylesheet => exact .stylesheet _ _
  | @rule r q hheader =>
    cases r with
    | style selector ds =>
      cases q with
      | style t es =>
        obtain rfl := beq_iff_eq.mp hheader
        exact .block ds es (.style selector)
      | condition | keyframeStep => cases hheader
    | keyframeStep offset ds =>
      cases q with
      | keyframeStep p es =>
        obtain rfl := beq_iff_eq.mp hheader
        exact .block ds es (.keyframeStep offset)
      | condition | style => cases hheader
    | condition k c rs =>
      cases q with
      | condition l d qs =>
        simp only [Rule.sameHeader, Bool.and_eq_true, beq_iff_eq] at hheader
        obtain ⟨rfl, rfl⟩ := hheader
        exact .condition k c rs qs
      | style | keyframeStep => cases hheader

theorem mem_map_here {toAction : PropertyList.Change → Action} {cs : List PropertyList.Change} :
    (⟨[], a⟩ : Mutation) ∈ cs.map (fun c => ⟨[], toAction c⟩) ↔ ∃ c ∈ cs, toAction c = a := by
  simp only [List.mem_map, Mutation.mk.injEq, true_and]

/-- A diff does to the two items themselves what is due between them. -/
theorem mem_diff_here_iff (h : x.Comparable y) : ⟨[], a⟩ ∈ x.diff y ↔ x.Due y a := by
  cases h with
  | element e f =>
    rw [Item.diff, Element.diff_eq, List.mem_append, List.mem_append, attributeMutations,
      mem_map_here, Node.diffList_eq, Node.policy.mem_here_iff]
    constructor
    · rintro ((⟨c, hc, rfl⟩ | hm) | hdue)
      · exact .attribute hc
      · exact absurd hm not_mem_map_under
      · exact .child hdue
    · rintro (_ | hc | hdue)
      · exact .inl (.inl ⟨_, hc, rfl⟩)
      · exact .inr hdue
  | text v w =>
    rw [Item.diff]
    constructor
    · intro hm
      split at hm
      · cases hm
      · cases List.mem_singleton.mp hm
        exact .text ‹_›
    · rintro ⟨hne⟩
      rw [if_neg hne]
      exact List.mem_singleton_self _
  | stylesheet s t =>
    rw [Item.diff, Rule.diffList_eq, Rule.policy.mem_here_iff]
    constructor
    · exact .rule
    · intro hdue
      cases hdue with
      | rule hdue => exact hdue
  | condition k c rs qs =>
    rw [Item.diff, Rule.diffList_eq, Rule.policy.mem_here_iff]
    constructor
    · exact .nested
    · intro hdue
      cases hdue with
      | nested hdue => exact hdue
      | declaration hds => cases hds
  | block ds es hown =>
    rw [hown.diff, declarationMutations, mem_map_here]
    constructor
    · rintro ⟨c, hc, rfl⟩
      exact .declaration (hown.declarations? ds) (hown.declarations? es) hc
    · intro hdue
      cases hown with
      | style | keyframeStep =>
        cases hdue with
        | declaration hds hes hc =>
          cases hds
          cases hes
          exact ⟨_, hc, rfl⟩

/-- A diff does inside two items what the diffs of the matching parts do. -/
theorem mem_diff_inside_iff (h : x.Comparable y) : ⟨s :: b, a⟩ ∈ x.diff y ↔
    ∃ x' y', x.step s = .ok x' ∧ y.step s = .ok y' ∧ x'.Matches y' ∧ ⟨b, a⟩ ∈ x'.diff y' := by
  simp only [step_eq_ok_iff]
  cases h with
  | element e f =>
    rw [Item.diff, Element.diff_eq, List.mem_append, List.mem_append, Node.diffList_eq,
      Node.policy.mem_inside_iff, mem_map_under_iff]
    constructor
    · rintro ((hm | ⟨rfl, hm⟩) | ⟨i, n, k, rfl, hn, hk, hmatch, hm⟩)
      · cases target_of_mem_attributeMutations hm
      · refine ⟨_, _, .shadow e, .shadow f, .stylesheet _ _, ?_⟩
        rw [Item.diff, Element.rules_sheet, Element.rules_sheet]
        exact hm
      · exact ⟨_, _, .child hn, .child hk, hmatch, hm⟩
    · rintro ⟨x', y', hx, hy, hmatch, hm⟩
      cases hx with
      | child hn =>
        cases hy with
        | child hk => exact .inr ⟨_, _, _, rfl, hn, hk, hmatch, hm⟩
      | shadow =>
        cases hy
        rw [Item.diff, Element.rules_sheet, Element.rules_sheet] at hm
        exact .inl (.inr ⟨rfl, hm⟩)
  | text v w =>
    refine iff_of_false (fun hm => ?_) ?_
    · rw [Item.diff] at hm
      split at hm
      · cases hm
      · cases List.mem_singleton.mp hm
    · rintro ⟨x', y', hx, -⟩
      cases hx
  | stylesheet s t =>
    rw [Item.diff, Rule.diffList_eq, Rule.policy.mem_inside_iff]
    constructor
    · rintro ⟨i, r, q, rfl, hr, hq, hmatch, hm⟩
      exact ⟨_, _, .rule hr, .rule hq, hmatch, hm⟩
    · rintro ⟨x', y', hx, hy, hmatch, hm⟩
      cases hx with
      | rule hr =>
        cases hy with
        | rule hq => exact ⟨_, _, _, rfl, hr, hq, hmatch, hm⟩
  | condition k c rs qs =>
    rw [Item.diff, Rule.diffList_eq, Rule.policy.mem_inside_iff]
    constructor
    · rintro ⟨i, r, q, rfl, hr, hq, hmatch, hm⟩
      exact ⟨_, _, .nested hr, .nested hq, hmatch, hm⟩
    · rintro ⟨x', y', hx, hy, hmatch, hm⟩
      cases hx with
      | nested hr =>
        cases hy with
        | nested hq => exact ⟨_, _, _, rfl, hr, hq, hmatch, hm⟩
  | block ds es hown =>
    rw [hown.diff]
    refine iff_of_false (fun hm => ?_) ?_
    · cases target_of_mem_declarationMutations hm
    · -- the parts of such a rule are declarations, which never match
      rintro ⟨x', y', hx, -, hmatch, -⟩
      cases hown <;> cases hx <;> cases hmatch

/-- A diff does beyond an address what the diff of the pair there does, if it gets there. -/
theorem mem_diff_append_iff (h : x.Comparable y) {c : Address} : ⟨b ++ c, a⟩ ∈ x.diff y ↔
    ∃ x' y', x.Compared y b x' y' ∧ ⟨c, a⟩ ∈ x'.diff y' := by
  induction b generalizing x y with
  | nil =>
    constructor
    · exact fun hm => ⟨x, y, .here x y, hm⟩
    · rintro ⟨_, _, ⟨⟩, hm⟩
      exact hm
  | cons s b ih =>
    rw [List.cons_append, mem_diff_inside_iff h]
    constructor
    · rintro ⟨x₁, y₁, hx, hy, hmatch, hm⟩
      obtain ⟨x', y', hcompared, hm'⟩ := (ih hmatch.comparable).mp hm
      exact ⟨x', y', .inside hx hy hmatch hcompared, hm'⟩
    · rintro ⟨x', y', hcompared, hm⟩
      cases hcompared with
      | inside hx hy hmatch hcompared =>
        exact ⟨_, _, hx, hy, hmatch, (ih hmatch.comparable).mpr ⟨x', y', hcompared, hm⟩⟩

theorem Compared.comparable {x' y' : Item} (h : x.Compared y b x' y') (hxy : x.Comparable y) :
    x'.Comparable y' := by
  induction h with
  | here => exact hxy
  | inside _ _ hmatch _ ih => exact ih hmatch.comparable

/-- A mutation is in a diff exactly if the diff gets to its target and its action is due there. -/
theorem mem_diff_iff (h : x.Comparable y) {m : Mutation} : m ∈ x.diff y ↔
    ∃ x' y', x.Compared y m.target x' y' ∧ x'.Due y' m.action := by
  obtain ⟨target, action⟩ := m
  have happend := mem_diff_append_iff h (b := target) (c := []) (a := action)
  rw [List.append_nil] at happend
  rw [happend]
  apply exists_congr
  intro x'
  apply exists_congr
  intro y'
  apply and_congr_right
  intro hcompared
  exact mem_diff_here_iff (hcompared.comparable h)

end Item

/-- A mutation is in the diff of two documents exactly if the diff gets to its target and its action
is due there. -/
theorem Tree.mem_diff_iff {old new : Tree} {m : Mutation} : m ∈ old.diff new ↔
    ∃ x y, (Item.element old.root).Compared (.element new.root) m.target x y ∧ x.Due y m.action :=
  Item.mem_diff_iff (.element old.root new.root)

/-- Every mutation of a diff is due where it stands, and on the way there the document that it meets has
the heads that the old one has. -/
theorem Tree.due_of_diff_eq {old new : Tree} {before after : List Mutation} {m : Mutation}
    (h : old.diff new = before ++ m :: after) :
    ∃ t x y, old.patchAll before = .ok t ∧
      (Item.element old.root).Compared (.element new.root) m.target x y ∧ x.Due y m.action ∧
      (Item.element old.root).SameWay (.element t.root) m.target := by
  have hm : m ∈ old.diff new := by
    rw [h]
    exact List.mem_append_right _ List.mem_cons_self
  obtain ⟨x, y, hcompared, hdue⟩ := Tree.mem_diff_iff.mp hm
  obtain ⟨t, root, hbefore, -, -, hway⟩ := Tree.step_of_diff_eq h
  exact ⟨t, x, y, hbefore, hcompared, hdue, hway⟩

end SynthDom
