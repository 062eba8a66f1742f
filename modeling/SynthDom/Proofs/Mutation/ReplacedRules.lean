import SynthDom.Proofs.Mutation.ReplacedNodes

/-!
# Which rules are replaced

Rules are compared as children are, by position and with as little replaced as can be.  The lists that
are compared are those of the stylesheets of paired elements, and those of condition rules with one
header that stand in the same place of lists that are compared.  How the contents of an at-rule with an
unknown keyword hang together is not known, so such a rule is replaced as a whole where it differs, and
never gone into.

* `Tree.PairedRules`: the lists of rules at an address are compared.
* `Tree.pairedRules_iff`: these are the lists that a diff gets to.
* `Tree.replaces_rules_iff`: which rules are removed and inserted, whose declarations are changed, and
  what is left alone.
-/

namespace SynthDom

/-! ## Lists of rules -/

/-- The address of a list of rules: the children on the way to the element, its stylesheet, and the
condition rules on the way to the list. -/
def Address.ofRules (q rs : List Nat) : Address := ofChildren q ++ .shadow :: rs.map .rule

theorem Address.ofRules_ne_ofChildren (q rs p : List Nat) : ofRules q rs ≠ ofChildren p := by
  intro h
  have hmem : Segment.shadow ∈ ofRules q rs := List.mem_append_right _ List.mem_cons_self
  rw [h] at hmem
  obtain ⟨i, -, hi⟩ := List.mem_map.mp hmem
  cases hi

/-- The rules at an address are compared with each other. -/
inductive Tree.PairedRules (old new : Tree) : Address → Prop
  /-- Those of two elements, whose stylesheets may be missing, that are paired. -/
  | stylesheet {q : List Nat} {e f : Element} : old.PairedNodes new q →
      old.resolve (.ofChildren q) = .ok (.element e) →
      new.resolve (.ofChildren q) = .ok (.element f) →
      PairedRules old new ((Address.ofChildren q).join .shadow)
  /-- Those of two condition rules with a known keyword and one header in the same place of rules that
  are compared. -/
  | condition {c : Address} {i : Nat} {k : ConditionKind} {text : String} {rs qs : List Rule} :
      PairedRules old new c → k.isOpaque = false →
      old.resolve (c.join (.rule i)) = .ok (.rule (.condition k text rs)) →
      new.resolve (c.join (.rule i)) = .ok (.rule (.condition k text qs)) →
      PairedRules old new (c.join (.rule i))

namespace Item

/-- The rules that an item holds, if it is of a kind that holds rules. -/
def rules? : Item → Option (List Rule)
  | .stylesheet s => some s.rules
  | .rule (.condition _ _ rules) => some rules
  | _ => none

variable {x y : Item} {i : Nat}

theorem step_rule_eq_ok_iff {rs : List Rule} (h : x.rules? = some rs) :
    x.step (.rule i) = .ok y ↔ ∃ r, rs[i]? = some r ∧ y = .rule r := by
  rw [step_eq_ok_iff]
  cases x with
  | stylesheet s =>
    cases h
    constructor
    · rintro ⟨⟩
      exact ⟨_, ‹_›, rfl⟩
    · rintro ⟨r, hr, rfl⟩
      exact .rule hr
  | rule r =>
    cases r with
    | condition =>
      cases h
      constructor
      · rintro ⟨⟩
        exact ⟨_, ‹_›, rfl⟩
      · rintro ⟨r, hr, rfl⟩
        exact .nested hr
    | style | keyframeStep => cases h
  | element | text | declaration => cases h

/-- A step to a rule starts from an item that holds rules. -/
theorem Part.rules?_isSome {s : Segment} {r : Rule} (h : x.Part s (.rule r)) :
    (∃ i, s = .rule i) ∧ ∃ rs, x.rules? = some rs := by
  generalize hz : Item.rule r = z at h
  cases h with
  | rule | nested => exact ⟨⟨_, rfl⟩, _, rfl⟩
  | @child _ _ n => cases n <;> cases hz
  | shadow | styleDeclaration | keyframeDeclaration => cases hz

/-- A step to a stylesheet starts from an element. -/
theorem Part.of_stylesheet {s : Segment} {sheet : Stylesheet} (h : x.Part s (.stylesheet sheet)) :
    s = .shadow ∧ ∃ e, x = .element e := by
  generalize hz : Item.stylesheet sheet = z at h
  cases h with
  | shadow e => exact ⟨rfl, e, rfl⟩
  | @child _ _ n => cases n <;> cases hz
  | rule | nested | styleDeclaration | keyframeDeclaration => cases hz

end Item

/-- The rules at an address are compared exactly if the diff gets to the items that hold them. -/
theorem Tree.pairedRules_iff {old new : Tree} {c : Address} : old.PairedRules new c ↔
    ∃ x y rs qs, (Item.element old.root).Compared (.element new.root) c x y ∧
      x.rules? = some rs ∧ y.rules? = some qs := by
  constructor
  · intro h
    induction h with
    | stylesheet hpaired he hf =>
      have hcompared := Tree.compared_ofChildren_iff.mpr ⟨hpaired, he, hf⟩
      exact ⟨_, _, _, _, Item.compared_join_iff.mpr ⟨_, _, hcompared, rfl, rfl, .stylesheet _ _⟩,
        rfl, rfl⟩
    | @condition c i k text rs qs _ hk hrs hqs ih =>
      obtain ⟨x, y, _, _, hcompared, -, -⟩ := ih
      rw [Tree.resolve_eq_ok_iff, Item.descend_join_eq_ok_iff] at hrs hqs
      obtain ⟨x', hx', hrs⟩ := hrs
      obtain ⟨y', hy', hqs⟩ := hqs
      cases hcompared.descend_left.symm.trans hx'
      cases hcompared.descend_right.symm.trans hy'
      have hmatch : (Item.rule (.condition k text rs)).Matches (.rule (.condition k text qs)) :=
        .rule (by simp [Rule.sameHeader]) hk
      exact ⟨_, _, rs, qs, Item.compared_join_iff.mpr ⟨x, y, hcompared, hrs, hqs, hmatch⟩, rfl, rfl⟩
  · rintro ⟨x, y, rs, qs, hcompared, hx, hy⟩
    induction c using List.reverseRecOn generalizing x y rs qs with
    | nil =>
      cases hcompared
      cases hx
    | append_singleton c s ih =>
      obtain ⟨x', y', hbefore, hxs, hys, hmatch⟩ := Item.compared_join_iff.mp hcompared
      cases hmatch with
      | element | text => cases hx
      | stylesheet =>
        obtain ⟨rfl, e, rfl⟩ := (Item.step_eq_ok_iff.mp hxs).of_stylesheet
        obtain ⟨-, f, rfl⟩ := (Item.step_eq_ok_iff.mp hys).of_stylesheet
        obtain ⟨q, rfl⟩ := Tree.ofChildren_of_resolve (n := .element e) hbefore.descend_left
        obtain ⟨hpaired, he, hf⟩ := Tree.compared_ofChildren_iff.mp hbefore
        exact .stylesheet hpaired he hf
      | @rule r q hheader hknown =>
        obtain ⟨⟨i, rfl⟩, ls, hls⟩ := (Item.step_eq_ok_iff.mp hxs).rules?_isSome
        obtain ⟨-, ms, hms⟩ := (Item.step_eq_ok_iff.mp hys).rules?_isSome
        have hpaired := ih x' y' ls ms hbefore hls hms
        have hr := Tree.resolve_join hbefore.descend_left hxs
        have hq := Tree.resolve_join hbefore.descend_right hys
        cases r with
        | style | keyframeStep => cases hx
        | condition k text =>
          cases q with
          | style | keyframeStep => cases hy
          | condition l text' =>
            simp only [Rule.sameHeader, Bool.and_eq_true, beq_iff_eq] at hheader
            obtain ⟨rfl, rfl⟩ := hheader
            exact .condition hpaired hknown hr hq

/-! ## Rules that are replaced -/

theorem Rule.sameHeader_comm (r q : Rule) : r.sameHeader q = q.sameHeader r := by
  cases r <;> cases q <;> simp only [sameHeader, BEq.comm]

theorem Rule.isOpaque_eq_of_sameHeader {r q : Rule} (h : r.sameHeader q = true) :
    r.isOpaque = q.isOpaque := by
  cases r <;> cases q <;> simp_all [sameHeader, isOpaque]

theorem Rule.Replaced.symm {r q : Rule} (h : r.Replaced q) : q.Replaced r := by
  rcases h with hheader | ⟨hunknown, hheader, hequiv⟩
  · exact .inl ((Rule.sameHeader_comm q r).trans hheader)
  · refine .inr ⟨?_, (Rule.sameHeader_comm q r).trans hheader, ?_⟩
    · exact (Rule.isOpaque_eq_of_sameHeader hheader).symm.trans hunknown
    · rw [← Bool.not_eq_true, Rule.equiv_iff_alike] at hequiv ⊢
      exact fun halike => hequiv halike.symm

/-- The lists of rules at an address where they are compared. -/
theorem Tree.PairedRules.rules {old new : Tree} {c : Address} (h : old.PairedRules new c) :
    ∃ x y rs qs, old.resolve c = .ok x ∧ new.resolve c = .ok y ∧ x.rules? = some rs ∧
      y.rules? = some qs := by
  obtain ⟨x, y, rs, qs, hcompared, hrs, hqs⟩ := Tree.pairedRules_iff.mp h
  simp only [Tree.resolve_eq_ok_iff]
  exact ⟨x, y, rs, qs, hcompared.descend_left, hcompared.descend_right, hrs, hqs⟩

/-- Children are taken or put between elements, or between items that hold rules. -/
theorem Item.Due.of_place {x y : Item} {a : Action} (h : x.Due y a)
    (hplace : (Mutation.place? ⟨[], a⟩).isSome = true) : (∃ e, x = .element e) ∨
      ∃ ls ms, x.rules? = some ls ∧ y.rules? = some ms ∧ ListDue .rule Rule.Replaced ls ms a := by
  cases h with
  | text => cases hplace
  | «attribute» | child => exact .inl ⟨_, rfl⟩
  | rule hlist | nested hlist => exact .inr ⟨_, _, rfl, rfl, hlist⟩
  | @declaration _ _ _ _ c => cases c <;> cases hplace

theorem Item.Due.of_rules {x y : Item} {ls ms : List Rule} {a : Action} (h : x.Comparable y)
    (hls : x.rules? = some ls) (hms : y.rules? = some ms)
    (hlist : ListDue .rule Rule.Replaced ls ms a) : x.Due y a := by
  cases h with
  | element | text => cases hls
  | stylesheet =>
    cases hls
    cases hms
    exact .rule hlist
  | condition =>
    cases hls
    cases hms
    exact .nested hlist
  | block _ _ hown => cases hown <;> cases hls

/-- At the address of a list of rules a diff does to it what is due between the lists of the two
documents, if they are compared. -/
theorem Tree.mem_diff_ofRules_iff {old new : Tree} {q rs : List Nat} {a : Action}
    (hplace : (Mutation.place? ⟨[], a⟩).isSome = true) : ⟨.ofRules q rs, a⟩ ∈ old.diff new ↔
      old.PairedRules new (.ofRules q rs) ∧ ∃ x y ls ms, old.resolve (.ofRules q rs) = .ok x ∧
        new.resolve (.ofRules q rs) = .ok y ∧ x.rules? = some ls ∧ y.rules? = some ms ∧
        ListDue .rule Rule.Replaced ls ms a := by
  rw [Tree.mem_diff_iff]
  constructor
  · rintro ⟨x, y, hcompared, hdue⟩
    rcases hdue.of_place hplace with ⟨e, rfl⟩ | ⟨ls, ms, hls, hms, hlist⟩
    · obtain ⟨p, hp⟩ := Tree.ofChildren_of_resolve (n := .element e) hcompared.descend_left
      exact absurd hp (Address.ofRules_ne_ofChildren q rs p)
    · refine ⟨Tree.pairedRules_iff.mpr ⟨x, y, ls, ms, hcompared, hls, hms⟩, x, y, ls, ms, ?_⟩
      simp only [Tree.resolve_eq_ok_iff]
      exact ⟨hcompared.descend_left, hcompared.descend_right, hls, hms, hlist⟩
  · rintro ⟨hpaired, x, y, ls, ms, hx, hy, hls, hms, hlist⟩
    obtain ⟨x', y', -, -, hcompared, -, -⟩ := Tree.pairedRules_iff.mp hpaired
    cases hcompared.descend_left.symm.trans (Tree.resolve_eq_ok_iff.mp hx)
    cases hcompared.descend_right.symm.trans (Tree.resolve_eq_ok_iff.mp hy)
    exact ⟨x, y, hcompared, .of_rules (hcompared.comparable (.element _ _)) hls hms hlist⟩

/-- The list of rules at an address has a rule for which that in the other document has no match: it
has no rule at that index, or one with another header, or the two are at-rules with an unknown keyword
and one header that are not equal. -/
def Tree.UnmatchedRule (t u : Tree) (c : Address) (i : Nat) : Prop :=
  ∃ r, t.resolve (c.join (.rule i)) = .ok (.rule r) ∧
    ∀ q, u.resolve (c.join (.rule i)) = .ok (.rule q) → r.Replaced q

theorem Tree.resolve_rule_iff {t : Tree} {c : Address} {x y : Item} {rs : List Rule} {i : Nat}
    (hx : t.resolve c = .ok x) (hrs : x.rules? = some rs) :
    t.resolve (c.join (.rule i)) = .ok y ↔ ∃ r, rs[i]? = some r ∧ y = .rule r := by
  rw [Tree.resolve_eq_ok_iff] at hx ⊢
  rw [← Item.step_rule_eq_ok_iff hrs, Item.descend_join_eq_ok_iff, hx]
  simp

theorem Tree.unmatchedRule_iff {t u : Tree} {c : Address} {x y : Item} {rs qs : List Rule} {i : Nat}
    (hx : t.resolve c = .ok x) (hy : u.resolve c = .ok y) (hrs : x.rules? = some rs)
    (hqs : y.rules? = some qs) : t.UnmatchedRule u c i ↔ Unmatched Rule.Replaced rs qs i := by
  simp only [UnmatchedRule, Tree.resolve_rule_iff hx hrs, Tree.resolve_rule_iff hy hqs,
    Item.rule.injEq, exists_eq_right']
  rfl

/-! ## Rules that are changed or left alone -/

/-- At an address, in the same place of lists that are compared, there are rules with one header that
hold declarations. -/
def Tree.PairedBlocks (old new : Tree) (a : Address) : Prop :=
  ∃ c i r q ds es, a = c.join (.rule i) ∧ old.PairedRules new c ∧ old.resolve a = .ok (.rule r) ∧
    new.resolve a = .ok (.rule q) ∧ r.sameHeader q = true ∧ r.declarations? = some ds ∧
    q.declarations? = some es

/-- Changes of declarations are due between rules that hold them. -/
theorem Item.Due.of_kind {x y : Item} {a : Action} (h : x.Due y a)
    (hkind : a.kind = .setProperty ∨ a.kind = .removeProperty) :
    ∃ r q ds es, x = .rule r ∧ y = .rule q ∧ r.declarations? = some ds ∧ q.declarations? = some es := by
  cases h with
  | text => rcases hkind with h | h <;> cases h
  | @«attribute» _ _ c => cases c <;> (rcases hkind with h | h <;> cases h)
  | child hlist | rule hlist | nested hlist =>
    cases hlist <;> (rcases hkind with h | h <;> cases h)
  | declaration hds hes => exact ⟨_, _, _, _, rfl, rfl, hds, hes⟩

theorem Tree.pairedBlocks_of_mem_diff {old new : Tree} {m : Mutation} (hm : m ∈ old.diff new)
    (hkind : m.kind = .setProperty ∨ m.kind = .removeProperty) : old.PairedBlocks new m.target := by
  obtain ⟨x, y, hcompared, hdue⟩ := Tree.mem_diff_iff.mp hm
  obtain ⟨r, q, ds, es, rfl, rfl, hds, hes⟩ := hdue.of_kind hkind
  rcases List.eq_nil_or_concat' m.target with htarget | ⟨c, s, htarget⟩
  · rw [htarget] at hcompared
    cases hcompared
  · obtain ⟨x', y', hbefore, hxs, hys, hmatch⟩ := Item.compared_join_iff.mp (htarget ▸ hcompared)
    obtain ⟨⟨i, rfl⟩, ls, hls⟩ := (Item.step_eq_ok_iff.mp hxs).rules?_isSome
    obtain ⟨-, ms, hms⟩ := (Item.step_eq_ok_iff.mp hys).rules?_isSome
    have hpaired := Tree.pairedRules_iff.mpr ⟨x', y', ls, ms, hbefore, hls, hms⟩
    cases hmatch with
    | rule hheader =>
      exact ⟨c, i, r, q, ds, es, htarget, hpaired, Tree.resolve_eq_ok_iff.mpr hcompared.descend_left,
        Tree.resolve_eq_ok_iff.mpr hcompared.descend_right, hheader, hds, hes⟩

namespace Item

/-- An at-rule with an unknown keyword. -/
def isOpaque : Item → Bool
  | .rule r => r.isOpaque
  | _ => false

variable {x y x' y' : Item} {a b : Address}

theorem SameHead.isOpaque_eq (h : x.SameHead y) : x.isOpaque = y.isOpaque := by
  cases h with
  | rule hheader => exact Rule.isOpaque_eq_of_sameHeader hheader
  | element | text | stylesheet | declaration => rfl

theorem Matches.isOpaque_eq (h : x.Matches y) : x.isOpaque = false ∧ y.isOpaque = false := by
  cases h with
  | rule hheader hknown =>
    exact ⟨hknown, (Rule.isOpaque_eq_of_sameHeader hheader).symm.trans hknown⟩
  | element | text | stylesheet => exact ⟨rfl, rfl⟩

/-- A diff never gets to an at-rule with an unknown keyword. -/
theorem Compared.isOpaque_eq (h : x.Compared y a x' y')
    (hxy : x.isOpaque = false ∧ y.isOpaque = false) : x'.isOpaque = false ∧ y'.isOpaque = false := by
  induction h with
  | here => exact hxy
  | inside _ _ hmatch _ ih => exact ih hmatch.isOpaque_eq

theorem SameWay.of_append (h : x.SameWay y (a ++ b)) : x.SameWay y a := by
  induction a generalizing x y with
  | nil =>
    cases b with
    | nil => exact h
    | cons => exact h.1
  | cons s a ih =>
    obtain ⟨hhead, x₁, y₁, hx, hy, hway⟩ := h
    exact ⟨hhead, x₁, y₁, hx, hy, ih hway⟩

end Item

/-- Neither at an address nor on the way to it is there an at-rule with an unknown keyword. -/
def Tree.AllKnown (t : Tree) (a : Address) : Prop :=
  ∀ p, p <+: a → ∀ x, t.resolve p = .ok x → x.isOpaque = false

theorem Tree.AllKnown.of_forall {t : Tree} {a : Address}
    (h : ∀ p, p <+: a → ∃ x, t.resolve p = .ok x ∧ x.isOpaque = false) : t.AllKnown a := by
  intro p hp x hx
  obtain ⟨y, hy, hknown⟩ := h p hp
  cases hy.symm.trans hx
  exact hknown

/-- What a mutation is about is known in the old document, in the one that the mutation meets and in
the new one. -/
theorem Tree.allKnown_of_diff_eq {old new : Tree} {before after : List Mutation} {m : Mutation}
    (h : old.diff new = before ++ m :: after) : ∃ t, old.patchAll before = .ok t ∧
      old.AllKnown m.target ∧ t.AllKnown m.target ∧ new.AllKnown m.target := by
  obtain ⟨t, _, _, hbefore, hcompared, -, hway⟩ := Tree.due_of_diff_eq h
  have hknown : ∀ p, p <+: m.target → ∃ x y z, old.resolve p = .ok x ∧ t.resolve p = .ok y ∧
      new.resolve p = .ok z ∧ x.isOpaque = false ∧ y.isOpaque = false ∧ z.isOpaque = false := by
    rintro p ⟨b, hb⟩
    rw [← hb] at hcompared hway
    obtain ⟨x', z', hpair, -⟩ := hcompared.split
    obtain ⟨y', hy', hhead⟩ := hway.of_append.descend hpair.descend_left
    obtain ⟨hx, hz⟩ := hpair.isOpaque_eq ⟨rfl, rfl⟩
    simp only [Tree.resolve_eq_ok_iff]
    exact ⟨x', y', z', hpair.descend_left, hy', hpair.descend_right, hx,
      hhead.isOpaque_eq.symm.trans hx, hz⟩
  refine ⟨t, hbefore, .of_forall fun p hp => ?_, .of_forall fun p hp => ?_,
    .of_forall fun p hp => ?_⟩
  · obtain ⟨x, -, -, hx, -, -, hknown, -, -⟩ := hknown p hp
    exact ⟨x, hx, hknown⟩
  · obtain ⟨-, y, -, -, hy, -, -, hknown, -⟩ := hknown p hp
    exact ⟨y, hy, hknown⟩
  · obtain ⟨-, -, z, -, -, hz, -, -, hknown⟩ := hknown p hp
    exact ⟨z, hz, hknown⟩

/-- A rule is removed exactly if the new document has no match for it in a list that it is compared
with, and inserted exactly if the old document has none for it.  Declarations are changed in rules with
one header only, and nothing is done to an at-rule with an unknown keyword, nor inside it. -/
theorem Tree.replaces_rules_iff (old new : Tree) :
    (∀ q rs i, ⟨.ofRules q rs, .removeChild i⟩ ∈ old.diff new ↔
      old.PairedRules new (.ofRules q rs) ∧ old.UnmatchedRule new (.ofRules q rs) i) ∧
    (∀ q rs i, (∃ p clone, ⟨.ofRules q rs, .insertChild i p clone⟩ ∈ old.diff new) ↔
      old.PairedRules new (.ofRules q rs) ∧ new.UnmatchedRule old (.ofRules q rs) i) ∧
    (∀ m ∈ old.diff new, m.kind = .setProperty ∨ m.kind = .removeProperty →
      old.PairedBlocks new m.target) ∧
    ∀ before m after, old.diff new = before ++ m :: after → ∃ t, old.patchAll before = .ok t ∧
      old.AllKnown m.target ∧ t.AllKnown m.target ∧ new.AllKnown m.target := by
  refine ⟨fun q rs i => ?_, fun q rs i => ?_, ?_, ?_⟩
  · rw [Tree.mem_diff_ofRules_iff rfl]
    constructor
    · rintro ⟨hpaired, x, y, ls, ms, hx, hy, hls, hms, hlist⟩
      exact ⟨hpaired, (Tree.unmatchedRule_iff hx hy hls hms).mpr (ListDue.removeChild_iff.mp hlist)⟩
    · rintro ⟨hpaired, hunmatched⟩
      obtain ⟨x, y, ls, ms, hx, hy, hls, hms⟩ := hpaired.rules
      refine ⟨hpaired, x, y, ls, ms, hx, hy, hls, hms, ListDue.removeChild_iff.mpr ?_⟩
      exact (Tree.unmatchedRule_iff hx hy hls hms).mp hunmatched
  · constructor
    · rintro ⟨p, clone, hm⟩
      obtain ⟨hpaired, x, y, ls, ms, hx, hy, hls, hms, hlist⟩ := (Tree.mem_diff_ofRules_iff rfl).mp hm
      refine ⟨hpaired, (Tree.unmatchedRule_iff hy hx hms hls).mpr ?_⟩
      exact (ListDue.insertChild_iff Rule.Replaced.symm).mp ⟨p, clone, hlist⟩
    · rintro ⟨hpaired, hunmatched⟩
      obtain ⟨x, y, ls, ms, hx, hy, hls, hms⟩ := hpaired.rules
      obtain ⟨p, clone, hlist⟩ := (ListDue.insertChild_iff Rule.Replaced.symm).mpr
        ((Tree.unmatchedRule_iff hy hx hms hls).mp hunmatched)
      exact ⟨p, clone, (Tree.mem_diff_ofRules_iff rfl).mpr
        ⟨hpaired, x, y, ls, ms, hx, hy, hls, hms, hlist⟩⟩
  · intro m hm hkind
    exact Tree.pairedBlocks_of_mem_diff hm hkind
  · intro before m after hdiff
    exact Tree.allKnown_of_diff_eq hdiff

/-- A declaration of a rule in a media query is changed, and an at-rule with an unknown keyword is
replaced, without a look at what is in it. -/
theorem Tree.replaces_rules_iff_layer :
    let sheet (color : String) (inner : List Rule) : Tree :=
      ⟨⟨"div", ∅, [], some ⟨[.condition .media "print" [.style ".a" (.ofPairs [("color", color)])],
        .condition (.unknown "layer") "base" inner]⟩⟩, []⟩
    let old := sheet "red" []
    let new := sheet "blue" [.style ".b" ∅]
    let change : Mutation :=
      ⟨[.shadow, .rule 0, .rule 0], .setProperty 0 "color" "blue" (some "red")⟩
    let rest : List Mutation := [⟨[.shadow], .removeChild 1⟩, ⟨[.shadow], .insertChild 1
      (.rule (.condition (.unknown "layer") "base" [.style ".b" ∅])) true⟩]
    old.diff new = change :: rest ∧ old.PairedBlocks new change.target ∧
      old.UnmatchedRule new [.shadow] 1 ∧ old.AllKnown change.target := by
  intro sheet old new change rest
  obtain ⟨hremoved, -, hblocks, hknown⟩ := Tree.replaces_rules_iff old new
  have hdiff : old.diff new = change :: rest := rfl
  have hm : ⟨[.shadow], .removeChild 1⟩ ∈ old.diff new := by
    rw [hdiff]
    exact List.mem_cons_of_mem _ List.mem_cons_self
  obtain ⟨t, -, hold, -, -⟩ := hknown [] change rest hdiff
  exact ⟨hdiff, hblocks change (hdiff ▸ List.mem_cons_self) (.inl rfl), ((hremoved [] [] 1).mp hm).2,
    hold⟩

end SynthDom
