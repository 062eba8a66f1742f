import Mathlib.Data.List.Forall2
import SynthDom.Proofs.PropertyList.Lookup
import SynthDom.Tree.Basic

/-!
# Documents that are alike

Two documents are alike if nothing tells them apart but the order of attributes and declarations, at
any depth, empty stylesheets that the other one does not have, the tag of the root and the modules.
The relation is given by rules, one for each kind of part, and speaks of `List.Perm` for properties
and of `List.Forall₂` for rules and children, whose order counts.

* `Rule.Alike`, `Node.Alike`, `Tree.Alike`: the relation.
* `Element.SameContent`: two elements are alike but possibly for their tags.
* `Rule.equiv_iff_alike`, `Node.equiv_iff_alike`, `Tree.equiv_iff_alike`: the recursive tests of
  equality decide it.

Both inductions below run over the data: `Rule.induct` and `Node.induct` give the hypothesis for
every member of a list of rules or children.
-/

namespace SynthDom

/-! ## Induction over documents -/

/-- What holds of a condition rule when it holds of all rules inside it holds of every rule. -/
@[induction_eliminator]
theorem Rule.induct {P : Rule → Prop}
    (style : ∀ selector declarations, P (.style selector declarations))
    (condition : ∀ kind condition rules, (∀ r ∈ rules, P r) → P (.condition kind condition rules))
    (keyframeStep : ∀ offset declarations, P (.keyframeStep offset declarations)) (r : Rule) : P r :=
  @Rule.rec P (fun rules => ∀ r ∈ rules, P r) style condition keyframeStep
    (fun _ h => absurd h List.not_mem_nil)
    (fun _ _ hhead htail _ h => (List.mem_cons.mp h).elim (fun he => he ▸ hhead) (htail _)) r

/-- The same in one case, for a rule that need not be looked at. -/
theorem Rule.induct_nested {P : Rule → Prop}
    (h : ∀ r, (∀ k c rules, r = .condition k c rules → ∀ q ∈ rules, P q) → P r) (r : Rule) : P r := by
  induction r with
  | style s ds => exact h _ nofun
  | keyframeStep o ds => exact h _ nofun
  | condition k c rules ih =>
    refine h _ ?_
    rintro _ _ _ ⟨⟩
    exact ih

/-- What holds of an element when it holds of all its children holds of every node. -/
@[induction_eliminator]
theorem Node.induct {P : Node → Prop} (text : ∀ value, P (.text value))
    (element : ∀ e : Element, (∀ n ∈ e.children, P n) → P (.element e)) (n : Node) : P n :=
  @Node.rec P (fun e => ∀ n ∈ e.children, P n) (fun nodes => ∀ n ∈ nodes, P n) text element
    (fun _ _ _ _ h => h)
    (fun _ h => absurd h List.not_mem_nil)
    (fun _ _ hhead htail _ h => (List.mem_cons.mp h).elim (fun he => he ▸ hhead) (htail _)) n

/-- The same in one case, for a node that need not be looked at. -/
theorem Node.induct_children {P : Node → Prop}
    (h : ∀ n, (∀ e : Element, n = .element e → ∀ c ∈ e.children, P c) → P n) (n : Node) : P n := by
  induction n with
  | text v => exact h _ nofun
  | element e ih =>
    refine h _ ?_
    rintro _ ⟨⟩
    exact ih

/-! ## Relations along lists -/

/-- What follows from a relation for the members of a list follows along the list. -/
theorem forall₂_imp_of_mem {α : Type} {R S : α → α → Prop} {l m : List α}
    (h : ∀ x ∈ l, ∀ y, R x y → S x y) (hl : List.Forall₂ R l m) : List.Forall₂ S l m :=
  ((List.forall₂_and_left l m).mpr ⟨h, hl⟩).imp fun _ y hxy => hxy.1 y hxy.2

/-- A test that runs along two lists decides a relation if it does for the members of the first. -/
theorem forall₂_iff_of_mem {α : Type} {R S : α → α → Prop} {l m : List α}
    (h : ∀ x ∈ l, ∀ y, R x y ↔ S x y) : List.Forall₂ R l m ↔ List.Forall₂ S l m :=
  ⟨forall₂_imp_of_mem fun x hx y => (h x hx y).mp, forall₂_imp_of_mem fun x hx y => (h x hx y).mpr⟩

/-- A relation that is symmetric for the members of a list is so along the list. -/
theorem forall₂_symm_of_mem {α : Type} {R : α → α → Prop} {l m : List α}
    (h : ∀ x ∈ l, ∀ y, R x y → R y x) (hl : List.Forall₂ R l m) : List.Forall₂ R m l :=
  (forall₂_imp_of_mem (S := flip R) h hl).flip

/-- A relation that is transitive from the members of a list on is so along the list. -/
theorem forall₂_trans_of_mem {α : Type} {R : α → α → Prop} {l m k : List α}
    (h : ∀ x ∈ l, ∀ {y z}, R x y → R y z → R x z) (hlm : List.Forall₂ R l m)
    (hmk : List.Forall₂ R m k) : List.Forall₂ R l k := by
  induction hlm generalizing k with
  | nil => exact hmk
  | cons hxy _ ih =>
    cases hmk with
    | cons hyz hmk =>
      exact .cons (h _ List.mem_cons_self hxy hyz)
        (ih (fun x hx => h x (List.mem_cons_of_mem _ hx)) hmk)

/-- At an index both lists have related members, or neither has one. -/
theorem forall₂_getElem? {α β : Type} {R : α → β → Prop} {l : List α} {m : List β}
    (h : List.Forall₂ R l m) (i : Nat) :
    (∃ x y, l[i]? = some x ∧ m[i]? = some y ∧ R x y) ∨ (l[i]? = none ∧ m[i]? = none) := by
  induction h generalizing i with
  | nil => exact .inr ⟨rfl, rfl⟩
  | @cons x y _ _ hxy _ ih =>
    cases i with
    | zero => exact .inl ⟨x, y, rfl, rfl, hxy⟩
    | succ i => exact ih i

/-- Lists in which a stretch is replaced stay related. -/
theorem forall₂_splice {α : Type} {R : α → α → Prop} {l m xs ys : List α}
    (h : List.Forall₂ R l m) (hxs : List.Forall₂ R xs ys) (i j : Nat) :
    List.Forall₂ R (l.take i ++ (xs ++ l.drop j)) (m.take i ++ (ys ++ m.drop j)) :=
  List.rel_append (List.forall₂_take i h) (List.rel_append hxs (List.forall₂_drop j h))

theorem forall₂_set {α : Type} {R : α → α → Prop} {l m : List α} {x y : α}
    (h : List.Forall₂ R l m) (hxy : R x y) (i : Nat) :
    List.Forall₂ R (l.set i x) (m.set i y) := by
  rw [List.set_eq_take_append_cons_drop, List.set_eq_take_append_cons_drop, h.length_eq]
  split
  · exact forall₂_splice h (.cons hxy .nil) i (i + 1)
  · exact h

/-! ## The relation -/

/-- Alike but for the order of declarations, at every depth. -/
inductive Rule.Alike : Rule → Rule → Prop
  /-- The same selector, and declarations in any order. -/
  | style {selector : String} {ds es : PropertyList} :
      ds.Alike es → Rule.Alike (.style selector ds) (.style selector es)
  /-- The same at-rule, and rules that are alike one by one. -/
  | condition {kind : ConditionKind} {condition : String} {rs ss : List Rule} :
      List.Forall₂ Rule.Alike rs ss →
        Rule.Alike (.condition kind condition rs) (.condition kind condition ss)
  /-- The same offset, and declarations in any order. -/
  | keyframeStep {offset : String} {ds es : PropertyList} :
      ds.Alike es → Rule.Alike (.keyframeStep offset ds) (.keyframeStep offset es)

/-- Alike but for the order of attributes and declarations and for empty stylesheets. -/
inductive Node.Alike : Node → Node → Prop
  /-- The same text. -/
  | text (value : String) : Node.Alike (.text value) (.text value)
  /-- The same tag, attributes in any order, and children and rules that are alike one by one. -/
  | element {e f : Element} (tag : e.tag = f.tag) (attributes : e.attributes.Alike f.attributes)
      (children : List.Forall₂ Node.Alike e.children f.children)
      (rules : List.Forall₂ Rule.Alike e.rules f.rules) : Node.Alike (.element e) (.element f)

/-- Elements that are alike, but possibly for their tags. -/
structure Element.SameContent (e f : Element) : Prop where
  attributes : e.attributes.Alike f.attributes
  children : List.Forall₂ Node.Alike e.children f.children
  rules : List.Forall₂ Rule.Alike e.rules f.rules

/-- Documents whose roots are alike, but possibly for their tags. -/
def Tree.Alike (t u : Tree) : Prop := t.root.SameContent u.root

theorem Node.alike_element_iff {e f : Element} :
    Node.Alike (.element e) (.element f) ↔ e.tag = f.tag ∧ e.SameContent f := by
  constructor
  · rintro ⟨⟩
    exact ⟨‹_›, ‹_›, ‹_›, ‹_›⟩
  · exact fun h => .element h.1 h.2.attributes h.2.children h.2.rules

theorem Rule.Alike.refl (r : Rule) : r.Alike r := by
  induction r with
  | style _ ds => exact .style (.refl ds)
  | condition _ _ rules ih => exact .condition (List.forall₂_same.mpr ih)
  | keyframeStep _ ds => exact .keyframeStep (.refl ds)

theorem Rule.Alike.refl_list (rules : List Rule) : List.Forall₂ Rule.Alike rules rules :=
  List.forall₂_same.mpr fun r _ => .refl r

theorem Rule.Alike.symm {r s : Rule} (h : r.Alike s) : s.Alike r := by
  induction r generalizing s with
  | style =>
    cases h with
    | style h => exact .style h.symm
  | condition _ _ rules ih =>
    cases h with
    | condition h => exact .condition (forall₂_symm_of_mem (fun r hr _ => ih r hr) h)
  | keyframeStep =>
    cases h with
    | keyframeStep h => exact .keyframeStep h.symm

theorem Rule.Alike.trans {r s q : Rule} (h : r.Alike s) (h' : s.Alike q) : r.Alike q := by
  induction r generalizing s q with
  | style =>
    cases h with
    | style h =>
      cases h' with
      | style h' => exact .style (h.trans h')
  | condition _ _ rules ih =>
    cases h with
    | condition h =>
      cases h' with
      | condition h' => exact .condition (forall₂_trans_of_mem ih h h')
  | keyframeStep =>
    cases h with
    | keyframeStep h =>
      cases h' with
      | keyframeStep h' => exact .keyframeStep (h.trans h')

theorem Node.Alike.refl (n : Node) : n.Alike n := by
  induction n with
  | text value => exact .text value
  | element e ih =>
    exact .element rfl (.refl _) (List.forall₂_same.mpr ih) (Rule.Alike.refl_list _)

theorem Element.SameContent.refl (e : Element) : e.SameContent e :=
  ⟨.refl _, List.forall₂_same.mpr fun n _ => .refl n, Rule.Alike.refl_list _⟩

theorem Node.Alike.symm {n k : Node} (h : n.Alike k) : k.Alike n := by
  induction n generalizing k with
  | text value =>
    cases h
    exact .text value
  | element e ih =>
    cases h with
    | element tag attributes children rules =>
      exact .element tag.symm attributes.symm (forall₂_symm_of_mem (fun n hn _ => ih n hn) children)
        (forall₂_symm_of_mem (fun _ _ _ => Rule.Alike.symm) rules)

theorem Node.Alike.trans {n k l : Node} (h : n.Alike k) (h' : k.Alike l) : n.Alike l := by
  induction n generalizing k l with
  | text value =>
    cases h
    exact h'
  | element e ih =>
    cases h with
    | element tag attributes children rules =>
      cases h' with
      | element tag' attributes' children' rules' =>
        exact .element (tag.trans tag') (attributes.trans attributes')
          (forall₂_trans_of_mem ih children children')
          (forall₂_trans_of_mem (fun _ _ {_ _} => Rule.Alike.trans) rules rules')

theorem Element.SameContent.symm {e f : Element} (h : e.SameContent f) : f.SameContent e where
  attributes := h.attributes.symm
  children := forall₂_symm_of_mem (fun _ _ _ => Node.Alike.symm) h.children
  rules := forall₂_symm_of_mem (fun _ _ _ => Rule.Alike.symm) h.rules

theorem Element.SameContent.trans {e f g : Element} (h : e.SameContent f) (h' : f.SameContent g) :
    e.SameContent g where
  attributes := h.attributes.trans h'.attributes
  children := forall₂_trans_of_mem (fun _ _ {_ _} => Node.Alike.trans) h.children h'.children
  rules := forall₂_trans_of_mem (fun _ _ {_ _} => Rule.Alike.trans) h.rules h'.rules

theorem Tree.Alike.refl (t : Tree) : t.Alike t := Element.SameContent.refl t.root

theorem Tree.Alike.symm {t u : Tree} (h : t.Alike u) : u.Alike t := Element.SameContent.symm h

theorem Tree.Alike.trans {t u v : Tree} (h : t.Alike u) (h' : u.Alike v) : t.Alike v :=
  Element.SameContent.trans h h'

/-! ## The tests of equality -/

theorem Rule.equivList_iff {rs ss : List Rule} :
    Rule.equivList rs ss = true ↔ List.Forall₂ (fun r s => r.equiv s = true) rs ss := by
  induction rs generalizing ss with
  | nil => cases ss <;> simp [Rule.equivList]
  | cons r rs ih => cases ss <;> simp [Rule.equivList, ih]

theorem Rule.equiv_iff_alike {r s : Rule} : r.equiv s = true ↔ r.Alike s := by
  induction r generalizing s with
  | style selector ds =>
    cases s with
    | style t es =>
      simp only [Rule.equiv, Bool.and_eq_true, beq_iff_eq, PropertyList.equiv_iff_alike]
      constructor
      · rintro ⟨rfl, h⟩
        exact .style h
      · rintro ⟨h⟩
        exact ⟨rfl, h⟩
    | condition | keyframeStep => exact iff_of_false nofun nofun
  | condition k c rs ih =>
    cases s with
    | condition l d ss =>
      simp only [Rule.equiv, Bool.and_eq_true, beq_iff_eq, Rule.equivList_iff]
      rw [forall₂_iff_of_mem fun r hr s => ih r hr]
      constructor
      · rintro ⟨⟨rfl, rfl⟩, h⟩
        exact .condition h
      · rintro ⟨⟩
        exact ⟨⟨rfl, rfl⟩, ‹_›⟩
    | style | keyframeStep => exact iff_of_false nofun nofun
  | keyframeStep offset ds =>
    cases s with
    | keyframeStep p es =>
      simp only [Rule.equiv, Bool.and_eq_true, beq_iff_eq, PropertyList.equiv_iff_alike]
      constructor
      · rintro ⟨rfl, h⟩
        exact .keyframeStep h
      · rintro ⟨⟩
        exact ⟨rfl, ‹_›⟩
    | style | condition => exact iff_of_false nofun nofun

theorem Rule.equivList_iff_alike {rs ss : List Rule} :
    Rule.equivList rs ss = true ↔ List.Forall₂ Rule.Alike rs ss := by
  rw [Rule.equivList_iff]
  exact forall₂_iff_of_mem fun r _ s => Rule.equiv_iff_alike

theorem Node.equivList_iff {ns ms : List Node} :
    Node.equivList ns ms = true ↔ List.Forall₂ (fun n m => n.equiv m = true) ns ms := by
  induction ns generalizing ms with
  | nil => cases ms <;> simp [Node.equivList]
  | cons n ns ih => cases ms <;> simp [Node.equivList, ih]

theorem Element.equiv_iff {e f : Element} :
    e.equiv f = true ↔ e.tag = f.tag ∧ e.attributes.Alike f.attributes
      ∧ List.Forall₂ (fun n m => n.equiv m = true) e.children f.children
      ∧ List.Forall₂ Rule.Alike e.rules f.rules := by
  rw [← rules_sheet e]
  obtain ⟨tag, attributes, children, stylesheet⟩ := e
  simp only [Element.equiv, Bool.and_eq_true, beq_iff_eq, PropertyList.equiv_iff_alike,
    Node.equivList_iff, Rule.equivList_iff_alike, and_assoc, sheet]

theorem Node.equiv_iff_alike {n m : Node} : n.equiv m = true ↔ n.Alike m := by
  induction n generalizing m with
  | text v =>
    cases m with
    | text w =>
      simp only [Node.equiv, beq_iff_eq]
      constructor
      · rintro rfl
        exact .text v
      · rintro ⟨⟩
        rfl
    | element f => exact iff_of_false nofun nofun
  | element e ih =>
    cases m with
    | text w => exact iff_of_false nofun nofun
    | element f =>
      rw [Node.alike_element_iff, Node.equiv, Element.equiv_iff,
        forall₂_iff_of_mem fun n hn m => ih n hn]
      exact and_congr_right fun _ => ⟨fun h => ⟨h.1, h.2.1, h.2.2⟩,
        fun h => ⟨h.attributes, h.children, h.rules⟩⟩

/-- Equality of documents is being alike. -/
theorem Tree.equiv_iff_alike {t u : Tree} : t.equiv u = true ↔ t.Alike u := by
  simp only [Tree.equiv, Bool.and_eq_true, PropertyList.equiv_iff_alike, Node.equivList_iff,
    Rule.equivList_iff_alike]
  rw [forall₂_iff_of_mem fun n _ m => Node.equiv_iff_alike]
  exact ⟨fun h => ⟨h.1.1, h.1.2, h.2⟩, fun h => ⟨⟨h.attributes, h.children⟩, h.rules⟩⟩

end SynthDom
