import SynthDom.Proofs.Address.Replace
import SynthDom.Proofs.Tree.Alike

/-!
# Equality as seen from addresses

Two documents are equal if and only if no address tells them apart, that is, every address leads to
nothing in both or to items that show the same data of their own.  Addresses with a declaration in
them are left out, since the order of declarations is not part of what equality sees; and the root
does not show its tag.

* `Item.ShowsSame`: two items show the same, without a look at what is inside.
* `Item.SeenAlike`: they show the same at every address from there, and `Item.seenAlike_iff`, which
  takes the first step off the address.
* `Rule.seenAlike_iff`, `Node.seenAlike_iff`: for rules and nodes this is being alike.
* `Tree.equiv_iff_indistinguishable`: the comparison for documents.
-/

namespace SynthDom

/-! ## What an address tells -/

/-- The same pairs of a name and a value, whatever their order. -/
def PropertyList.SamePairs (l m : PropertyList) : Prop := ∀ e, e ∈ l.entries ↔ e ∈ m.entries

/-- Items of one kind that show the same data of their own.  The tag of an element counts only if it
is shown. -/
inductive Item.ShowsSame (tagShown : Prop) : Item → Item → Prop
  /-- The tag, if it is shown, and the attributes. -/
  | element {e f : Element} : (tagShown → e.tag = f.tag) → e.attributes.SamePairs f.attributes →
      ShowsSame tagShown (.element e) (.element f)
  /-- The value. -/
  | text (value : String) : ShowsSame tagShown (.text value) (.text value)
  /-- A stylesheet has no data of its own. -/
  | stylesheet (s t : Stylesheet) : ShowsSame tagShown (.stylesheet s) (.stylesheet t)
  /-- The selector and the declarations. -/
  | style {selector : String} {ds es : PropertyList} : ds.SamePairs es →
      ShowsSame tagShown (.rule (.style selector ds)) (.rule (.style selector es))
  /-- The at-rule and its condition. -/
  | condition (kind : ConditionKind) (condition : String) (rs ss : List Rule) :
      ShowsSame tagShown (.rule (.condition kind condition rs)) (.rule (.condition kind condition ss))
  /-- The offset and the declarations. -/
  | keyframeStep {offset : String} {ds es : PropertyList} : ds.SamePairs es →
      ShowsSame tagShown (.rule (.keyframeStep offset ds)) (.rule (.keyframeStep offset es))

/-- Two results that are both errors, whichever, or both values, and related ones. -/
inductive Both {ε α : Type} (R : α → α → Prop) : Except ε α → Except ε α → Prop
  /-- Both fail. -/
  | error (e e' : ε) : Both R (.error e) (.error e')
  /-- Both succeed. -/
  | ok {x y : α} : R x y → Both R (.ok x) (.ok y)

/-- No address without declarations tells two documents apart. -/
def Tree.Indistinguishable (t u : Tree) : Prop :=
  ∀ a : Address, (∀ i, Segment.declaration i ∉ a) →
    Both (Item.ShowsSame (a ≠ .root)) (t.resolve a) (u.resolve a)

/-- At every address from two items on they show the same; their own tags only count if they are
shown. -/
def Item.SeenAlike (tagShown : Prop) (it jt : Item) : Prop :=
  ∀ a : Address, (∀ i, Segment.declaration i ∉ a) →
    Both (ShowsSame (a = .root → tagShown)) (it.descend a) (jt.descend a)

/-! ## Results -/

namespace Both

variable {ε ε' α : Type} {R S : α → α → Prop} {x y : Except ε α}

theorem ok_iff {a b : α} : Both (ε := ε) R (.ok a) (.ok b) ↔ R a b := by
  constructor
  · rintro ⟨h⟩
    assumption
  · exact .ok

theorem imp (h : Both R x y) (hRS : ∀ a b, R a b → S a b) : Both S x y := by
  cases h with
  | error e e' => exact .error e e'
  | ok h => exact .ok (hRS _ _ h)

theorem mapError_iff (f g : ε → ε') : Both R (x.mapError f) (y.mapError g) ↔ Both R x y := by
  constructor
  · intro h
    cases x with
    | error e =>
      cases y with
      | error e' => exact .error e e'
      | ok b => cases h
    | ok a =>
      cases y with
      | error e' => cases h
      | ok b => exact .ok (ok_iff.mp h)
  · rintro (⟨e, e'⟩ | h)
    · exact .error _ _
    · exact .ok h

end Both

/-! ## The first step of an address -/

namespace Item

variable {tagShown : Prop} {it jt : Item}

/-- Two items are seen alike if they show the same, and if every step from them, but to a
declaration, fails in both or leads to items that are seen alike.  These show their tags. -/
theorem seenAlike_iff : SeenAlike tagShown it jt ↔ ShowsSame tagShown it jt ∧
    ∀ s : Segment, (∀ i, s ≠ .declaration i) → Both (SeenAlike True) (it.step s) (jt.step s) := by
  constructor
  · intro h
    refine ⟨?_, fun s hs => ?_⟩
    · have hroot := h [] fun i => List.not_mem_nil
      simpa only [Address.root, true_imp_iff, descend_nil, Both.ok_iff] using hroot
    · have hinside (a : Address) (ha : ∀ i, Segment.declaration i ∉ a) :
          Both (ShowsSame True) (it.descend (s :: a)) (jt.descend (s :: a)) := by
        have hcons := h (s :: a) fun i hmem => by
          rcases List.mem_cons.mp hmem with heq | hmem
          · exact hs i heq.symm
          · exact ha i hmem
        simpa only [Address.root, reduceCtorEq, false_imp_iff] using hcons
      have hstep := hinside [] fun i => List.not_mem_nil
      simp only [descend_cons] at hinside hstep
      cases hit : it.step s with
      | error r =>
        cases hjt : jt.step s with
        | error r' => exact .error r r'
        | ok y =>
          rw [hit, hjt] at hstep
          cases hstep
      | ok x =>
        cases hjt : jt.step s with
        | error r' =>
          rw [hit, hjt] at hstep
          cases hstep
        | ok y =>
          refine .ok fun a ha => ?_
          have hxy := hinside a ha
          rw [hit, hjt] at hxy
          simpa only [imp_true_iff, Except.bind] using hxy
  · rintro ⟨hown, hsteps⟩ a ha
    cases a with
    | nil => exact .ok (by simpa only [Address.root, true_imp_iff] using hown)
    | cons s a =>
      have hstep := hsteps s fun i heq => ha i (heq ▸ List.mem_cons_self)
      rw [descend_cons, descend_cons]
      generalize it.step s = x at hstep ⊢
      generalize jt.step s = y at hstep ⊢
      cases hstep with
      | error r r' => exact .error r r'
      | ok h =>
        have hrest := h a fun i hmem => ha i (List.mem_cons_of_mem _ hmem)
        simpa only [Address.root, reduceCtorEq, false_imp_iff, imp_true_iff, Except.bind] using hrest

end Item

/-! ## Lists by index -/

theorem PropertyList.alike_iff_samePairs {l m : PropertyList} : l.Alike m ↔ l.SamePairs m :=
  List.perm_ext_iff_of_nodup l.nodup_entries m.nodup_entries

/-- Lists are related if at every index both have related members, or neither has one. -/
theorem forall₂_of_getElem? {α : Type} {R : α → α → Prop} {l m : List α}
    (h : ∀ i : Nat, (∃ x y, l[i]? = some x ∧ m[i]? = some y ∧ R x y) ∨ (l[i]? = none ∧ m[i]? = none)) :
    List.Forall₂ R l m := by
  induction l generalizing m with
  | nil =>
    cases m with
    | nil => exact .nil
    | cons y m => rcases h 0 with ⟨x, _, hx, -⟩ | ⟨-, hy⟩ <;> contradiction
  | cons x l ih =>
    cases m with
    | nil => rcases h 0 with ⟨_, y, -, hy, -⟩ | ⟨hx, -⟩ <;> contradiction
    | cons y m =>
      refine .cons ?_ (ih fun i => h (i + 1))
      rcases h 0 with ⟨_, _, ⟨⟩, ⟨⟩, hxy⟩ | ⟨hx, -⟩
      · exact hxy
      · contradiction

namespace Item

/-- Looking up a list by index gives its members as items, and fails beyond its end. -/
structure Finds {α : Type} (part : α → Item) (l : List α) (find : Nat → Except Reason Item) : Prop where
  ok : ∀ i x, l[i]? = some x → find i = .ok (part x)
  error : ∀ i, l[i]? = none → ∃ r, find i = .error r

theorem finds_ruleAt (rules : List Rule) : Finds .rule rules (ruleAt rules) where
  ok i r hr := by rw [ruleAt, hr]
  error i hnone := ⟨.ruleOutOfRange i rules.length, by rw [ruleAt, hnone]⟩

theorem finds_child (e : Element) :
    Finds Node.item e.children fun i => (Item.element e).step (.child i) where
  ok i n hn := step_eq_ok_iff.mpr (.child hn)
  error i hnone := ⟨.childOutOfRange i e.children.length, by simp only [step, hnone]⟩

/-- What the look-ups of two lists by all indexes tell. -/
theorem Finds.both_iff {α : Type} {R : Item → Item → Prop} {part : α → Item} {l m : List α}
    {find find' : Nat → Except Reason Item} (hl : Finds part l find) (hm : Finds part m find') :
    (∀ i, Both R (find i) (find' i)) ↔ List.Forall₂ (fun x y => R (part x) (part y)) l m := by
  constructor
  · intro h
    refine forall₂_of_getElem? fun i => ?_
    have hi := h i
    cases hx : l[i]? with
    | none =>
      obtain ⟨r, hr⟩ := hl.error i hx
      cases hy : m[i]? with
      | none => exact .inr ⟨rfl, rfl⟩
      | some y =>
        rw [hr, hm.ok i y hy] at hi
        cases hi
    | some x =>
      rw [hl.ok i x hx] at hi
      cases hy : m[i]? with
      | none =>
        obtain ⟨r, hr⟩ := hm.error i hy
        rw [hr] at hi
        cases hi
      | some y =>
        rw [hm.ok i y hy] at hi
        exact .inl ⟨x, y, rfl, rfl, Both.ok_iff.mp hi⟩
  · intro h i
    rcases forall₂_getElem? h i with ⟨x, y, hx, hy, hxy⟩ | ⟨hx, hy⟩
    · rw [hl.ok i x hx, hm.ok i y hy]
      exact .ok hxy
    · obtain ⟨r, hr⟩ := hl.error i hx
      obtain ⟨r', hr'⟩ := hm.error i hy
      rw [hr, hr']
      exact .error r r'

end Item

/-! ## Rules -/

namespace Item

variable {tagShown : Prop}

/-- Stylesheets are seen alike if their rules are, one by one. -/
theorem seenAlike_stylesheet_iff {s t : Stylesheet} :
    SeenAlike tagShown (.stylesheet s) (.stylesheet t) ↔
      List.Forall₂ (fun r q => SeenAlike True (.rule r) (.rule q)) s.rules t.rules := by
  rw [seenAlike_iff, ← (finds_ruleAt s.rules).both_iff (finds_ruleAt t.rules)]
  constructor
  · rintro ⟨-, hsteps⟩ i
    exact hsteps (.rule i) nofun
  · intro h
    refine ⟨.stylesheet s t, fun seg hseg => ?_⟩
    cases seg with
    | rule i => exact h i
    | declaration i => exact absurd rfl (hseg i)
    | child | shadow => exact .error _ _

end Item

namespace Rule

/-- Rules are seen alike exactly when they are alike. -/
theorem seenAlike_iff {r q : Rule} :
    Item.SeenAlike True (.rule r) (.rule q) ↔ r.Alike q := by
  induction r generalizing q with
  | style selector ds =>
    rw [Item.seenAlike_iff]
    constructor
    · rintro ⟨⟨⟩, -⟩
      exact .style (PropertyList.alike_iff_samePairs.mpr ‹_›)
    · rintro ⟨h⟩
      refine ⟨.style (PropertyList.alike_iff_samePairs.mp h), fun s hs => ?_⟩
      cases s with
      | declaration i => exact absurd rfl (hs i)
      | child | shadow | rule => exact .error _ _
  | keyframeStep offset ds =>
    rw [Item.seenAlike_iff]
    constructor
    · rintro ⟨⟨⟩, -⟩
      exact .keyframeStep (PropertyList.alike_iff_samePairs.mpr ‹_›)
    · rintro ⟨⟩
      refine ⟨.keyframeStep (PropertyList.alike_iff_samePairs.mp ‹_›), fun s hs => ?_⟩
      cases s with
      | declaration i => exact absurd rfl (hs i)
      | child | shadow | rule => exact .error _ _
  | condition k c rules ih =>
    have hrules {qs : List Rule} : (∀ i, Both (Item.SeenAlike True) (Item.ruleAt rules i)
        (Item.ruleAt qs i)) ↔ List.Forall₂ Rule.Alike rules qs := by
      rw [(Item.finds_ruleAt rules).both_iff (Item.finds_ruleAt qs)]
      exact forall₂_iff_of_mem fun r hr q => ih r hr
    rw [Item.seenAlike_iff]
    constructor
    · rintro ⟨⟨⟩, hsteps⟩
      exact .condition (hrules.mp fun i => hsteps (.rule i) nofun)
    · rintro ⟨⟩
      refine ⟨.condition k c rules _, fun s hs => ?_⟩
      cases s with
      | rule i => exact hrules.mpr ‹_› i
      | declaration i => exact absurd rfl (hs i)
      | child | shadow => exact .error _ _

end Rule

/-! ## Nodes -/

namespace Element

variable {tagShown : Prop} {e f : Element}

/-- Elements are seen alike if they show the same and so do their children, one by one, and if their
rules are alike. -/
theorem seenAlike_iff : Item.SeenAlike tagShown (.element e) (.element f) ↔
    (tagShown → e.tag = f.tag) ∧ e.attributes.Alike f.attributes ∧
      List.Forall₂ (fun n k => Item.SeenAlike True (Node.item n) (Node.item k)) e.children f.children ∧
      List.Forall₂ Rule.Alike e.rules f.rules := by
  have hchildren := (Item.finds_child e).both_iff (R := Item.SeenAlike True) (Item.finds_child f)
  have hsheet : Item.SeenAlike True (.stylesheet e.sheet) (.stylesheet f.sheet) ↔
      List.Forall₂ Rule.Alike e.rules f.rules := by
    rw [Item.seenAlike_stylesheet_iff, rules_sheet, rules_sheet]
    exact forall₂_iff_of_mem fun r _ q => Rule.seenAlike_iff
  rw [Item.seenAlike_iff, PropertyList.alike_iff_samePairs, ← hchildren, ← hsheet]
  constructor
  · rintro ⟨⟨htag, hattributes⟩, hsteps⟩
    exact ⟨htag, hattributes, fun i => hsteps (.child i) nofun,
      Both.ok_iff.mp (hsteps .shadow nofun)⟩
  · rintro ⟨htag, hattributes, hchildren, hsheet⟩
    refine ⟨.element htag hattributes, fun s hs => ?_⟩
    cases s with
    | child i => exact hchildren i
    | shadow => exact .ok hsheet
    | declaration i => exact absurd rfl (hs i)
    | rule => exact .error _ _

end Element

/-- Nodes are seen alike exactly when they are alike. -/
theorem Node.seenAlike_iff {n k : Node} : Item.SeenAlike True n.item k.item ↔ n.Alike k := by
  induction n generalizing k with
  | text v =>
    rw [Item.seenAlike_iff]
    constructor
    · rintro ⟨h, -⟩
      cases k with
      | text w =>
        cases h
        exact .text v
      | element f => cases h
    · rintro ⟨⟩
      refine ⟨.text v, fun s hs => ?_⟩
      cases s <;> exact .error _ _
  | element e ih =>
    cases k with
    | text w =>
      refine iff_of_false (fun h => ?_) nofun
      cases (Item.seenAlike_iff.mp h).1
    | element f =>
      have hchildren : List.Forall₂ (fun n k => Item.SeenAlike True (item n) (item k))
          e.children f.children ↔ List.Forall₂ Node.Alike e.children f.children :=
        forall₂_iff_of_mem fun n hn k => ih n hn
      rw [item, item, Element.seenAlike_iff, hchildren, alike_element_iff]
      constructor
      · rintro ⟨htag, hattributes, hchildren, hrules⟩
        exact ⟨htag trivial, hattributes, hchildren, hrules⟩
      · rintro ⟨htag, hattributes, hchildren, hrules⟩
        exact ⟨fun _ => htag, hattributes, hchildren, hrules⟩

/-! ## Documents -/

/-- Roots are seen alike, but for their tags, exactly when they have the same content. -/
theorem Element.seenAlike_untagged_iff {e f : Element} :
    Item.SeenAlike False (.element e) (.element f) ↔ e.SameContent f := by
  rw [seenAlike_iff, forall₂_iff_of_mem fun n _ k => Node.seenAlike_iff]
  constructor
  · rintro ⟨-, hattributes, hchildren, hrules⟩
    exact ⟨hattributes, hchildren, hrules⟩
  · rintro ⟨hattributes, hchildren, hrules⟩
    exact ⟨nofun, hattributes, hchildren, hrules⟩

theorem Tree.indistinguishable_iff_alike {t u : Tree} : t.Indistinguishable u ↔ t.Alike u := by
  rw [Alike, ← Element.seenAlike_untagged_iff]
  simp only [Indistinguishable, Item.SeenAlike, resolve, Both.mapError_iff, ne_eq, imp_false]

/-- A test of a relation that is an equivalence is one. -/
theorem equivalence_of_iff {α : Type} {test : α → α → Bool} {R : α → α → Prop}
    (h : ∀ x y, test x y = true ↔ R x y) (hR : Equivalence R) :
    Equivalence fun x y => test x y = true := by
  have heq : (fun x y => test x y = true) = R := by
    funext x y
    exact propext (h x y)
  rwa [heq]

theorem Rule.equivalence_alike : Equivalence Rule.Alike := ⟨.refl, .symm, .trans⟩

theorem Rule.equivalence_alike_list : Equivalence (List.Forall₂ Rule.Alike) where
  refl := Rule.Alike.refl_list
  symm := forall₂_symm_of_mem fun _ _ _ => .symm
  trans := forall₂_trans_of_mem fun _ _ {_ _} => .trans

theorem Node.equivalence_alike : Equivalence Node.Alike := ⟨.refl, .symm, .trans⟩

theorem Tree.equivalence_alike : Equivalence Tree.Alike := ⟨.refl, .symm, .trans⟩

/-- Equality of documents is being indistinguishable by address.  It is reflexive, symmetric and
transitive, as is the equality of every sort of part. -/
theorem Tree.equiv_iff_indistinguishable :
    (∀ t u : Tree, t.equiv u = true ↔ t.Indistinguishable u) ∧
      (Equivalence fun t u : Tree => t.equiv u = true) ∧
      (Equivalence fun n k : Node => n.equiv k = true) ∧
      (Equivalence fun e f : Element => e.equiv f = true) ∧
      (Equivalence fun r q : Rule => r.equiv q = true) ∧
      Equivalence fun s t : Stylesheet => s.equiv t = true := by
  have hnodes := equivalence_of_iff (fun _ _ => Node.equiv_iff_alike) Node.equivalence_alike
  have hrules := equivalence_of_iff (fun _ _ => Rule.equivList_iff_alike) Rule.equivalence_alike_list
  refine ⟨fun t u => ?_, ?_, hnodes, ?_, ?_, ?_⟩
  · rw [equiv_iff_alike, indistinguishable_iff_alike]
  · exact equivalence_of_iff (fun _ _ => equiv_iff_alike) equivalence_alike
  · -- an element is compared as the node that it is
    exact hnodes.comap Node.element
  · exact equivalence_of_iff (fun _ _ => Rule.equiv_iff_alike) Rule.equivalence_alike
  · exact hrules.comap Stylesheet.rules

end SynthDom
