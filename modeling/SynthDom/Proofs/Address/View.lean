import SynthDom.Proofs.Address.PutAt
import SynthDom.Proofs.Tree.Alike

/-!
# Reading and writing agree

An address is followed in two ways, to read and to write, and both lead to the same item or to the same
error.  Following it to write leaves one trace even if nothing is written: where it steps to a
stylesheet that is missing, there is an empty one from then on.  No two equal elements tell whether that
has happened.

* `Item.opened`: what is left of following an address to write, when nothing is written.
* `Item.opened_eq_self`, `Item.opened_eq_putAt`: it is what was there, but for one missing stylesheet.
* `Node.opened_alike`: what is left is equal to what was there.
* `Tree.writeAt_view`: the comparison of reading and writing.
-/

namespace SynthDom

theorem set_self_of_getElem? {α : Type} {l : List α} {i : Nat} {x : α} (h : l[i]? = some x) :
    l.set i x = l := by
  obtain ⟨hi, rfl⟩ := List.getElem?_eq_some_iff.mp h
  exact List.set_getElem_self hi

namespace Item

variable {it sub : Item} {s : Segment} {a q : Address} {e : Element}

/-- What is left of following an address to write, when nothing is written: every part that a step
leads to is put back, also one that was missing. -/
def opened : Address → Item → Item
  | [], it => it
  | s :: a, it =>
    match it.step s with
    | .ok sub => it.put s (opened a sub)
    | .error _ => it

@[simp] theorem opened_nil (it : Item) : it.opened [] = it := rfl

theorem opened_cons_ok (h : it.step s = .ok sub) : it.opened (s :: a) = it.put s (sub.opened a) := by
  rw [opened, h]

theorem opened_cons_error {r : Reason} (h : it.step s = .error r) : it.opened (s :: a) = it := by
  rw [opened, h]

/-- The writer that only looks gives what reading gives. -/
theorem writeAt_view_eq (a : Address) (it : Item) :
    it.writeAt .view a = (it.descend a, it.opened a) := by
  induction a generalizing it with
  | nil => cases it <;> rfl
  | cons s a ih =>
    cases h : it.step s with
    | error r =>
      rw [writeAt_cons_error h, opened_cons_error h, descend_cons, h]
      rfl
    | ok sub =>
      rw [writeAt_cons_ok h, opened_cons_ok h, descend_cons, h, ih]
      rfl

/-- A writer is shown the item that reading finds. -/
theorem writeAt_fst {α : Type} (w : Writer α) (a : Address) (it : Item) :
    (it.writeAt w a).1 = (it.descend a).map fun x => (w.onItem x).1 := by
  induction a generalizing it with
  | nil => rfl
  | cons s a ih =>
    cases h : it.step s with
    | error r =>
      rw [writeAt_cons_error h, descend_cons, h]
      rfl
    | ok sub =>
      rw [writeAt_cons_ok h, descend_cons, h]
      exact ih sub

/-- A part that is put back where it was changes nothing, unless it was missing. -/
theorem put_self (h : it.step s = .ok sub)
    (hpresent : ∀ e, it = .element e → s = .shadow → e.stylesheet.isSome) : it.put s sub = it := by
  rw [step_eq_ok_iff] at h
  cases h with
  | @child e i n hn =>
    obtain ⟨tag, attributes, children, stylesheet⟩ := e
    rw [put_child, set_self_of_getElem? hn]
  | shadow e =>
    obtain ⟨t, ht⟩ := Option.isSome_iff_exists.mp (hpresent e rfl rfl)
    obtain ⟨tag, attributes, children, stylesheet⟩ := e
    cases ht
    rfl
  | rule hr => rw [put, set_self_of_getElem? hr]
  | nested hr => rw [put, set_self_of_getElem? hr]
  | styleDeclaration hentry => rw [put, PropertyList.setAt_self hentry]
  | keyframeDeclaration hentry => rw [put, PropertyList.setAt_self hentry]

/-- An address steps to a missing stylesheet, of the element that its first part leads to. -/
def Opens (it : Item) (a q : Address) (e : Element) : Prop :=
  q.join .shadow <+: a ∧ it.descend q = .ok (.element e) ∧ e.stylesheet = none

theorem opens_cons_iff (h : it.step s = .ok sub) :
    it.Opens (s :: a) (s :: q) e ↔ sub.Opens a q e := by
  rw [Opens, Opens, Address.join, List.cons_append, List.prefix_cons_inj, descend_cons, h]
  rfl

/-- With no missing stylesheet on the way everything is left as it was. -/
theorem opened_eq_self (h : ∀ q e, ¬it.Opens a q e) : it.opened a = it := by
  induction a generalizing it with
  | nil => rfl
  | cons s a ih =>
    cases hs : it.step s with
    | error r => exact opened_cons_error hs
    | ok sub =>
      have hinside : sub.opened a = sub := ih fun q e hq => h (s :: q) e ((opens_cons_iff hs).mpr hq)
      rw [opened_cons_ok hs, hinside]
      refine put_self hs ?_
      rintro e rfl rfl
      refine Option.isSome_iff_ne_none.mpr fun hmissing => h [] e ⟨?_, rfl, hmissing⟩
      exact List.prefix_append [Segment.shadow] a

/-- Nothing is inside a stylesheet that has just been made. -/
theorem opened_empty (a : Address) :
    (Item.stylesheet .empty).opened a = .stylesheet .empty := by
  cases a with
  | nil => rfl
  | cons s a => cases s <;> rfl

/-- A missing stylesheet on the way is there afterwards, without rules, and nothing else changes. -/
theorem opened_eq_putAt (h : it.Opens a q e) :
    it.opened a = it.putAt q (.element { e with stylesheet := some .empty }) := by
  induction q generalizing it a with
  | nil =>
    obtain ⟨⟨b, rfl⟩, hit, hmissing⟩ := h
    cases hit
    have hsheet : e.sheet = .empty := by rw [Element.sheet, hmissing]; rfl
    have hstep : (Item.element e).step .shadow = .ok (.stylesheet .empty) := by rw [step, hsheet]
    exact (opened_cons_ok hstep).trans (by rw [opened_empty]; rfl)
  | cons s q ih =>
    obtain ⟨sub, hs, -⟩ := descend_cons_eq_ok_iff.mp h.2.1
    obtain ⟨b, rfl⟩ := h.1
    rw [putAt_cons hs, ← ih ((opens_cons_iff hs).mp h)]
    exact opened_cons_ok hs

/-- An address to an element starts from one. -/
theorem element_of_descend (h : it.descend a = .ok (.element e)) : ∃ f, it = .element f := by
  induction a generalizing it with
  | nil =>
    cases h
    exact ⟨e, rfl⟩
  | cons s a ih =>
    obtain ⟨sub, hs, hsub⟩ := descend_cons_eq_ok_iff.mp h
    obtain ⟨f, rfl⟩ := ih hsub
    obtain ⟨e, -, rfl, -⟩ := Part.of_node (n := .element f) (step_eq_ok_iff.mp hs)
    exact ⟨e, rfl⟩

/-- Of an item that is not an element everything is left as it was. -/
theorem opened_of_not_element (h : ∀ f, it ≠ .element f) (a : Address) : it.opened a = it := by
  refine opened_eq_self fun q e hopens => ?_
  obtain ⟨f, hf⟩ := element_of_descend hopens.2.1
  exact h f hf

end Item

/-- Following an address to write leaves a node that is equal to the one that was there. -/
theorem Node.opened_alike (n : Node) (a : Address) :
    ∃ k : Node, n.item.opened a = k.item ∧ k.Alike n := by
  induction a generalizing n with
  | nil => exact ⟨n, rfl, .refl n⟩
  | cons s a ih =>
    cases n with
    | text v => exact ⟨.text v, Item.opened_of_not_element (by rintro _ ⟨⟩) _, .text v⟩
    | element e =>
      cases hs : (Item.element e).step s with
      | error r => exact ⟨.element e, Item.opened_cons_error hs, .refl _⟩
      | ok sub =>
        rw [item, Item.opened_cons_ok hs]
        cases Item.step_eq_ok_iff.mp hs with
        | @child _ i c hc =>
          obtain ⟨k, hk, halike⟩ := ih c
          have hself : List.Forall₂ Node.Alike e.children e.children :=
            List.forall₂_same.mpr fun n _ => .refl n
          have hchildren := forall₂_set hself halike i
          rw [set_self_of_getElem? hc] at hchildren
          refine ⟨.element { e with children := e.children.set i k }, ?_, ?_⟩
          · rw [hk, Item.put_child]
            rfl
          · exact .element rfl (.refl _) hchildren (Rule.Alike.refl_list _)
        | shadow =>
          have hsheet : (Item.stylesheet e.sheet).opened a = .stylesheet e.sheet :=
            Item.opened_of_not_element (by rintro _ ⟨⟩) a
          refine ⟨.element { e with stylesheet := some e.sheet }, by rw [hsheet]; rfl, ?_⟩
          refine .element rfl (.refl _) (List.forall₂_same.mpr fun n _ => .refl n) ?_
          exact Element.rules_sheet e ▸ Rule.Alike.refl_list _

namespace Tree

/-- Following an address to write, when nothing is written, gives what reading gives and leaves a root
that is equal to the one that was there. -/
theorem writeAt_view_eq (t : Tree) (a : Address) :
    ∃ root, t.writeAt a .view = (t.resolve a, { t with root }) ∧
      .element root = (Item.element t.root).opened a ∧ root.equiv t.root = true := by
  have hwrite := (Element.writeAt_eq .view a t.root).trans (Item.writeAt_view_eq a _)
  obtain ⟨hanswer, hroot⟩ := Prod.ext_iff.mp hwrite
  refine ⟨(t.root.writeAt .view a).2, ?_, hroot, ?_⟩
  · rw [writeAt, resolve]
    exact Prod.ext (congrArg (Except.mapError (AddressError.mk a)) hanswer) rfl
  · obtain ⟨k, hk, halike⟩ := Node.opened_alike (.element t.root) a
    cases k with
    | text v => cases hroot.trans hk
    | element f =>
      cases hroot.trans hk
      exact Node.equiv_iff_alike.mpr halike

/-- Whatever is to be written, following an address to do so leads to the item that reading finds, or
fails with the same error. -/
theorem writeAt_fst {α : Type} (t : Tree) (a : Address) (w : Writer α) :
    (t.writeAt a w).1 = (t.resolve a).map fun it => (w.onItem it).1 := by
  have hanswer := congrArg Prod.fst (Element.writeAt_eq w a t.root)
  have hfound := hanswer.trans (Item.writeAt_fst w a (.element t.root))
  have hresult : (t.writeAt a w).1 = ((t.root.writeAt w a).1).mapError (⟨a, ·⟩) := rfl
  rw [hresult, resolve]
  refine (congrArg (Except.mapError (AddressError.mk a)) hfound).trans ?_
  cases (Item.element t.root).descend a <;> rfl

/-- Following an address to write leads where reading leads, or fails with the same error.  If nothing
is written the document is left as it was, except that a missing stylesheet that the address steps to is
there now, without rules; the root is equal to the one that was there. -/
theorem writeAt_view (t : Tree) (a : Address) :
    (∀ {α : Type} (w : Writer α),
      (t.writeAt a w).1 = (t.resolve a).map fun it => (w.onItem it).1) ∧
    (t.writeAt a .view).1 = t.resolve a ∧
    (t.writeAt a .view).2.root.equiv t.root = true ∧
    (∀ q e, q.join .shadow <+: a → t.resolve q = .ok (.element e) → e.stylesheet = none →
      .element (t.writeAt a .view).2.root
        = (Item.element t.root).putAt q (.element { e with stylesheet := some .empty })) ∧
    ((¬∃ q e, q.join .shadow <+: a ∧ t.resolve q = .ok (.element e) ∧ e.stylesheet = none) →
      (t.writeAt a .view).2 = t) := by
  obtain ⟨root, hwrite, hroot, hequiv⟩ := t.writeAt_view_eq a
  rw [hwrite]
  refine ⟨t.writeAt_fst a, rfl, hequiv, fun q e hshadow he hmissing => ?_, fun hnone => ?_⟩
  · have he := resolve_eq_ok_iff.mp he
    exact hroot.trans (Item.opened_eq_putAt ⟨hshadow, he, hmissing⟩)
  · have hself : (Item.element t.root).opened a = .element t.root :=
      Item.opened_eq_self fun q e ⟨hshadow, he, hmissing⟩ =>
        hnone ⟨q, e, hshadow, resolve_eq_ok_iff.mpr he, hmissing⟩
    cases hroot.trans hself
    rfl

/-- A rule is looked for in a missing stylesheet: there is none, but an empty stylesheet is left. -/
theorem writeAt_view_missing :
    let t : Tree := .document [.element (.bare "p")]
    let a : Address := [.child 0, .shadow, .rule 0]
    let u : Tree := .document [.element ((Element.bare "p").withStylesheet .empty)]
    (t.writeAt a .view).1 = .error ⟨a, .ruleOutOfRange 0 0⟩ ∧
      .element (t.writeAt a .view).2.root = Item.element u.root ∧
      (t.writeAt a .view).2.root.equiv t.root = true ∧ (t.writeAt [.child 0] .view).2 = t := by
  intro t a u
  obtain ⟨-, hanswer, hequiv, hmissing, -⟩ := t.writeAt_view a
  obtain ⟨-, -, -, -, hpresent⟩ := t.writeAt_view [.child 0]
  refine ⟨hanswer, ?_, hequiv, hpresent ?_⟩
  · exact hmissing [.child 0] (.bare "p") ⟨[.rule 0], rfl⟩ rfl rfl
  · rintro ⟨q, e, ⟨b, hb⟩, -⟩
    have hmem : Segment.shadow ∈ [Segment.child 0] := hb ▸ by simp [Address.join]
    cases List.mem_singleton.mp hmem

end Tree

end SynthDom
