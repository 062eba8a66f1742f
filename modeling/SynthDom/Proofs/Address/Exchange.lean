import SynthDom.Proofs.Address.PutAt

/-!
# What is written at an address

A write at an address that leads somewhere puts what the writer makes of the item there in the place of
that item, and does nothing else.  So the document reads as it has been written: the new item at the
address, everything as before elsewhere, and no trace of a write after the next one at the same address.
A stylesheet that was missing makes no difference to this, as reading has found an empty one there before.

* `Writer.exchange`: the writer that puts a given item in the place of the one it meets.
* `Item.writeAt_of_descend`, `Tree.writeAt_of_resolve`: a write in terms of `Item.putAt`.
* `Tree.writeAt_exchange`: what is found after a write, and after a second one.
-/

namespace SynthDom

/-- The writer that puts an item in the place of the one it meets, if it fits there, and answers with the
one that it met.  Of a declaration only the value is written. -/
def Writer.exchange (new : Item) : Writer Item where
  element e := (.element e, match new with | .element f => f | _ => e)
  text v := (.text v, match new with | .text w => w | _ => v)
  stylesheet s := (.stylesheet s, match new with | .stylesheet t => t | _ => s)
  rule r := (.rule r, match new with | .rule q => q | _ => r)
  declaration name v := (.declaration name v, match new with | .declaration _ w => w | _ => v)

theorem Writer.onItem_exchange {old new : Item} (h : old.Fits new) :
    (Writer.exchange new).onItem old = (old, new) := by
  cases h <;> rfl

/-- A writer has to put an item that fits. -/
theorem Writer.fits_onItem {α : Type} (w : Writer α) (it : Item) : it.Fits (w.onItem it).2 := by
  cases it <;> constructor

variable {α : Type} {a : Address}

/-- A write at an address that leads to an item puts another item there. -/
theorem Item.writeAt_of_descend {it x : Item} (w : Writer α) (h : it.descend a = .ok x) :
    it.writeAt w a = (.ok (w.onItem x).1, it.putAt a (w.onItem x).2) := by
  induction a generalizing it with
  | nil =>
    cases h
    rfl
  | cons s a ih =>
    obtain ⟨sub, hs, hsub⟩ := descend_cons_eq_ok_iff.mp h
    rw [writeAt_cons_ok hs, ih hsub, putAt_cons hs]
    rfl

namespace Tree

variable {t u : Tree} {old new : Item}

theorem eq_of_root (hroot : Item.element t.root = .element u.root) (hmodules : t.modules = u.modules) :
    t = u := by
  cases t
  cases u
  cases hroot
  cases hmodules
  rfl

/-- A write at an address that leads to an item gives the answer to this item, and its root is the old one
with another item in the place of it. -/
theorem writeAt_of_resolve (w : Writer α) (h : t.resolve a = .ok old) :
    (t.writeAt a w).1 = .ok (w.onItem old).1 ∧
      (Item.element t.root).putAt a (w.onItem old).2 = .element (t.writeAt a w).2.root := by
  have hwrite := (Element.writeAt_eq w a t.root).trans
    (Item.writeAt_of_descend w (resolve_eq_ok_iff.mp h))
  obtain ⟨hanswer, hroot⟩ := Prod.ext_iff.mp hwrite
  exact ⟨congrArg (Except.mapError (AddressError.mk a)) hanswer, hroot.symm⟩

/-- A writer that puts a given item at an address makes the document that the exchange makes. -/
theorem writeAt_eq_exchange (w : Writer α) (h : t.resolve a = .ok old) (hput : (w.onItem old).2 = new) :
    (t.writeAt a w).2 = (t.writeAt a (.exchange new)).2 := by
  have hfits : old.Fits new := hput ▸ w.fits_onItem old
  refine eq_of_root ?_ rfl
  rw [← (writeAt_of_resolve w h).2, ← (writeAt_of_resolve (.exchange new) h).2, hput,
    Writer.onItem_exchange hfits]

/-- After an item is put at an address that leads to one, by whatever writer, the address leads to the new
item, every address that has nothing to do with it leads where it led or fails as it failed, and the items
on the way keep their own data.  A second write at the address meets the new item and makes the document
that it would have made without the first one. -/
theorem writeAt_exchange (h : t.resolve a = .ok old) (hfits : old.Fits new) :
    let u := (t.writeAt a (.exchange new)).2
    (t.writeAt a (.exchange new)).1 = .ok old ∧ t.Replaced u a new ∧
      (Item.element t.root).putAt a new = .element u.root ∧
      (∀ newer, old.Fits newer →
        u.writeAt a (.exchange newer) = (.ok new, (t.writeAt a (.exchange newer)).2)) ∧
      ∀ {α : Type} (w : Writer α),
        old.Fits (w.onItem old).2 ∧ ((w.onItem old).2 = new → (t.writeAt a w).2 = u) := by
  intro u
  have hold := resolve_eq_ok_iff.mp h
  obtain ⟨hanswer, hroot⟩ := writeAt_of_resolve (.exchange new) h
  rw [Writer.onItem_exchange hfits] at hanswer hroot
  have hreplaced : t.Replaced u a new := replaced_of_putAt h hfits hroot rfl
  refine ⟨hanswer, hreplaced, hroot, fun newer hfits' => ?_, fun w =>
    ⟨w.fits_onItem old, writeAt_eq_exchange w h⟩⟩
  obtain ⟨hanswer', hroot'⟩ := writeAt_of_resolve (.exchange newer) hreplaced.here
  obtain ⟨-, hdirect⟩ := writeAt_of_resolve (.exchange newer) h
  rw [Writer.onItem_exchange (hfits.symm.trans hfits')] at hanswer' hroot'
  rw [Writer.onItem_exchange hfits'] at hdirect
  have hsame : Item.element (u.writeAt a (.exchange newer)).2.root
      = .element (t.writeAt a (.exchange newer)).2.root := by
    rw [← hroot', ← hdirect, ← hroot, Item.putAt_putAt hfits hfits' hold]
  exact Prod.ext hanswer' (eq_of_root hsame rfl)

/-- The stylesheet that a paragraph lacks is written, and emptied again. -/
theorem writeAt_exchange_missing :
    let page (sheet : Option Stylesheet) : Tree := .document [.element ⟨"p", ∅, [.text "a"], sheet⟩]
    let t := page none
    let a : Address := [.child 0, .shadow]
    let sheet : Stylesheet := ⟨[.style ".b" ∅]⟩
    let u := (t.writeAt a (.exchange (.stylesheet sheet))).2
    t.resolve a = .ok (.stylesheet .empty) ∧ (Item.stylesheet .empty).Fits (.stylesheet sheet) ∧
      u = page (some sheet) ∧ t.Replaced u a (.stylesheet sheet) ∧
      u.resolve [.child 0, .child 1] = t.resolve [.child 0, .child 1] ∧
      u.writeAt a (.exchange (.stylesheet .empty)) = (.ok (.stylesheet sheet), page (some .empty)) := by
  intro page t a sheet u
  have h : t.resolve a = .ok (.stylesheet .empty) := rfl
  have hfits : (Item.stylesheet .empty).Fits (.stylesheet sheet) := .stylesheet _ _
  obtain ⟨-, hreplaced, -, hsecond, -⟩ := writeAt_exchange h hfits
  refine ⟨h, hfits, rfl, hreplaced, hreplaced.elsewhere _ ⟨?_, ?_⟩, hsecond _ (.refl _)⟩ <;> simp [a]

end Tree

end SynthDom
