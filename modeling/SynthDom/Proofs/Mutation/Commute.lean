import SynthDom.Proofs.Mutation.Frame

/-!
# Mutations of different places commute

Two mutations are independent if neither of their targets starts with the other.  Then each of them meets
the same item, whether the other has been carried out or not, and does the same to it: it is refused in
both cases, for the same reason, or carried out in both.  And the document with both changes does not
tell which of them came first, not even by the stylesheets that were made on the way.

* `Tree.patch_error_of_resolve_eq`: a refusal depends on nothing but what the target leads to.
* `Tree.patch_of_incomparable`: two mutations that are carried out can be carried out in either order.
* `Tree.patch_comm`: what an independent mutation changes for another one, which is nothing.
-/

namespace SynthDom

theorem Address.incomparable_iff_startsWith {a b : Address} :
    a.Incomparable b ↔ a.startsWith b = false ∧ b.startsWith a = false := by
  rw [Incomparable, ← startsWith_iff, ← startsWith_iff, Bool.not_eq_true, Bool.not_eq_true, and_comm]

namespace Tree

variable {t u v : Tree} {m n : Mutation}

/-- A refusal depends on nothing but what the target leads to. -/
theorem patch_error_of_resolve_eq {e : PatchError} (h : u.resolve n.target = t.resolve n.target)
    (herror : t.patch n = .error e) : u.patch n = .error e := by
  rcases refusal_of_patch_error herror with ⟨e', he', rfl⟩ | ⟨it, f, hit, hf, rfl⟩
  · exact patch_of_resolve_error (h.trans he')
  · exact patch_of_refused (h.trans hit) hf

/-- An item put into a document in the place of one that it fits leaves it a document. -/
theorem exists_putAt {a : Address} {old new : Item} (h : t.resolve a = .ok old) (hfits : old.Fits new) :
    ∃ root, (Item.element t.root).putAt a new = .element root := by
  have hroot := Item.fits_putAt hfits (resolve_eq_ok_iff.mp h)
  generalize (Item.element t.root).putAt a new = x at hroot ⊢
  cases hroot with
  | element _ root => exact ⟨root, rfl⟩

/-- Two mutations of different places that are carried out on a document can be carried out one after
the other, in either order, with the same outcome. -/
theorem patch_of_incomparable (h : m.target.Incomparable n.target) (hm : t.patch m = .ok u)
    (hn : t.patch n = .ok v) : ∃ w, u.patch n = .ok w ∧ v.patch m = .ok w := by
  obtain ⟨old, new, hold, hdone, hput, hmodules⟩ := patch_eq_ok_iff.mp hm
  obtain ⟨old', new', hold', hdone', hput', hmodules'⟩ := patch_eq_ok_iff.mp hn
  have hfits : old.Fits new := (Item.sameHead_onItem hdone.onItem_eq).fits
  have hfits' : old'.Fits new' := (Item.sameHead_onItem hdone'.onItem_eq).fits
  have hmeets' : u.resolve n.target = .ok old' := ((framed_of_patch hm).elsewhere _ h).trans hold'
  have hmeets : v.resolve m.target = .ok old := ((framed_of_patch hn).elsewhere _ h.symm).trans hold
  obtain ⟨root, hroot⟩ := exists_putAt hmeets' hfits'
  have hswap : (Item.element v.root).putAt m.target new = .element root := by
    have hcomm := Item.putAt_comm h (resolve_eq_ok_iff.mp hold) (resolve_eq_ok_iff.mp hold') hfits hfits'
    rw [hput, hput', hroot] at hcomm
    exact hcomm.symm
  refine ⟨{ t with root }, ?_, ?_⟩
  · exact patch_eq_ok_iff.mpr ⟨old', new', hmeets', hdone', hroot, hmodules.symm⟩
  · exact patch_eq_ok_iff.mpr ⟨old, new, hmeets, hdone, hswap, hmodules'.symm⟩

/-- After a mutation, one whose target neither starts with that of the first nor the other way round is
carried out if it is on the document as it was, and refused with the same error if it is refused there.
If it is carried out, the order of the two makes no difference to the outcome. -/
theorem patch_comm (t u : Tree) (m n : Mutation) (hmn : m.target.startsWith n.target = false)
    (hnm : n.target.startsWith m.target = false) (hm : t.patch m = .ok u) :
    ((∃ v, t.patch n = .ok v) ↔ ∃ w, u.patch n = .ok w) ∧
    (∀ e, t.patch n = .error e ↔ u.patch n = .error e) ∧
    ∀ v, t.patch n = .ok v → ∃ w, u.patch n = .ok w ∧ v.patch m = .ok w := by
  have h : m.target.Incomparable n.target := Address.incomparable_iff_startsWith.mpr ⟨hmn, hnm⟩
  have hsame : u.resolve n.target = t.resolve n.target := (framed_of_patch hm).elsewhere _ h
  have herror (e : PatchError) : t.patch n = .error e ↔ u.patch n = .error e :=
    ⟨patch_error_of_resolve_eq hsame, patch_error_of_resolve_eq hsame.symm⟩
  refine ⟨⟨?_, ?_⟩, herror, fun v hn => patch_of_incomparable h hm hn⟩
  · rintro ⟨v, hn⟩
    obtain ⟨w, hw, -⟩ := patch_of_incomparable h hm hn
    exact ⟨w, hw⟩
  · rintro ⟨w, hw⟩
    cases hn : t.patch n with
    | ok v => exact ⟨v, rfl⟩
    | error e => cases hw.symm.trans ((herror e).mp hn)

/-- A rule goes into the missing stylesheet of a paragraph whose text is changed, before or after; and a
second text of it is missing before and after. -/
theorem patch_comm_paragraph :
    let page (text : String) (sheet : Option Stylesheet) : Tree :=
      .document [.element ⟨"p", ∅, [.text text], sheet⟩]
    let rule : Rule := .style ".a" ∅
    let m : Mutation := ⟨[.child 0, .shadow], .insertChild 0 (.rule rule) true⟩
    let n (i : Nat) : Mutation := ⟨[.child 0, .child i], .setText "b" none⟩
    let e : PatchError := .address ⟨[.child 0, .child 1], .childOutOfRange 1 1⟩
    (page "a" none).patch m = .ok (page "a" (some ⟨[rule]⟩)) ∧
      (page "a" none).patch (n 0) = .ok (page "b" none) ∧
      (page "a" (some ⟨[rule]⟩)).patch (n 0) = .ok (page "b" (some ⟨[rule]⟩)) ∧
      (page "b" none).patch m = .ok (page "b" (some ⟨[rule]⟩)) ∧
      (page "a" none).patch (n 1) = .error e ∧ (page "a" (some ⟨[rule]⟩)).patch (n 1) = .error e := by
  intro page rule m n e
  have hm : (page "a" none).patch m = .ok (page "a" (some ⟨[rule]⟩)) := rfl
  obtain ⟨-, -, hswap⟩ := patch_comm _ _ m (n 0) rfl rfl hm
  obtain ⟨-, herror, -⟩ := patch_comm _ _ m (n 1) rfl rfl hm
  obtain ⟨w, hw, hw'⟩ := hswap (page "b" none) rfl
  have hboth : (page "a" (some ⟨[rule]⟩)).patch (n 0) = .ok (page "b" (some ⟨[rule]⟩)) := rfl
  obtain rfl : w = page "b" (some ⟨[rule]⟩) := Except.ok.inj (hw.symm.trans hboth)
  exact ⟨hm, rfl, hw, hw', rfl, (herror e).mp rfl⟩

end Tree

end SynthDom
