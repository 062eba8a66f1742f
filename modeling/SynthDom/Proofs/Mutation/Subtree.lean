import SynthDom.Proofs.Address.View
import SynthDom.Proofs.Mutation.Frame
import SynthDom.Proofs.Mutation.OneNode

/-!
# Patching a part of a document

Mutations with the address of an element in front of their targets do to this element what they do, as
they are, to a document of which it is the root.  This holds for one mutation, as following an address is
following its first part and then the rest, and for a list of them, as each leaves the document with
another element in the same place.  If one of them does not apply it is the same one in both documents, and
the errors differ in the front of their addresses only.

* `PatchError.under`: the error in a document of which the patched one is a part.
* `Tree.FailsAt`: the first mutation of a list that does not apply, by position.
* `Tree.patch_under`, `Tree.patchAll_map_under`: the outcome for the whole from the one for the part.
* `Tree.patchAll_under`: when both are carried out, with what result, and how both fail.
-/

namespace SynthDom

/-- The error in a document in which the one that it is about sits at the address `a`. -/
def PatchError.under (a : Address) : PatchError → PatchError
  | .address e => .address ⟨a ++ e.address, e.reason⟩
  | .shape e => .shape ⟨a ++ e.address, e.expected, e.found⟩

theorem ActionFault.at_append (f : ActionFault) (a b : Address) : f.at (a ++ b) = (f.at b).under a := by
  cases f <;> rfl

namespace Except

variable {ε ε' α β : Type} {x : Except ε α} {f : α → β} {g : ε → ε'}

theorem mapError_map_eq_ok_iff {b : β} : (x.map f).mapError g = .ok b ↔ ∃ a, x = .ok a ∧ b = f a := by
  cases x <;> simp [Except.map, Except.mapError, eq_comm]

theorem mapError_map_eq_error_iff {e : ε'} :
    (x.map f).mapError g = .error e ↔ ∃ e', x = .error e' ∧ e = g e' := by
  cases x <;> simp [Except.map, Except.mapError, eq_comm]

end Except

/-- An element put in its own place changes nothing. -/
theorem Item.putAt_self {it : Item} {p : Address} {e : Element} (h : it.descend p = .ok (.element e)) :
    it.putAt p (.element e) = it := by
  induction p generalizing it with
  | nil =>
    cases h
    rfl
  | cons s p ih =>
    obtain ⟨sub, hs, hsub⟩ := descend_cons_eq_ok_iff.mp h
    rw [putAt_cons hs, ih hsub]
    refine put_self hs ?_
    -- the way to an element does not lead through a stylesheet
    rintro _ rfl rfl
    cases hs
    obtain ⟨f, hf⟩ := element_of_descend hsub
    cases hf

namespace Tree

variable {t u : Tree} {p : Address} {e : Element}

/-! ## Elements in the place of others -/

theorem element_root_setNode (h : t.resolve p = .ok (.element e)) (f : Element) :
    (Item.element t.root).putAt p (.element f) = .element (t.setNode p (.element f)).root := by
  have hfits := Item.fits_putAt (.element e f) (resolve_eq_ok_iff.mp h)
  rw [setNode, Node.item]
  generalize (Item.element t.root).putAt p (.element f) = root at hfits ⊢
  cases hfits
  rfl

theorem replaced_setNode (h : t.resolve p = .ok (.element e)) (f : Element) :
    t.Replaced (t.setNode p (.element f)) p (.element f) :=
  replaced_of_putAt h (.element e f) (element_root_setNode h f) rfl

theorem setNode_self (h : t.resolve p = .ok (.element e)) : t.setNode p (.element e) = t := by
  have hself := Item.putAt_self (resolve_eq_ok_iff.mp h)
  rw [setNode, Node.item, hself]
  rfl

theorem setNode_setNode (h : t.resolve p = .ok (.element e)) (f g : Element) :
    (t.setNode p (.element f)).setNode p (.element g) = t.setNode p (.element g) := by
  have hsame := Item.putAt_putAt (.element e f) (.element e g) (resolve_eq_ok_iff.mp h)
  rw [element_root_setNode h f, element_root_setNode (replaced_setNode h f).here g,
    element_root_setNode h g] at hsame
  exact congrArg (fun root => { t with root }) (Item.element.inj hsame)

/-! ## Outcomes -/

/-- A mutation of a part does to the part what it does to a document of it. -/
theorem patch_under (h : t.resolve p = .ok (.element u.root)) (m : Mutation) :
    t.patch (m.under p)
      = ((u.patch m).map fun v => t.setNode p (.element v.root)).mapError (.under p) := by
  have hwhole : (Item.element t.root).act m.action (p ++ m.target)
      = ((Item.element u.root).act m.action m.target).map ((Item.element t.root).putAt p) :=
    Item.act_append (resolve_eq_ok_iff.mp h) m.target
  rcases u.act_root_cases m with ⟨root, hact⟩ | ⟨f, hact⟩
  · have hroot : (Item.element t.root).act m.action (p ++ m.target)
        = .ok (.element (t.setNode p (.element root)).root) := by
      rw [hwhole, hact, ← element_root_setNode h root]
      rfl
    rw [patch_of_act_ok hact, patch_of_act_ok (m := m.under p) hroot]
    rfl
  · have hfault : (Item.element t.root).act m.action (p ++ m.target) = .error f := by
      rw [hwhole, hact]
      rfl
    rw [patch_of_act_error hact, patch_of_act_error (m := m.under p) hfault, Mutation.target_under,
      ActionFault.at_append]
    rfl

/-- So do a list of mutations. -/
theorem patchAll_map_under (h : t.resolve p = .ok (.element u.root)) (ms : List Mutation) :
    t.patchAll (ms.map (.under p))
      = ((u.patchAll ms).map fun v => t.setNode p (.element v.root)).mapError (.under p) := by
  induction ms generalizing t u with
  | nil =>
    rw [List.map_nil, patchAll_nil, patchAll_nil, Except.map, setNode_self h]
    rfl
  | cons m ms ih =>
    rw [List.map_cons, patchAll_cons, patchAll_cons, patch_under h m]
    cases u.patch m with
    | error err => rfl
    | ok v =>
      have hrest := ih (replaced_setNode h v.root).here
      simp only [setNode_setNode h] at hrest
      exact hrest

/-! ## Failures -/

/-- The mutation at a position of a list does not apply, for an error, after those before it have been
carried out. -/
def FailsAt (t : Tree) (ms : List Mutation) (i : Nat) (err : PatchError) : Prop :=
  ∃ m u, ms[i]? = some m ∧ t.patchAll (ms.take i) = .ok u ∧ u.patch m = .error err

theorem failsAt_zero_iff {m : Mutation} {ms : List Mutation} {err : PatchError} :
    t.FailsAt (m :: ms) 0 err ↔ t.patch m = .error err := by
  simp [FailsAt]

theorem failsAt_succ_iff {m : Mutation} {ms : List Mutation} {i : Nat} {err : PatchError} :
    t.FailsAt (m :: ms) (i + 1) err ↔ ∃ u, t.patch m = .ok u ∧ u.FailsAt ms i err := by
  simp only [FailsAt, List.getElem?_cons_succ, List.take_succ_cons, patchAll_cons]
  cases t.patch m <;> simp [Except.bind]

/-- A list of mutations is refused for the error of the first that does not apply. -/
theorem patchAll_eq_error_iff {ms : List Mutation} {err : PatchError} :
    t.patchAll ms = .error err ↔ ∃ i, t.FailsAt ms i err := by
  induction ms generalizing t with
  | nil => simp [FailsAt]
  | cons m ms ih =>
    rw [← Nat.or_exists_add_one, failsAt_zero_iff, patchAll_cons]
    simp only [failsAt_succ_iff]
    cases t.patch m <;> simp [Except.bind, ih]

theorem failsAt_map_under_iff (h : t.resolve p = .ok (.element u.root)) {ms : List Mutation} {i : Nat}
    {err : PatchError} :
    t.FailsAt (ms.map (.under p)) i err ↔ ∃ err', u.FailsAt ms i err' ∧ err = err'.under p := by
  simp only [FailsAt, List.getElem?_map, ← List.map_take, patchAll_map_under h,
    Except.mapError_map_eq_ok_iff, Option.map_eq_some_iff]
  constructor
  · rintro ⟨_, _, ⟨m, hm, rfl⟩, ⟨v, hv, rfl⟩, herror⟩
    rw [patch_under (replaced_setNode h v.root).here m, Except.mapError_map_eq_error_iff] at herror
    obtain ⟨err', herr', rfl⟩ := herror
    exact ⟨err', ⟨m, v, hm, hv, herr'⟩, rfl⟩
  · rintro ⟨err', ⟨m, v, hm, hv, herr'⟩, rfl⟩
    refine ⟨_, _, ⟨m, hm, rfl⟩, ⟨v, hv, rfl⟩, ?_⟩
    rw [patch_under (replaced_setNode h v.root).here m, herr']
    rfl

/-! ## Parts -/

/-- Mutations of an element of a document, their targets led to by its address, are carried out exactly if
they are, as they stand, on the document of this element.  The result is the document with the result of
that one's root in the place of the element, and nothing else changes.  If they are refused it is for the
same mutation, and for the same reason or the same kinds, at the address of the part's error seen from the
whole. -/
theorem patchAll_under (h : t.resolve p = .ok (.element e)) (ms : List Mutation) :
    let part : Tree := ⟨e, []⟩
    ((∃ t', t.patchAll (ms.map (.under p)) = .ok t') ↔ ∃ part', part.patchAll ms = .ok part') ∧
    (∀ part', part.patchAll ms = .ok part' →
      t.patchAll (ms.map (.under p)) = .ok (t.setNode p (.element part'.root)) ∧
      t.Replaced (t.setNode p (.element part'.root)) p (.element part'.root)) ∧
    (∀ err, t.patchAll (ms.map (.under p)) = .error err ↔
      ∃ err', part.patchAll ms = .error err' ∧ err = err'.under p) ∧
    ∀ i err, t.FailsAt (ms.map (.under p)) i err ↔
      ∃ err', part.FailsAt ms i err' ∧ err = err'.under p := by
  intro part
  have hall := patchAll_map_under (u := part) h ms
  refine ⟨⟨?_, ?_⟩, fun part' hpart => ⟨?_, replaced_setNode h part'.root⟩, fun err => ?_,
    fun i err => failsAt_map_under_iff h⟩
  · rintro ⟨t', ht'⟩
    obtain ⟨part', hpart, -⟩ := Except.mapError_map_eq_ok_iff.mp (hall.symm.trans ht')
    exact ⟨part', hpart⟩
  · rintro ⟨part', hpart⟩
    exact ⟨_, hall.trans (Except.mapError_map_eq_ok_iff.mpr ⟨part', hpart, rfl⟩)⟩
  · exact hall.trans (Except.mapError_map_eq_ok_iff.mpr ⟨part', hpart, rfl⟩)
  · simp only [patchAll_eq_error_iff, failsAt_map_under_iff (u := part) h]
    rw [exists_comm]
    simp only [exists_and_right]

/-- A paragraph takes a rule and another text; the text behind that one is missing in it and in the
document. -/
theorem patchAll_under_paragraph :
    let rule : Rule := .style ".b" ∅
    let paragraph (text : String) (sheet : Option Stylesheet) : Element := ⟨"p", ∅, [.text text], sheet⟩
    let page (e : Element) : Tree := ⟨⟨"body", ∅, [.text "x", .element e], none⟩, ["m"]⟩
    let t := page (paragraph "a" none)
    let p : Address := [.child 1]
    let ms (i : Nat) : List Mutation :=
      [⟨[.shadow], .insertChild 0 (.rule rule) true⟩, ⟨[.child i], .setText "c" none⟩]
    let err : PatchError := .address ⟨[.child 1], .childOutOfRange 1 1⟩
    t.resolve p = .ok (.element (paragraph "a" none)) ∧
      t.patchAll ((ms 0).map (.under p)) = .ok (page (paragraph "c" (some ⟨[rule]⟩))) ∧
      t.Replaced (page (paragraph "c" (some ⟨[rule]⟩))) p (.element (paragraph "c" (some ⟨[rule]⟩))) ∧
      t.FailsAt ((ms 1).map (.under p)) 1 (err.under p) ∧
      err.under p = .address ⟨[.child 1, .child 1], .childOutOfRange 1 1⟩ := by
  intro rule paragraph page t p ms err
  have h : t.resolve p = .ok (.element (paragraph "a" none)) := rfl
  obtain ⟨-, hdone, -, -⟩ := patchAll_under h (ms 0)
  obtain ⟨-, -, -, hfails⟩ := patchAll_under h (ms 1)
  have hpart : (Tree.mk (paragraph "a" none) []).patchAll (ms 0)
      = .ok ⟨paragraph "c" (some ⟨[rule]⟩), []⟩ := rfl
  obtain ⟨hpatched, hreplaced⟩ := hdone _ hpart
  exact ⟨h, hpatched, hreplaced, (hfails 1 _).mpr ⟨err, ⟨_, _, rfl, rfl, rfl⟩, rfl⟩, rfl⟩

end Tree

end SynthDom
