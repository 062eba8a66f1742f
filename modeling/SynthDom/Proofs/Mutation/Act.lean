import SynthDom.Mutation.Patch
import SynthDom.Proofs.Address.Replace

/-!
# Mutations as actions on items

What `Tree.patch` does with a writer, item by item, is a recursion over the address: an action is
carried out on the item that the address leads to, and the outcome is put back step by step.  This
is `Item.act`, a function of the mutation and an item of any kind, and all that is proved about
patching is proved about it.

* `Action.onItem`, `Item.act`: an action on an item, and at an address that starts from an item.
* `Item.sameHead_act`: what an action leaves is an item with the head of the one it met.
* `patch_of_act_ok`, `patch_of_act_error`: patching a document is acting on its root.
-/

namespace SynthDom

theorem Except.map_eq_ok_iff {ε α β : Type} {x : Except ε α} {f : α → β} {b : β} :
    x.map f = .ok b ↔ ∃ a, x = .ok a ∧ f a = b := by
  cases x <;> simp [Except.map]

theorem Except.map_eq_error_iff {ε α β : Type} {x : Except ε α} {f : α → β} {e : ε} :
    x.map f = .error e ↔ x = .error e := by
  cases x <;> simp [Except.map]

/-! ## The outcome of a write -/

/-- What an action at an address comes to: the new whole, or why there is none. -/
def Written.outcome {β : Type} : Written (Acted Unit) β → Acted β
  | (.ok (.ok ()), x) => .ok x
  | (.ok (.error f), _) => .error f
  | (.error r, _) => .error (.reason r)

theorem Written.outcome_inside {β γ : Type} (w : Written (Acted Unit) β) (put : β → γ) :
    (w.inside put).outcome = w.outcome.map put := by
  obtain ⟨(_ | _ | _), x⟩ := w <;> rfl

theorem Written.outcome_found_write {β γ : Type} (old : β) (r : Acted β) (own : β → γ) :
    Written.outcome (Written.found ((Acted.write old r).1, own (Acted.write old r).2))
      = r.map own := by
  cases r <;> rfl

/-! ## Acting on an item -/

/-- An action on an item of any kind. -/
def Action.onItem (a : Action) : Item → Acted Item
  | .element e => (a.onElement e).map .element
  | .text v => (a.onText v).map .text
  | .stylesheet s => (a.onRules .stylesheet s.rules).map fun rules => .stylesheet ⟨rules⟩
  | .rule r => (a.onRule r).map .rule
  | .declaration _ _ => a.mismatch .declaration

/-- An action at an address that starts from an item. -/
def Item.act (a : Action) : Address → Item → Acted Item
  | [], it => a.onItem it
  | s :: b, it =>
    match it.step s with
    | .ok sub => (Item.act a b sub).map (it.put s)
    | .error r => .error (.reason r)

namespace Item

variable {a : Action} {b : Address} {s : Segment} {it sub it' : Item}

@[simp] theorem act_nil (a : Action) (it : Item) : it.act a [] = a.onItem it := rfl

theorem act_cons_ok (h : it.step s = .ok sub) :
    it.act a (s :: b) = (sub.act a b).map (it.put s) := by
  rw [act, h]

theorem act_cons_error {r : Reason} (h : it.step s = .error r) :
    it.act a (s :: b) = .error (.reason r) := by
  rw [act, h]

/-- Nothing can be done to a declaration or beyond it, whatever it says. -/
theorem act_declaration (a : Action) (b : Address) :
    ∃ f, ∀ name v, (Item.declaration name v).act a b = .error f := by
  cases b with
  | nil => exact ⟨_, fun _ _ => rfl⟩
  | cons s b => exact ⟨_, fun name v => act_cons_error (by cases s <;> rfl)⟩

/-- The writer of an action does what the action does to an item. -/
theorem outcome_onItem (a : Action) (it : Item) :
    Written.outcome (Written.found (a.writer.onItem it)) = a.onItem it := by
  cases it with
  | element e => exact Written.outcome_found_write e (a.onElement e) Item.element
  | text v => exact Written.outcome_found_write v (a.onText v) Item.text
  | stylesheet t =>
    have h := Written.outcome_found_write t
      ((a.onRules .stylesheet t.rules).map Stylesheet.mk) Item.stylesheet
    refine h.trans ?_
    rw [Action.onItem]
    cases a.onRules .stylesheet t.rules <;> rfl
  | rule r => exact Written.outcome_found_write r (a.onRule r) Item.rule
  | declaration name v => rfl

/-- The writer of an action, at an address, does what the action does there. -/
theorem outcome_writeAt (a : Action) (b : Address) (it : Item) :
    (it.writeAt a.writer b).outcome = it.act a b := by
  induction b generalizing it with
  | nil => exact outcome_onItem a it
  | cons s b ih =>
    cases h : it.step s with
    | error r => rw [writeAt_cons_error h, act_cons_error h]; rfl
    | ok sub => rw [writeAt_cons_ok h, act_cons_ok h, Written.outcome_inside, ih]

/-- An action on an element leaves its tag. -/
theorem tag_onElement {e f : Element} (h : a.onElement e = .ok f) : e.tag = f.tag := by
  unfold Action.onElement at h
  split at h
  case h_1 | h_2 =>
    obtain ⟨_, -, rfl⟩ := Except.map_eq_ok_iff.mp h
    rfl
  case h_3 =>
    split at h
    · obtain ⟨_, -, rfl⟩ := Except.map_eq_ok_iff.mp h
      rfl
    · cases h

/-- An action on a rule leaves its header. -/
theorem sameHeader_onRule {r q : Rule} (h : a.onRule r = .ok q) : r.sameHeader q = true := by
  cases r with
  | style | keyframeStep | condition =>
    obtain ⟨_, -, rfl⟩ := Except.map_eq_ok_iff.mp h
    simp [Rule.sameHeader]

/-- An action leaves the head of the item it meets. -/
theorem sameHead_onItem (h : a.onItem it = .ok it') : it.SameHead it' := by
  cases it with
  | element e =>
    obtain ⟨f, hf, rfl⟩ := Except.map_eq_ok_iff.mp h
    exact .element (tag_onElement hf)
  | text v =>
    obtain ⟨w, -, rfl⟩ := Except.map_eq_ok_iff.mp h
    exact .text v w
  | stylesheet t =>
    obtain ⟨rules, -, rfl⟩ := Except.map_eq_ok_iff.mp h
    exact .stylesheet t ⟨rules⟩
  | rule r =>
    obtain ⟨q, hq, rfl⟩ := Except.map_eq_ok_iff.mp h
    exact .rule (sameHeader_onRule hq)
  | declaration => cases h

/-- An action at an address leaves the head of the item it starts from. -/
theorem sameHead_act (h : it.act a b = .ok it') : it.SameHead it' := by
  cases b with
  | nil => exact sameHead_onItem h
  | cons s b =>
    cases hs : it.step s with
    | error r => rw [act_cons_error hs] at h; cases h
    | ok sub =>
      rw [act_cons_ok hs] at h
      obtain ⟨sub', -, rfl⟩ := Except.map_eq_ok_iff.mp h
      exact sameHead_put it s sub'

/-- An action at an address leaves an item that may be written where the old one was. -/
theorem fits_act (h : it.act a b = .ok it') : it.Fits it' := (sameHead_act h).fits

end Item

/-! ## Patching a document -/

/-- Acting on the root of a document is writing to it. -/
theorem Item.act_element (a : Action) (b : Address) (e : Element) :
    (Item.element e).act a b = (e.writeAt a.writer b).outcome.map .element := by
  rw [← Item.outcome_writeAt, ← Element.writeAt_eq, Written.outcome_inside]

namespace Tree

variable {t : Tree} {m : Mutation}

/-- A mutation that can be carried out on the root gives the document with the new root. -/
theorem patch_of_act_ok {root : Element}
    (h : (Item.element t.root).act m.action m.target = .ok (.element root)) :
    t.patch m = .ok { t with root } := by
  rw [Item.act_element, Except.map_eq_ok_iff] at h
  obtain ⟨e, he, heq⟩ := h
  cases heq
  rw [patch, writeAt]
  generalize hw : t.root.writeAt m.action.writer m.target = w at he
  obtain ⟨(_ | _ | _), x⟩ := w <;> cases he
  rfl

/-- A mutation that cannot be carried out on the root is refused for that reason, at its target. -/
theorem patch_of_act_error {f : ActionFault}
    (h : (Item.element t.root).act m.action m.target = .error f) :
    t.patch m = .error (f.at m.target) := by
  rw [Item.act_element] at h
  rw [patch, writeAt]
  generalize hw : t.root.writeAt m.action.writer m.target = w at h
  rw [Except.map_eq_error_iff] at h
  obtain ⟨(_ | _ | _), x⟩ := w <;> cases h <;> rfl

/-- What acting on the root of a document comes to. -/
theorem act_root_cases (t : Tree) (m : Mutation) :
    (∃ root, (Item.element t.root).act m.action m.target = .ok (.element root)) ∨
      ∃ f, (Item.element t.root).act m.action m.target = .error f := by
  cases h : (Item.element t.root).act m.action m.target with
  | error f => exact .inr ⟨f, rfl⟩
  | ok it =>
    cases Item.fits_act h with
    | element _ root => exact .inl ⟨root, rfl⟩

end Tree

end SynthDom
