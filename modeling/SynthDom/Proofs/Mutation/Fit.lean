import Mathlib.Data.List.Induction
import SynthDom.Mutation.Diff
import SynthDom.Proofs.Mutation.Act
import SynthDom.Proofs.PropertyList.Sync

/-!
# Mutations that fit

A mutation fits the item it meets if all that it says of it is so: the old values it records are
there, names to be inserted are not, indexes lie within the list, and there is something to change.
A step of a diff is a mutation that fits and is carried out.

* `Action.Apt`, `Mutation.Step`: an action that fits an item; a mutation that fits, and its outcome.
* `Item.SameWay`, `Mutation.StepFrom`: a step whose target is reached past the same heads as in the
  item that the diff starts from.
* `Mutation.Step.under`, `Run.under`: steps of a part are steps of the whole.
* `Owner`: what a list of rules and a list of children have in common, which is all that the
  positional part of a diff needs.  `run_replacement`, `run_truncation` and `run_extension` are
  about any owner.
* `Tree.patchAll_of_run`: a run from the root is a successful patch.
-/

namespace SynthDom

/-! ## Actions that fit -/

/-- An action fits an item. -/
inductive Action.Apt : Action → Item → Prop
  /-- The text is the recorded one, and becomes another. -/
  | text {old new : String} : old ≠ new → Apt (.setText new (some old)) (.text old)
  /-- The change fits the attributes. -/
  | attribute {c : PropertyList.Change} {e : Element} :
      c.Apt e.attributes → Apt (attributeAction c) (.element e)
  /-- The change fits the declarations of a style rule or keyframe step. -/
  | declaration {c : PropertyList.Change} {r : Rule} {ds : PropertyList} :
      r.declarations? = some ds → c.Apt ds → Apt (declarationAction c) (.rule r)
  /-- There is room for a child at the index. -/
  | insertNode {e : Element} {i : Nat} (n : Node) :
      i ≤ e.children.length → Apt (.insertChild i (.node n) true) (.element e)
  /-- There is room for a rule at the index of a stylesheet. -/
  | insertRule {t : Stylesheet} {i : Nat} (r : Rule) :
      i ≤ t.rules.length → Apt (.insertChild i (.rule r) true) (.stylesheet t)
  /-- There is room for a rule at the index of a condition rule. -/
  | insertNested {k : ConditionKind} {c : String} {rules : List Rule} {i : Nat} (r : Rule) :
      i ≤ rules.length → Apt (.insertChild i (.rule r) true) (.rule (.condition k c rules))
  /-- There is a child at the index. -/
  | removeNode {e : Element} {i : Nat} : i < e.children.length → Apt (.removeChild i) (.element e)
  /-- There is a rule at the index of a stylesheet. -/
  | removeRule {t : Stylesheet} {i : Nat} :
      i < t.rules.length → Apt (.removeChild i) (.stylesheet t)
  /-- There is a rule at the index of a condition rule. -/
  | removeNested {k : ConditionKind} {c : String} {rules : List Rule} {i : Nat} :
      i < rules.length → Apt (.removeChild i) (.rule (.condition k c rules))

namespace Mutation

/-- A mutation fits the item that its target leads to. -/
def Apt (m : Mutation) (it : Item) : Prop :=
  ∃ sub, it.descend m.target = .ok sub ∧ m.action.Apt sub

/-- A mutation that fits an item, and what it makes of it. -/
def Step (m : Mutation) (it it' : Item) : Prop :=
  m.Apt it ∧ it.act m.action m.target = .ok it'

theorem Step.fits {m : Mutation} {it it' : Item} (h : m.Step it it') : it.Fits it' :=
  Item.fits_act h.2

/-- A mutation of an item itself. -/
theorem step_here {a : Action} {it it' : Item} (hapt : a.Apt it) (h : a.onItem it = .ok it') :
    Step ⟨[], a⟩ it it' :=
  ⟨⟨it, rfl, hapt⟩, h⟩

/-- A step of a part is one of the whole. -/
theorem Step.under {m : Mutation} {it sub sub' : Item} {s : Segment} (h : m.Step sub sub')
    (hs : it.step s = .ok sub) : (m.under [s]).Step it (it.put s sub') := by
  obtain ⟨⟨target, htarget, hapt⟩, hact⟩ := h
  refine ⟨⟨target, ?_, hapt⟩, ?_⟩
  · rw [target_under, List.singleton_append, Item.descend_cons, hs]
    exact htarget
  · rw [target_under, List.singleton_append, action_under, Item.act_cons_ok hs, hact]
    rfl

end Mutation

/-! ## Steps of a diff -/

/-- Along an address two items lead to items with the same heads. -/
def Item.SameWay (it jt : Item) : Address → Prop
  | [] => it.SameHead jt
  | s :: a => it.SameHead jt ∧ ∃ x y, it.step s = .ok x ∧ jt.step s = .ok y ∧ x.SameWay y a

/-- A step in the course of changing `origin`: the way to its target has the heads that it has in
`origin`, whatever the mutations before it have done. -/
def Mutation.StepFrom (origin : Item) (m : Mutation) (it it' : Item) : Prop :=
  m.Step it it' ∧ origin.SameWay it m.target

/-- A step of a part in the course of changing a part is one of the whole. -/
theorem Mutation.StepFrom.under {m : Mutation} {origin x it sub sub' : Item} {s : Segment}
    (h : m.StepFrom x sub sub') (hx : origin.step s = .ok x) (hs : it.step s = .ok sub)
    (hhead : origin.SameHead it) : (m.under [s]).StepFrom origin it (it.put s sub') :=
  ⟨h.1.under hs, hhead, x, sub, hx, hs, h.2⟩

namespace Run

variable {ms : List Mutation} {origin it it' : Item}

/-- A run leaves the head of the item it starts from. -/
theorem sameHead (h : Run Mutation.Step ms it it') : it.SameHead it' := by
  induction h with
  | nil it => exact .refl it
  | cons hstep _ ih => exact (Item.sameHead_act hstep.2).trans ih

/-- The steps of a run, apart from where it comes from. -/
theorem steps (h : Run (Mutation.StepFrom origin) ms it it') : Run Mutation.Step ms it it' :=
  h.imp fun _ _ _ hstep => hstep.1

/-- A run of mutations of an item itself needs nothing of the way to it. -/
theorem here (h : Run Mutation.Step ms it it') (hms : ∀ m ∈ ms, m.target = [])
    (hhead : origin.SameHead it) : Run (Mutation.StepFrom origin) ms it it' := by
  induction h with
  | nil it => exact .nil it
  | @cons m ms it it₁ it₂ hstep _ ih =>
    have hway : origin.SameWay it m.target := by
      rw [hms m List.mem_cons_self]
      exact hhead
    refine .cons ⟨hstep, hway⟩ (ih (fun m' h => hms m' (List.mem_cons_of_mem _ h)) ?_)
    exact hhead.trans (Item.sameHead_act hstep.2)

/-- A run of a part is one of the whole.  If nothing is done, the part must be there already: a step
to a missing stylesheet leads to a part that is put in only by a mutation. -/
theorem under {x sub sub' : Item} {s : Segment} (h : Run (Mutation.StepFrom x) ms sub sub')
    (hx : origin.step s = .ok x) (hs : it.step s = .ok sub) (hhead : origin.SameHead it)
    (hpresent : ms = [] → it.put s sub = it) :
    Run (Mutation.StepFrom origin) (ms.map (Mutation.under [s])) it (it.put s sub') := by
  induction h generalizing it with
  | nil sub =>
    rw [hpresent rfl]
    exact .nil it
  | @cons m ms sub sub₁ sub₂ hstep hrun ih =>
    have hfits : sub.Fits sub₁ := hstep.1.fits
    have hs₁ : (it.put s sub₁).step s = .ok sub₁ := Item.step_put hs hfits
    have hself : (it.put s sub₁).put s sub₁ = it.put s sub₁ := Item.put_put hs hfits hfits
    have hlast : (it.put s sub₁).put s sub₂ = it.put s sub₂ :=
      Item.put_put hs hfits (hfits.trans hrun.steps.sameHead.fits)
    refine .cons (hstep.under hx hs hhead) ?_
    rw [← hlast]
    exact ih hs₁ (hhead.trans (Item.sameHead_put it s sub₁)) fun _ => hself

end Run

/-! ## Owners of lists -/

/-- A kind of item that owns a list, for a way to step to the members of the list, to look at them
as items and to send them.  Mutations address the members by position. -/
structure Owner {α : Type} (segment : Nat → Segment) (member : α → Item) (payload : α → Payload) where
  /-- The owner of a list. -/
  item : List α → Item
  part : ∀ {l : List α} {i : Nat} {x : α}, l[i]? = some x →
    (item l).step (segment i) = .ok (member x)
  put_member : ∀ (l : List α) (i : Nat) (x : α),
    (item l).put (segment i) (member x) = item (l.set i x)
  removal_step : ∀ {l : List α} {i : Nat}, i < l.length →
    (removal i).Step (item l) (item (l.eraseIdx i))
  insertion_step : ∀ {l : List α} {i : Nat} (x : α), i ≤ l.length →
    (insertion i (payload x)).Step (item l) (item (l.take i ++ x :: l.drop i))

/-- What owns rules. -/
abbrev RuleOwner := Owner Segment.rule Item.rule Payload.rule

/-- What owns children. -/
abbrev NodeOwner := Owner Segment.child Node.item Payload.node

/-- An element as the owner of its children. -/
def NodeOwner.element (e : Element) : NodeOwner where
  item l := .element { e with children := l }
  part h := Item.step_eq_ok_iff.mpr (.child h)
  put_member l i n := Item.put_child { e with children := l } i n
  removal_step {l i} h := by
    refine Mutation.step_here (.removeNode h) ?_
    simp [Action.onItem, Action.onElement, removeItem, h, Except.map]
  insertion_step {l i} n h := by
    refine Mutation.step_here (.insertNode n h) ?_
    simp [Action.onItem, Action.onElement, insertItem, h, Except.map]

/-- A stylesheet as the owner of its rules. -/
def RuleOwner.stylesheet : RuleOwner where
  item l := .stylesheet ⟨l⟩
  part h := Item.step_eq_ok_iff.mpr (.rule h)
  put_member _ _ _ := rfl
  removal_step {l i} h := by
    refine Mutation.step_here (.removeRule h) ?_
    simp [Action.onItem, Action.onRules, removeItem, h, Except.map]
  insertion_step {l i} r h := by
    refine Mutation.step_here (.insertRule r h) ?_
    simp [Action.onItem, Action.onRules, insertItem, h, Except.map]

/-- A condition rule as the owner of its rules. -/
def RuleOwner.condition (k : ConditionKind) (c : String) : RuleOwner where
  item l := .rule (.condition k c l)
  part h := Item.step_eq_ok_iff.mpr (.nested h)
  put_member _ _ _ := rfl
  removal_step {l i} h := by
    refine Mutation.step_here (.removeNested h) ?_
    simp [Action.onItem, Action.onRule, Action.onRules, removeItem, h, Except.map]
  insertion_step {l i} r h := by
    refine Mutation.step_here (.insertNested r h) ?_
    simp [Action.onItem, Action.onRule, Action.onRules, insertItem, h, Except.map]

theorem target_of_mem_replacement {i : Nat} {p : Payload} {m : Mutation}
    (h : m ∈ replacement i p) : m.target = [] := by
  rcases List.mem_cons.mp h with rfl | h
  · rfl
  · rw [List.mem_singleton.mp h]
    rfl

theorem target_of_mem_truncation {start count : Nat} {m : Mutation}
    (h : m ∈ truncation start count) : m.target = [] := by
  obtain ⟨i, -, rfl⟩ := List.mem_map.mp (List.mem_reverse.mp h)
  rfl

theorem target_of_mem_extension {start : Nat} {ps : List Payload} {m : Mutation}
    (h : m ∈ extension start ps) : m.target = [] := by
  induction ps generalizing start with
  | nil => cases h
  | cons p ps ih =>
    rcases List.mem_cons.mp h with rfl | h
    · rfl
    · exact ih h

namespace Owner

variable {α : Type} {segment : Nat → Segment} {member : α → Item} {payload : α → Payload}
variable (O : Owner segment member payload)

/-- A run of a member, among the members that are done and those that are to come. -/
theorem run_member {ms : List Mutation} {x y : α} {origin : Item} (done rest : List α)
    (horigin : origin.step (segment done.length) = .ok (member x))
    (hhead : ∀ l, origin.SameHead (O.item l))
    (h : Run (Mutation.StepFrom (member x)) ms (member x) (member y)) :
    Run (Mutation.StepFrom origin) (ms.map (Mutation.under [segment done.length]))
      (O.item (done ++ x :: rest)) (O.item (done ++ y :: rest)) := by
  have hput (z : α) : (O.item (done ++ x :: rest)).put (segment done.length) (member z)
      = O.item (done ++ z :: rest) := by
    rw [O.put_member, List.set_append_right _ _ (Nat.le_refl _), Nat.sub_self]
    rfl
  have hpart := O.part (l := done ++ x :: rest) (i := done.length) (x := x) (by simp)
  rw [← hput y]
  exact h.under horigin hpart (hhead _) fun _ => hput x

/-- A member is replaced by removing it and inserting the other one. -/
theorem run_replacement (done rest : List α) (x y : α) :
    Run Mutation.Step (replacement done.length (payload y)) (O.item (done ++ x :: rest))
      (O.item (done ++ y :: rest)) := by
  have hremoval := O.removal_step (l := done ++ x :: rest) (i := done.length) (by simp)
  have hinsertion := O.insertion_step (l := done ++ rest) (i := done.length) y (by simp)
  rw [List.eraseIdx_append_of_length_le (Nat.le_refl _), Nat.sub_self, List.eraseIdx_cons_zero]
    at hremoval
  rw [List.take_left, List.drop_left] at hinsertion
  exact .cons hremoval (.single hinsertion)

/-- Members at the end are removed from the last one on. -/
theorem run_truncation (done olds : List α) :
    Run Mutation.Step (truncation done.length olds.length) (O.item (done ++ olds))
      (O.item done) := by
  induction olds using List.reverseRecOn with
  | nil =>
    rw [List.append_nil]
    exact .nil _
  | append_singleton olds x ih =>
    have hlast : truncation done.length (olds ++ [x]).length
        = removal (done.length + olds.length) :: truncation done.length olds.length := by
      rw [List.length_append, List.length_singleton, truncation, List.range'_concat, List.map_append,
        List.reverse_append, Nat.one_mul]
      rfl
    have hstep := O.removal_step (l := done ++ (olds ++ [x])) (i := done.length + olds.length)
      (by simp)
    have herase : (done ++ (olds ++ [x])).eraseIdx (done.length + olds.length) = done ++ olds := by
      rw [← List.append_assoc, ← List.length_append,
        List.eraseIdx_append_of_length_le (Nat.le_refl _), Nat.sub_self, List.eraseIdx_cons_zero,
        List.append_nil]
    rw [herase] at hstep
    rw [hlast]
    exact .cons hstep ih

/-- Members are added at the end one by one. -/
theorem run_extension (done news : List α) :
    Run Mutation.Step (extension done.length (news.map payload)) (O.item done)
      (O.item (done ++ news)) := by
  induction news generalizing done with
  | nil =>
    rw [List.append_nil]
    exact .nil _
  | cons x news ih =>
    have hstep := O.insertion_step (l := done) (i := done.length) x (Nat.le_refl _)
    rw [List.take_length, List.drop_length] at hstep
    have hrest := ih (done ++ [x])
    rw [List.length_append, List.length_singleton, List.append_assoc] at hrest
    exact .cons hstep hrest

end Owner

/-! ## Runs from the root -/

/-- A step from the root of a document is a successful patch. -/
theorem Mutation.Step.patch {t : Tree} {m : Mutation} {it : Item} (h : m.Step (.element t.root) it) :
    ∃ root, it = .element root ∧ t.patch m = .ok { t with root } := by
  have hfits := h.fits
  cases hfits with
  | element _ root => exact ⟨root, rfl, Tree.patch_of_act_ok h.2⟩

/-- A run from the root of a document is a successful patch. -/
theorem Tree.patchAll_of_run {t : Tree} {ms : List Mutation} {it : Item}
    (h : Run Mutation.Step ms (.element t.root) it) :
    ∃ root, it = .element root ∧ t.patchAll ms = .ok { t with root } := by
  induction ms generalizing t with
  | nil =>
    cases h
    exact ⟨t.root, rfl, rfl⟩
  | cons m ms ih =>
    cases h with
    | cons hstep hrun =>
      obtain ⟨e, rfl, hpatch⟩ := hstep.patch
      obtain ⟨root, rfl, hall⟩ := ih (t := { t with root := e }) hrun
      refine ⟨root, rfl, ?_⟩
      rw [patchAll_cons, hpatch]
      exact hall

end SynthDom
