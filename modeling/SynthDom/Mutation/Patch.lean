import SynthDom.Address.Write
import SynthDom.Mutation.Basic
import SynthDom.PropertyList.Change

/-!
# Patching

`Tree.patch` carries out one mutation and `Tree.patchAll` a list of them, up to the first that does
not apply.  A mutation does not apply if its address does not resolve, if the item there is not of
the kind it is for, or if its index or name does not fit.  A list of mutations applies as a whole or
not at all.
-/

namespace SynthDom

/-- Why an action does not fit the item it is for. -/
inductive ActionFault where
  | reason (r : Reason)
  | shape (expected : Expected) (found : ItemKind)
deriving DecidableEq

/-- The error of a fault at an address. -/
def ActionFault.at (a : Address) : ActionFault → PatchError
  | .reason r => .address ⟨a, r⟩
  | .shape expected found => .shape ⟨a, expected, found⟩

/-- The result of an action on one item. -/
abbrev Acted (α : Type) := Except ActionFault α

/-! ## Lists -/

/-- A list with one more item at an index. -/
def insertItem {α : Type} (outOfRange : Nat → Nat → Reason) (l : List α) (i : Nat) (x : α) :
    Acted (List α) :=
  if i ≤ l.length then .ok (l.take i ++ x :: l.drop i)
  else .error (.reason (outOfRange i l.length))

/-- A list without the item at an index. -/
def removeItem {α : Type} (outOfRange : Nat → Nat → Reason) (l : List α) (i : Nat) :
    Acted (List α) :=
  if i < l.length then .ok (l.eraseIdx i) else .error (.reason (outOfRange i l.length))

/-- A step on a property list of the family `what`. -/
def editEntries (what : EntryKind) (l : PropertyList) (edit : PropertyList.Edit) :
    Acted PropertyList :=
  match l.edit edit with
  | .ok l => .ok l
  | .error (.notFound name) => .error (.reason (.nameNotFound what name))
  | .error (.exists name) => .error (.reason (.nameExists what name))

namespace Action

/-- The step on attributes that an action is. -/
def attributeEdit? : Action → Option PropertyList.Edit
  | .setAttribute name newValue _ => some (.overwrite name newValue)
  | .insertAttribute index name newValue => some (.insert index name newValue)
  | .removeAttribute name _ => some (.remove name)
  | _ => none

/-- The step on declarations that an action is. -/
def declarationEdit? : Action → Option PropertyList.Edit
  | .setProperty _ name newValue (some _) => some (.overwrite name newValue)
  | .setProperty index name newValue none => some (.insert index name newValue)
  | .removeProperty name _ => some (.remove name)
  | _ => none

/-- The kind of target that an action is for. -/
def expected : Action → Expected
  | .setText .. => .text
  | .insertChild _ (.node _) _ => .element
  | .insertChild _ (.rule _) _ => .ruleList
  | .removeChild _ => .container
  | .setAttribute .. | .insertAttribute .. | .removeAttribute .. => .element
  | .setProperty .. | .removeProperty .. => .declarations

/-- The fault of an action on an item of another kind. -/
def mismatch {α : Type} (a : Action) (found : ItemKind) : Acted α :=
  .error (.shape a.expected found)

/-- An action on an element. -/
def onElement (a : Action) (e : Element) : Acted Element :=
  match a with
  | .insertChild i (.node n) _ =>
    (insertItem .childOutOfRange e.children i n).map fun children => { e with children }
  | .removeChild i =>
    (removeItem .childOutOfRange e.children i).map fun children => { e with children }
  | a =>
    match a.attributeEdit? with
    | some edit =>
      (editEntries .attribute e.attributes edit).map fun attributes => { e with attributes }
    | none => a.mismatch .element

/-- An action on a text. -/
def onText (a : Action) (_ : String) : Acted String :=
  match a with
  | .setText newValue _ => .ok newValue
  | a => a.mismatch .text

/-- An action on a list of rules, of a stylesheet or a condition rule. -/
def onRules (a : Action) (found : ItemKind) (rules : List Rule) : Acted (List Rule) :=
  match a with
  | .insertChild i (.rule r) _ => insertItem .ruleOutOfRange rules i r
  | .removeChild i => removeItem .ruleOutOfRange rules i
  | a => a.mismatch found

/-- An action on the declarations of a rule. -/
def onDeclarations (a : Action) (found : ItemKind) (ds : PropertyList) : Acted PropertyList :=
  match a.declarationEdit? with
  | some edit => editEntries .declaration ds edit
  | none => a.mismatch found

/-- An action on a rule. -/
def onRule (a : Action) : Rule → Acted Rule
  | .style s ds => (a.onDeclarations .styleRule ds).map (.style s)
  | .keyframeStep o ds => (a.onDeclarations .keyframeStep ds).map (.keyframeStep o)
  | .condition k c rules => (a.onRules .conditionRule rules).map (.condition k c)

end Action

/-- The outcome of an action as a write: on failure the item stays. -/
def Acted.write {α : Type} (old : α) : Acted α → Acted Unit × α
  | .ok new => (.ok (), new)
  | .error e => (.error e, old)

/-- The writer that carries out an action. -/
def Action.writer (a : Action) : Writer (Acted Unit) where
  element e := Acted.write e (a.onElement e)
  text value := Acted.write value (a.onText value)
  stylesheet s := Acted.write s ((a.onRules .stylesheet s.rules).map Stylesheet.mk)
  rule r := Acted.write r (a.onRule r)
  declaration _ value := Acted.write value (a.mismatch .declaration)

namespace Tree

/-- Carries out a mutation. -/
def patch (t : Tree) (m : Mutation) : Except PatchError Tree :=
  match t.writeAt m.target m.action.writer with
  | (.ok (.ok ()), t) => .ok t
  | (.ok (.error fault), _) => .error (fault.at m.target)
  | (.error e, _) => .error (.address e)

/-- Carries out mutations one after the other, up to the first that does not apply. -/
def patchAll (t : Tree) : List Mutation → Except PatchError Tree
  | [] => .ok t
  | m :: ms => (t.patch m).bind fun t => t.patchAll ms

@[simp] theorem patchAll_nil (t : Tree) : t.patchAll [] = .ok t := rfl

@[simp] theorem patchAll_cons (t : Tree) (m : Mutation) (ms : List Mutation) :
    t.patchAll (m :: ms) = (t.patch m).bind fun t => t.patchAll ms := rfl

/-- A list of mutations is carried out by carrying out its first part and then the rest. -/
theorem patchAll_append (t : Tree) (ms ns : List Mutation) :
    t.patchAll (ms ++ ns) = (t.patchAll ms).bind fun t => t.patchAll ns := by
  induction ms generalizing t with
  | nil => rfl
  | cons m ms ih =>
    simp only [List.cons_append, patchAll_cons]
    cases t.patch m with
    | error e => rfl
    | ok t => exact ih t

end Tree

end SynthDom
