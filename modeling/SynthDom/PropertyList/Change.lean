import SynthDom.PropertyList.Basic

/-!
# Changes between property lists

`PropertyList.changes old new` says how to get from one list to another by name: first what is
removed, in the old order, then what takes another value, then what is inserted, both in the new
order and with the index in the new list.  `PropertyList.edit` carries out one such step, and
refuses it when the name is not there or already there.
-/

namespace SynthDom.PropertyList

/-- One difference between two lists.  `index` is the place in the new list. -/
inductive Change where
  | removed (name oldValue : String)
  | changed (name : String) (index : Nat) (newValue oldValue : String)
  | inserted (name : String) (index : Nat) (newValue : String)
deriving DecidableEq

/-- The entries whose names the new list lacks. -/
def removals (old new : PropertyList) : List Change :=
  (old.entries.filter fun e => !new.contains e.1).map fun e => .removed e.1 e.2

/-- The entries of the new list whose names have another value in the old one. -/
def overwrites (old new : PropertyList) : List Change :=
  new.entries.zipIdx.filterMap fun (e, index) =>
    match old.get? e.1 with
    | some oldValue => if oldValue = e.2 then none else some (.changed e.1 index e.2 oldValue)
    | none => none

/-- The entries of the new list whose names the old one lacks. -/
def insertions (old new : PropertyList) : List Change :=
  new.entries.zipIdx.filterMap fun (e, index) =>
    if old.contains e.1 then none else some (.inserted e.1 index e.2)

/-- The differences between two lists, in the order in which they are to be carried out. -/
def changes (old new : PropertyList) : List Change :=
  removals old new ++ overwrites old new ++ insertions old new

/-- A step on a list by name. -/
inductive Edit where
  | remove (name : String)
  | overwrite (name value : String)
  | insert (index : Nat) (name value : String)
deriving DecidableEq

/-- The step that carries out a change. -/
def Change.toEdit : Change → Edit
  | .removed name _ => .remove name
  | .changed name _ newValue _ => .overwrite name newValue
  | .inserted name index newValue => .insert index name newValue

/-- Why a step does not apply. -/
inductive EditFault where
  | notFound (name : String)
  | exists (name : String)
deriving DecidableEq

/-- Carries out a step.  Removing and overwriting need the name, inserting needs its absence. -/
def edit (l : PropertyList) : Edit → Except EditFault PropertyList
  | .remove name =>
    if l.contains name then .ok (l.remove name) else .error (.notFound name)
  | .overwrite name value =>
    if l.contains name then .ok (l.overwrite name value) else .error (.notFound name)
  | .insert index name value =>
    if l.contains name then .error (.exists name) else .ok (l.insertAt index name value)

end SynthDom.PropertyList
