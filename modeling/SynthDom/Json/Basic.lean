/-!
# JSON values

The values that documents and mutations are exchanged in.  Objects keep their fields in order, and
keep repeated names, so that a reader can tell a repeated field from a single one.

* `Json.isReadable`: no part of the value is `unreadable`.
* `Json.depth`: how many arrays and objects are open at the deepest place.
-/

namespace SynthDom

/-- A JSON value.  `natural` is a number written with digits alone; `real` is any other number, kept
as it was written.  `unreadable` stands for a part that obeys the grammar but has no value: a text
with half of a surrogate pair, a number no double can hold, or what is nested too deep. -/
inductive Json where
  | null
  | bool (b : Bool)
  | natural (n : Nat)
  | real (literal : String)
  | string (s : String)
  | array (items : List Json)
  | object (fields : List (String × Json))
  | unreadable
deriving Inhabited

namespace Json

mutual

/-- Every part has a value. -/
def isReadable : Json → Bool
  | .array items => allReadable items
  | .object fields => allFieldsReadable fields
  | .unreadable => false
  | _ => true
termination_by structural j => j

/-- Every item has a value. -/
def allReadable : List Json → Bool
  | [] => true
  | j :: js => isReadable j && allReadable js
termination_by structural js => js

/-- Every field has a value. -/
def allFieldsReadable : List (String × Json) → Bool
  | [] => true
  | (_, j) :: fields => isReadable j && allFieldsReadable fields
termination_by structural fields => fields

end

mutual

/-- The number of arrays and objects that are open at the deepest place. -/
def depth : Json → Nat
  | .array items => depthItems items + 1
  | .object fields => depthFields fields + 1
  | _ => 0
termination_by structural j => j

/-- The depth of the deepest item. -/
def depthItems : List Json → Nat
  | [] => 0
  | j :: js => max (depth j) (depthItems js)
termination_by structural js => js

/-- The depth of the deepest field. -/
def depthFields : List (String × Json) → Nat
  | [] => 0
  | (_, j) :: fields => max (depth j) (depthFields fields)
termination_by structural fields => fields

end

/-- The value of the first field of this name. -/
def lookup (name : String) : List (String × Json) → Option Json
  | [] => none
  | (n, j) :: fields => if n = name then some j else lookup name fields

@[simp] theorem lookup_nil (name : String) : lookup name [] = none := rfl

@[simp] theorem lookup_cons (name n : String) (j : Json) (fields : List (String × Json)) :
    lookup name ((n, j) :: fields) = if n = name then some j else lookup name fields := rfl

end Json

end SynthDom
