import SynthDom.Json.Basic

/-!
# Records

A record may be written in two ways: as an object, whose fields are found by name, or as an array,
whose items are the fields in order.  `Json.slots` reads either into one list of optional values,
one for each field of the record.

A name must not be repeated in an object, and an array must not have more items than the record has
fields; fields that the record does not know are passed over.
-/

namespace SynthDom.Json

/-- How often a name occurs among some fields. -/
def occurrences (name : String) (fields : List (String × Json)) : Nat :=
  (fields.filter fun f => f.1 == name).length

/-- None of the names is repeated. -/
def distinct (names : List String) (fields : List (String × Json)) : Bool :=
  names.all fun name => occurrences name fields ≤ 1

/-- The values of a record's fields, in the order of `names`. -/
def slots (names : List String) : Json → Option (List (Option Json))
  | .object fields =>
    if distinct names fields then some (names.map fun name => lookup name fields) else none
  | .array items =>
    if items.length ≤ names.length then
      some ((List.range names.length).map fun i => items[i]?)
    else none
  | _ => none

def string? : Json → Option String
  | .string s => some s
  | _ => none

def bool? : Json → Option Bool
  | .bool b => some b
  | _ => none

def array? : Json → Option (List Json)
  | .array items => some items
  | _ => none

/-- The number of index values: indexes take 64 bits. -/
def indexLimit : Nat := Nat.pow 2 64

def index? : Json → Option Nat
  | .natural n => if n < indexLimit then some n else none
  | _ => none

/-- A value that may be missing or null. -/
def nullable {α : Type} (read : Json → Option α) : Option Json → Option (Option α)
  | none | some .null => some none
  | some j => (read j).map some

/-- A value that has a default when it is missing. -/
def orDefault {α : Type} (default : α) (read : Json → Option α) : Option Json → Option α
  | none => some default
  | some j => read j

/-- Each item of an array. -/
def items? {α : Type} (read : Json → Option α) (j : Json) : Option (List α) :=
  j.array?.bind fun items => items.mapM read

end SynthDom.Json
