import SynthDom.Json.Reader
import SynthDom.Json.Record
import SynthDom.Mutation.Basic

/-!
# The wire form: decoding

How documents, addresses and mutations are read from JSON.  Every record may be an object or an
array (`Json.slots`), and an enumeration without a payload may be an object with a null payload.

A node or a rule is told by its kind, so it is taken in as a whole before it is looked at.  That has
two effects.  First, no part of it may be `unreadable`, not even in a field that is passed over.
Second, what is inside it is read from the part taken in, where a kind may also be given by its
number, and the null payload of an at-keyword by an empty object.  The parameter `inside` says that
a value is such a part.

* `Tree.ofJson?`, `Element.ofJson?`, `Node.ofJson?`, `Stylesheet.ofJson?`, `Rule.ofJson?`, ….
* `Mutation.ofJson`, `Mutation.listOfJson`: with the reason for refusing, `DecodeError`.
* `decodeText`: from a text.
-/

namespace SynthDom

/-! ## Property lists and at-keywords -/

/-- A pair of a name and a value. -/
def pairOfJson? : Json → Option (String × String)
  | .array [.string name, .string value] => some (name, value)
  | _ => none

/-- Names and values in pairs; a repeated name keeps its first place and takes its last value. -/
def PropertyList.ofJson? (j : Json) : Option PropertyList :=
  (j.items? pairOfJson?).map PropertyList.ofPairs

/-- The payload of an enumeration's member that has none. -/
def isNoPayload (inside : Bool) : Json → Bool
  | .null => true
  | .object [] => inside
  | _ => false

namespace ConditionKind

/-- The at-keyword of a name that needs no payload. -/
def ofName? (name : String) : Option ConditionKind :=
  if name = "media" then some .media
  else if name = "supports" then some .supports
  else if name = "keyframes" then some .keyframes
  else none

def ofJson? (inside : Bool) : Json → Option ConditionKind
  | .string name => ofName? name
  | .object [(name, payload)] =>
    if name = "unknown" then payload.string?.map .unknown
    else if isNoPayload inside payload then ofName? name
    else none
  | _ => none

end ConditionKind

/-! ## Kinds -/

/-- The kinds of nodes. -/
inductive NodeTag where
  | element
  | text

/-- The kinds of rules. -/
inductive RuleTag where
  | style
  | condition
  | keyframeStep

/-- A kind, by its name among `names` or, inside what is taken in as a whole, by its number. -/
def tagOfJson? {α : Type} (names : List (String × α)) (inside : Bool) : Json → Option α
  | .string name => (names.find? fun t => t.1 == name).map Prod.snd
  | .natural n => if inside then names[n]?.map Prod.snd else none
  | _ => none

def NodeTag.names : List (String × NodeTag) := [("element", .element), ("text", .text)]

def RuleTag.names : List (String × RuleTag) :=
  [("style", .style), ("condition", .condition), ("keyframeStep", .keyframeStep)]

/-- The kind among some fields, which must have one and no other. -/
def tagField? {α : Type} (names : List (String × α)) (inside : Bool)
    (fields : List (String × Json)) : Option α :=
  if Json.occurrences "kind" fields = 1 then
    (Json.lookup "kind" fields).bind (tagOfJson? names inside)
  else none

/-! ## Rules -/

/-- A header text and declarations. -/
def blockOfJson? (header : String) (j : Json) : Option (String × PropertyList) :=
  match j.slots [header, "declarations"] with
  | some [some header, ds] => do
    return (← header.string?, ← Json.orDefault ∅ PropertyList.ofJson? ds)
  | _ => none

/-- A condition rule that holds `rules`. -/
def conditionOfJson? (j : Json) (rules : List Rule) : Option Rule :=
  match j.slots ["atRule", "condition", "rules"] with
  | some [some kind, some condition, _] => do
    return .condition (← ConditionKind.ofJson? true kind) (← condition.string?) rules
  | _ => none

/-- A rule of a kind that holds no rules. -/
def RuleTag.leafOfJson? (tag : RuleTag) (j : Json) : Option Rule :=
  match tag with
  | .style => (blockOfJson? "selector" j).map fun b => .style b.1 b.2
  | .keyframeStep => (blockOfJson? "offset" j).map fun b => .keyframeStep b.1 b.2
  | .condition => none

mutual

/-- A rule, told by its kind. -/
def Rule.ofJson? (inside : Bool) (j : Json) : Option Rule :=
  if !inside && !j.isReadable then none
  else match j with
    | .object fields =>
      match tagField? RuleTag.names inside fields with
      | some .condition => (rulesField? fields).bind (conditionOfJson? (.object fields))
      | some tag => tag.leafOfJson? (.object fields)
      | none => none
    | .array (kind :: items) =>
      match tagOfJson? RuleTag.names inside kind with
      | some .condition => (rulesItem? items).bind (conditionOfJson? (.array items))
      | some tag => tag.leafOfJson? (.array items)
      | none => none
    | _ => none
termination_by structural j

/-- The rules among the fields of a condition rule. -/
def rulesField? : List (String × Json) → Option (List Rule)
  | [] => some []
  | (name, j) :: fields => if name = "rules" then rulesValue? j else rulesField? fields
termination_by structural fields => fields

/-- The rules among the items of a condition rule. -/
def rulesItem? : List Json → Option (List Rule)
  | _ :: _ :: j :: _ => rulesValue? j
  | _ => some []
termination_by structural items => items

/-- A list of rules inside a rule. -/
def rulesValue? : Json → Option (List Rule)
  | .array items => rulesOfItems? items
  | _ => none
termination_by structural j => j

/-- Rules inside a rule. -/
def rulesOfItems? : List Json → Option (List Rule)
  | [] => some []
  | j :: js =>
    match Rule.ofJson? true j, rulesOfItems? js with
    | some r, some rs => some (r :: rs)
    | _, _ => none
termination_by structural items => items

end

def Stylesheet.ofJson? (inside : Bool) (j : Json) : Option Stylesheet :=
  match j.slots ["rules"] with
  | some [rules] => (Json.orDefault [] (·.items? (Rule.ofJson? inside)) rules).map .mk
  | _ => none

/-! ## Nodes -/

/-- The names of an element's fields. -/
def Element.fieldNames : List String := ["tag", "attributes", "children", "stylesheet"]

/-- An element that holds `children`. -/
def elementOfJson? (inside : Bool) (j : Json) (children : List Node) : Option Element :=
  match j.slots Element.fieldNames with
  | some [some tag, attributes, _, stylesheet] => do
    return {
      tag := ← tag.string?
      attributes := ← Json.orDefault ∅ PropertyList.ofJson? attributes
      children
      stylesheet := ← Json.nullable (Stylesheet.ofJson? inside) stylesheet }
  | _ => none

/-- A text. -/
def textOfJson? (j : Json) : Option Node :=
  match j.slots ["value"] with
  | some [some value] => value.string?.map .text
  | _ => none

mutual

/-- A node, told by its kind. -/
def Node.ofJson? (inside : Bool) (j : Json) : Option Node :=
  if !inside && !j.isReadable then none
  else match j with
    | .object fields =>
      match tagField? NodeTag.names inside fields with
      | some .element =>
        (childrenField? fields).bind fun children =>
          (elementOfJson? true (.object fields) children).map .element
      | some .text => textOfJson? (.object fields)
      | none => none
    | .array (kind :: items) =>
      match tagOfJson? NodeTag.names inside kind with
      | some .element =>
        (childrenItem? items).bind fun children =>
          (elementOfJson? true (.array items) children).map .element
      | some .text => textOfJson? (.array items)
      | none => none
    | _ => none
termination_by structural j

/-- The children among the fields of an element inside a node. -/
def childrenField? : List (String × Json) → Option (List Node)
  | [] => some []
  | (name, j) :: fields => if name = "children" then childrenValue? j else childrenField? fields
termination_by structural fields => fields

/-- The children among the items of an element inside a node. -/
def childrenItem? : List Json → Option (List Node)
  | _ :: _ :: j :: _ => childrenValue? j
  | _ => some []
termination_by structural items => items

/-- A list of children inside a node. -/
def childrenValue? : Json → Option (List Node)
  | .array items => childrenOfItems? items
  | _ => none
termination_by structural j => j

/-- Children inside a node. -/
def childrenOfItems? : List Json → Option (List Node)
  | [] => some []
  | j :: js =>
    match Node.ofJson? true j, childrenOfItems? js with
    | some n, some ns => some (n :: ns)
    | _, _ => none
termination_by structural items => items

end

/-- An element where nothing but an element can stand. -/
def Element.ofJson? (j : Json) : Option Element :=
  match j.slots Element.fieldNames with
  | some [_, _, children, _] =>
    (Json.orDefault [] (·.items? (Node.ofJson? false)) children).bind (elementOfJson? false j)
  | _ => none

def Tree.ofJson? (j : Json) : Option Tree :=
  match j.slots ["root", "modules"] with
  | some [some root, modules] => do
    return ⟨← Element.ofJson? root, ← Json.orDefault [] (·.items? Json.string?) modules⟩
  | _ => none

/-! ## Addresses -/

def Segment.ofJson? : Json → Option Segment
  | .string name => if name = "shadow" then some .shadow else none
  | .object [(name, payload)] =>
    if name = "child" then payload.index?.map .child
    else if name = "rule" then payload.index?.map .rule
    else if name = "declaration" then payload.index?.map .declaration
    else if name = "shadow" && isNoPayload false payload then some .shadow
    else none
  | _ => none

def Address.ofJson? (j : Json) : Option Address := j.items? Segment.ofJson?

/-! ## Mutations -/

/-- A node or else a rule, taken in as a whole. -/
def Payload.ofJson? (j : Json) : Option Payload :=
  if j.isReadable then
    match Node.ofJson? true j with
    | some n => some (.node n)
    | none => (Rule.ofJson? true j).map .rule
  else none

def ActionKind.ofJson? : Json → Option ActionKind
  | .string name => ofName? name
  | .object [(name, payload)] => if isNoPayload false payload then ofName? name else none
  | _ => none

/-- Why a value is not taken for a mutation. -/
inductive DecodeError where
  | malformed
  | missingField (kind : ActionKind) (field : String)
deriving DecidableEq

/-- The text of a missing field. -/
def DecodeError.message : DecodeError → String
  | .malformed => "malformed value"
  | .missingField kind field => kind.name ++ " record is missing `" ++ field ++ "`"

/-- The fields of a mutation, before it is known which of them its kind needs. -/
structure MutationRecord where
  kind : ActionKind
  target : Address
  index : Option Nat
  name : Option String
  newValue : Option String
  oldValue : Option String
  child : Option Payload
  clone : Option Bool

namespace MutationRecord

def fieldNames : List String :=
  ["type", "target", "index", "name", "newValue", "oldValue", "child", "clone"]

/-- The fields of a record.  Those that the kind has no use for must be well-formed too. -/
def ofJson? (j : Json) : Option MutationRecord :=
  match j.slots fieldNames with
  | some [some kind, some target, index, name, newValue, oldValue, child, clone] => do
    return {
      kind := ← ActionKind.ofJson? kind
      target := ← Address.ofJson? target
      index := ← Json.nullable Json.index? index
      name := ← Json.nullable Json.string? name
      newValue := ← Json.nullable Json.string? newValue
      oldValue := ← Json.nullable Json.string? oldValue
      child := ← Json.nullable Payload.ofJson? child
      clone := ← Json.nullable Json.bool? clone }
  | _ => none

/-- A field that the kind needs. -/
def need {α : Type} (r : MutationRecord) (field : String) : Option α → Except DecodeError α
  | some x => .ok x
  | none => .error (.missingField r.kind field)

/-- The action of a record.  Fields that the kind needs are looked for in their order. -/
def action (r : MutationRecord) : Except DecodeError Action := do
  match r.kind with
  | .setText =>
    return .setText (← r.need "newValue" r.newValue) r.oldValue
  | .insertChild =>
    return .insertChild (← r.need "index" r.index) (← r.need "child" r.child)
      (r.clone.getD false)
  | .removeChild =>
    return .removeChild (← r.need "index" r.index)
  | .setAttribute =>
    return .setAttribute (← r.need "name" r.name) (← r.need "newValue" r.newValue) r.oldValue
  | .insertAttribute =>
    return .insertAttribute (← r.need "index" r.index) (← r.need "name" r.name)
      (← r.need "newValue" r.newValue)
  | .removeAttribute =>
    return .removeAttribute (← r.need "name" r.name) r.oldValue
  | .setProperty =>
    return .setProperty (← r.need "index" r.index) (← r.need "name" r.name)
      (← r.need "newValue" r.newValue) r.oldValue
  | .removeProperty =>
    return .removeProperty (← r.need "name" r.name) r.oldValue

end MutationRecord

namespace Mutation

def ofJson (j : Json) : Except DecodeError Mutation :=
  match MutationRecord.ofJson? j with
  | some r => r.action.map fun action => ⟨r.target, action⟩
  | none => .error .malformed

/-- A list of mutations, refused for the first of them that is not one. -/
def listOfJson : Json → Except DecodeError (List Mutation)
  | .array items => items.mapM ofJson
  | _ => .error .malformed

end Mutation

/-! ## Texts -/

/-- A decoder that gives no reason, as one that does. -/
def orMalformed {α : Type} (read : Json → Option α) (j : Json) : Except DecodeError α :=
  match read j with
  | some x => .ok x
  | none => .error .malformed

/-- Decodes a text.  A text that breaks off is refused for the fault of what comes before, if that
has one. -/
def decodeText {α : Type} (decode : Json → Except DecodeError α) (text : String) :
    Except DecodeError α :=
  let reading := Json.read Json.maxDepth text
  match decode reading.value with
  | .ok x => if reading.complete then .ok x else .error .malformed
  | .error e => .error e

end SynthDom
