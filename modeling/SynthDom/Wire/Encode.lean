import SynthDom.Json.Basic
import SynthDom.Mutation.Basic

/-!
# The wire form: encoding

How documents, addresses and mutations are written as JSON.  The fields of a record come in a fixed
order.  An element leaves out attributes, children and stylesheet where it has none, and a document
its modules; a stylesheet without rules is written.  A mutation writes its old and new value always,
as null where its kind has none.
-/

namespace SynthDom

def PropertyList.toJson (l : PropertyList) : Json :=
  .array (l.entries.map fun e => .array [.string e.1, .string e.2])

namespace ConditionKind

def toJson : ConditionKind → Json
  | .media => .string "media"
  | .supports => .string "supports"
  | .keyframes => .string "keyframes"
  | .unknown keyword => .object [("unknown", .string keyword)]

end ConditionKind

mutual

def Rule.toJson : Rule → Json
  | .style selector ds => .object
      [("kind", .string "style"), ("selector", .string selector), ("declarations", ds.toJson)]
  | .condition k c rules => .object
      [("kind", .string "condition"), ("atRule", k.toJson), ("condition", .string c),
        ("rules", .array (Rule.toJsonList rules))]
  | .keyframeStep offset ds => .object
      [("kind", .string "keyframeStep"), ("offset", .string offset), ("declarations", ds.toJson)]
termination_by structural r => r

def Rule.toJsonList : List Rule → List Json
  | [] => []
  | r :: rs => Rule.toJson r :: Rule.toJsonList rs
termination_by structural rs => rs

end

def Stylesheet.toJson (s : Stylesheet) : Json :=
  .object [("rules", .array (Rule.toJsonList s.rules))]

/-- The field of an element's attributes, unless it has none. -/
def PropertyList.fields (l : PropertyList) : List (String × Json) :=
  if l.isEmpty then [] else [("attributes", l.toJson)]

/-- The field of an element's stylesheet, if it has one. -/
def Stylesheet.fields : Option Stylesheet → List (String × Json)
  | some s => [("stylesheet", s.toJson)]
  | none => []

mutual

/-- A node, with its kind first. -/
def Node.toJson : Node → Json
  | .text value => .object [("kind", .string "text"), ("value", .string value)]
  | .element e => .object (("kind", .string "element") :: Element.fields e)
termination_by structural n => n

/-- The fields of an element. -/
def Element.fields : Element → List (String × Json)
  | ⟨tag, attributes, children, stylesheet⟩ =>
    ("tag", .string tag) :: (attributes.fields
      ++ (if children.isEmpty then [] else [("children", .array (Node.toJsonList children))])
      ++ Stylesheet.fields stylesheet)
termination_by structural e => e

def Node.toJsonList : List Node → List Json
  | [] => []
  | n :: ns => Node.toJson n :: Node.toJsonList ns
termination_by structural ns => ns

end

/-- An element where nothing but an element can stand. -/
def Element.toJson (e : Element) : Json := .object e.fields

def Tree.toJson (t : Tree) : Json :=
  .object (("root", t.root.toJson) ::
    (if t.modules.isEmpty then [] else [("modules", .array (t.modules.map .string))]))

def Segment.toJson : Segment → Json
  | .child i => .object [("child", .natural i)]
  | .shadow => .string "shadow"
  | .rule i => .object [("rule", .natural i)]
  | .declaration i => .object [("declaration", .natural i)]

def Address.toJson (a : Address) : Json := .array (a.map Segment.toJson)

def Payload.toJson : Payload → Json
  | .node n => n.toJson
  | .rule r => r.toJson

/-- A text, or null. -/
def optionalText : Option String → Json
  | some s => .string s
  | none => .null

namespace Action

def index? : Action → Option Nat
  | .insertChild i .. | .removeChild i | .insertAttribute i .. | .setProperty i .. => some i
  | _ => none

def name? : Action → Option String
  | .setAttribute name .. | .insertAttribute _ name _ | .removeAttribute name _
  | .setProperty _ name .. | .removeProperty name _ => some name
  | _ => none

def newValue? : Action → Option String
  | .setText v _ | .setAttribute _ v _ | .insertAttribute _ _ v | .setProperty _ _ v _ => some v
  | _ => none

def oldValue? : Action → Option String
  | .setText _ o | .setAttribute _ _ o | .removeAttribute _ o | .setProperty _ _ _ o
  | .removeProperty _ o => o
  | _ => none

/-- What an insertion inserts, and its note to renderers. -/
def inserted? : Action → Option (Payload × Bool)
  | .insertChild _ child clone => some (child, clone)
  | _ => none

end Action

/-- A field that is left out if it has no value. -/
def optionalField {α : Type} (name : String) (toJson : α → Json) : Option α → List (String × Json)
  | some x => [(name, toJson x)]
  | none => []

def Mutation.toJson (m : Mutation) : Json :=
  .object ([("type", .string m.kind.name), ("target", m.target.toJson)]
    ++ optionalField "index" .natural m.action.index?
    ++ optionalField "name" .string m.action.name?
    ++ [("newValue", optionalText m.action.newValue?),
      ("oldValue", optionalText m.action.oldValue?)]
    ++ optionalField "child" Payload.toJson (m.action.inserted?.map Prod.fst)
    ++ optionalField "clone" .bool (m.action.inserted?.map Prod.snd))

/-- A list of mutations. -/
def Mutation.listToJson (ms : List Mutation) : Json := .array (ms.map Mutation.toJson)

end SynthDom
