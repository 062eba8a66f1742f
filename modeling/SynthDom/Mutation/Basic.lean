import SynthDom.Address.Basic
import SynthDom.Text.Quoted
import SynthDom.Tree.Basic

/-!
# Mutations

A mutation is one small change to a document, with the address of the item it changes.  In a list of
mutations every address and index refers to the document as the mutations before it leave it.

* `Payload`: what an insertion puts in, a node or a rule.
* `Mutation`: an address and an `Action` on the item there.
* `Mutation.under`: the same change to a document of which the changed one is a part.
-/

namespace SynthDom

/-- What an insertion puts in. -/
inductive Payload where
  | node (n : Node)
  | rule (r : Rule)

namespace Payload

def kind : Payload → ItemKind
  | .node n => n.kind
  | .rule r => r.kind

/-- Equal as the documents' parts are. -/
def equiv : Payload → Payload → Bool
  | .node n, .node m => n.equiv m
  | .rule r, .rule s => r.equiv s
  | _, _ => false

end Payload

/-- What is done to the target of a mutation.  `clone` is a note to renderers, and an `oldValue` one
for undoing; but a `setProperty` with an old value changes a declaration, and one without inserts a
new one. -/
inductive Action where
  | setText (newValue : String) (oldValue : Option String)
  | insertChild (index : Nat) (child : Payload) (clone : Bool)
  | removeChild (index : Nat)
  | setAttribute (name newValue : String) (oldValue : Option String)
  | insertAttribute (index : Nat) (name newValue : String)
  | removeAttribute (name : String) (oldValue : Option String)
  | setProperty (index : Nat) (name newValue : String) (oldValue : Option String)
  | removeProperty (name : String) (oldValue : Option String)

/-- The kinds of actions. -/
inductive ActionKind where
  | setText
  | insertChild
  | removeChild
  | setAttribute
  | insertAttribute
  | removeAttribute
  | setProperty
  | removeProperty
deriving DecidableEq

namespace ActionKind

/-- The name of a kind in records and messages. -/
def name : ActionKind → String
  | .setText => "SET_TEXT_NODE_VALUE"
  | .insertChild => "INSERT_CHILD_NODE"
  | .removeChild => "REMOVE_CHILD_NODE"
  | .setAttribute => "SET_ATTRIBUTE"
  | .insertAttribute => "INSERT_ATTRIBUTE"
  | .removeAttribute => "REMOVE_ATTRIBUTE"
  | .setProperty => "SET_PROPERTY"
  | .removeProperty => "REMOVE"

def all : List ActionKind :=
  [.setText, .insertChild, .removeChild, .setAttribute, .insertAttribute, .removeAttribute,
    .setProperty, .removeProperty]

/-- The kind of a name. -/
def ofName? (name : String) : Option ActionKind := all.find? fun k => k.name == name

end ActionKind

namespace Action

def kind : Action → ActionKind
  | .setText .. => .setText
  | .insertChild .. => .insertChild
  | .removeChild .. => .removeChild
  | .setAttribute .. => .setAttribute
  | .insertAttribute .. => .insertAttribute
  | .removeAttribute .. => .removeAttribute
  | .setProperty .. => .setProperty
  | .removeProperty .. => .removeProperty

/-- What the text of a mutation says after its kind and address. -/
def detail : Action → String
  | .setText newValue _ => Text.quoted newValue
  | .insertChild index child _ => "[" ++ toString index ++ "] " ++ child.kind.name
  | .removeChild index => "[" ++ toString index ++ "]"
  | .setAttribute name newValue _
  | .insertAttribute _ name newValue
  | .setProperty _ name newValue _ => name ++ "=" ++ Text.quoted newValue
  | .removeAttribute name _
  | .removeProperty name _ => name

/-- Equal, up to what documents' equality overlooks in an inserted child. -/
def equiv : Action → Action → Bool
  | .setText v o, .setText w p => v == w && o == p
  | .insertChild i c k, .insertChild j d l => i == j && c.equiv d && k == l
  | .removeChild i, .removeChild j => i == j
  | .setAttribute n v o, .setAttribute m w p => n == m && v == w && o == p
  | .insertAttribute i n v, .insertAttribute j m w => i == j && n == m && v == w
  | .removeAttribute n o, .removeAttribute m p => n == m && o == p
  | .setProperty i n v o, .setProperty j m w p => i == j && n == m && v == w && o == p
  | .removeProperty n o, .removeProperty m p => n == m && o == p
  | _, _ => false

end Action

/-- An action on the item at an address. -/
structure Mutation where
  target : Address
  action : Action

namespace Mutation

def kind (m : Mutation) : ActionKind := m.action.kind

/-- The text of a mutation: kind, address and detail. -/
def display (m : Mutation) : String :=
  m.kind.name ++ " " ++ m.target.display ++ " " ++ m.action.detail

/-- The same target and equal actions. -/
def equiv (m n : Mutation) : Bool := m.target == n.target && m.action.equiv n.action

/-- The mutation of a document in which the mutated one sits at the address `a`. -/
def under (a : Address) (m : Mutation) : Mutation := { m with target := a ++ m.target }

@[simp] theorem target_under (a : Address) (m : Mutation) : (m.under a).target = a ++ m.target :=
  rfl

@[simp] theorem action_under (a : Address) (m : Mutation) : (m.under a).action = m.action := rfl

@[simp] theorem under_root (m : Mutation) : m.under [] = m := rfl

theorem under_append (a b : Address) (m : Mutation) : m.under (a ++ b) = (m.under b).under a := by
  simp [under, List.append_assoc]

end Mutation

end SynthDom
