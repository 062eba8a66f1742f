/-!
# Addresses

A place in a document is named by the steps that lead to it from the root, not by an identity, so an
address worked out on one document makes sense in any other of the same shape.
-/

namespace SynthDom

/-- One step: to a child of an element, to an element's stylesheet, to a rule of a stylesheet or
condition rule, or to a declaration of a rule. -/
inductive Segment where
  | child (index : Nat)
  | shadow
  | rule (index : Nat)
  | declaration (index : Nat)
deriving DecidableEq

namespace Segment

/-- The text of a step: a child is a bare number, rules and declarations carry a letter. -/
def display : Segment → String
  | .child i => toString i
  | .shadow => "shadow"
  | .rule i => "r" ++ toString i
  | .declaration i => "d" ++ toString i

end Segment

/-- The steps from the root of a document to a place in it. -/
abbrev Address := List Segment

namespace Address

/-- The address of the root. -/
def root : Address := []

def isRoot (a : Address) : Bool := a.isEmpty

/-- One step further. -/
def join (a : Address) (s : Segment) : Address := a ++ [s]

/-- One step less; there is nothing above the root. -/
def parent? (a : Address) : Option Address :=
  if a.isEmpty then none else some a.dropLast

/-- The place `b` is this one or one on the way to it. -/
def startsWith (a b : Address) : Bool := b.isPrefixOf a

/-- The text of an address: each step after a slash, and a lone slash for the root. -/
def display (a : Address) : String :=
  if a.isEmpty then "/" else String.join (a.map fun s => "/" ++ s.display)

@[simp] theorem parent?_join (a : Address) (s : Segment) : (a.join s).parent? = some a := by
  simp [parent?, join]

theorem startsWith_iff {a b : Address} : a.startsWith b = true ↔ b <+: a :=
  List.isPrefixOf_iff_prefix

end Address

end SynthDom
