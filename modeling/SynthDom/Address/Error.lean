import SynthDom.Address.Basic
import SynthDom.ItemKind
import SynthDom.Text.Quoted

/-!
# Errors at an address

An address may not lead anywhere, and an edit may not fit what it leads to.  Each error carries the
full address it is about.

* `Reason`: why an address, or a name at an address, does not resolve.
* `AddressError`, `ShapeMismatch`: a reason at an address; an item of the wrong kind at an address.
* `PatchError`: either of them.
-/

namespace SynthDom

/-- The two families of named entries. -/
inductive EntryKind where
  | attribute
  | declaration
deriving DecidableEq

/-- The name of a family in messages. -/
def EntryKind.name : EntryKind → String
  | .attribute => "attribute"
  | .declaration => "declaration"

/-- Why an address does not resolve. -/
inductive Reason where
  | childOutOfRange (index length : Nat)
  | ruleOutOfRange (index length : Nat)
  | declarationOutOfRange (index length : Nat)
  | notAContainer (segment : Segment) (found : ItemKind)
  | trailingSegment
  | nameNotFound (what : EntryKind) (name : String)
  | nameExists (what : EntryKind) (name : String)
deriving DecidableEq

namespace Reason

private def outOfRange (what : String) (index length : Nat) : String :=
  what ++ " index " ++ toString index ++ " out of range (len " ++ toString length ++ ")"

def message : Reason → String
  | .childOutOfRange i n => outOfRange "child" i n
  | .ruleOutOfRange i n => outOfRange "rule" i n
  | .declarationOutOfRange i n => outOfRange "declaration" i n
  | .notAContainer s found => s.display ++ " cannot descend into a " ++ found.name
  | .trailingSegment => "segments follow a declaration"
  | .nameNotFound what name => "no " ++ what.name ++ " named " ++ Text.quoted name
  | .nameExists what name => what.name ++ " " ++ Text.quoted name ++ " already exists"

end Reason

/-- An address that does not resolve, and why. -/
structure AddressError where
  address : Address
  reason : Reason
deriving DecidableEq

def AddressError.message (e : AddressError) : String :=
  "Address " ++ e.address.display ++ " does not resolve: " ++ e.reason.message

/-- What an edit may ask of its target. -/
inductive Expected where
  | text
  | element
  | ruleList
  | container
  | declarations
deriving DecidableEq

/-- The name of a requirement in messages. -/
def Expected.name : Expected → String
  | .text => "text"
  | .element => "element"
  | .ruleList => "stylesheet or condition rule"
  | .container => "element, stylesheet or condition rule"
  | .declarations => "style rule or keyframe step"

/-- An address that leads to an item of the wrong kind. -/
structure ShapeMismatch where
  address : Address
  expected : Expected
  found : ItemKind
deriving DecidableEq

def ShapeMismatch.message (e : ShapeMismatch) : String :=
  "Shape mismatch at " ++ e.address.display ++ ": expected " ++ e.expected.name ++ ", found "
    ++ e.found.name

/-- Why a mutation does not apply. -/
inductive PatchError where
  | address (e : AddressError)
  | shape (e : ShapeMismatch)
deriving DecidableEq

namespace PatchError

/-- The address an error is about. -/
def target : PatchError → Address
  | .address e => e.address
  | .shape e => e.address

def message : PatchError → String
  | .address e => e.message
  | .shape e => e.message

end PatchError

end SynthDom
