import SynthDom.Address.Error
import SynthDom.Tree.Basic

/-!
# Resolving addresses

`Tree.resolve` follows an address through a document and gives the item it leads to, or the reason
why a step cannot be taken.  The step to the stylesheet of an element that has none leads to an
empty one.
-/

namespace SynthDom

/-- What an address can lead to. -/
inductive Item where
  | element (e : Element)
  | text (value : String)
  | stylesheet (s : Stylesheet)
  | rule (r : Rule)
  | declaration (name value : String)

/-- A child as an item. -/
def Node.item : Node → Item
  | .text value => .text value
  | .element e => .element e

namespace Item

def kind : Item → ItemKind
  | .element _ => .element
  | .text _ => .text
  | .stylesheet _ => .stylesheet
  | .rule r => r.kind
  | .declaration .. => .declaration

def element? : Item → Option Element
  | .element e => some e
  | _ => none

def text? : Item → Option String
  | .text value => some value
  | _ => none

def rule? : Item → Option Rule
  | .rule r => some r
  | _ => none

/-- The rule at an index. -/
def ruleAt (rules : List Rule) (i : Nat) : Except Reason Item :=
  match rules[i]? with
  | some r => .ok (.rule r)
  | none => .error (.ruleOutOfRange i rules.length)

/-- The declaration at an index. -/
def declarationAt (ds : PropertyList) (i : Nat) : Except Reason Item :=
  match ds.entryAt? i with
  | some e => .ok (.declaration e.1 e.2)
  | none => .error (.declarationOutOfRange i ds.length)

/-- One step from an item. -/
def step : Item → Segment → Except Reason Item
  | .element e, .child i =>
    match e.children[i]? with
    | some n => .ok n.item
    | none => .error (.childOutOfRange i e.children.length)
  | .element e, .shadow => .ok (.stylesheet e.sheet)
  | .stylesheet s, .rule i => ruleAt s.rules i
  | .rule (.condition _ _ rules), .rule i => ruleAt rules i
  | .rule (.style _ ds), .declaration i => declarationAt ds i
  | .rule (.keyframeStep _ ds), .declaration i => declarationAt ds i
  | .declaration .., _ => .error .trailingSegment
  | it, s => .error (.notAContainer s it.kind)

/-- Step after step. -/
def descend (it : Item) : Address → Except Reason Item
  | [] => .ok it
  | s :: a => (it.step s).bind fun it => it.descend a

@[simp] theorem descend_nil (it : Item) : it.descend [] = .ok it := rfl

@[simp] theorem descend_cons (it : Item) (s : Segment) (a : Address) :
    it.descend (s :: a) = (it.step s).bind fun it => it.descend a := rfl

/-- An address is followed by following its first part and then, from there, the rest. -/
theorem descend_append (it : Item) (a b : Address) :
    it.descend (a ++ b) = (it.descend a).bind fun it => it.descend b := by
  induction a generalizing it with
  | nil => rfl
  | cons s a ih =>
    simp only [List.cons_append, descend_cons]
    cases it.step s with
    | error e => rfl
    | ok it => exact ih it

/-- An address with one step more leads where that step leads from where the address does. -/
theorem descend_join_eq_ok_iff {it sub : Item} {a : Address} {s : Segment} :
    it.descend (a.join s) = .ok sub ↔ ∃ x, it.descend a = .ok x ∧ x.step s = .ok sub := by
  rw [Address.join, descend_append]
  cases it.descend a with
  | error r => simp [Except.bind]
  | ok x => cases h : x.step s <;> simp [Except.bind, h]

end Item

/-- The item that an address leads to from the root. -/
def Tree.resolve (t : Tree) (a : Address) : Except AddressError Item :=
  ((Item.element t.root).descend a).mapError (⟨a, ·⟩)

theorem Tree.resolve_eq_ok_iff {t : Tree} {a : Address} {it : Item} :
    t.resolve a = .ok it ↔ (Item.element t.root).descend a = .ok it := by
  rw [resolve]
  cases (Item.element t.root).descend a with
  | ok x => constructor <;> (rintro ⟨⟩; rfl)
  | error r => constructor <;> exact nofun

end SynthDom
