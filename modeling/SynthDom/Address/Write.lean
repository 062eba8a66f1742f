import SynthDom.Address.Resolve

/-!
# Writing through addresses

A `Writer` says what to do with an item of each kind: what to answer, and what to put in its place.
`Element.writeAt` takes it to the item at an address and gives the answer and the new root.  A step
to the stylesheet of an element that has none makes an empty one, which stays there whatever comes
of the rest of the address.
-/

namespace SynthDom

/-- What to do with the item found: an answer, and a new item of the same kind. -/
structure Writer (α : Type) where
  element : Element → α × Element
  text : String → α × String
  stylesheet : Stylesheet → α × Stylesheet
  rule : Rule → α × Rule
  declaration : (name value : String) → α × String

variable {α : Type}

/-- The answer, if the address leads to an item, and what becomes of the place it starts from. -/
abbrev Written (α β : Type) := Except Reason α × β

/-- A successful write. -/
def Written.found {β : Type} (r : α × β) : Written α β := (.ok r.1, r.2)

/-- What becomes of the whole when a part is written. -/
def Written.inside {β γ : Type} (w : Written α β) (put : β → γ) : Written α γ := (w.1, put w.2)

/-- Writes to the declaration at an index, at the end of an address. -/
def PropertyList.writeAt (w : Writer α) (i : Nat) (a : Address) (ds : PropertyList) :
    Written α PropertyList :=
  match ds.entryAt? i, a with
  | some e, [] => (Written.found (w.declaration e.1 e.2)).inside (ds.setAt i)
  | some _, _ :: _ => (.error .trailingSegment, ds)
  | none, _ => (.error (.declarationOutOfRange i ds.length), ds)

/-- Writes at an address that starts from a rule. -/
def Rule.writeAt (w : Writer α) : Address → Rule → Written α Rule
  | [], r => .found (w.rule r)
  | .rule i :: a, .condition k c rules =>
    match rules[i]? with
    | some r => (Rule.writeAt w a r).inside fun r => .condition k c (rules.set i r)
    | none => (.error (.ruleOutOfRange i rules.length), .condition k c rules)
  | .declaration i :: a, .style s ds => (ds.writeAt w i a).inside (.style s)
  | .declaration i :: a, .keyframeStep o ds => (ds.writeAt w i a).inside (.keyframeStep o)
  | s :: _, r => (.error (.notAContainer s r.kind), r)

/-- Writes at an address that starts from a stylesheet. -/
def Stylesheet.writeAt (w : Writer α) : Address → Stylesheet → Written α Stylesheet
  | [], s => .found (w.stylesheet s)
  | .rule i :: a, s =>
    match s.rules[i]? with
    | some r => (r.writeAt w a).inside fun r => ⟨s.rules.set i r⟩
    | none => (.error (.ruleOutOfRange i s.rules.length), s)
  | seg :: _, s => (.error (.notAContainer seg .stylesheet), s)

/-- Writes at an address that starts from a text. -/
def writeTextAt (w : Writer α) : Address → String → Written α String
  | [], value => .found (w.text value)
  | s :: _, value => (.error (.notAContainer s .text), value)

/-- Writes at an address that starts from an element. -/
def Element.writeAt (w : Writer α) : Address → Element → Written α Element
  | [], e => .found (w.element e)
  | .child i :: a, e =>
    match e.children[i]? with
    | some (.element c) =>
      (Element.writeAt w a c).inside fun c => { e with children := e.children.set i (.element c) }
    | some (.text value) =>
      (writeTextAt w a value).inside fun v => { e with children := e.children.set i (.text v) }
    | none => (.error (.childOutOfRange i e.children.length), e)
  | .shadow :: a, e =>
    (e.sheet.writeAt w a).inside fun s => { e with stylesheet := some s }
  | s :: _, e => (.error (.notAContainer s .element), e)

/-- The writer that looks at an item and leaves it as it is. -/
def Writer.view : Writer Item where
  element e := (.element e, e)
  text value := (.text value, value)
  stylesheet s := (.stylesheet s, s)
  rule r := (.rule r, r)
  declaration name value := (.declaration name value, value)

/-- Writes at an address from the root of a document.  On failure too the root is the one after the
steps that could be taken. -/
def Tree.writeAt (t : Tree) (a : Address) (w : Writer α) : Except AddressError α × Tree :=
  let (answer, root) := t.root.writeAt w a
  (answer.mapError (⟨a, ·⟩), { t with root })

end SynthDom
