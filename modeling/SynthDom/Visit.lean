import SynthDom.Address.Basic
import SynthDom.Tree.Basic

/-!
# Visiting

A `Visitor` has a callback for each kind of item, which is handed the item, its address and a state
it may change.  `Tree.walk` calls them in document order: an item before what is inside it, an
element's stylesheet before its children, children and rules by index.  A callback also says whether
to go on into the item.  A visitor that leaves a callback out passes over the items of its kind and
goes on into them.
-/

namespace SynthDom

/-- What to do on meeting an item of each kind: the new state, and whether to go on into it. -/
structure Visitor (σ : Type) where
  element : Element → Address → σ → σ × Bool := fun _ _ s => (s, true)
  text : String → Address → σ → σ := fun _ _ s => s
  stylesheet : Stylesheet → Address → σ → σ × Bool := fun _ _ s => (s, true)
  rule : Rule → Address → σ → σ × Bool := fun _ _ s => (s, true)

variable {σ : Type}

/-- Goes on with a state if the callback said so. -/
def goOn (met : σ × Bool) (inside : σ → σ) : σ := if met.2 then inside met.1 else met.1

mutual

/-- Visits a rule and the rules inside it. -/
def Rule.walk (v : Visitor σ) (a : Address) : Rule → σ → σ
  | .style s ds, x => (v.rule (.style s ds) a x).1
  | .keyframeStep o ds, x => (v.rule (.keyframeStep o ds) a x).1
  | .condition k c rules, x =>
    goOn (v.rule (.condition k c rules) a x) (Rule.walkList v a 0 rules)
termination_by structural r => r

/-- Visits the rules of the owner at an address, from an index on. -/
def Rule.walkList (v : Visitor σ) (a : Address) (i : Nat) : List Rule → σ → σ
  | [], x => x
  | r :: rs, x => Rule.walkList v a (i + 1) rs (Rule.walk v (a.join (.rule i)) r x)
termination_by structural rs => rs

end

/-- Visits a stylesheet and its rules. -/
def Stylesheet.walk (v : Visitor σ) (a : Address) (s : Stylesheet) (x : σ) : σ :=
  goOn (v.stylesheet s a x) (Rule.walkList v a 0 s.rules)

/-- Visits an element's stylesheet, if it has one. -/
def Stylesheet.walkOption (v : Visitor σ) (a : Address) : Option Stylesheet → σ → σ
  | some s, x => s.walk v (a.join .shadow) x
  | none, x => x

mutual

/-- Visits a node and what is inside it. -/
def Node.walk (v : Visitor σ) (a : Address) : Node → σ → σ
  | .text value, x => v.text value a x
  | .element e, x => Element.walk v a e x
termination_by structural n => n

/-- Visits an element and what is inside it. -/
def Element.walk (v : Visitor σ) (a : Address) : Element → σ → σ
  | ⟨tag, attributes, children, stylesheet⟩, x =>
    goOn (v.element ⟨tag, attributes, children, stylesheet⟩ a x) fun x =>
      Node.walkList v a 0 children (Stylesheet.walkOption v a stylesheet x)
termination_by structural e => e

/-- Visits the children of the element at an address, from an index on. -/
def Node.walkList (v : Visitor σ) (a : Address) (i : Nat) : List Node → σ → σ
  | [], x => x
  | n :: ns, x => Node.walkList v a (i + 1) ns (Node.walk v (a.join (.child i)) n x)
termination_by structural ns => ns

end

/-- Visits a document from its root. -/
def Tree.walk (t : Tree) (v : Visitor σ) (x : σ) : σ := t.root.walk v Address.root x

end SynthDom
