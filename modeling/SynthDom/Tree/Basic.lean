import SynthDom.Stylesheet.Basic

/-!
# Document trees

A document is a root element and the modules it came from.  An element has a tag, attributes,
children and possibly a stylesheet of its own; its children are elements and texts.

Two notions of sameness matter.  Equality (`=`) sees everything.  `equiv` sees what a reader of the
document sees: neither the order of attributes and declarations, nor the difference between no
stylesheet and an empty one, nor, for whole trees, the tag of the root and the modules.
-/

namespace SynthDom

mutual

/-- A child of an element. -/
inductive Node where
  | text (value : String)
  | element (e : Element)

/-- An element of a document. -/
structure Element where
  tag : String
  attributes : PropertyList
  children : List Node
  stylesheet : Option Stylesheet

end

namespace Element

/-- An element with nothing but a tag. -/
def bare (tag : String) : Element := ⟨tag, ∅, [], none⟩

instance : Inhabited Element := ⟨bare ""⟩

/-- The rules of the element's own stylesheet; no stylesheet has none. -/
def rules (e : Element) : List Rule :=
  match e.stylesheet with
  | some s => s.rules
  | none => []

/-- The element has rules of its own. -/
def hasRules (e : Element) : Bool := !e.rules.isEmpty

/-- The stylesheet, or an empty one where there is none. -/
def sheet (e : Element) : Stylesheet := e.stylesheet.getD .empty

@[simp] theorem rules_mk_none (tag : String) (attributes : PropertyList) (children : List Node) :
    rules ⟨tag, attributes, children, none⟩ = [] := rfl

@[simp] theorem rules_mk_some (tag : String) (attributes : PropertyList) (children : List Node)
    (s : Stylesheet) : rules ⟨tag, attributes, children, some s⟩ = s.rules := rfl

@[simp] theorem rules_sheet (e : Element) : e.sheet.rules = e.rules := by
  rcases e with ⟨_, _, _, _ | _⟩ <;> rfl

/-! ## Building -/

/-- Writes an attribute. -/
def attr (e : Element) (name value : String) : Element :=
  { e with attributes := e.attributes.insert name value }

/-- Writes an attribute as a bare flag. -/
def flag (e : Element) (name : String) : Element := e.attr name flagValue

/-- Adds children at the end. -/
def append (e : Element) (nodes : List Node) : Element :=
  { e with children := e.children ++ nodes }

/-- Adds a rule at the end of the stylesheet, which is made if there is none. -/
def pushRule (e : Element) (r : Rule) : Element :=
  { e with stylesheet := some (e.sheet.push r) }

/-- Replaces the stylesheet. -/
def withStylesheet (e : Element) (s : Stylesheet) : Element :=
  { e with stylesheet := some s }

end Element

namespace Node

instance : Inhabited Node := ⟨.text ""⟩

def kind : Node → ItemKind
  | .text _ => .text
  | .element _ => .element

/-- Both are texts, or both are elements with one tag: the one can be turned into the other without
replacing it. -/
def sameShape : Node → Node → Bool
  | .text _, .text _ => true
  | .element e, .element f => e.tag == f.tag
  | _, _ => false

end Node

mutual

/-- Equal up to the order of attributes and declarations and up to empty stylesheets. -/
def Node.equiv : Node → Node → Bool
  | .text v, .text w => v == w
  | .element e, .element f => Element.equiv e f
  | _, _ => false
termination_by structural n => n

/-- Equal up to the order of attributes and declarations and up to empty stylesheets. -/
def Element.equiv : Element → Element → Bool
  | ⟨tag, attributes, children, stylesheet⟩, f =>
    tag == f.tag && attributes.equiv f.attributes && Node.equivList children f.children
      && Rule.equivList (stylesheet.getD .empty).rules f.rules
termination_by structural e => e

/-- Equal node by node. -/
def Node.equivList : List Node → List Node → Bool
  | [], [] => true
  | n :: ns, m :: ms => Node.equiv n m && Node.equivList ns ms
  | _, _ => false
termination_by structural ns => ns

end

/-- A document. -/
structure Tree where
  root : Element
  modules : List String

namespace Tree

instance : Inhabited Tree := ⟨⟨default, []⟩⟩

/-- The tag of the wrapper around a document's nodes. -/
def documentTag : String := "document"

/-- The document of some nodes. -/
def document (nodes : List Node) : Tree := ⟨(Element.bare documentTag).append nodes, []⟩

/-- Names one more module that the document came from. -/
def withModule (t : Tree) (module : String) : Tree :=
  { t with modules := t.modules ++ [module] }

/-- Equal but for the modules, the tag of the root and what `Element.equiv` overlooks. -/
def equiv (t u : Tree) : Bool :=
  t.root.attributes.equiv u.root.attributes && Node.equivList t.root.children u.root.children
    && Rule.equivList t.root.rules u.root.rules

end Tree

end SynthDom
