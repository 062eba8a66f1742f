import SynthDom.Render.Css
import SynthDom.Tree.Basic

/-!
# Document text

The text of a document as HTML.  Texts and attribute values are escaped; tags, names and stylesheets
stand as they are.  An attribute whose value is `true` is a bare flag.  An element's stylesheet, if
it has rules, stands before its children.  The root is the wrapper of the document and is not
written.
-/

namespace SynthDom

/-- A character of a text. -/
def escapeText (c : Char) : List Char :=
  if c = '&' then "&amp;".toList
  else if c = '<' then "&lt;".toList
  else if c = '>' then "&gt;".toList
  else [c]

/-- A character of an attribute's value. -/
def escapeValue (c : Char) : List Char :=
  if c = '"' then "&quot;".toList else escapeText c

/-- A text with markup characters escaped. -/
def textHtml (value : String) : String := String.ofList (value.toList.flatMap escapeText)

/-- An attribute with the blank before it. -/
def attributeHtml (e : String × String) : String :=
  if e.2 = flagValue then " " ++ e.1
  else " " ++ e.1 ++ "=\"" ++ String.ofList (e.2.toList.flatMap escapeValue) ++ "\""

/-- A stylesheet in an element, if it has rules. -/
def styleHtml : Option Stylesheet → String
  | some s => if s.isEmpty then "" else "<style>" ++ s.css ++ "</style>"
  | none => ""

mutual

def Node.html : Node → String
  | .text value => textHtml value
  | .element e => Element.html e
termination_by structural n => n

/-- An element with its tags. -/
def Element.html : Element → String
  | ⟨tag, attributes, children, stylesheet⟩ =>
    "<" ++ tag ++ String.join (attributes.entries.map attributeHtml) ++ ">"
      ++ styleHtml stylesheet ++ Node.htmlList children ++ "</" ++ tag ++ ">"
termination_by structural e => e

/-- Nodes one after the other. -/
def Node.htmlList : List Node → String
  | [] => ""
  | n :: ns => Node.html n ++ Node.htmlList ns
termination_by structural ns => ns

end

/-- What stands between an element's tags. -/
def Element.contentHtml (e : Element) : String := styleHtml e.stylesheet ++ Node.htmlList e.children

/-- The text of a document. -/
def Tree.html (t : Tree) : String := t.root.contentHtml

end SynthDom
