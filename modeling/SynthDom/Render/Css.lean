import SynthDom.Stylesheet.Basic

/-!
# Stylesheet text

The text of a stylesheet: one line for each header, declaration and closing brace, indented by two
blanks for each condition rule around it.
-/

namespace SynthDom

/-- The blanks before a line inside `depth` condition rules. -/
def indent (depth : Nat) : String := String.ofList (List.replicate (2 * depth) ' ')

/-- The line that opens a block. -/
def openLine (depth : Nat) (header : String) : String := indent depth ++ header ++ " \x7b\n"

/-- The line that closes a block. -/
def closeLine (depth : Nat) : String := indent depth ++ "\x7d\n"

/-- The line of a declaration of a block. -/
def declarationLine (depth : Nat) (e : String × String) : String :=
  indent (depth + 1) ++ e.1 ++ ": " ++ e.2 ++ ";\n"

/-- A header and its declarations. -/
def blockText (depth : Nat) (header : String) (ds : PropertyList) : String :=
  openLine depth header ++ String.join (ds.entries.map (declarationLine depth)) ++ closeLine depth

mutual

/-- A rule inside `depth` condition rules. -/
def Rule.css (depth : Nat) : Rule → String
  | .style selector ds => blockText depth selector ds
  | .keyframeStep offset ds => blockText depth offset ds
  | .condition k c rules =>
    openLine depth (k.atKeyword ++ " " ++ c) ++ Rule.cssList (depth + 1) rules ++ closeLine depth
termination_by structural r => r

/-- Rules one after the other. -/
def Rule.cssList (depth : Nat) : List Rule → String
  | [] => ""
  | r :: rs => Rule.css depth r ++ Rule.cssList depth rs
termination_by structural rs => rs

end

/-- The text of a stylesheet. -/
def Stylesheet.css (s : Stylesheet) : String := Rule.cssList 0 s.rules

end SynthDom
