import SynthDom.Json.Basic

/-!
# Writing JSON

`Json.print` writes a value in a `Layout`, which says what stands between the tokens: nothing
(`compact`), or line ends with two blanks for each open array or object (`pretty`).  Texts are
written raw but for quotes, backslashes and control characters.
-/

namespace SynthDom.Json

/-- What stands between the tokens of a printed value. -/
structure Layout where
  /-- What comes before an item or a closing bracket, with so many arrays and objects open. -/
  lineBreak : Nat → List Char
  /-- What comes between the name and the value of a field. -/
  colon : List Char

/-- Everything on one line, without blanks. -/
def compact : Layout where
  lineBreak _ := []
  colon := [':']

/-- One item to a line. -/
def pretty : Layout where
  lineBreak n := '\n' :: List.replicate (2 * n) ' '
  colon := [':', ' ']

/-- One character of a text. -/
def escapeChar (c : Char) : List Char :=
  if c = '"' then ['\\', '"']
  else if c = '\\' then ['\\', '\\']
  else if c = '\x08' then ['\\', 'b']
  else if c = '\x0c' then ['\\', 'f']
  else if c = '\n' then ['\\', 'n']
  else if c = '\r' then ['\\', 'r']
  else if c = '\t' then ['\\', 't']
  else if c.toNat < 0x20 then
    ['\\', 'u', '0', '0', Nat.digitChar (c.toNat / 16), Nat.digitChar (c.toNat % 16)]
  else [c]

/-- A text between its quotes, and what follows. -/
def printString (s : String) (rest : List Char) : List Char :=
  '"' :: (s.toList.flatMap escapeChar ++ '"' :: rest)

mutual

/-- The characters of a value that stands inside `n` arrays and objects, and what follows.  A part
without a value is written as `null`. -/
def chars (l : Layout) (n : Nat) : Json → List Char → List Char
  | .null, rest => "null".toList ++ rest
  | .bool true, rest => "true".toList ++ rest
  | .bool false, rest => "false".toList ++ rest
  | .natural k, rest => Nat.toDigits 10 k ++ rest
  | .real literal, rest => literal.toList ++ rest
  | .string s, rest => printString s rest
  | .array [], rest => '[' :: ']' :: rest
  | .array (j :: js), rest =>
    '[' :: (l.lineBreak (n + 1) ++ chars l (n + 1) j
      (charsItems l (n + 1) js (l.lineBreak n ++ ']' :: rest)))
  | .object [], rest => '\x7b' :: '\x7d' :: rest
  | .object ((name, j) :: fields), rest =>
    '\x7b' :: (l.lineBreak (n + 1) ++ printString name (l.colon ++ chars l (n + 1) j
      (charsFields l (n + 1) fields (l.lineBreak n ++ '\x7d' :: rest))))
  | .unreadable, rest => "null".toList ++ rest
termination_by structural j => j

/-- The items after the first, each after a comma, and what follows. -/
def charsItems (l : Layout) (n : Nat) : List Json → List Char → List Char
  | [], rest => rest
  | j :: js, rest => ',' :: (l.lineBreak n ++ chars l n j (charsItems l n js rest))
termination_by structural js => js

/-- The fields after the first, each after a comma, and what follows. -/
def charsFields (l : Layout) (n : Nat) : List (String × Json) → List Char → List Char
  | [], rest => rest
  | (name, j) :: fields, rest =>
    ',' :: (l.lineBreak n ++ printString name
      (l.colon ++ chars l n j (charsFields l n fields rest)))
termination_by structural fields => fields

end

/-- The text of a value. -/
def print (l : Layout) (j : Json) : String := String.ofList (j.chars l 0 [])

@[simp] theorem toList_print (l : Layout) (j : Json) : (j.print l).toList = j.chars l 0 [] := by
  simp [print]

end SynthDom.Json
