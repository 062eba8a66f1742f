import SynthDom.Text.Unprintable

/-!
# Quoted texts

Names and values appear in messages between double quotes, with everything that would not show
written as an escape.  `quoted` is that form; `quotedChar` is what it makes of one character.
-/

namespace SynthDom.Text

/-- The lower-case hexadecimal digits of a number, without padding. -/
def hexDigits (n : Nat) : List Char := Nat.toDigits 16 n

/-- One character of a quoted text.  Quotes and backslashes take a backslash, tabs, line ends and
NUL have letters, and any other character that does not show is written by its number. -/
def quotedChar (c : Char) : List Char :=
  if c = '"' then ['\\', '"']
  else if c = '\\' then ['\\', '\\']
  else if c = '\t' then ['\\', 't']
  else if c = '\n' then ['\\', 'n']
  else if c = '\r' then ['\\', 'r']
  else if c = '\x00' then ['\\', '0']
  else if isShown c then [c]
  else ['\\', 'u', '\x7b'] ++ hexDigits c.toNat ++ ['\x7d']

/-- The text between double quotes, escaped. -/
def quoted (s : String) : String :=
  String.ofList ('"' :: (s.toList.flatMap quotedChar ++ ['"']))

@[simp] theorem quotedChar_quote : quotedChar '"' = ['\\', '"'] := rfl
@[simp] theorem quotedChar_backslash : quotedChar '\\' = ['\\', '\\'] := rfl

@[simp] theorem toList_quoted (s : String) :
    (quoted s).toList = '"' :: (s.toList.flatMap quotedChar ++ ['"']) := by
  simp [quoted]

end SynthDom.Text
