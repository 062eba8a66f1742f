import SynthDom.Json.Numeral

/-!
# Reading JSON

`Json.read` reads one value from a text, by the strict grammar: no comments, no trailing commas, no
leading zeros, no control characters in texts.  It always gives a value.  Where the text breaks off
from the grammar, `unreadable` stands in place of what could not be read, items of an array that
were complete before it are kept, and the reading is not `complete`; so whoever interprets the value
meets its faults in the order in which the text has them.

Three things are grammatical and yet have no value, and are read as `unreadable` too: a text with
half of a surrogate pair, a number that no double can hold, and an array or object nested deeper
than there is room for.
-/

namespace SynthDom.Json

/-- The characters that may stand between tokens. -/
def isBlank (c : Char) : Bool := c = ' ' || c = '\n' || c = '\t' || c = '\r'

/-- The text from its first character that is not blank. -/
def skipBlanks (cs : List Char) : List Char := cs.dropWhile isBlank

/-! ## Texts -/

/-- A piece of a text: a character as it stands, or the number of an escape. -/
inductive Piece where
  | char (c : Char)
  | unit (n : Nat)

/-- The value of a hexadecimal digit, in either case. -/
def hexValue? (c : Char) : Option Nat :=
  if '0' ≤ c ∧ c ≤ '9' then some (c.toNat - 48)
  else if 'a' ≤ c ∧ c ≤ 'f' then some (c.toNat - 87)
  else if 'A' ≤ c ∧ c ≤ 'F' then some (c.toNat - 55)
  else none

/-- The number of four hexadecimal digits. -/
def hexUnit? (a b c d : Char) : Option Nat :=
  match hexValue? a, hexValue? b, hexValue? c, hexValue? d with
  | some a, some b, some c, some d => some (((a * 16 + b) * 16 + c) * 16 + d)
  | _, _, _, _ => none

/-- The character of an escape by a letter. -/
def escaped? (c : Char) : Option Char :=
  if c = '"' then some '"'
  else if c = '\\' then some '\\'
  else if c = '/' then some '/'
  else if c = 'b' then some '\x08'
  else if c = 'f' then some '\x0c'
  else if c = 'n' then some '\n'
  else if c = 'r' then some '\r'
  else if c = 't' then some '\t'
  else none

/-- The pieces of a text up to its closing quote, and what follows. -/
def readPieces : List Char → Option (List Piece × List Char)
  | [] => none
  | '"' :: cs => some ([], cs)
  | '\\' :: 'u' :: a :: b :: c :: d :: cs =>
    match hexUnit? a b c d with
    | some n => (readPieces cs).map fun r => (.unit n :: r.1, r.2)
    | none => none
  | '\\' :: c :: cs =>
    match escaped? c with
    | some c => (readPieces cs).map fun r => (.char c :: r.1, r.2)
    | none => none
  | c :: cs =>
    if c.toNat < 0x20 then none else (readPieces cs).map fun r => (.char c :: r.1, r.2)

/-- The first half of a surrogate pair. -/
def isHighSurrogate (n : Nat) : Bool := 0xd800 ≤ n && n < 0xdc00

/-- The second half of a surrogate pair. -/
def isLowSurrogate (n : Nat) : Bool := 0xdc00 ≤ n && n < 0xe000

/-- The characters of some pieces: two halves of a surrogate pair are one, and a half by itself is
none. -/
def joinPieces : List Piece → Option (List Char)
  | [] => some []
  | .char c :: ps => (joinPieces ps).map (c :: ·)
  | .unit m :: ps =>
    if isHighSurrogate m then
      match ps with
      | .unit n :: ps =>
        if isLowSurrogate n then
          (joinPieces ps).map (Char.ofNat (0x10000 + (m - 0xd800) * 0x400 + (n - 0xdc00)) :: ·)
        else none
      | _ => none
    else if isLowSurrogate m then none
    else (joinPieces ps).map (Char.ofNat m :: ·)

/-- The text of some pieces, if it has one. -/
def pieceString? (ps : List Piece) : Option String := (joinPieces ps).map String.ofList

/-! ## Values -/

/-- What a reader gives: a value, and what follows it unless the text broke off. -/
abbrev Progress (α : Type) := α × Option (List Char)

/-- A word of the grammar. -/
def readWord (word : List Char) (value : Json) (cs : List Char) : Progress Json :=
  if word.isPrefixOf cs then (value, some (cs.drop word.length)) else (.unreadable, none)

/-- A text after its opening quote. -/
def readText (cs : List Char) : Progress Json :=
  match readPieces cs with
  | some (ps, cs) =>
    (match pieceString? ps with
      | some s => .string s
      | none => .unreadable,
      some cs)
  | none => (.unreadable, none)

/-- A number. -/
def readNumber (cs : List Char) : Progress Json :=
  match Numeral.read cs with
  | some (x, cs) => (x.value, some cs)
  | none => (.unreadable, none)

mutual

/-- A value, with room for so many nested arrays and objects.  The first argument bounds the number
of steps. -/
def readValue : Nat → Nat → List Char → Progress Json
  | 0, _, _ => (.unreadable, none)
  | fuel + 1, room, cs =>
    match skipBlanks cs with
    | [] => (.unreadable, none)
    | c :: cs =>
      if c = '"' then readText cs
      else if c = '[' then
        let (items, rest) := match skipBlanks cs with
          | ']' :: cs => ([], some cs)
          | cs => readItems fuel (room - 1) cs
        (if room = 0 then .unreadable else .array items, rest)
      else if c = '\x7b' then
        let (fields, rest) := match skipBlanks cs with
          | '\x7d' :: cs => (some [], some cs)
          | cs => readFields fuel (room - 1) cs
        (match room, fields with
          | _ + 1, some fields => .object fields
          | _, _ => .unreadable,
          rest)
      else if c = 'n' then readWord "ull".toList .null cs
      else if c = 't' then readWord "rue".toList (.bool true) cs
      else if c = 'f' then readWord "alse".toList (.bool false) cs
      else readNumber (c :: cs)

/-- The items of an array from one on, to its end. -/
def readItems : Nat → Nat → List Char → Progress (List Json)
  | 0, _, _ => ([.unreadable], none)
  | fuel + 1, room, cs =>
    let (j, rest) := readValue fuel room cs
    match rest.map skipBlanks with
    | some (',' :: cs) =>
      let (js, rest) := readItems fuel room cs
      (j :: js, rest)
    | some (']' :: cs) => ([j], some cs)
    | some _ => ([j, .unreadable], none)
    | none => ([j], none)

/-- The fields of an object from one on, to its end.  An object that breaks off, or with a name that
has no value, has no fields. -/
def readFields : Nat → Nat → List Char → Progress (Option (List (String × Json)))
  | 0, _, _ => (none, none)
  | fuel + 1, room, cs =>
    match skipBlanks cs with
    | '"' :: cs =>
      match readPieces cs with
      | none => (none, none)
      | some (ps, cs) =>
        match skipBlanks cs with
        | ':' :: cs =>
          let (j, rest) := readValue fuel room cs
          let field := (pieceString? ps).map fun name => (name, j)
          match rest.map skipBlanks with
          | some (',' :: cs) =>
            let (fields, rest) := readFields fuel room cs
            (do return (← field) :: (← fields), rest)
          | some ('\x7d' :: cs) => (do return [← field], some cs)
          | _ => (none, none)
        | _ => (none, none)
    | _ => (none, none)

end

/-- What a text holds. -/
structure Reading where
  value : Json
  /-- The text is one value and nothing more. -/
  complete : Bool

/-- Reads a text, with room for so many nested arrays and objects. -/
def read (room : Nat) (text : String) : Reading :=
  let cs := text.toList
  let (value, rest) := readValue (2 * cs.length + 2) room cs
  ⟨value, match rest with
    | some cs => (skipBlanks cs).isEmpty
    | none => false⟩

/-- How deep a text may be nested. -/
def maxDepth : Nat := 127

end SynthDom.Json
