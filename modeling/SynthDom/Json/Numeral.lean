import SynthDom.Json.Basic
import SynthDom.Json.Double

/-!
# Numbers as they are written

A `Numeral` is a number of a JSON text, digit by digit: `Numeral.read` takes one from the start of
a text, and `Numeral.value` is what it stands for.  Whether it is too large to stand for anything is
a question of its `Decimal`, which keeps the leading digits that fit 64 bits and a power of ten.
-/

namespace SynthDom.Json

/-- The digits at the start of a text, and what follows. -/
def readDigits (cs : List Char) : List Char × List Char :=
  (cs.takeWhile Char.isDigit, cs.dropWhile Char.isDigit)

/-- The number of some digits. -/
def digitsValue (ds : List Char) : Nat := Nat.ofDigitChars 10 ds 0

/-! ## Decimals -/

/-- The number `significand * 10 ^ exponent`. -/
structure Decimal where
  significand : Nat
  exponent : Int

namespace Decimal

/-- The greatest significand: 64 bits. -/
def maxSignificand : Nat := Nat.pow 2 64 - 1

/-- The significand with one more digit. -/
def extend (x : Decimal) (c : Char) : Nat := digitsValue [c] + 10 * x.significand

/-- Takes in digits before the point.  From the first that the significand has no room for, they
count as zeros. -/
def addWhole (x : Decimal) : List Char → Decimal
  | [] => x
  | c :: cs =>
    if maxSignificand < x.extend c then ⟨x.significand, x.exponent + cs.length + 1⟩
    else addWhole ⟨x.extend c, x.exponent⟩ cs

/-- Takes in digits after the point.  From the first that the significand has no room for, they are
left out. -/
def addFraction (x : Decimal) : List Char → Decimal
  | [] => x
  | c :: cs =>
    if maxSignificand < x.extend c then x
    else addFraction ⟨x.extend c, x.exponent - 1⟩ cs

/-- The decimal lies beyond what a double can hold, taken as the product of its significand and its
power of ten, each of them a double.  Twenty digits leave room for an exponent of 288, and no power
above 308 is a double; the powers are computed only in between. -/
def isTooLarge (x : Decimal) : Bool :=
  if x.significand = 0 || x.exponent ≤ 288 then false
  else x.exponent > 308
    || Double.limit ≤ Double.round x.significand * Double.round (Nat.pow 10 x.exponent.toNat)

end Decimal

/-! ## Numerals -/

/-- A number as it is written: a sign, digits, digits after a point, and an exponent. -/
structure Numeral where
  negative : Bool
  whole : List Char
  fraction : Option (List Char)
  exponent : Option (List Char × List Char)

namespace Numeral

/-- The digits before the point: a zero, or digits that do not start with one. -/
def readWhole : List Char → Option (List Char × List Char)
  | '0' :: cs => some (['0'], cs)
  | cs =>
    let (ds, cs) := readDigits cs
    if ds.isEmpty then none else some (ds, cs)

/-- The digits after a point, if there is one. -/
def readFraction : List Char → Option (Option (List Char) × List Char)
  | '.' :: cs =>
    let (ds, cs) := readDigits cs
    if ds.isEmpty then none else some (some ds, cs)
  | cs => some (none, cs)

/-- The sign of an exponent. -/
def readSign : List Char → List Char × List Char
  | '+' :: cs => (['+'], cs)
  | '-' :: cs => (['-'], cs)
  | cs => ([], cs)

/-- The sign and digits of an exponent, if there is one. -/
def readExponent : List Char → Option (Option (List Char × List Char) × List Char)
  | c :: cs =>
    if c = 'e' || c = 'E' then
      let (sign, cs) := readSign cs
      let (ds, cs) := readDigits cs
      if ds.isEmpty then none else some (some (sign, ds), cs)
    else some (none, c :: cs)
  | [] => some (none, [])

/-- The numeral at the start of a text, and what follows. -/
def read (cs : List Char) : Option (Numeral × List Char) := do
  let (negative, cs) := match cs with
    | '-' :: cs => (true, cs)
    | cs => (false, cs)
  let (whole, cs) ← readWhole cs
  let (fraction, cs) ← readFraction cs
  let (exponent, cs) ← readExponent cs
  return (⟨negative, whole, fraction, exponent⟩, cs)

/-- The power of ten that the written digits are multiplied by. -/
def power (x : Numeral) : Int :=
  match x.exponent with
  | some (['-'], ds) => -(digitsValue ds : Int)
  | some (_, ds) => digitsValue ds
  | none => 0

/-- The numeral as a decimal of bounded significand. -/
def decimal (x : Numeral) : Decimal :=
  let d := (Decimal.mk 0 0).addWhole x.whole |>.addFraction (x.fraction.getD [])
  ⟨d.significand, d.exponent + x.power⟩

/-- The text of a numeral. -/
def literal (x : Numeral) : String :=
  String.ofList ((if x.negative then ['-'] else []) ++ x.whole
    ++ (match x.fraction with | some ds => '.' :: ds | none => [])
    ++ (match x.exponent with | some (sign, ds) => 'e' :: (sign ++ ds) | none => []))

/-- The value of a numeral. -/
def value (x : Numeral) : Json :=
  if x.decimal.isTooLarge then .unreadable
  else match x with
    | ⟨false, whole, none, none⟩ => .natural (digitsValue whole)
    | x => .real x.literal

end Numeral

end SynthDom.Json
