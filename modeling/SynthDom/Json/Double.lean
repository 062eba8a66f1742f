/-!
# Whole numbers as doubles

A double keeps the leading 53 bits of a number.  `Double.round` is the whole number that a double
keeps of another; `Double.limit` is the least number that rounds to none at all, so a product of
doubles is one again exactly if it stays below.
-/

namespace SynthDom.Json.Double

/-- How many leading bits a double keeps. -/
def precision : Nat := 53

/-- The multiple of a unit nearest to a number, and of two as near the one that is an even
multiple. -/
def roundTo (unit n : Nat) : Nat :=
  let q := n / unit
  let r := n % unit
  (if unit < 2 * r || (2 * r = unit && q % 2 = 1) then q + 1 else q) * unit

/-- What a double keeps of a number, however large. -/
def round (n : Nat) : Nat := roundTo (Nat.pow 2 (n.log2 + 1 - precision)) n

/-- The least number that is too large for a double: halfway between the greatest double and the
next power of two. -/
def limit : Nat := Nat.pow 2 1024 - Nat.pow 2 970

theorem roundTo_one (n : Nat) : roundTo 1 n = n := by
  simp [roundTo, Nat.mod_one]

/-- Numbers of no more bits than a double keeps are kept whole. -/
theorem round_of_lt {n : Nat} (h : n < Nat.pow 2 precision) : round n = n := by
  have : n.log2 + 1 - precision = 0 := by
    by_cases hn : n = 0
    · subst hn; decide
    · have := (Nat.log2_lt hn).2 h
      omega
  simp [round, this, roundTo_one]

end SynthDom.Json.Double
