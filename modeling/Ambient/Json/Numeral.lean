import Ambient.Json.Basic

/-!
# Numerals

A numeral is a number as JSON writes it: an optional minus sign, digits without a superfluous zero, then
possibly a point with digits and an exponent with digits. A numeral without point and exponent, up to the
largest 64-bit word, is an integer; every other one stands for a floating-point number, and is TOO LARGE if
that would be infinite.

A floating-point number is read from its leading digits, as many as fit a 64-bit word: they are rounded to 53
bits, multiplied with the power of ten, which is itself rounded to 53 bits, and rounded again. That the library
`serde_json` takes these steps, and calls the same numerals too large, is ASSUMED.
-/

namespace Ambient.Json

/-- A number as it is written. -/
structure Numeral where
  isNegative : Bool
  whole : Text
  /-- The digits behind the point. -/
  fraction? : Option Text
  /-- Sign and digits of the exponent. -/
  exponent? : Option (Bool × Text)
  deriving DecidableEq, Repr

/-- The largest 64-bit word. -/
def maxWord : Nat := UInt64.size - 1

namespace Numeral

/-! ## 1. Integers -/

/-- Is the numeral a natural number of 64 bits? -/
def natural? (n : Numeral) : Option Nat :=
  if n.isNegative || n.fraction?.isSome || n.exponent?.isSome then none
  else if digitsValue n.whole ≤ maxWord then some (digitsValue n.whole)
  else none

/-! ## 2. Size -/

/-- Appends digits to a number as long as it stays a word: the number, and how many digits were left. -/
def absorb (significand : Nat) : Text → Nat × Nat
  | [] => (significand, 0)
  | c :: digits =>
    let next := 10 * significand + (c.toNat - '0'.toNat)
    if next ≤ maxWord then absorb next digits else (significand, digits.length + 1)

/-- The leading digits as a word, and the power of ten they are to be multiplied with. -/
def parts (n : Numeral) : Nat × Int :=
  let fraction := n.fraction?.getD []
  let (leading, left) := absorb 0 n.whole
  let (significand, leftOfFraction) := absorb leading fraction
  let absorbed := fraction.length - leftOfFraction
  let shift : Int :=
    match n.exponent? with
    | none => 0
    | some (isNegative, digits) => if isNegative then -(digitsValue digits : Int) else digitsValue digits
  (significand, left - absorbed + shift)

/-- The nearest number of at most 53 bits; of two equally near ones the even. -/
def roundTo53 (n : Nat) : Nat :=
  let unit := Nat.pow 2 (n.log2 + 1 - 53)
  let quotient := n / unit
  let twice := 2 * (n % unit)
  if twice < unit || (twice = unit && quotient % 2 = 0) then quotient * unit else (quotient + 1) * unit

/-- The least number that rounds to infinity. -/
def infinityBound : Nat := Nat.pow 2 1024 - Nat.pow 2 970

/-- Is the numeral beyond every floating-point number? -/
def isTooLarge (n : Numeral) : Bool :=
  let (significand, power) := n.parts
  significand != 0 && decide (0 ≤ power) &&
    (decide (308 < power) || infinityBound ≤ roundTo53 significand * roundTo53 (Nat.pow 10 power.toNat))

end Numeral
end Ambient.Json
