/-!
Numbers of the 64-bit binary format as words: sign, eleven bits of exponent, fifty-two of fraction.

The absolute value of a finite word is `significand · 2 ^ scale`. Rounding is stated once, for a
quotient of natural numbers: to the nearest number of the format, a tie to the even word, and to
infinity past the largest. Products, quotients and conversions of whole numbers are this rounding
of the exact result.
-/

namespace Telemetry

structure Binary64 where
  bits : UInt64
  deriving DecidableEq, Inhabited

namespace Binary64

/-- `2 ^ 63`: the bit of the sign. -/
def signBit : Nat := 9223372036854775808
/-- `2 ^ 52`: the number of fractions, and the leading bit of a significand. -/
def leadingBit : Nat := 4503599627370496

def negative (x : Binary64) : Bool := signBit ≤ x.bits.toNat
def magnitude (x : Binary64) : Nat := x.bits.toNat % signBit

def ofMagnitude (negative : Bool) (magnitude : Nat) : Binary64 :=
  ⟨UInt64.ofNat (magnitude + if negative then signBit else 0)⟩

def infinityMagnitude : Nat := 0x7FF0000000000000

def isFinite (x : Binary64) : Bool := x.magnitude < infinityMagnitude
def isInfinite (x : Binary64) : Bool := x.magnitude = infinityMagnitude
def isNaN (x : Binary64) : Bool := infinityMagnitude < x.magnitude
def isZero (x : Binary64) : Bool := x.magnitude = 0

def zero : Binary64 := ⟨0⟩
def nan : Binary64 := ofMagnitude false 0x7FF8000000000000
def infinity (negative : Bool) : Binary64 := ofMagnitude negative infinityMagnitude

def neg (x : Binary64) : Binary64 := ofMagnitude (!x.negative) x.magnitude

/-- Negative zero as the zero without sign; every other number as it is. -/
def dropZeroSign (x : Binary64) : Binary64 := if x.isZero then zero else x

def significand (x : Binary64) : Nat :=
  if x.magnitude / leadingBit = 0 then x.magnitude % leadingBit
  else leadingBit + x.magnitude % leadingBit
def scale (x : Binary64) : Int := max (x.magnitude / leadingBit : Nat) 1 - 1075

/-- `n · base ^ e` as a numerator and a denominator. -/
def powerRatio (n base : Nat) (e : Int) : Nat × Nat :=
  if 0 ≤ e then (n * Nat.pow base e.toNat, 1) else (n, Nat.pow base (-e).toNat)

def ratio (x : Binary64) : Nat × Nat := powerRatio x.significand 2 x.scale

/-- The largest `e` with `2 ^ e ≤ num / den`, for positive `num` and `den`. -/
def floorLog2 (num den : Nat) : Int :=
  let e : Int := (Nat.log2 num : Int) - Nat.log2 den
  let (low, high) := if 0 ≤ e then (den * Nat.pow 2 e.toNat, num)
    else (den, num * Nat.pow 2 (-e).toNat)
  if low ≤ high then e else e - 1

/-- The natural number nearest to `num / den`, the even one of two. -/
def roundQuotient (num den : Nat) : Nat :=
  let q := num / den
  let r := num % den
  if den < 2 * r ∨ (den = 2 * r ∧ q % 2 = 1) then q + 1 else q

/-- The word of the nonnegative number nearest to `num / den`. A quotient of `2 ^ 52` units stands
for the next exponent, so the exponent and the rounded quotient are simply added. -/
def magnitudeOfRatio (num den : Nat) : Nat :=
  if num = 0 then 0
  else
    let e := max (floorLog2 num den - 52) (-1074)
    let q := if 0 ≤ e then roundQuotient num (den * Nat.pow 2 e.toNat)
      else roundQuotient (num * Nat.pow 2 (-e).toNat) den
    min infinityMagnitude ((e + 1074).toNat * leadingBit + q)

def ofRatio (negative : Bool) (num den : Nat) : Binary64 :=
  ofMagnitude negative (magnitudeOfRatio num den)

def ofNat (n : Nat) : Binary64 := ofRatio false n 1

def mul (x y : Binary64) : Binary64 :=
  let (a, b) := x.ratio
  let (c, d) := y.ratio
  ofRatio (x.negative != y.negative) (a * c) (b * d)

def div (x y : Binary64) : Binary64 :=
  let (a, b) := x.ratio
  let (c, d) := y.ratio
  ofRatio (x.negative != y.negative) (a * d) (b * c)

def powerOfTen (k : Nat) : Binary64 := ofNat (Nat.pow 10 k)

end Binary64

end Telemetry
