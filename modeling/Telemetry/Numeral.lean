import Telemetry.Count
/-!
Decimal numerals as they are written: sign, digits before and after the point, exponent. A numeral
keeps its spelling, so the same number has many numerals.
-/

namespace Telemetry

inductive Sign where
  | plus
  | minus
  deriving DecidableEq, Repr

/-- An empty `fraction` means that no point is written. -/
structure Numeral where
  negative : Bool
  whole : List Char
  fraction : List Char
  exponent : Option (Option Sign × List Char)
  deriving DecidableEq, Repr

namespace Numeral

def signChars : Option Sign → List Char
  | none => []
  | some .plus => ['+']
  | some .minus => ['-']

def chars (n : Numeral) : List Char :=
  (if n.negative then ['-'] else []) ++ n.whole ++
    (if n.fraction = [] then [] else '.' :: n.fraction) ++
    (match n.exponent with
      | none => []
      | some (sign, digits) => 'e' :: (signChars sign ++ digits))

def text (n : Numeral) : String := String.ofList n.chars

/-- Neither a point nor an exponent is written. -/
def isInteger (n : Numeral) : Bool := n.fraction.isEmpty && n.exponent.isNone

def significand (n : Numeral) : Nat := Nat.ofDigitChars 10 (n.whole ++ n.fraction) 0

def digit (c : Char) : Nat := c.toNat - '0'.toNat

/-- The written exponent, or zero. Its digits count only until the value has reached `limit`. -/
def exponentValue (limit : Nat) (n : Numeral) : Int :=
  match n.exponent with
  | none => 0
  | some (sign, digits) =>
    let e : Nat := digits.foldl (fun e c => if e < limit then 10 * e + digit c else e) 0
    if sign = some .minus then -(e : Int) else e

end Numeral

/-- The decimal number `digits · 10 ^ exponent`. -/
structure Decimal where
  digits : Nat
  exponent : Int
  deriving DecidableEq, Repr

namespace Decimal

def length (d : Decimal) : Nat := (Nat.toDigits 10 d.digits).length

def leading (d : Decimal) : Int := d.exponent + d.length - 1

end Decimal

end Telemetry
