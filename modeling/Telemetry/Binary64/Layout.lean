import Telemetry.Binary64.Shortest
/-!
How a number is written: the shortest digits, laid out with or without an exponent.

Metric values in plain text never have an exponent and no needless point. In JSON the decimal form
is used while the leading digit stands between `10 ^ -5` and `10 ^ 15`, always with a digit after
the point; outside it, the exponent carries its sign. JSON has no form for what is not finite.
-/

namespace Telemetry

/-- Where the leading digit may stand in the decimal form (`none`: anywhere), whether a digit after
the point is always written, and the digits of a tie. -/
structure Layout where
  positional : Option (Int × Int)
  point : Bool
  tie : Tie
  deriving DecidableEq, Repr

def plainLayout : Layout := ⟨none, false, .up⟩
def jsonLayout : Layout := ⟨some (-5, 15), true, .even⟩

namespace Layout

def isPositional (l : Layout) (leading : Int) : Bool :=
  match l.positional with
  | none => true
  | some (lowest, highest) => lowest ≤ leading && leading ≤ highest

/-- Digits around the point; `exponent` is that of the last digit. -/
def around (digits : List Char) (exponent : Int) : List Char × List Char :=
  if 0 ≤ exponent then (digits ++ List.replicate exponent.toNat '0', [])
  else
    let places := (-exponent).toNat
    if places < digits.length then digits.splitAt (digits.length - places)
    else (['0'], List.replicate (places - digits.length) '0' ++ digits)

def positionalNumeral (l : Layout) (negative : Bool) (digits : List Char) (exponent : Int) :
    Numeral :=
  let (whole, fraction) := around digits exponent
  ⟨negative, whole, if l.point && fraction.isEmpty then ['0'] else fraction, none⟩

def scientificNumeral (negative : Bool) (digits : List Char) (leading : Int) : Numeral :=
  ⟨negative, digits.take 1, digits.drop 1,
    some (some (if leading < 0 then .minus else .plus), Nat.toDigits 10 leading.natAbs)⟩

def numeral (l : Layout) (negative : Bool) (d : Decimal) : Numeral :=
  let digits := Nat.toDigits 10 d.digits
  if l.isPositional d.leading then l.positionalNumeral negative digits d.exponent
  else scientificNumeral negative digits d.leading

end Layout

namespace Binary64

def numeral (l : Layout) (x : Binary64) : Numeral := l.numeral x.negative (x.shortest l.tie)

def text (x : Binary64) : String :=
  if x.isNaN then "NaN"
  else if x.isInfinite then (if x.negative then "-inf" else "inf")
  else (x.numeral plainLayout).text

end Binary64

end Telemetry
