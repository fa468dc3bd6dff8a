import Telemetry.Binary64.Basic
import Telemetry.Numeral
import Telemetry.Text.Lowercase
/-!
Numbers read from plain text: the number of the format nearest to what is written.

The point may stand at either end of the digits, an exponent may follow, and infinities and "nan"
may be spelled out in any case. There is no blank, no digit separator and no other base.
-/

namespace Telemetry

namespace Numeral

def exponentPart? : List Char → Option (Option (Option Sign × List Char))
  | [] => some none
  | e :: cs =>
    if e = 'e' ∨ e = 'E' then
      let (sign, digits) := match cs with
        | '+' :: ds => (some Sign.plus, ds)
        | '-' :: ds => (some Sign.minus, ds)
        | ds => (none, ds)
      if digits ≠ [] ∧ digits.all isDigit then some (some (sign, digits)) else none
    else none

/-- An unsigned numeral with at least one digit before or after the point. -/
def unsignedOfText? (negative : Bool) (cs : List Char) : Option Numeral :=
  let whole := cs.takeWhile isDigit
  let rest := cs.dropWhile isDigit
  let (fraction, rest) := match rest with
    | '.' :: ds => (ds.takeWhile isDigit, ds.dropWhile isDigit)
    | ds => ([], ds)
  if whole = [] ∧ fraction = [] then none
  else (exponentPart? rest).map fun e => ⟨negative, whole, fraction, e⟩

/-- The number that the numeral denotes, without its sign. An exponent counts up to a bound that no
number of the format reaches. -/
def decimal (n : Numeral) : Decimal :=
  ⟨n.significand, n.exponentValue 65536 - n.fraction.length⟩

end Numeral

namespace Binary64

/-- The number nearest to a decimal. Far outside the range of the format the answer does not depend
on the digits, and the power of ten is not formed. -/
def ofDecimal (negative : Bool) (d : Decimal) : Binary64 :=
  if d.digits = 0 then ofMagnitude negative 0
  else if 310 < d.leading then infinity negative
  else if d.leading < -330 then ofMagnitude negative 0
  else
    let (num, den) := powerRatio d.digits 10 d.exponent
    ofRatio negative num den

def ofNumeral (n : Numeral) : Binary64 := ofDecimal n.negative n.decimal

def ofUnsignedText? (negative : Bool) (cs : List Char) : Option Binary64 :=
  let word := cs.map Char.toLower
  if word = "inf".toList ∨ word = "infinity".toList then some (infinity negative)
  else if word = "nan".toList then some (if negative then nan.neg else nan)
  else (Numeral.unsignedOfText? negative cs).map ofNumeral

def ofText? (text : String) : Option Binary64 :=
  match text.toList with
  | '+' :: cs => ofUnsignedText? false cs
  | '-' :: cs => ofUnsignedText? true cs
  | cs => ofUnsignedText? false cs

end Binary64

end Telemetry
