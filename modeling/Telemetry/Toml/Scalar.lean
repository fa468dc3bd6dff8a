import Telemetry.Binary64.Reading
import Telemetry.Text.Split
import Telemetry.Toml.Quoted
/-!
Numbers, truth values and moments in a TOML document: words without blanks.
-/

namespace Telemetry.Toml

/-- Digits without the underscores between them. An underscore stands between two digits only. -/
def ungroup? (isDigit : Char → Bool) (cs : List Char) : Option (List Char) :=
  let groups := splitChars '_' cs
  if groups.all fun g => g ≠ [] && g.all isDigit then some groups.flatten else none

/-- A number in hexadecimal, octal or binary digits. It has no sign. -/
def based? (base : Nat) (cs : List Char) : Option Value := do
  let isDigit (c : Char) := (hexValue? c).any (· < base)
  let digits ← ungroup? isDigit cs
  let n := digits.foldl (fun n c => base * n + (hexValue? c).getD 0) 0
  return .integer (← Count.ofInt? n)

/-- Decimal digits without a needless zero in front. -/
def whole? (cs : List Char) : Option (List Char) :=
  if cs = ['0'] ∨ cs.head? ≠ some '0' then ungroup? isDigit cs else none

def takeSign : List Char → Option Sign × List Char
  | '+' :: cs => (some .plus, cs)
  | '-' :: cs => (some .minus, cs)
  | cs => (none, cs)

def decimal? (negative : Bool) (cs : List Char) : Option Value := do
  let n := Nat.ofDigitChars 10 (← whole? cs) 0
  return .integer (← Count.ofInt? (if negative then -(n : Int) else n))

def exponent? : List Char → Option (Option (Option Sign × List Char))
  | [] => some none
  | _ :: cs =>
    let (sign, digits) := takeSign cs
    (ungroup? isDigit digits).map fun digits => some (sign, digits)

/-- A number with a point, an exponent or both; there are digits on both sides of the point. -/
def fractional? (negative : Bool) (cs : List Char) : Option Numeral := do
  let isMark (c : Char) := c = 'e' || c = 'E'
  let mantissa := cs.takeWhile fun c => !isMark c
  let exponent ← exponent? (cs.dropWhile fun c => !isMark c)
  match splitOnce? ['.'] mantissa with
  | some (whole, fraction) =>
    return ⟨negative, ← whole? whole, ← ungroup? isDigit fraction, exponent⟩
  | none => if exponent.isSome then some ⟨negative, ← whole? mantissa, [], exponent⟩ else none

/-- A number above the range of the format is refused; one below it is minus infinity. -/
def float? (negative : Bool) (cs : List Char) : Option Value :=
  if cs = ['i', 'n', 'f'] then some (.float (.infinity negative))
  else if cs = ['n', 'a', 'n'] then some (.float (if negative then Binary64.nan.neg else .nan))
  else
    ((fractional? negative cs).map Binary64.ofNumeral).bind fun x =>
      if x = .infinity false then none else some (.float x)

def daysIn (year month : Nat) : Nat :=
  if month = 2 then
    if year % 4 = 0 ∧ (year % 100 ≠ 0 ∨ year % 400 = 0) then 29 else 28
  else if month ∈ [4, 6, 9, 11] then 30
  else 31

def scanPair (low high : Nat) : List Char → Option (Nat × List Char)
  | a :: b :: rest =>
    match digitsValue? [a, b] with
    | some n => if low ≤ n ∧ n ≤ high then some (n, rest) else none
    | none => none
  | _ => none

def skip? (c : Char) : List Char → Option (List Char)
  | [] => none
  | d :: rest => if d = c then some rest else none

def afterDate? (cs : List Char) : Option (List Char) := do
  let year ← (digitsValue? (cs.take 4)).filter fun _ => 4 ≤ cs.length
  let rest ← skip? '-' (cs.drop 4)
  let (month, rest) ← scanPair 1 12 rest
  let rest ← skip? '-' rest
  let (_, rest) ← scanPair 1 (daysIn year month) rest
  return rest

/-- What follows a time; the second 60 is there for leap seconds. -/
def afterTime? (cs : List Char) : Option (List Char) := do
  let (_, rest) ← scanPair 0 23 cs
  let (_, rest) ← scanPair 0 59 (← skip? ':' rest)
  let (_, rest) ← scanPair 0 60 (← skip? ':' rest)
  match rest with
  | '.' :: d :: rest => return if isDigit d then rest.dropWhile isDigit else '.' :: d :: rest
  | rest => return rest

def isOffset (cs : List Char) : Bool :=
  cs = ['Z'] || cs = ['z'] ||
    match takeSign cs with
    | (none, _) => false
    | (some _, cs) =>
      ((scanPair 0 23 cs).bind fun (_, rest) => (skip? ':' rest).bind (scanPair 0 59)).any
        fun (_, rest) => rest.isEmpty

/-- A date, a time, or a date with a time after it. -/
def isMoment (cs : List Char) : Bool :=
  match afterDate? cs with
  | some [] => true
  | some (mark :: rest) =>
    (mark = 'T' || mark = 't' || mark = ' ') &&
      (afterTime? rest).any fun offset => offset.isEmpty || isOffset offset
  | none => afterTime? cs = some []

def scalar? (word : List Char) : Option Value :=
  match word with
  | ['t', 'r', 'u', 'e'] => some (.flag true)
  | ['f', 'a', 'l', 's', 'e'] => some (.flag false)
  | '0' :: 'x' :: digits => based? 16 digits
  | '0' :: 'o' :: digits => based? 8 digits
  | '0' :: 'b' :: digits => based? 2 digits
  | word =>
    if isMoment word then some (.moment word)
    else
      let (sign, digits) := takeSign word
      let negative := sign = some .minus
      (decimal? negative digits).or (float? negative digits)

end Telemetry.Toml
