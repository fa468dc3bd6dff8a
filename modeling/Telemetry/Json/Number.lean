import Telemetry.Binary64.Layout
import Telemetry.Json.Value
/-!
Numbers in JSON.

An integer is read from an integer literal only. A floating number is read in three roundings: the
digits are cut to a significand of 64 bits, that is rounded, and one multiplication or division by a
power of ten follows. The result is near the number that is written, but it need not be the nearest.
-/

namespace Telemetry.Json

/-- Takes digits behind `m` while the number stays below `2 ^ 64`; also counts the taken ones. -/
def takeDigits (m count : Nat) : List Char → Nat × Nat
  | [] => (m, count)
  | c :: cs =>
    let next := 10 * m + Numeral.digit c
    if next < wordCount then takeDigits next (count + 1) cs else (m, count)

/-- The significand that is kept, and its exponent. Digits before the point that are cut still
count in the exponent. -/
def cutDecimal (n : Numeral) : Decimal :=
  let (m, wholeTaken) := takeDigits 0 0 n.whole
  let (m, fractionTaken) := takeDigits m 0 n.fraction
  ⟨m, (n.whole.length - wholeTaken : Nat) - (fractionTaken : Int) + n.exponentValue 2147483648⟩

/-- Divides by the largest power of ten in the table, `count` times or until nothing is left. -/
def shrink : Nat → Binary64 → Binary64
  | 0, x => x
  | count + 1, x => if x.isZero then x else shrink count (x.div (.powerOfTen 308))

/-- `x · 10 ^ e`, unless it leaves the range. -/
def scaled? (x : Binary64) (e : Int) : Option Binary64 :=
  if 0 ≤ e then
    if x.isZero then some x
    else if 308 < e then none
    else
      let y := x.mul (.powerOfTen e.toNat)
      if y.isFinite then some y else none
  else
    let k := (-e).toNat
    let rounds := (k - 1) / 308
    let y := shrink rounds x
    some (if y.isZero then y else y.div (.powerOfTen (k - 308 * rounds)))

def toBinary64? (n : Numeral) : Option Binary64 :=
  let d := cutDecimal n
  (scaled? (.ofNat d.digits) d.exponent).map fun x => if n.negative then x.neg else x

/-- Negative zero is no integer, and no count has more than nineteen digits. -/
def toCount? (n : Numeral) : Option Count :=
  if !n.isInteger || 19 < n.whole.length then none
  else if n.negative then
    if n.significand = 0 then none else Count.ofInt? (-n.significand)
  else Count.ofInt? n.significand

namespace Value

def ofBinary64 (x : Binary64) : Value :=
  if x.isFinite then .number (x.numeral jsonLayout) else .null

def ofCount (c : Count) : Value :=
  .number ⟨c.val < 0, Nat.toDigits 10 c.val.natAbs, [], none⟩

def text? : Value → Option String
  | .string s => s
  | _ => none

def binary64? : Value → Option Binary64
  | .number n => toBinary64? n
  | _ => none

def count? : Value → Option Count
  | .number n => toCount? n
  | _ => none

def optional? {α : Type} (read : Value → Option α) : Option Value → Option (Option α)
  | none => some none
  | some .null => some none
  | some v => (read v).map some

/-- Whether every key of an object is text; keys are read even where values are skipped. -/
def keysReadable (members : List (Option String × Value)) : Bool :=
  members.all fun m => m.1.isSome

def membersNamed (key : String) (members : List (Option String × Value)) : List Value :=
  (members.filter fun m => m.1 = some key).map Prod.snd

/-- The value of a key that may be missing but not repeated. -/
def member? (key : String) (members : List (Option String × Value)) : Option (Option Value) :=
  match membersNamed key members with
  | [] => some none
  | [v] => some (some v)
  | _ => none

end Value

end Telemetry.Json
