import Telemetry.Binary64.Basic
import Telemetry.Numeral
/-!
The shortest decimal that reads back as a given number.

A finite number is the nearest one for every real of an interval around it, the ends included when
its significand is even. On each decimal grid only the two neighbours of the number itself need to
be looked at; the coarsest grid with a neighbour inside the interval gives the digits, the nearer
neighbour when both are inside.
-/

namespace Telemetry

/-- Which of two equally near decimals is written. -/
inductive Tie where
  | up
  | even
  deriving DecidableEq, Repr

namespace Binary64

/-- A positive number and the interval of the reals that round to it, over one denominator. -/
structure Span where
  low : Nat
  mid : Nat
  high : Nat
  den : Nat
  closed : Bool
  deriving DecidableEq, Repr

/-- The lower gap is half the upper one where the exponent changes. -/
def span (x : Binary64) : Span :=
  let m := x.significand
  let gap := if x.magnitude % leadingBit = 0 ∧ 1 < x.magnitude / leadingBit then 1 else 2
  let (unit, den) := powerRatio 1 2 (x.scale - 2)
  ⟨(4 * m - gap) * unit, 4 * m * unit, (4 * m + 2) * unit, den, m % 2 = 0⟩

namespace Span

/-- The same interval measured in units of `10 ^ s`. -/
def measured (i : Span) (s : Int) : Span :=
  let (unit, den) := powerRatio 1 10 (-s)
  ⟨i.low * unit, i.mid * unit, i.high * unit, i.den * den, i.closed⟩

def holds (i : Span) (n : Nat) : Bool :=
  if i.closed then i.low ≤ n * i.den && n * i.den ≤ i.high
  else i.low < n * i.den && n * i.den < i.high

def neighbour? (tie : Tie) (i : Span) : Option Nat :=
  let a := i.mid / i.den
  let below := i.mid - a * i.den
  let above := (a + 1) * i.den - i.mid
  match i.holds a, i.holds (a + 1) with
  | false, false => none
  | true, false => some a
  | false, true => some (a + 1)
  | true, true =>
    if below < above then some a
    else if above < below then some (a + 1)
    else match tie with
      | .up => some (a + 1)
      | .even => some (if a % 2 = 0 then a else a + 1)

/-- Tries `count` grids, each ten times finer than the one before. -/
def search (tie : Tie) (i : Span) : Nat → Int → Decimal
  | 0, s => ⟨i.mid / i.den, s⟩
  | count + 1, s =>
    match (i.measured s).neighbour? tie with
    | some n => ⟨n, s⟩
    | none => search tie i count (s - 1)

end Span

/-- No grid coarser than this one has a point inside the interval. -/
def coarsest (x : Binary64) : Int :=
  let (num, den) := x.ratio
  (floorLog2 num den * 30103).fdiv 100000 + 2

/-- Seventeen digits always suffice, and the first grid is at most two above the leading digit. -/
def shortest (tie : Tie) (x : Binary64) : Decimal :=
  if x.isZero then ⟨0, 0⟩ else x.span.search tie 20 x.coarsest

end Binary64

end Telemetry
