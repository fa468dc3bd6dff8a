/-!
Counter values and deltas: integers of 64 bits with a sign. A sum outside the range does not wrap,
it is refused.
-/

namespace Telemetry

/-- An integer from `-2 ^ 63` up to but not including `2 ^ 63`. -/
structure Count where
  val : Int
  lower : -9223372036854775808 ≤ val := by omega
  upper : val < 9223372036854775808 := by omega
  deriving DecidableEq

namespace Count

def ofInt? (n : Int) : Option Count :=
  if h : -9223372036854775808 ≤ n ∧ n < 9223372036854775808 then some ⟨n, h.1, h.2⟩ else none

def zero : Count := ⟨0, by decide, by decide⟩
def one : Count := ⟨1, by decide, by decide⟩
def largest : Count := ⟨9223372036854775807, by decide, by decide⟩
def smallest : Count := ⟨-9223372036854775808, by decide, by decide⟩

instance : Inhabited Count := ⟨zero⟩

def add? (a b : Count) : Option Count := ofInt? (a.val + b.val)

/-- The sum, held at the end of the range it would leave. -/
def addSaturating (a b : Count) : Count :=
  if h : a.val + b.val < -9223372036854775808 then smallest
  else if h' : a.val + b.val < 9223372036854775808 then ⟨a.val + b.val, by omega, h'⟩
  else largest

/-- What is left of `a` when `b` is taken away; never less than zero, never above the range. -/
def drop (a b : Count) : Count :=
  if h : a.val - b.val < 0 then zero
  else if h' : a.val - b.val < 9223372036854775808 then ⟨a.val - b.val, by omega, h'⟩
  else largest

theorem ext {a b : Count} (h : a.val = b.val) : a = b := by
  cases a; cases b; simp_all

theorem ofInt?_eq_some_iff {n : Int} {c : Count} : ofInt? n = some c ↔ c.val = n := by
  constructor
  · intro h
    unfold ofInt? at h
    split at h
    · exact congrArg Count.val (Option.some.inj h).symm
    · exact absurd h (by simp)
  · intro h
    have lower := c.lower
    have upper := c.upper
    unfold ofInt?
    rw [dif_pos ⟨by omega, by omega⟩]
    exact congrArg some (ext h.symm)

theorem ofInt?_val (c : Count) : ofInt? c.val = some c := ofInt?_eq_some_iff.mpr rfl

theorem add?_eq_some_iff {a b c : Count} : a.add? b = some c ↔ c.val = a.val + b.val :=
  ofInt?_eq_some_iff

end Count

def isDigit (c : Char) : Bool := '0' ≤ c && c ≤ '9'

/-- A nonempty run of ASCII digits, leading zeros allowed. -/
def digitsValue? (cs : List Char) : Option Nat :=
  if cs ≠ [] ∧ cs.all isDigit then some (Nat.ofDigitChars 10 cs 0) else none

/-- An unsigned decimal integer; one leading plus sign is allowed. -/
def unsigned? : List Char → Option Nat
  | '+' :: cs => digitsValue? cs
  | cs => digitsValue? cs

/-- A decimal integer; one leading sign is allowed. -/
def integer? : List Char → Option Int
  | '-' :: cs => (digitsValue? cs).map fun n => -(n : Int)
  | cs => (unsigned? cs).map fun n => (n : Int)

def integerChars (n : Int) : List Char :=
  if n < 0 then '-' :: Nat.toDigits 10 n.natAbs else Nat.toDigits 10 n.natAbs

namespace Count

def ofText? (text : String) : Option Count := (integer? text.toList).bind ofInt?
def text (c : Count) : String := String.ofList (integerChars c.val)

end Count

/-- `2 ^ 64`: how many unsigned integers of 64 bits there are. -/
def wordCount : Nat := 18446744073709551616

def unsigned64? (text : String) : Option Nat :=
  (unsigned? text.toList).filter (· < wordCount)

end Telemetry
