import Telemetry.Text.Utf8
/-!
Bytes read bit by bit, from the low end of every byte.
-/

namespace Telemetry.Deflate

/-- The bits still to be read: the low `left` ones of a byte, then those of whole bytes. -/
structure Bits where
  byte : UInt8
  left : Nat
  rest : Bytes
  deriving DecidableEq, Repr

namespace Bits

def ofBytes (bytes : Bytes) : Bits := ⟨0, 0, bytes⟩

def size (s : Bits) : Nat := s.left + 8 * s.rest.length

def next? (s : Bits) : Option (Nat × Bits) :=
  match s.left, s.rest with
  | left + 1, rest => some ((s.byte &&& 1).toNat, ⟨s.byte >>> 1, left, rest⟩)
  | 0, b :: rest => some ((b &&& 1).toNat, ⟨b >>> 1, 7, rest⟩)
  | 0, [] => none

/-- The number that the next bits make, the lowest first. -/
def number? : Nat → Bits → Option (Nat × Bits)
  | 0, s => some (0, s)
  | count + 1, s => do
    let (low, s) ← s.next?
    let (high, s) ← number? count s
    return (low + 2 * high, s)

/-- The whole bytes that are left; bits before them are passed over. -/
def bytes (s : Bits) : Bytes := s.rest

theorem next?_size {s rest : Bits} {bit : Nat} (h : s.next? = some (bit, rest)) :
    rest.size + 1 = s.size := by
  obtain ⟨byte, left, bytes⟩ := s
  cases left with
  | succ left => simp only [next?, Option.some.injEq, Prod.mk.injEq] at h; grind [size]
  | zero =>
    cases bytes with
    | nil => simp [next?] at h
    | cons b bytes => simp only [next?, Option.some.injEq, Prod.mk.injEq] at h; grind [size]

end Bits

end Telemetry.Deflate
