import Mathlib.Tactic.SplitIfs
import Telemetry.Text.Hex
import Telemetry.Text.Utf8
/-!
Hexadecimal digits that are read back. Two digits stand for a byte, in either case; so a text of digits
stands for some bytes exactly if, in small letters, it is what is written for them.
-/

namespace Telemetry

/-- One of the ten digits, or of the first six letters in either case. -/
def IsHexDigit (c : Char) : Prop :=
  '0' ≤ c ∧ c ≤ '9' ∨ 'A' ≤ c ∧ c ≤ 'F' ∨ 'a' ≤ c ∧ c ≤ 'f'

/-- The bytes that pairs of digits stand for. Nothing may stand between them or be left over. -/
def hexBytes? : List Char → Option Bytes
  | [] => some []
  | [_] => none
  | a :: b :: cs => do
    let n ← hexPair? a b
    return UInt8.ofNat n :: (← hexBytes? cs)

variable {c a b : Char} {n : Nat} {cs : List Char} {bytes : Bytes}

theorem isHexDigit_iff : IsHexDigit c ↔ 0x30 ≤ c.toNat ∧ c.toNat ≤ 0x39 ∨
    0x41 ≤ c.toNat ∧ c.toNat ≤ 0x46 ∨ 0x61 ≤ c.toNat ∧ c.toNat ≤ 0x66 := Iff.rfl

theorem hexValue?_eq (c : Char) : hexValue? c =
    if 0x30 ≤ c.toNat ∧ c.toNat ≤ 0x39 then some (c.toNat - 0x30)
    else if 0x41 ≤ c.toNat ∧ c.toNat ≤ 0x46 then some (c.toNat - 0x41 + 10)
    else if 0x61 ≤ c.toNat ∧ c.toNat ≤ 0x66 then some (c.toNat - 0x61 + 10) else none := rfl

theorem toNat_hexDigit : ∀ n, n < 16 → n < 10 ∧ (hexDigit n).toNat = n + 0x30 ∨
    10 ≤ n ∧ (hexDigit n).toNat = n + 0x57 := by
  decide

theorem eq_hexDigit_iff (h : n < 16) :
    c = hexDigit n ↔ n < 10 ∧ c.toNat = n + 0x30 ∨ 10 ≤ n ∧ c.toNat = n + 0x57 := by
  rw [← Char.toNat_inj]
  have written := toNat_hexDigit n h
  omega

theorem toNat_toLower (c : Char) :
    c.toLower.toNat = if 0x41 ≤ c.toNat ∧ c.toNat ≤ 0x5A then c.toNat + 0x20 else c.toNat := by
  unfold Char.toLower
  split
  case isTrue large =>
    have range : 0x41 ≤ c.toNat ∧ c.toNat ≤ 0x5A := large
    rw [if_pos range]
    show (c.toNat + 0x20) % 2 ^ 32 = c.toNat + 0x20
    omega
  case isFalse other =>
    have range : ¬(0x41 ≤ c.toNat ∧ c.toNat ≤ 0x5A) := other
    rw [if_neg range]

theorem hexValue?_eq_some_iff : hexValue? c = some n ↔ n < 16 ∧ c.toLower = hexDigit n := by
  rw [and_congr_right eq_hexDigit_iff, toNat_toLower, hexValue?_eq]
  by_cases digit : 0x30 ≤ c.toNat ∧ c.toNat ≤ 0x39
  · rw [if_pos digit, if_neg (by omega), Option.some.injEq]
    omega
  by_cases large : 0x41 ≤ c.toNat ∧ c.toNat ≤ 0x46
  · rw [if_neg digit, if_pos large, if_pos (by omega), Option.some.injEq]
    omega
  by_cases small : 0x61 ≤ c.toNat ∧ c.toNat ≤ 0x66
  · rw [if_neg digit, if_neg large, if_pos small, if_neg (by omega), Option.some.injEq]
    omega
  · rw [if_neg digit, if_neg large, if_neg small]
    refine iff_of_false nofun ?_
    split <;> omega

theorem isHexDigit_of_value (h : hexValue? c = some n) : IsHexDigit c := by
  rw [hexValue?_eq] at h
  rw [isHexDigit_iff]
  split_ifs at h <;> omega

theorem hexPair?_eq_some_iff : hexPair? a b = some n ↔
    n < 256 ∧ a.toLower = hexDigit (n / 16) ∧ b.toLower = hexDigit (n % 16) := by
  rw [hexPair?, Option.bind_eq_bind, Option.bind_eq_some_iff]
  constructor
  · rintro ⟨high, first, second⟩
    obtain ⟨low, second, sum⟩ := Option.bind_eq_some_iff.mp second
    obtain ⟨smallHigh, ha⟩ := hexValue?_eq_some_iff.mp first
    obtain ⟨smallLow, hb⟩ := hexValue?_eq_some_iff.mp second
    obtain rfl : high * 16 + low = n := Option.some.inj sum
    have halves : (high * 16 + low) / 16 = high ∧ (high * 16 + low) % 16 = low := by omega
    rw [halves.1, halves.2]
    exact ⟨by omega, ha, hb⟩
  · rintro ⟨bound, ha, hb⟩
    refine ⟨n / 16, hexValue?_eq_some_iff.mpr ⟨by omega, ha⟩, ?_⟩
    refine Option.bind_eq_some_iff.mpr ⟨n % 16, hexValue?_eq_some_iff.mpr ⟨by omega, hb⟩, ?_⟩
    exact congrArg some (by omega)

theorem isHexDigit_of_pair (h : hexPair? a b = some n) : IsHexDigit a ∧ IsHexDigit b := by
  obtain ⟨high, first, second⟩ := Option.bind_eq_some_iff.mp h
  obtain ⟨low, second, -⟩ := Option.bind_eq_some_iff.mp second
  exact ⟨isHexDigit_of_value first, isHexDigit_of_value second⟩

theorem hexBytes?_cons_eq_some_iff {byte : UInt8} : hexBytes? (a :: b :: cs) = some (byte :: bytes) ↔
    hexPair? a b = some byte.toNat ∧ hexBytes? cs = some bytes := by
  have bound := byte.toNat_lt
  simp only [hexBytes?, Option.bind_eq_bind, Option.bind_eq_some_iff, Option.pure_def,
    Option.some.injEq, List.cons.injEq]
  constructor
  · rintro ⟨n, pair, rest, later, rfl, rfl⟩
    rw [UInt8.toNat_ofNat_of_lt' (hexPair?_eq_some_iff.mp pair).1]
    exact ⟨pair, later⟩
  · rintro ⟨pair, later⟩
    exact ⟨byte.toNat, pair, bytes, later, UInt8.ofNat_toNat, rfl⟩

theorem digits_of_hexBytes? (h : hexBytes? cs = some bytes) :
    cs.length = 2 * bytes.length ∧ ∀ c ∈ cs, IsHexDigit c := by
  induction bytes generalizing cs with
  | nil =>
    match cs with
    | [] => exact ⟨rfl, fun c hc => nomatch hc⟩
    | [_] => cases h
    | a :: b :: cs => simp [hexBytes?, Option.bind_eq_some_iff] at h
  | cons byte bytes ih =>
    match cs with
    | [] => simp [hexBytes?] at h
    | [_] => cases h
    | a :: b :: cs =>
      obtain ⟨pair, later⟩ := hexBytes?_cons_eq_some_iff.mp h
      obtain ⟨size, digits⟩ := ih later
      obtain ⟨first, second⟩ := isHexDigit_of_pair pair
      refine ⟨?_, List.forall_mem_cons.mpr ⟨first, List.forall_mem_cons.mpr ⟨second, digits⟩⟩⟩
      rw [List.length_cons, List.length_cons, List.length_cons, size]
      omega

end Telemetry
