import Telemetry.Json.Quoted
import Telemetry.Proofs.Text.Utf8
/-!
A quoted string is scanned up to its closing quote, and its pieces join to the text that was quoted.
-/

namespace Telemetry.Json

variable {acc : List Piece} {rest : Bytes}

/-- What a reader collects for a byte of a string: a control character without a short escape comes
as a unit. -/
def pieceOf (b : UInt8) : Piece :=
  if (escapeByte b).length ≤ 2 then .byte b else .unit b.toNat

theorem scanQuoted_close : scanQuoted acc (0x22 :: rest) = some (acc.reverse, rest) := by
  rw [scanQuoted.eq_def]
  simp

theorem scanQuoted_escaped {e b : UInt8} (hu : e ≠ 0x75) (he : escaped? (Char.ofUInt8 e) = some b) :
    scanQuoted acc (0x5C :: e :: rest) = scanQuoted (.byte b :: acc) rest := by
  rw [scanQuoted.eq_def]
  simp only [show ¬(0x5C : UInt8) = 0x22 by decide, if_false, if_true]
  split
  · contradiction
  · simp_all
  · simp_all

theorem scanQuoted_plain {b : UInt8} (hq : b ≠ 0x22) (hs : b ≠ 0x5C) (hb : ¬b < 0x20) :
    scanQuoted acc (b :: rest) = scanQuoted (.byte b :: acc) rest := by
  rw [scanQuoted.eq_def]
  simp [hq, hs, hb]

theorem hexUnit?_control : ∀ n < 0x20,
    hexUnit? 0x30 0x30 (hexDigit (n / 16)).toUInt8 (hexDigit (n % 16)).toUInt8 = some n := by
  decide

theorem scanQuoted_escapeByte (b : UInt8) :
    scanQuoted acc (escapeByte b ++ rest) = scanQuoted (pieceOf b :: acc) rest := by
  unfold pieceOf escapeByte
  split
  · exact scanQuoted_escaped (by decide) rfl
  · exact scanQuoted_escaped (by decide) rfl
  · exact scanQuoted_escaped (by decide) rfl
  · exact scanQuoted_escaped (by decide) rfl
  · exact scanQuoted_escaped (by decide) rfl
  · exact scanQuoted_escaped (by decide) rfl
  · exact scanQuoted_escaped (by decide) rfl
  · rename_i hq hs _ _ _ _ _
    by_cases hb : b < 0x20
    · have hn : b.toNat < 0x20 := hb
      simp [hb, scanQuoted, hexUnit?_control b.toNat hn]
    · simpa [hb] using scanQuoted_plain hq hs hb

theorem scanQuoted_flatMap (bytes : Bytes) :
    scanQuoted acc (bytes.flatMap escapeByte ++ 0x22 :: rest) =
      some (acc.reverse ++ bytes.map pieceOf, rest) := by
  induction bytes generalizing acc with
  | nil =>
    show scanQuoted acc (0x22 :: rest) = _
    rw [scanQuoted_close]
    simp
  | cons b bytes ih =>
    rw [List.flatMap_cons, List.append_assoc, scanQuoted_escapeByte, ih]
    simp

/-- A unit below the surrogates and the two-byte characters stands for one byte. -/
theorem joinFrom_unit {acc : Bytes} {n : Nat} (h : n < 0x80) (pieces : List Piece) :
    joinFrom acc (.unit n :: pieces) = joinFrom (UInt8.ofNat n :: acc) pieces := by
  have hc : (Char.ofNat n).toNat = n := by
    rw [Char.ofNat, dif_pos (Or.inl (by omega))]
    rfl
  have hb : Utf8.encodeChar (Char.ofNat n) = [UInt8.ofNat n] := by
    rw [Utf8.encodeChar, hc, if_pos h]
  have hh : isHighSurrogate n = false := by
    simp only [isHighSurrogate, Bool.and_eq_false_imp, decide_eq_true_eq]
    omega
  have hl : isLowSurrogate n = false := by
    simp only [isLowSurrogate, Bool.and_eq_false_imp, decide_eq_true_eq]
    omega
  cases pieces with
  | nil => simp [joinFrom, hh, hl, hb]
  | cons p pieces => cases p <;> simp [joinFrom, hh, hl, hb]

theorem length_escapeByte {b : UInt8} (h : ¬b < 0x20) : (escapeByte b).length ≤ 2 := by
  unfold escapeByte
  split <;> simp [h]

theorem joinFrom_pieceOf {acc : Bytes} (bytes : Bytes) :
    joinFrom acc (bytes.map pieceOf) = some (acc.reverse ++ bytes) := by
  induction bytes generalizing acc with
  | nil => simp [joinFrom]
  | cons b bytes ih =>
    have step : joinFrom acc ((b :: bytes).map pieceOf) =
        joinFrom (b :: acc) (bytes.map pieceOf) := by
      rw [List.map_cons, pieceOf]
      split
      · rfl
      · rename_i hb
        have hc : b < 0x20 := Decidable.byContradiction fun h => hb (length_escapeByte h)
        have hn : b.toNat < 0x80 := Nat.lt_trans (UInt8.lt_iff_toNat_lt.mp hc) (by decide)
        rw [joinFrom_unit hn, UInt8.ofNat_toNat]
    rw [step, ih]
    simp

theorem join?_quoted (s : String) : join? ((Utf8.encode s).map pieceOf) = some s := by
  simp [join?, joinFrom_pieceOf]

theorem scanQuoted_quote (s : String) :
    scanQuoted [] ((quote s).tail ++ rest) = some ((Utf8.encode s).map pieceOf, rest) := by
  have split : (quote s).tail ++ rest = (Utf8.encode s).flatMap escapeByte ++ 0x22 :: rest := by
    simp [quote]
  rw [split, scanQuoted_flatMap]
  rfl

end Telemetry.Json
