import Mathlib.Data.List.Basic
import Telemetry.Http.Path
import Telemetry.Proofs.Text.Utf8
/-!
Paths that are put together from segments: they are cut into these segments again. A segment without a
percent sign stands for itself, and every text can be escaped so that it fits into a segment.
-/

namespace Telemetry

variable {separator : Char}

theorem splitChars_of_absent {cs : List Char} (h : separator ∉ cs) :
    splitChars separator cs = [cs] := by
  induction cs with
  | nil => rfl
  | cons c cs ih =>
    obtain ⟨first, rest⟩ := not_or.mp (mt List.mem_cons.mpr h)
    rw [splitChars, if_neg (Ne.symm first), ih rest]

theorem splitChars_append {cs ds : List Char} (h : separator ∉ cs) :
    splitChars separator (cs ++ separator :: ds) = cs :: splitChars separator ds := by
  induction cs with
  | nil => rw [List.nil_append, splitChars, if_pos rfl]
  | cons c cs ih =>
    obtain ⟨first, rest⟩ := not_or.mp (mt List.mem_cons.mpr h)
    rw [List.cons_append, splitChars, if_neg (Ne.symm first), ih rest]

theorem Utf8.toNat_of_mem_encodeChar {c : Char} {b : UInt8} (h : b ∈ encodeChar c)
    (hb : b.toNat < 0x80) : c.toNat = b.toNat := by
  have range := toNat_range c
  unfold encodeChar at h
  dsimp only at h
  split at h
  · obtain rfl := List.mem_singleton.mp h
    rw [UInt8.toNat_ofNat']
    omega
  · -- All other bytes of a character are greater.
    exfalso
    split at h
    · simp only [List.mem_cons, List.not_mem_nil, or_false] at h
      rcases h with rfl | rfl <;> rw [UInt8.toNat_ofNat'] at hb <;> omega
    split at h
    · simp only [List.mem_cons, List.not_mem_nil, or_false] at h
      rcases h with rfl | rfl | rfl <;> rw [UInt8.toNat_ofNat'] at hb <;> omega
    · simp only [List.mem_cons, List.not_mem_nil, or_false] at h
      rcases h with rfl | rfl | rfl | rfl <;> rw [UInt8.toNat_ofNat'] at hb <;> omega

namespace Http

theorem percentDecodeFrom_of_absent {bytes acc : Bytes} (h : (0x25 : UInt8) ∉ bytes) :
    percentDecodeFrom acc bytes = acc.reverse ++ bytes := by
  induction bytes generalizing acc with
  | nil => simp [percentDecodeFrom]
  | cons b bytes ih =>
    obtain ⟨first, rest⟩ := not_or.mp (mt List.mem_cons.mpr h)
    rw [percentDecodeFrom.eq_def]
    split
    · simp_all
    · simp_all
    · simp_all

theorem segmentText?_of_absent {s : String} (h : '%' ∉ s.toList) : segmentText? s = some s := by
  have plain : (0x25 : UInt8) ∉ Utf8.encode s := by
    intro mem
    obtain ⟨c, hc, hb⟩ := List.mem_flatMap.mp mem
    have same : c.toNat = '%'.toNat := Utf8.toNat_of_mem_encodeChar hb (by decide)
    exact h (Char.toNat_inj.mp same ▸ hc)
  rw [segmentText?, percentDecodeFrom_of_absent plain, List.reverse_nil, List.nil_append,
    Utf8.decode?_encode]

def percentByte (b : UInt8) : List Char := ['%', hexDigit (b.toNat / 16), hexDigit (b.toNat % 16)]

def percentEncode (s : String) : String := String.ofList ((Utf8.encode s).flatMap percentByte)

theorem hexDigit_spec : ∀ n, n < 16 → Utf8.encodeChar (hexDigit n) = [(hexDigit n).toUInt8] ∧
    hexValue? (Char.ofUInt8 (hexDigit n).toUInt8) = some n ∧ '/' ≠ hexDigit n := by
  decide

theorem percentDecodeFrom_percentByte (acc : Bytes) (b : UInt8) (rest : Bytes) :
    percentDecodeFrom acc (Utf8.encodeChars (percentByte b) ++ rest) =
      percentDecodeFrom (b :: acc) rest := by
  have bound := b.toNat_lt
  obtain ⟨high, highValue, -⟩ := hexDigit_spec (b.toNat / 16) (by omega)
  obtain ⟨low, lowValue, -⟩ := hexDigit_spec (b.toNat % 16) (by omega)
  have percent : Utf8.encodeChar '%' = [0x25] := by decide
  have value : b.toNat / 16 * 16 + b.toNat % 16 = b.toNat := by omega
  rw [percentByte, Utf8.encodeChars_cons, Utf8.encodeChars_cons, Utf8.encodeChars_cons, percent,
    high, low]
  simp [Utf8.encodeChars, percentDecodeFrom, hexPair?, highValue, lowValue, value]

theorem percentDecodeFrom_encode (acc bytes : Bytes) :
    percentDecodeFrom acc (Utf8.encodeChars (bytes.flatMap percentByte)) = acc.reverse ++ bytes := by
  induction bytes generalizing acc with
  | nil => simp [Utf8.encodeChars, percentDecodeFrom]
  | cons b bytes ih =>
    rw [List.flatMap_cons, Utf8.encodeChars_append, percentDecodeFrom_percentByte, ih,
      List.reverse_cons, List.append_assoc, List.singleton_append]

/-- Every text can stand in a segment. -/
theorem exists_segment (s : String) :
    ∃ segment : String, '/' ∉ segment.toList ∧ segmentText? segment = some s := by
  refine ⟨percentEncode s, ?_, ?_⟩
  · rw [percentEncode, String.toList_ofList]
    intro slash
    obtain ⟨b, -, hb⟩ := List.mem_flatMap.mp slash
    have bound := b.toNat_lt
    simp only [percentByte, List.mem_cons, List.not_mem_nil, or_false] at hb
    rcases hb with hb | hb | hb
    · exact absurd hb (by decide)
    · exact (hexDigit_spec _ (by omega)).2.2 hb
    · exact (hexDigit_spec _ (by omega)).2.2 hb
  · rw [segmentText?, percentEncode, Utf8.encode, String.toList_ofList, percentDecodeFrom_encode,
      List.reverse_nil, List.nil_append, Utf8.decode?_encode]

end Http

end Telemetry
