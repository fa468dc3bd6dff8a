import Telemetry.Proofs.Text.Hex
import Telemetry.Proofs.Text.Trim
import Telemetry.Proofs.Text.Utf8
import Telemetry.Signature
/-!
Signatures are verified by comparing texts: a given one is accepted exactly if, without the blanks
around it and in small letters, it is the text that signing gives. So what was signed is verified, and
nothing else is accepted than hexadecimal digits, in either case, that stand for the digest.
-/

namespace Telemetry.Signature

theorem or_eq_zero_iff {x y : UInt8} : x ||| y = 0 ↔ x = 0 ∧ y = 0 := by
  simp only [← UInt8.toBitVec_inj, UInt8.toBitVec_or, UInt8.toBitVec_ofNat, BitVec.or_eq_zero_iff]

theorem difference_eq_zero_iff {xs ys : Bytes} {diff : UInt8} (h : xs.length = ys.length) :
    difference xs ys diff = 0 ↔ diff = 0 ∧ xs = ys := by
  induction xs generalizing ys diff with
  | nil =>
    obtain rfl := List.length_eq_zero_iff.mp h.symm
    simp [difference]
  | cons x xs ih =>
    cases ys with
    | nil => simp at h
    | cons y ys =>
      have rest : xs.length = ys.length := by simpa using h
      rw [difference, ih rest, or_eq_zero_iff, UInt8.xor_eq_zero_iff, List.cons.injEq, and_assoc]

theorem sameBytes_iff {xs ys : Bytes} : sameBytes xs ys = true ↔ xs = ys := by
  simp only [sameBytes, Bool.and_eq_true, decide_eq_true_eq]
  constructor
  · rintro ⟨hl, hd⟩
    exact ((difference_eq_zero_iff hl).mp hd).2
  · rintro rfl
    exact ⟨rfl, (difference_eq_zero_iff rfl).mpr ⟨rfl, rfl⟩⟩

theorem verify_iff {key : String} {body : Bytes} {signature : String} :
    verify key body signature = true ↔ lowerAscii (trim signature) = sign key body := by
  rw [verify, sameBytes_iff]
  constructor
  · intro h
    exact (Utf8.encode_injective h).symm
  · intro h
    rw [h]

theorem hexDigit_plain : ∀ n, n < 16 → isBlank (hexDigit n) = false ∧ (hexDigit n).toLower = hexDigit n := by
  decide

theorem digit_of_mem_hexByte {b : UInt8} {c : Char} (h : c ∈ hexByte b) : ∃ n, n < 16 ∧ c = hexDigit n := by
  have bound := b.toNat_lt
  simp only [hexByte, List.mem_cons, List.not_mem_nil, or_false] at h
  rcases h with rfl | rfl
  · exact ⟨b.toNat / 16, by omega, rfl⟩
  · exact ⟨b.toNat % 16, by omega, rfl⟩

theorem plain_of_mem_hexByte {b : UInt8} {c : Char} (h : c ∈ hexByte b) :
    isBlank c = false ∧ c.toLower = c := by
  obtain ⟨n, small, rfl⟩ := digit_of_mem_hexByte h
  exact hexDigit_plain n small

theorem verify_sign (key : String) (body : Bytes) : verify key body (sign key body) = true := by
  have plain : ∀ c ∈ (Sha256.digest (Utf8.encode key ++ body)).flatMap hexByte,
      isBlank c = false ∧ c.toLower = c := by
    intro c hc
    obtain ⟨b, -, hb⟩ := List.mem_flatMap.mp hc
    exact plain_of_mem_hexByte hb
  apply verify_iff.mpr
  rw [sign, hex, trim, lowerAscii, String.toList_ofList, String.toList_ofList,
    trimChars_eq_self fun c hc => (plain c hc).1]
  congr 1
  exact (List.map_congr_left fun c hc => (plain c hc).2).trans (List.map_id _)

theorem visible_of_mem_sign {key : String} {body : Bytes} {c : Char} (h : c ∈ (sign key body).toList) :
    0x20 ≤ c.toNat ∧ c.toNat < 0x7F := by
  have digit : ∀ n, n < 16 → 0x20 ≤ (hexDigit n).toNat ∧ (hexDigit n).toNat < 0x7F := by decide
  rw [sign, hex, String.toList_ofList] at h
  obtain ⟨b, -, hb⟩ := List.mem_flatMap.mp h
  obtain ⟨n, small, rfl⟩ := digit_of_mem_hexByte hb
  exact digit n small

/-- Digits stand for the bytes that they are written for in small letters. -/
theorem hexBytes?_eq_some_iff {cs : List Char} {bytes : Bytes} :
    hexBytes? cs = some bytes ↔ cs.map Char.toLower = bytes.flatMap hexByte := by
  induction bytes generalizing cs with
  | nil =>
    match cs with
    | [] => exact iff_of_true rfl rfl
    | [_] => exact iff_of_false nofun nofun
    | a :: b :: cs => simp [hexBytes?, Option.bind_eq_some_iff]
  | cons byte bytes ih =>
    match cs with
    | [] => simp [hexBytes?, hexByte]
    | [_] => simp [hexBytes?, hexByte]
    | a :: b :: cs =>
      have bound : byte.toNat < 256 := byte.toNat_lt
      rw [hexBytes?_cons_eq_some_iff, hexPair?_eq_some_iff, ih, List.flatMap_cons, hexByte]
      simp [bound, and_assoc]

theorem length_digest (message : Bytes) : (Sha256.digest message).length = 32 := rfl

theorem verify_iff_hexBytes? {key : String} {body : Bytes} {signature : String} :
    verify key body signature = true ↔
      hexBytes? (trim signature).toList = some (Sha256.digest (Utf8.encode key ++ body)) := by
  rw [verify_iff, hexBytes?_eq_some_iff, lowerAscii, sign, hex, String.ofList_inj]

/-- A signature is accepted exactly if it is, without the blanks around it, sixty-four hexadecimal digits
that stand for the thirty-two bytes of the digest. What was signed is accepted, and two byte strings of any
length are the same to the loop over their bytes exactly if they are equal. -/
theorem verify_iff_digits (key : String) (body : Bytes) (signature : String) :
    let digits := (trim signature).toList
    let digest := Sha256.digest (Utf8.encode key ++ body)
    (verify key body signature = true ↔
      digits.length = 64 ∧ (∀ c ∈ digits, IsHexDigit c) ∧ hexBytes? digits = some digest) ∧
    digest.length = 32 ∧
    verify key body (sign key body) = true ∧
    ∀ xs ys : Bytes, sameBytes xs ys = true ↔ xs = ys := by
  intro digits digest
  have size : digest.length = 32 := length_digest _
  refine ⟨?_, size, verify_sign key body, fun xs ys => sameBytes_iff⟩
  rw [verify_iff_hexBytes?]
  constructor
  · intro read
    obtain ⟨count, all⟩ := digits_of_hexBytes? read
    exact ⟨by rw [count, size], all, read⟩
  · rintro ⟨-, -, read⟩
    exact read

example : sign "" [] = "e3b0c44298fc1c149afbf4c8996fb92427ae41e4649b934ca495991b7852b855" := by
  decide +kernel

end Telemetry.Signature
