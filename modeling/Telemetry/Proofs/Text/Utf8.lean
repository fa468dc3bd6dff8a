import Mathlib.Data.List.Basic
import Telemetry.Text.Utf8
/-!
The byte machine reads back what the writer of characters wrote, whatever follows.
-/

namespace Telemetry.Utf8

variable {n : Nat} {acc : List Char} {rest : Bytes}

theorem encodeChars_cons (c : Char) (cs : List Char) :
    encodeChars (c :: cs) = encodeChar c ++ encodeChars cs := by
  simp [encodeChars]

theorem encodeChars_append (cs ds : List Char) :
    encodeChars (cs ++ ds) = encodeChars cs ++ encodeChars ds := by
  simp [encodeChars]

theorem toNat_range (c : Char) : c.toNat < 0xD800 ∨ 0xDFFF < c.toNat ∧ c.toNat < 0x110000 := by
  have h : c.val.toNat < 0xD800 ∨ 0xDFFF < c.val.toNat ∧ c.val.toNat < 0x110000 := c.valid
  exact h

theorem take_ofNat {p : Pending} {b : Nat} (hl : p.low ≤ 0x80 + b) (hh : 0x80 + b ≤ p.high)
    (hb : b < 0x40) :
    p.take (UInt8.ofNat (0x80 + b)) = if p.missing ≤ 1 then .char (Char.ofNat (p.value * 0x40 + b))
      else .more ⟨p.value * 0x40 + b, p.missing - 1, 0x80, 0xBF⟩ := by
  have ht : (UInt8.ofNat (0x80 + b)).toNat = 0x80 + b := by
    rw [UInt8.toNat_ofNat']
    omega
  have hn : ¬(0x80 + b < p.low ∨ p.high < 0x80 + b) := by omega
  have hv : 0x80 + b - 0x80 = b := by omega
  simp only [Pending.take, ht, if_neg hn, hv]

theorem decodeFrom_one (h : n < 0x80) :
    decodeFrom acc none (UInt8.ofNat n :: rest) = decodeFrom (Char.ofNat n :: acc) none rest := by
  have ht : (UInt8.ofNat n).toNat = n := by
    rw [UInt8.toNat_ofNat']
    omega
  simp only [decodeFrom, start, ht, if_pos h]

theorem decodeFrom_two (hl : 0x80 ≤ n) (hh : n < 0x800) :
    decodeFrom acc none (UInt8.ofNat (0xC0 + n / 0x40) :: UInt8.ofNat (0x80 + n % 0x40) :: rest) =
      decodeFrom (Char.ofNat n :: acc) none rest := by
  have ht : (UInt8.ofNat (0xC0 + n / 0x40)).toNat = 0xC0 + n / 0x40 := by
    rw [UInt8.toNat_ofNat']
    omega
  have hs : start (UInt8.ofNat (0xC0 + n / 0x40)) = .more ⟨n / 0x40, 1, 0x80, 0xBF⟩ := by
    have h1 : ¬0xC0 + n / 0x40 < 0x80 := by omega
    have h2 : ¬0xC0 + n / 0x40 < 0xC2 := by omega
    have h3 : 0xC0 + n / 0x40 < 0xE0 := by omega
    have h4 : 0xC0 + n / 0x40 - 0xC0 = n / 0x40 := by omega
    simp only [start, ht, if_neg h1, if_neg h2, if_pos h3, h4]
  have hn : n / 0x40 * 0x40 + n % 0x40 = n := by omega
  have hm : n % 0x40 < 0x40 := by omega
  have h1 : 0x80 + n % 0x40 ≤ 0xBF := by omega
  simp only [decodeFrom, hs]
  rw [take_ofNat (by simp) h1 hm]
  simp [hn]

theorem decodeFrom_three (hl : 0x800 ≤ n) (hh : n < 0x10000) (hs : n < 0xD800 ∨ 0xDFFF < n) :
    decodeFrom acc none (UInt8.ofNat (0xE0 + n / 0x1000) :: UInt8.ofNat (0x80 + n / 0x40 % 0x40) ::
      UInt8.ofNat (0x80 + n % 0x40) :: rest) = decodeFrom (Char.ofNat n :: acc) none rest := by
  have ht : (UInt8.ofNat (0xE0 + n / 0x1000)).toNat = 0xE0 + n / 0x1000 := by
    rw [UInt8.toNat_ofNat']
    omega
  obtain ⟨low, high, hs, hlow, hhigh⟩ : ∃ low high,
      start (UInt8.ofNat (0xE0 + n / 0x1000)) = .more ⟨n / 0x1000, 2, low, high⟩ ∧
        low ≤ 0x80 + n / 0x40 % 0x40 ∧ 0x80 + n / 0x40 % 0x40 ≤ high := by
    have h1 : ¬0xE0 + n / 0x1000 < 0x80 := by omega
    have h2 : ¬0xE0 + n / 0x1000 < 0xC2 := by omega
    have h3 : ¬0xE0 + n / 0x1000 < 0xE0 := by omega
    have h4 : 0xE0 + n / 0x1000 < 0xF0 := by omega
    have h5 : 0xE0 + n / 0x1000 - 0xE0 = n / 0x1000 := by omega
    simp only [start, ht, if_neg h1, if_neg h2, if_neg h3, if_pos h4, h5]
    refine ⟨_, _, rfl, ?_, ?_⟩ <;> split <;> omega
  have hn : (n / 0x1000 * 0x40 + n / 0x40 % 0x40) * 0x40 + n % 0x40 = n := by omega
  have h1 : n / 0x40 % 0x40 < 0x40 := by omega
  have h2 : n % 0x40 < 0x40 := by omega
  have h3 : 0x80 + n % 0x40 ≤ 0xBF := by omega
  simp only [decodeFrom, hs]
  rw [take_ofNat hlow hhigh h1]
  simp only [show ¬2 ≤ 1 by decide, if_false]
  rw [take_ofNat (by simp) h3 h2]
  simp [hn]

theorem decodeFrom_four (hl : 0x10000 ≤ n) (hh : n < 0x110000) :
    decodeFrom acc none (UInt8.ofNat (0xF0 + n / 0x40000) ::
      UInt8.ofNat (0x80 + n / 0x1000 % 0x40) :: UInt8.ofNat (0x80 + n / 0x40 % 0x40) ::
      UInt8.ofNat (0x80 + n % 0x40) :: rest) = decodeFrom (Char.ofNat n :: acc) none rest := by
  have ht : (UInt8.ofNat (0xF0 + n / 0x40000)).toNat = 0xF0 + n / 0x40000 := by
    rw [UInt8.toNat_ofNat']
    omega
  obtain ⟨low, high, hs, hlow, hhigh⟩ : ∃ low high,
      start (UInt8.ofNat (0xF0 + n / 0x40000)) = .more ⟨n / 0x40000, 3, low, high⟩ ∧
        low ≤ 0x80 + n / 0x1000 % 0x40 ∧ 0x80 + n / 0x1000 % 0x40 ≤ high := by
    have h1 : ¬0xF0 + n / 0x40000 < 0x80 := by omega
    have h2 : ¬0xF0 + n / 0x40000 < 0xC2 := by omega
    have h3 : ¬0xF0 + n / 0x40000 < 0xE0 := by omega
    have h4 : ¬0xF0 + n / 0x40000 < 0xF0 := by omega
    have h5 : 0xF0 + n / 0x40000 < 0xF5 := by omega
    have h6 : 0xF0 + n / 0x40000 - 0xF0 = n / 0x40000 := by omega
    simp only [start, ht, if_neg h1, if_neg h2, if_neg h3, if_neg h4, if_pos h5, h6]
    refine ⟨_, _, rfl, ?_, ?_⟩ <;> split <;> omega
  have hn : ((n / 0x40000 * 0x40 + n / 0x1000 % 0x40) * 0x40 + n / 0x40 % 0x40) * 0x40 +
      n % 0x40 = n := by omega
  have h1 : n / 0x1000 % 0x40 < 0x40 := by omega
  have h2 : n / 0x40 % 0x40 < 0x40 := by omega
  have h3 : n % 0x40 < 0x40 := by omega
  have h4 : 0x80 + n / 0x40 % 0x40 ≤ 0xBF := by omega
  have h5 : 0x80 + n % 0x40 ≤ 0xBF := by omega
  simp only [decodeFrom, hs]
  rw [take_ofNat hlow hhigh h1]
  simp only [show ¬3 ≤ 1 by decide, if_false]
  rw [take_ofNat (by simp) h4 h2]
  simp only [show ¬3 - 1 ≤ 1 by decide, if_false]
  rw [take_ofNat (by simp) h5 h3]
  simp [hn]

theorem decodeFrom_encodeChar (c : Char) :
    decodeFrom acc none (encodeChar c ++ rest) = decodeFrom (c :: acc) none rest := by
  have range := toNat_range c
  conv => rhs; rw [← Char.ofNat_toNat c]
  unfold encodeChar
  by_cases h1 : c.toNat < 0x80
  · rw [if_pos h1]
    exact decodeFrom_one h1
  by_cases h2 : c.toNat < 0x800
  · rw [if_neg h1, if_pos h2]
    exact decodeFrom_two (by omega) h2
  by_cases h3 : c.toNat < 0x10000
  · rw [if_neg h1, if_neg h2, if_pos h3]
    exact decodeFrom_three (by omega) h3 (by omega)
  · rw [if_neg h1, if_neg h2, if_neg h3]
    exact decodeFrom_four (by omega) (by omega)

theorem decodeFrom_encodeChars (cs : List Char) :
    decodeFrom acc none (encodeChars cs ++ rest) = decodeFrom (cs.reverse ++ acc) none rest := by
  induction cs generalizing acc with
  | nil => rfl
  | cons c cs ih =>
    have split : encodeChars (c :: cs) ++ rest = encodeChar c ++ (encodeChars cs ++ rest) := by
      simp [encodeChars]
    rw [split, decodeFrom_encodeChar, ih]
    simp

theorem decodeChars?_encodeChars (cs : List Char) : decodeChars? (encodeChars cs) = some cs := by
  have h := @decodeFrom_encodeChars [] [] cs
  rw [List.append_nil] at h
  rw [decodeChars?, h]
  simp [decodeFrom]

@[simp] theorem decode?_encode (s : String) : decode? (encode s) = some s := by
  simp [decode?, encode, decodeChars?_encodeChars]

theorem encode_injective {s t : String} (h : encode s = encode t) : s = t := by
  have hs := decode?_encode s
  rw [h, decode?_encode] at hs
  exact (Option.some.inj hs).symm

end Telemetry.Utf8
