import Telemetry.Proofs.Text.Utf8
/-!
The order of texts is the order of their bytes: leading bytes grow with the length of a character, and
within one length the bytes are the digits of its number.
-/

namespace Telemetry.Utf8

variable {a b : Nat} {xs ys : Bytes}

theorem bytes_lt (hab : a < b) (hb : b < 256) : UInt8.ofNat a :: xs < UInt8.ofNat b :: ys := by
  apply List.cons_lt_cons_iff.mpr
  left
  rw [UInt8.lt_iff_toNat_lt, UInt8.toNat_ofNat', UInt8.toNat_ofNat']
  omega

theorem bytes_lt_of_eq (hab : a = b) (h : xs < ys) : UInt8.ofNat a :: xs < UInt8.ofNat b :: ys :=
  List.cons_lt_cons_iff.mpr (.inr ⟨congrArg _ hab, h⟩)

/-- What is written for a smaller character comes first, whatever follows. -/
theorem encodeChar_lt {c d : Char} (h : c.toNat < d.toNat) (xs ys : Bytes) :
    encodeChar c ++ xs < encodeChar d ++ ys := by
  have hd := toNat_range d
  unfold encodeChar
  by_cases c1 : c.toNat < 0x80
  · rw [if_pos c1]
    by_cases d1 : d.toNat < 0x80
    · rw [if_pos d1]
      exact bytes_lt h (by omega)
    rw [if_neg d1]
    split
    · exact bytes_lt (by omega) (by omega)
    split
    · exact bytes_lt (by omega) (by omega)
    · exact bytes_lt (by omega) (by omega)
  rw [if_neg c1, if_neg (by omega : ¬d.toNat < 0x80)]
  by_cases c2 : c.toNat < 0x800
  · rw [if_pos c2]
    by_cases d2 : d.toNat < 0x800
    · rw [if_pos d2]
      by_cases h1 : c.toNat / 0x40 < d.toNat / 0x40
      · exact bytes_lt (by omega) (by omega)
      · exact bytes_lt_of_eq (by omega) (bytes_lt (by omega) (by omega))
    rw [if_neg d2]
    split
    · exact bytes_lt (by omega) (by omega)
    · exact bytes_lt (by omega) (by omega)
  rw [if_neg c2, if_neg (by omega : ¬d.toNat < 0x800)]
  by_cases c3 : c.toNat < 0x10000
  · rw [if_pos c3]
    by_cases d3 : d.toNat < 0x10000
    · rw [if_pos d3]
      by_cases h1 : c.toNat / 0x1000 < d.toNat / 0x1000
      · exact bytes_lt (by omega) (by omega)
      apply bytes_lt_of_eq (by omega)
      by_cases h2 : c.toNat / 0x40 < d.toNat / 0x40
      · exact bytes_lt (by omega) (by omega)
      · exact bytes_lt_of_eq (by omega) (bytes_lt (by omega) (by omega))
    rw [if_neg d3]
    exact bytes_lt (by omega) (by omega)
  rw [if_neg c3, if_neg (by omega : ¬d.toNat < 0x10000)]
  by_cases h1 : c.toNat / 0x40000 < d.toNat / 0x40000
  · exact bytes_lt (by omega) (by omega)
  apply bytes_lt_of_eq (by omega)
  by_cases h2 : c.toNat / 0x1000 < d.toNat / 0x1000
  · exact bytes_lt (by omega) (by omega)
  apply bytes_lt_of_eq (by omega)
  by_cases h3 : c.toNat / 0x40 < d.toNat / 0x40
  · exact bytes_lt (by omega) (by omega)
  · exact bytes_lt_of_eq (by omega) (bytes_lt (by omega) (by omega))

theorem encodeChars_lt {cs ds : List Char} (h : cs < ds) : encodeChars cs < encodeChars ds := by
  induction h with
  | @nil d ds =>
    show [] < encodeChar d ++ encodeChars ds
    unfold encodeChar
    dsimp only
    split
    · exact List.nil_lt_cons _ _
    split
    · exact List.nil_lt_cons _ _
    split
    · exact List.nil_lt_cons _ _
    · exact List.nil_lt_cons _ _
  | rel h => exact encodeChar_lt (UInt32.lt_iff_toNat_lt.mp h) _ _
  | cons _ ih => exact List.append_left_lt ih

/-- The order of texts is the order of their bytes. -/
theorem encode_lt {s t : String} (h : s < t) : encode s < encode t :=
  encodeChars_lt (String.lt_iff.mp h)

end Telemetry.Utf8
