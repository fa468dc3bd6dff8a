import Mathlib.Algebra.Order.Field.Power
import Mathlib.Data.Rat.Cast.Order
import Mathlib.Tactic.FieldSimp
import Mathlib.Tactic.Linarith
import Mathlib.Tactic.NormNum
import Mathlib.Tactic.Ring
import Telemetry.Binary64.Basic
/-!
Rounding as a comparison with the borders between neighbours.

Words are numbered by their magnitude. Above the number of word `k` lies a border, halfway to the
number of word `k + 1`; a ratio is rounded to a word above `k` when it lies beyond the border, or on
it and `k` is odd. All other facts on rounding are read off this equivalence.
-/

namespace Telemetry.Binary64

def significandOf (k : Nat) : Nat :=
  if k / leadingBit = 0 then k % leadingBit else leadingBit + k % leadingBit

def scaleOf (k : Nat) : Int := max (k / leadingBit : Nat) 1 - 1075

theorem significand_eq (x : Binary64) : x.significand = significandOf x.magnitude := rfl

theorem scale_eq (x : Binary64) : x.scale = scaleOf x.magnitude := rfl

/-- The number that the word of a magnitude stands for. -/
def valueOf (k : Nat) : ℚ := significandOf k * 2 ^ scaleOf k

/-- Halfway from the number of a magnitude to that of the next. -/
def border (k : Nat) : ℚ := (2 * significandOf k + 1) * 2 ^ (scaleOf k - 1)

theorem significandOf_lt (k : Nat) : significandOf k < 2 * leadingBit := by
  unfold significandOf leadingBit
  split <;> omega

theorem significandOf_mod_two (k : Nat) : significandOf k % 2 = k % 2 := by
  unfold significandOf leadingBit
  split <;> omega

/-- Words with the exponent `e + 1`, or with the two least exponents, in one formula. -/
theorem significandOf_add {e j : Nat} (hj : j < 2 * leadingBit) (he : e = 0 ∨ leadingBit ≤ j) :
    significandOf (e * leadingBit + j) = j := by
  unfold significandOf leadingBit at *
  split <;> omega

theorem scaleOf_add {e j : Nat} (hj : j < 2 * leadingBit) (he : e = 0 ∨ leadingBit ≤ j) :
    scaleOf (e * leadingBit + j) = e - 1074 := by
  unfold scaleOf leadingBit at *
  omega

theorem border_pos (k : Nat) : 0 < border k := by
  unfold border
  positivity

/-! ### Quotients rounded to whole numbers -/

theorem lt_roundQuotient_iff {num den : Nat} (hd : 0 < den) {j : Nat} :
    j < roundQuotient num den ↔
      (2 * j + 1) * den < 2 * num ∨ (2 * j + 1) * den = 2 * num ∧ j % 2 = 1 := by
  have hn : den * (num / den) + num % den = num := Nat.div_add_mod num den
  have hr : num % den < den := Nat.mod_lt num hd
  unfold roundQuotient
  generalize num / den = q at *
  generalize num % den = r at *
  subst hn
  dsimp only
  rcases Nat.lt_trichotomy j q with h | rfl | h
  · have hjq : (2 * j + 2) * den ≤ 2 * (den * q) := by
      have : den * (j + 1) ≤ den * q := Nat.mul_le_mul_left den h
      calc (2 * j + 2) * den = 2 * (den * (j + 1)) := by ring
        _ ≤ 2 * (den * q) := by omega
    have hlt : (2 * j + 1) * den < 2 * (den * q + r) := by
      have : (2 * j + 2) * den = (2 * j + 1) * den + den := by ring
      omega
    simp only [hlt, true_or, iff_true]
    split <;> omega
  · have hm : (2 * j + 1) * den = 2 * (den * j) + den := by ring
    rw [hm]
    split <;> omega
  · have hjq : 2 * (den * q) + 2 * den ≤ 2 * (den * j) := by
      have : den * (q + 1) ≤ den * j := Nat.mul_le_mul_left den h
      have : den * (q + 1) = den * q + den := by ring
      omega
    have hm : (2 * j + 1) * den = 2 * (den * j) + den := by ring
    rw [hm]
    split <;> omega

theorem powerRatio_pos (n : Nat) {base : Nat} (hb : 0 < base) (e : Int) :
    0 < (powerRatio n base e).2 := by
  unfold powerRatio
  split
  · exact Nat.one_pos
  · exact Nat.pow_pos hb

theorem powerRatio_eq (n : Nat) {base : Nat} (hb : 0 < base) (e : Int) :
    ((powerRatio n base e).1 : ℚ) / (powerRatio n base e).2 = n * (base : ℚ) ^ e := by
  have hb' : (base : ℚ) ≠ 0 := by exact_mod_cast hb.ne'
  unfold powerRatio
  split
  · rename_i he
    obtain ⟨n, rfl⟩ := Int.eq_ofNat_of_zero_le he
    simp
  · rename_i he
    obtain ⟨n, hn⟩ := Int.eq_ofNat_of_zero_le (a := -e) (by omega)
    obtain rfl : e = -(n : Int) := by omega
    simp [zpow_neg, div_eq_mul_inv]

theorem lt_scaledQuotient_iff {num den : Nat} (hd : 0 < den) {e : Int} {j : Nat} :
    j < (if 0 ≤ e then roundQuotient num (den * Nat.pow 2 e.toNat)
      else roundQuotient (num * Nat.pow 2 (-e).toNat) den) ↔
      (2 * j + 1 : ℚ) * 2 ^ (e - 1) < num / den ∨
        (2 * j + 1 : ℚ) * 2 ^ (e - 1) = num / den ∧ j % 2 = 1 := by
  have hd' : (0 : ℚ) < den := by exact_mod_cast hd
  have half : (2 : ℚ) ^ (e - 1) = 2 ^ e / 2 := by rw [zpow_sub_one₀ (by norm_num)]; ring
  split
  · rename_i he
    obtain ⟨n, rfl⟩ := Int.eq_ofNat_of_zero_le he
    have hp : 0 < den * Nat.pow 2 n := Nat.mul_pos hd (Nat.pow_pos Nat.two_pos)
    rw [Int.toNat_natCast, lt_roundQuotient_iff hp]
    have lhs : (2 * j + 1 : ℚ) * 2 ^ ((n : Int) - 1) =
        ((2 * j + 1) * (den * Nat.pow 2 n) : Nat) / (2 * den) := by
      rw [half, zpow_natCast]
      push_cast [Nat.pow_eq]
      field_simp
    have rhs : (num / den : ℚ) = (2 * num : Nat) / (2 * den) := by
      push_cast
      field_simp
    have h2 : (0 : ℚ) < 2 * den := by positivity
    rw [lhs, rhs, div_lt_div_iff_of_pos_right h2, div_left_inj' h2.ne', Nat.cast_lt, Nat.cast_inj]
  · rename_i he
    obtain ⟨n, hn⟩ := Int.eq_ofNat_of_zero_le (a := -e) (by omega)
    obtain rfl : e = -(n : Int) := by omega
    rw [lt_roundQuotient_iff hd]
    have lhs : (2 * j + 1 : ℚ) * 2 ^ (-(n : Int) - 1) =
        ((2 * j + 1) * den : Nat) / (2 * den * 2 ^ n) := by
      rw [half, zpow_neg, zpow_natCast]
      push_cast
      field_simp
    have rhs : (num / den : ℚ) = (2 * (num * Nat.pow 2 n) : Nat) / (2 * den * 2 ^ n) := by
      push_cast [Nat.pow_eq]
      field_simp
    have h2 : (0 : ℚ) < 2 * den * 2 ^ n := by positivity
    rw [lhs, rhs, div_lt_div_iff_of_pos_right h2, div_left_inj' h2.ne', Nat.cast_lt, Nat.cast_inj]
    simp

/-! ### The binary logarithm -/

/-- The logarithms of the parts leave two candidates for that of the ratio. -/
theorem log2_ratio_bounds {num den : Nat} (hn : 0 < num) (hd : 0 < den) :
    (2 : ℚ) ^ ((Nat.log2 num : Int) - Nat.log2 den - 1) ≤ num / den ∧
      (num / den : ℚ) < 2 ^ ((Nat.log2 num : Int) - Nat.log2 den + 1) := by
  have hd' : (0 : ℚ) < den := by exact_mod_cast hd
  constructor
  · have h1 : (2 : ℚ) ^ Nat.log2 num ≤ num := by exact_mod_cast Nat.log2_self_le hn.ne'
    have h2 : (den : ℚ) ≤ 2 ^ (Nat.log2 den + 1) := by exact_mod_cast Nat.lt_log2_self.le
    rw [le_div_iff₀ hd']
    calc (2 : ℚ) ^ ((Nat.log2 num : Int) - Nat.log2 den - 1) * den
        ≤ 2 ^ ((Nat.log2 num : Int) - Nat.log2 den - 1) * 2 ^ (Nat.log2 den + 1) := by gcongr
      _ = 2 ^ Nat.log2 num := by
        rw [← zpow_natCast, ← zpow_natCast, ← zpow_add₀ (by norm_num)]
        congr 1
        push_cast
        ring
      _ ≤ num := h1
  · have h1 : (num : ℚ) < 2 ^ (Nat.log2 num + 1) := by exact_mod_cast Nat.lt_log2_self
    have h2 : (2 : ℚ) ^ Nat.log2 den ≤ den := by exact_mod_cast Nat.log2_self_le hd.ne'
    rw [div_lt_iff₀ hd']
    calc (num : ℚ) < 2 ^ (Nat.log2 num + 1) := h1
      _ = 2 ^ ((Nat.log2 num : Int) - Nat.log2 den + 1) * 2 ^ Nat.log2 den := by
        rw [← zpow_natCast, ← zpow_natCast, ← zpow_add₀ (by norm_num)]
        congr 1
        push_cast
        ring
      _ ≤ 2 ^ ((Nat.log2 num : Int) - Nat.log2 den + 1) * den := by gcongr

theorem floorLog2_eq {num den : Nat} (hd : 0 < den) {e : Int}
    (he : (Nat.log2 num : Int) - Nat.log2 den = e) :
    floorLog2 num den = if (2 : ℚ) ^ e ≤ num / den then e else e - 1 := by
  have hd' : (0 : ℚ) < den := by exact_mod_cast hd
  unfold floorLog2
  rw [he]
  dsimp only
  split
  · rename_i he
    obtain ⟨n, rfl⟩ := Int.eq_ofNat_of_zero_le he
    congr 1
    rw [le_div_iff₀ hd', zpow_natCast, Int.toNat_natCast, mul_comm]
    norm_cast
  · rename_i he
    obtain ⟨n, hn⟩ := Int.eq_ofNat_of_zero_le (a := -e) (by omega)
    obtain rfl : e = -(n : Int) := by omega
    have scaled : (num / den * 2 ^ n : ℚ) = (num * Nat.pow 2 n : Nat) / den := by
      push_cast [Nat.pow_eq]
      ring
    congr 1
    rw [zpow_neg, zpow_natCast, inv_le_iff_one_le_mul₀ (by positivity), scaled, one_le_div₀ hd',
      Nat.cast_le, neg_neg, Int.toNat_natCast]

theorem floorLog2_bounds {num den : Nat} (hn : 0 < num) (hd : 0 < den) :
    (2 : ℚ) ^ floorLog2 num den ≤ num / den ∧ (num / den : ℚ) < 2 ^ (floorLog2 num den + 1) := by
  obtain ⟨low, high⟩ := log2_ratio_bounds hn hd
  rw [floorLog2_eq hd rfl]
  split
  · rename_i h
    exact ⟨h, high⟩
  · rename_i h
    refine ⟨low, ?_⟩
    rw [sub_add_cancel]
    exact not_le.mp h

/-! ### Rounding to a word -/

theorem two_zpow_le {a b : Int} (h : a ≤ b) : (2 : ℚ) ^ a ≤ 2 ^ b :=
  zpow_le_zpow_right₀ (by norm_num) h

/-- All borders of words with lesser exponents lie below the least number of an exponent. -/
theorem border_lt {k e : Nat} (hk : k < (e + 1) * leadingBit) (he : 0 < e) :
    border k < 2 ^ ((e : Int) - 1074 + 52) := by
  have hs : scaleOf k ≤ e - 1075 := by
    unfold scaleOf leadingBit at *
    omega
  have hm : (significandOf k : ℚ) + 1 ≤ 2 * 4503599627370496 := by
    have := significandOf_lt k
    unfold leadingBit at this
    exact_mod_cast this
  have step : (2 : ℚ) ^ (scaleOf k - 1) ≤ 2 ^ ((e : Int) - 1076) := two_zpow_le (by omega)
  have pos : (0 : ℚ) < 2 ^ ((e : Int) - 1076) := by positivity
  have shift : (2 : ℚ) ^ ((e : Int) - 1074 + 52) = 2 ^ ((e : Int) - 1076) * 18014398509481984 := by
    rw [show (e : Int) - 1074 + 52 = (e - 1076) + 54 by omega, zpow_add₀ (by norm_num)]
    norm_num
  calc border k ≤ (2 * significandOf k + 1) * 2 ^ ((e : Int) - 1076) := by
        unfold border
        gcongr
    _ < 18014398509481984 * 2 ^ ((e : Int) - 1076) := by
        gcongr
        linarith
    _ = 2 ^ ((e : Int) - 1074 + 52) := by rw [shift, mul_comm]

theorem lt_border {k e : Nat} (hk : (e + 2) * leadingBit ≤ k) :
    2 ^ ((e : Int) - 1074 + 53) < border k := by
  have hs : (e : Int) - 1073 ≤ scaleOf k := by
    unfold scaleOf leadingBit at *
    omega
  have hm : (4503599627370496 : ℚ) ≤ significandOf k := by
    have : leadingBit ≤ significandOf k := by
      unfold significandOf leadingBit at *
      split <;> omega
    exact_mod_cast this
  have step : (2 : ℚ) ^ ((e : Int) - 1074) ≤ 2 ^ (scaleOf k - 1) := two_zpow_le (by omega)
  have pos : (0 : ℚ) < 2 ^ ((e : Int) - 1074) := by positivity
  have shift : (2 : ℚ) ^ ((e : Int) - 1074 + 53) = 9007199254740992 * 2 ^ ((e : Int) - 1074) := by
    rw [zpow_add₀ (by norm_num), mul_comm]
    norm_num
  calc (2 : ℚ) ^ ((e : Int) - 1074 + 53) = 9007199254740992 * 2 ^ ((e : Int) - 1074) := shift
    _ < (2 * significandOf k + 1) * 2 ^ ((e : Int) - 1074) := by
        gcongr
        linarith
    _ ≤ border k := by
        unfold border
        gcongr

theorem border_add {e j : Nat} (hj : j < 2 * leadingBit) (he : e = 0 ∨ leadingBit ≤ j) :
    border (e * leadingBit + j) = (2 * j + 1) * 2 ^ ((e : Int) - 1074 - 1) := by
  rw [border, significandOf_add hj he, scaleOf_add hj he]

/-- A quotient that is rounded in units of its own exponent keeps that exponent, or becomes the
least of the next. -/
theorem rounded_range {q e : Nat} {r : ℚ}
    (compare : ∀ j : Nat, j < q ↔ (2 * j + 1 : ℚ) * 2 ^ ((e : Int) - 1074 - 1) < r ∨
      (2 * j + 1 : ℚ) * 2 ^ ((e : Int) - 1074 - 1) = r ∧ j % 2 = 1)
    (below : r < 2 ^ ((e : Int) - 1074 + 53)) :
    q ≤ 2 * leadingBit ∧ (2 ^ ((e : Int) - 1074 + 52) ≤ r → leadingBit ≤ q) := by
  have pos : (0 : ℚ) < 2 ^ ((e : Int) - 1074 - 1) := by positivity
  have shift53 : (2 : ℚ) ^ ((e : Int) - 1074 + 53) =
      2 ^ ((e : Int) - 1074 - 1) * 18014398509481984 := by
    rw [show (e : Int) - 1074 + 53 = (e - 1074 - 1) + 54 by omega, zpow_add₀ (by norm_num)]
    norm_num
  have shift52 : (2 : ℚ) ^ ((e : Int) - 1074 + 52) =
      2 ^ ((e : Int) - 1074 - 1) * 9007199254740992 := by
    rw [show (e : Int) - 1074 + 52 = (e - 1074 - 1) + 53 by omega, zpow_add₀ (by norm_num)]
    norm_num
  constructor
  · by_contra h
    rw [shift53] at below
    have := (compare (2 * leadingBit)).mp (not_le.mp h)
    simp only [leadingBit] at this
    push_cast at this
    rcases this with h | ⟨h, -⟩ <;> linarith
  · intro above
    rw [shift52] at above
    have : leadingBit - 1 < q := by
      refine (compare (leadingBit - 1)).mpr (Or.inl ?_)
      simp only [leadingBit]
      norm_num
      linarith
    omega

/-- Rounding in terms of borders. The words of the exponent that the ratio itself has are compared
by the rounded quotient; the borders of all others lie to one side of the ratio. -/
theorem lt_magnitudeOfRatio_iff {num den k : Nat} (hd : 0 < den) (hk : k < infinityMagnitude) :
    k < magnitudeOfRatio num den ↔
      border k < num / den ∨ border k = num / den ∧ k % 2 = 1 := by
  by_cases hz : num = 0
  · have := border_pos k
    simp only [hz, magnitudeOfRatio, if_true, Nat.cast_zero, zero_div, Nat.not_lt_zero, false_iff]
    rintro (h | ⟨h, -⟩) <;> linarith
  obtain ⟨low, high⟩ := floorLog2_bounds (Nat.pos_of_ne_zero hz) hd
  obtain ⟨e, he⟩ : ∃ e : Nat, max (floorLog2 num den - 52) (-1074) = (e : Int) - 1074 :=
    ⟨(max (floorLog2 num den - 52) (-1074) + 1074).toNat, by omega⟩
  have shifted : ((e : Int) - 1074 + 1074).toNat = e := by omega
  have compare := fun j : Nat => @lt_scaledQuotient_iff num den hd ((e : Int) - 1074) j
  rw [magnitudeOfRatio, if_neg hz]
  dsimp only
  rw [he, shifted, lt_min_iff]
  simp only [hk, true_and]
  generalize (if 0 ≤ (e : Int) - 1074 then roundQuotient num (den * Nat.pow 2 ((e : Int) - 1074).toNat)
    else roundQuotient (num * Nat.pow 2 (-((e : Int) - 1074)).toNat) den) = q at compare ⊢
  have below : (num / den : ℚ) < 2 ^ ((e : Int) - 1074 + 53) :=
    high.trans_le (two_zpow_le (by omega))
  obtain ⟨hq, above⟩ := rounded_range compare below
  rcases Nat.lt_or_ge k ((e + 2) * leadingBit) with hk2 | hk2
  · by_cases own : e = 0 ∨ (e + 1) * leadingBit ≤ k
    · obtain ⟨j, rfl⟩ : ∃ j, k = e * leadingBit + j :=
        ⟨k - e * leadingBit, by unfold leadingBit at *; omega⟩
      have hj : j < 2 * leadingBit := by unfold leadingBit at *; omega
      have hj' : e = 0 ∨ leadingBit ≤ j := by unfold leadingBit at *; omega
      have parity : (e * leadingBit + j) % 2 = j % 2 := by unfold leadingBit; omega
      rw [border_add hj hj', parity, ← compare j]
      omega
    · have hk1 : k < (e + 1) * leadingBit := by omega
      have hb := border_lt hk1 (by omega)
      have hr : (2 : ℚ) ^ ((e : Int) - 1074 + 52) ≤ num / den := (two_zpow_le (by omega)).trans low
      have hq' := above hr
      have left : k < e * leadingBit + q := by unfold leadingBit at *; omega
      simp only [left, true_iff]
      exact Or.inl (hb.trans_le hr)
  · have hb := lt_border hk2
    have left : ¬k < e * leadingBit + q := by unfold leadingBit at *; omega
    simp only [left, false_iff]
    rintro (h | ⟨h, -⟩) <;> linarith

end Telemetry.Binary64
