import Mathlib.Data.Rat.Floor
import Telemetry.Proofs.Binary64.Rounding
/-!
Arithmetic of the format as arithmetic of rational numbers, rounded to the nearest word.

Rounding is monotone, it keeps the numbers of the format, and it sends the whole interval between
the two borders of a word to that word.
-/

namespace Telemetry.Binary64

variable {r t : ℚ} {k : Nat} {x y : Binary64}

/-- The magnitude of the word nearest to a nonnegative number. -/
def nearest (r : ℚ) : Nat := magnitudeOfRatio r.num.toNat r.den

theorem magnitudeOfRatio_le (num den : Nat) : magnitudeOfRatio num den ≤ infinityMagnitude := by
  unfold magnitudeOfRatio
  split
  · exact Nat.zero_le _
  · exact Nat.min_le_left _ _

theorem lt_nearest_iff (hr : 0 ≤ r) (hk : k < infinityMagnitude) :
    k < nearest r ↔ border k < r ∨ border k = r ∧ k % 2 = 1 := by
  have ratio : ((r.num.toNat : ℚ) / r.den) = r := by
    have : ((r.num.toNat : Int) : ℚ) = r.num := by
      exact_mod_cast Int.toNat_of_nonneg (Rat.num_nonneg.mpr hr)
    rw [Int.cast_natCast] at this
    rw [this, Rat.num_div_den]
  rw [nearest, lt_magnitudeOfRatio_iff r.den_pos hk, ratio]

theorem nearest_le (r : ℚ) : nearest r ≤ infinityMagnitude := magnitudeOfRatio_le _ _

theorem nearest_zero : nearest 0 = 0 := rfl

/-- Words are told apart by the words below them. -/
theorem eq_of_lt_iff {a b : Nat} (ha : a ≤ infinityMagnitude) (hb : b ≤ infinityMagnitude)
    (h : ∀ k < infinityMagnitude, k < a ↔ k < b) : a = b := by
  rcases Nat.lt_trichotomy a b with hab | hab | hab
  · have := (h a (by omega)).mpr hab
    omega
  · exact hab
  · have := (h b (by omega)).mp hab
    omega

theorem magnitudeOfRatio_eq {num den : Nat} (hd : 0 < den) :
    magnitudeOfRatio num den = nearest (num / den) := by
  refine eq_of_lt_iff (magnitudeOfRatio_le _ _) (nearest_le _) fun k hk => ?_
  rw [lt_magnitudeOfRatio_iff hd hk, lt_nearest_iff (by positivity) hk]

theorem nearest_mono (hr : 0 ≤ r) (h : r ≤ t) : nearest r ≤ nearest t := by
  by_contra hlt
  have hk : nearest t < infinityMagnitude := lt_of_lt_of_le (not_le.mp hlt) (nearest_le r)
  have above := (lt_nearest_iff hr hk).mp (not_le.mp hlt)
  have below := mt (lt_nearest_iff (hr.trans h) hk).mpr (lt_irrefl _)
  rcases above with above | ⟨above, odd⟩
  · exact below (Or.inl (above.trans_le h))
  · rcases h.lt_or_eq with h | h
    · exact below (Or.inl (above ▸ h))
    · exact below (Or.inr ⟨above.trans h, odd⟩)

/-- Only an even word has the borders around it for itself. -/
theorem nearest_eq (hr : 0 ≤ r) (hk : k < infinityMagnitude)
    (low : k = 0 ∨ border (k - 1) < r ∨ border (k - 1) = r ∧ k % 2 = 0)
    (high : r < border k ∨ r = border k ∧ k % 2 = 0) : nearest r = k := by
  apply le_antisymm
  · by_contra h
    rcases (lt_nearest_iff hr hk).mp (not_le.mp h) with above | ⟨above, odd⟩
    · rcases high with high | ⟨high, -⟩ <;> linarith
    · rcases high with high | ⟨-, even⟩
      · linarith
      · omega
  · rcases Nat.eq_zero_or_pos k with rfl | pos
    · exact Nat.zero_le _
    · have step : k - 1 < nearest r := by
        refine (lt_nearest_iff hr (by omega)).mpr ?_
        rcases low with rfl | low | ⟨low, even⟩
        · exact absurd pos (lt_irrefl 0)
        · exact Or.inl low
        · exact Or.inr ⟨low, by omega⟩
      omega

/-- The lower gap, in quarters of the last place: half the upper one where the exponent changes. -/
def gapOf (k : Nat) : Nat := if k % leadingBit = 0 ∧ 1 < k / leadingBit then 1 else 2

theorem border_pred (hk : 0 < k) :
    border (k - 1) = (4 * significandOf k - gapOf k) * 2 ^ (scaleOf k - 2) := by
  unfold gapOf
  split
  · rename_i h
    have hm : significandOf k = leadingBit := by
      unfold significandOf leadingBit at *
      split <;> omega
    have hm' : significandOf (k - 1) = 2 * leadingBit - 1 := by
      unfold significandOf leadingBit at *
      split <;> omega
    have hs : scaleOf (k - 1) = scaleOf k - 1 := by
      unfold scaleOf leadingBit at *
      omega
    rw [border, hm, hm', hs, show scaleOf k - 1 - 1 = scaleOf k - 2 by omega]
    norm_num [leadingBit]
  · rename_i h
    have hm : significandOf k = significandOf (k - 1) + 1 := by
      unfold significandOf leadingBit at *
      split <;> split <;> omega
    have hs : scaleOf (k - 1) = scaleOf k := by
      unfold scaleOf leadingBit at *
      omega
    rw [border, hm, hs, show scaleOf k - 1 = scaleOf k - 2 + 1 by omega, zpow_add_one₀ (by norm_num)]
    push_cast
    ring

theorem significandOf_pos (hk : 0 < k) : 0 < significandOf k := by
  unfold significandOf leadingBit
  split <;> omega

theorem valueOf_eq (k : Nat) : valueOf k = 4 * significandOf k * 2 ^ (scaleOf k - 2) := by
  have : (2 : ℚ) ^ scaleOf k = 2 ^ (scaleOf k - 2) * 4 := by
    conv_lhs => rw [show scaleOf k = scaleOf k - 2 + 2 by omega, zpow_add₀ (by norm_num)]
    norm_num
  rw [valueOf, this]
  ring

theorem border_eq (k : Nat) : border k = (4 * significandOf k + 2) * 2 ^ (scaleOf k - 2) := by
  rw [border, show scaleOf k - 1 = scaleOf k - 2 + 1 by omega, zpow_add_one₀ (by norm_num)]
  ring

theorem valueOf_nonneg (k : Nat) : 0 ≤ valueOf k := by
  unfold valueOf
  positivity

theorem valueOf_lt_border (k : Nat) : valueOf k < border k := by
  have pos : (0 : ℚ) < 2 ^ (scaleOf k - 2) := by positivity
  rw [valueOf_eq, border_eq]
  nlinarith

theorem border_lt_valueOf (hk : 0 < k) : border (k - 1) < valueOf k := by
  have pos : (0 : ℚ) < 2 ^ (scaleOf k - 2) := by positivity
  have gap : (0 : ℚ) < gapOf k := by
    unfold gapOf
    split <;> norm_num
  rw [valueOf_eq, border_pred hk]
  nlinarith

theorem nearest_valueOf (hk : k < infinityMagnitude) : nearest (valueOf k) = k := by
  refine nearest_eq (valueOf_nonneg k) hk ?_ (Or.inl (valueOf_lt_border k))
  rcases Nat.eq_zero_or_pos k with hz | pos
  · exact Or.inl hz
  · exact Or.inr (Or.inl (border_lt_valueOf pos))

theorem valueOf_le (hk : k < infinityMagnitude) {l : Nat} (h : l ≤ k) : valueOf l ≤ valueOf k := by
  by_contra hlt
  have := nearest_mono (valueOf_nonneg k) (not_le.mp hlt).le
  rw [nearest_valueOf hk, nearest_valueOf (h.trans_lt hk)] at this
  obtain rfl : l = k := le_antisymm h this
  exact hlt le_rfl

/-- Every whole number below `2 ^ 53` times a power of two from the least place on is a number of
the format. -/
theorem exists_valueOf (n : Nat) {m : Nat} (hm : m < 2 * leadingBit) :
    ∃ k < (n + 2) * leadingBit, valueOf k = m * 2 ^ ((n : Int) - 1074) := by
  induction n generalizing m with
  | zero =>
    have hk := significandOf_add hm (Or.inl (rfl : 0 = 0))
    have hs := scaleOf_add hm (Or.inl (rfl : 0 = 0))
    refine ⟨0 * leadingBit + m, by unfold leadingBit at *; omega, ?_⟩
    rw [valueOf, hk, hs]
  | succ n ih =>
    by_cases normal : leadingBit ≤ m
    · have hk := significandOf_add (e := n + 1) hm (Or.inr normal)
      have hs := scaleOf_add (e := n + 1) hm (Or.inr normal)
      refine ⟨(n + 1) * leadingBit + m, by unfold leadingBit at *; omega, ?_⟩
      rw [valueOf, hk, hs]
    · have double : 2 * m < 2 * leadingBit := by
        have := not_le.mp normal
        omega
      obtain ⟨k, hk, hv⟩ := ih double
      refine ⟨k, hk.trans_le (Nat.mul_le_mul_right _ (by omega)), ?_⟩
      rw [hv, show ((n + 1 : Nat) : Int) - 1074 = n - 1074 + 1 by push_cast; ring,
        zpow_add_one₀ (by norm_num)]
      push_cast
      ring

/-! ### Words -/

def value (x : Binary64) : ℚ := valueOf x.magnitude

theorem value_nonneg (x : Binary64) : 0 ≤ x.value := valueOf_nonneg _

theorem magnitude_lt (x : Binary64) : x.magnitude < signBit := Nat.mod_lt _ (by decide)

theorem magnitude_ofMagnitude {s : Bool} (h : k < signBit) : (ofMagnitude s k).magnitude = k := by
  unfold magnitude ofMagnitude signBit at *
  cases s <;> simp only [Bool.false_eq_true, if_true, if_false, UInt64.toNat_ofNat'] <;> omega

theorem negative_ofMagnitude {s : Bool} (h : k < signBit) : (ofMagnitude s k).negative = s := by
  unfold negative ofMagnitude signBit at *
  cases s
  · simp only [Bool.false_eq_true, if_false, UInt64.toNat_ofNat', decide_eq_false_iff_not]
    omega
  · simp only [if_true, UInt64.toNat_ofNat', decide_eq_true_eq]
    omega

theorem ext_of_magnitude (hs : x.negative = y.negative) (hm : x.magnitude = y.magnitude) :
    x = y := by
  have hx := x.bits.toNat_lt
  have hy := y.bits.toNat_lt
  unfold negative magnitude signBit at *
  have bits : x.bits.toNat = y.bits.toNat := by
    have hs : 9223372036854775808 ≤ x.bits.toNat ↔ 9223372036854775808 ≤ y.bits.toNat := by
      simpa only [decide_eq_decide] using hs
    omega
  obtain ⟨bx⟩ := x
  obtain ⟨b⟩ := y
  exact congrArg Binary64.mk (UInt64.toNat_inj.mp bits)

theorem isFinite_iff : x.isFinite = true ↔ x.magnitude < infinityMagnitude := by
  simp [isFinite]

theorem nearest_lt_signBit (r : ℚ) : nearest r < signBit :=
  lt_of_le_of_lt (nearest_le r) (by decide)

theorem ratio_pos (x : Binary64) : 0 < x.ratio.2 := powerRatio_pos _ (by decide) _

theorem ratio_eq (x : Binary64) : (x.ratio.1 : ℚ) / x.ratio.2 = x.value := by
  rw [ratio, powerRatio_eq _ (by decide)]
  rfl

theorem magnitude_ofRatio {s : Bool} {num den : Nat} (hd : 0 < den) :
    (ofRatio s num den).magnitude = nearest (num / den) := by
  rw [ofRatio, magnitudeOfRatio_eq hd, magnitude_ofMagnitude (nearest_lt_signBit _)]

theorem negative_ofRatio {s : Bool} {num den : Nat} : (ofRatio s num den).negative = s :=
  negative_ofMagnitude (lt_of_le_of_lt (magnitudeOfRatio_le _ _) (by decide))

theorem magnitude_ofNat (n : Nat) : (ofNat n).magnitude = nearest n := by
  rw [ofNat, magnitude_ofRatio Nat.one_pos]
  simp

theorem magnitude_mul (x y : Binary64) : (x.mul y).magnitude = nearest (x.value * y.value) := by
  show (ofRatio _ (x.ratio.1 * y.ratio.1) (x.ratio.2 * y.ratio.2)).magnitude = _
  rw [magnitude_ofRatio (Nat.mul_pos x.ratio_pos y.ratio_pos), ← ratio_eq, ← ratio_eq]
  congr 1
  push_cast
  rw [div_mul_div_comm]

theorem magnitude_div (x : Binary64) (hy : 0 < y.value) :
    (x.div y).magnitude = nearest (x.value / y.value) := by
  have pos : 0 < y.ratio.1 := by
    refine Nat.pos_of_ne_zero fun h => hy.ne' ?_
    rw [← ratio_eq, h]
    simp
  show (ofRatio _ (x.ratio.1 * y.ratio.2) (x.ratio.2 * y.ratio.1)).magnitude = _
  rw [magnitude_ofRatio (Nat.mul_pos x.ratio_pos pos), ← ratio_eq, ← ratio_eq]
  congr 1
  push_cast
  rw [div_div_div_eq]

theorem negative_mul (x y : Binary64) : (x.mul y).negative = (x.negative != y.negative) :=
  negative_ofRatio

theorem negative_div (x y : Binary64) : (x.div y).negative = (x.negative != y.negative) :=
  negative_ofRatio

theorem negative_ofNat (n : Nat) : (ofNat n).negative = false := negative_ofRatio

theorem magnitude_neg (x : Binary64) : x.neg.magnitude = x.magnitude :=
  magnitude_ofMagnitude x.magnitude_lt

theorem negative_neg (x : Binary64) : x.neg.negative = !x.negative :=
  negative_ofMagnitude x.magnitude_lt

theorem neg_isFinite (h : x.isFinite = true) : x.neg.isFinite = true := by
  rw [isFinite_iff] at *
  rwa [magnitude_neg]

theorem value_ofNat {m : Nat} (hm : m < 2 * leadingBit) {s : Nat} (hs : s < 64) :
    (ofNat (m * 2 ^ s)).value = m * 2 ^ s := by
  obtain ⟨k, hk, hv⟩ := exists_valueOf (1074 + s) hm
  have hf : k < infinityMagnitude := by unfold infinityMagnitude leadingBit at *; omega
  have whole : ((m * 2 ^ s : Nat) : ℚ) = valueOf k := by
    rw [hv, show ((1074 + s : Nat) : Int) - 1074 = s by push_cast; ring, zpow_natCast]
    push_cast
    rfl
  rw [value, magnitude_ofNat, whole, nearest_valueOf hf, ← whole]
  push_cast
  rfl

end Telemetry.Binary64
