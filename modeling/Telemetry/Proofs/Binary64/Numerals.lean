import Telemetry.Binary64.Reading
import Telemetry.Proofs.Binary64.Shortest
import Telemetry.Proofs.Json.Layout
/-!
Every layout writes a finite number so that reading it to the nearest number gives it back. What is
lost on the way through a text is lost by readers that round more than once.
-/

namespace Telemetry.Binary64

variable {x : Binary64} {k : Nat} {r : ℚ}

theorem border_bounds (hk : k < infinityMagnitude) :
    (2 : ℚ) ^ (-1075 : Int) ≤ border k ∧ border k ≤ 2 ^ (1024 : Int) := by
  obtain ⟨low, high⟩ := scaleOf_range hk
  have pos : (0 : ℚ) < 2 ^ (scaleOf k - 1) := by positivity
  have most : (2 * significandOf k + 1 : ℚ) ≤ 18014398509481984 := by
    have := significandOf_lt k
    unfold leadingBit at this
    exact_mod_cast (by omega : 2 * significandOf k + 1 ≤ 18014398509481984)
  constructor
  · calc (2 : ℚ) ^ (-1075 : Int) ≤ 2 ^ (scaleOf k - 1) := two_zpow_le (by omega)
      _ ≤ border k := by
        rw [border]
        nlinarith [(Nat.cast_nonneg (significandOf k) : (0 : ℚ) ≤ significandOf k)]
  · calc border k ≤ 18014398509481984 * 2 ^ (scaleOf k - 1) := by
          rw [border]
          gcongr
      _ ≤ 18014398509481984 * 2 ^ (970 : Int) := by
          gcongr
          · norm_num
          · omega
      _ = 2 ^ (1024 : Int) := by
          rw [show (1024 : Int) = 54 + 970 by norm_num, zpow_add₀ (by norm_num)]
          norm_num

theorem Rounds.digits_pos {d : Decimal} (h : Rounds k d.value) : 0 < d.digits := by
  refine Nat.pos_of_ne_zero fun hz => ?_
  have pos := h.pos
  rw [Decimal.value, hz, Nat.cast_zero, zero_mul] at pos
  exact lt_irrefl _ pos

theorem decimal_bounds {d : Decimal} (hd : 0 < d.digits) :
    (10 : ℚ) ^ d.leading ≤ d.value ∧ d.value < 10 ^ (d.leading + 1) := by
  obtain ⟨low, high⟩ := toDigits_bounds hd
  have length : 0 < d.length := Nat.length_toDigits_pos
  constructor
  · have hl : (10 : ℚ) ^ (d.length - 1) ≤ d.digits := by exact_mod_cast low
    rw [Decimal.value, show d.leading = ((d.length - 1 : Nat) : Int) + d.exponent by
      rw [Decimal.leading]; omega, zpow_add₀ (by norm_num), zpow_natCast]
    gcongr
  · have hh : (d.digits : ℚ) < 10 ^ d.length := by exact_mod_cast high
    rw [Decimal.value, show d.leading + 1 = (d.length : Int) + d.exponent by
      rw [Decimal.leading]; omega, zpow_add₀ (by norm_num), zpow_natCast]
    gcongr

theorem leading_bounds {d : Decimal} (hd : 0 < d.digits) (h : Rounds k d.value)
    (hk : k < infinityMagnitude) : -325 < d.leading ∧ d.leading ≤ 309 := by
  obtain ⟨below, above⟩ := decimal_bounds hd
  have least : (2 : ℚ) ^ (-1075 : Int) ≤ d.value := by
    have := (border_bounds (k := k - 1) (by omega)).1
    rcases h.1 with h | ⟨h, -⟩ <;> linarith
  have most : d.value ≤ 2 ^ (1024 : Int) := h.le_border.trans (border_bounds hk).2
  have first := (decimal_log_bounds (l := -1076) (f := -324) (by decide) (by decide)).1
  have last := (decimal_log_bounds (l := 1025) (f := 308) (by decide) (by decide)).2
  constructor
  · have : (-324 : Int) < d.leading + 1 :=
      (zpow_lt_zpow_iff_right₀ (by norm_num)).mp (first.trans_lt (least.trans_lt above))
    omega
  · exact (zpow_le_zpow_iff_right₀ (by norm_num)).mp (below.trans (most.trans last))

/-- What a decimal must be like to be written for a number. -/
structure Written (x : Binary64) (d : Decimal) : Prop where
  short : d.digits < 200000000000000000
  normal : 0 < d.digits ∨ d.exponent = 0
  leading : d.leading.natAbs < 400
  rounds : 0 < x.magnitude → Rounds x.magnitude d.value
  zero : x.magnitude = 0 → d.digits = 0

theorem shortest_written (hf : x.isFinite = true) (tie : Tie) : Written x (x.shortest tie) := by
  rcases Nat.eq_zero_or_pos x.magnitude with hz | hx
  · have zero : x.shortest tie = ⟨0, 0⟩ := by
      rw [shortest, if_pos (by simpa [isZero] using hz)]
    rw [zero]
    exact ⟨by decide, Or.inr rfl, by decide, fun hx => absurd hz hx.ne', fun _ => rfl⟩
  · obtain ⟨rounds, short⟩ := shortest_spec hf hx tie
    have pos : 0 < (x.shortest tie).digits := Rounds.digits_pos rounds
    have leading := leading_bounds pos rounds (isFinite_iff.mp hf)
    exact ⟨short, Or.inl pos, by omega, fun _ => rounds, fun hz => absurd hz hx.ne'⟩

theorem numeral_spec (hf : x.isFinite = true) (l : Layout) {limit : Nat} (hl : 400 ≤ limit) :
    (x.numeral l).Spelled ∧ (x.numeral l).negative = x.negative ∧
      (x.numeral l).value limit = (x.shortest l.tie).value := by
  have written := shortest_written hf l.tie
  exact Layout.numeral_spec l x.negative written.normal (written.leading.trans_le hl)

theorem decimal_value_nonneg (d : Decimal) : 0 ≤ d.value := by
  rw [Decimal.value]
  positivity

theorem nearest_of_large (h : (2 : ℚ) ^ (1024 : Int) < r) : nearest r = infinityMagnitude := by
  have pos : 0 ≤ r := le_trans (by positivity) h.le
  have last : infinityMagnitude - 1 < infinityMagnitude := by decide
  have above : infinityMagnitude - 1 < nearest r :=
    (lt_nearest_iff pos last).mpr (.inl ((border_bounds last).2.trans_lt h))
  have most := nearest_le r
  omega

theorem nearest_of_small (pos : 0 ≤ r) (h : r < (2 : ℚ) ^ (-1075 : Int)) : nearest r = 0 :=
  nearest_eq pos (by decide) (.inl rfl) (.inl (h.trans_le (border_bounds (by decide)).1))

/-- A decimal is rounded to the nearest number, also where its digits are not looked at. -/
theorem ofDecimal_eq_nearest (s : Bool) (d : Decimal) :
    ofDecimal s d = ofMagnitude s (nearest d.value) := by
  unfold ofDecimal
  by_cases hd : d.digits = 0
  · rw [if_pos hd, Decimal.value, hd, Nat.cast_zero, zero_mul, nearest_zero]
  obtain ⟨below, above⟩ := decimal_bounds (Nat.pos_of_ne_zero hd)
  rw [if_neg hd]
  by_cases large : 310 < d.leading
  · have last := (decimal_log_bounds (l := 1025) (f := 308) (by decide) (by decide)).2
    have power : (10 : ℚ) ^ (308 + 1 : Int) < 10 ^ d.leading :=
      zpow_lt_zpow_right₀ (by norm_num) (by omega)
    rw [if_pos large, nearest_of_large ((last.trans_lt power).trans_le below)]
    rfl
  rw [if_neg large]
  by_cases small : d.leading < -330
  · have first := (decimal_log_bounds (l := -1076) (f := -324) (by decide) (by decide)).1
    have power : (10 : ℚ) ^ (d.leading + 1) ≤ 10 ^ (-324 : Int) :=
      zpow_le_zpow_right₀ (by norm_num) (by omega)
    rw [if_pos small,
      nearest_of_small (decimal_value_nonneg d) (above.trans_le (power.trans first))]
  · rw [if_neg small]
    show ofRatio s (powerRatio d.digits 10 d.exponent).1 (powerRatio d.digits 10 d.exponent).2 = _
    rw [ofRatio, magnitudeOfRatio_eq (powerRatio_pos _ (by decide) _), powerRatio_eq _ (by decide)]
    rfl

theorem ofDecimal_eq {s : Bool} {d : Decimal} (hk : k < infinityMagnitude)
    (rounds : 0 < k → Rounds k d.value) (zero : k = 0 → d.value = 0) :
    ofDecimal s d = ofMagnitude s k := by
  rw [ofDecimal_eq_nearest]
  rcases Nat.eq_zero_or_pos k with rfl | pos
  · rw [zero rfl, nearest_zero]
  · rw [(rounds pos).nearest_eq hk (decimal_value_nonneg d)]

theorem ofMagnitude_magnitude (x : Binary64) : ofMagnitude x.negative x.magnitude = x :=
  ext_of_magnitude (negative_ofMagnitude x.magnitude_lt) (magnitude_ofMagnitude x.magnitude_lt)

theorem ofNumeral_numeral (hf : x.isFinite = true) (l : Layout) : ofNumeral (x.numeral l) = x := by
  obtain ⟨-, negative, value⟩ := @numeral_spec x hf l 65536 (by decide)
  have written := shortest_written hf l.tie
  have same : (x.numeral l).decimal.value = (x.shortest l.tie).value := value
  rw [ofNumeral, negative]
  conv_rhs => rw [← ofMagnitude_magnitude x]
  refine ofDecimal_eq (isFinite_iff.mp hf) (fun hx => same ▸ written.rounds hx) fun hz => ?_
  rw [same, Decimal.value, written.zero hz]
  simp

theorem numeral_injective {y : Binary64} (hx : x.isFinite = true) (hy : y.isFinite = true)
    {l : Layout} (h : x.numeral l = y.numeral l) : x = y := by
  rw [← ofNumeral_numeral hx l, h, ofNumeral_numeral hy l]

end Telemetry.Binary64
