import Mathlib.Data.Nat.Cast.Order.Field
import Mathlib.Tactic.Positivity
import Telemetry.Binary64.Shortest
import Telemetry.Proofs.Binary64.Nearest
/-!
The decimal that the search returns lies in the interval of its number, and it is short enough for
64 bits. The search cannot run out of grids: the twentieth is finer than half the last place.
-/

namespace Telemetry.Binary64

variable {x : Binary64} {k : Nat} {s : Int} {n : Nat} {r : ℚ}

/-- Whether the numbers of the word `k` round to it, its borders included where `k` is even. -/
def Rounds (k : Nat) (r : ℚ) : Prop :=
  (border (k - 1) < r ∨ border (k - 1) = r ∧ k % 2 = 0) ∧ (r < border k ∨ r = border k ∧ k % 2 = 0)

theorem Rounds.nearest_eq (h : Rounds k r) (hk : k < infinityMagnitude) (hr : 0 ≤ r) :
    nearest r = k :=
  Binary64.nearest_eq hr hk (Or.inr h.1) h.2

theorem Rounds.le_border (h : Rounds k r) : r ≤ border k := by
  rcases h.2 with h | ⟨h, -⟩
  · exact h.le
  · exact h.le

theorem Rounds.pos (h : Rounds k r) : 0 < r := by
  have := border_pos (k - 1)
  rcases h.1 with h | ⟨h, -⟩ <;> linarith

/-! ### The interval on a grid -/

theorem measured_parts (hx : 0 < x.magnitude) (s : Int) :
    0 < (x.span.measured s).den ∧
      ((x.span.measured s).low : ℚ) / (x.span.measured s).den =
        border (x.magnitude - 1) * 10 ^ (-s) ∧
      ((x.span.measured s).mid : ℚ) / (x.span.measured s).den = x.value * 10 ^ (-s) ∧
      ((x.span.measured s).high : ℚ) / (x.span.measured s).den = border x.magnitude * 10 ^ (-s) := by
  have hp := powerRatio_pos 1 Nat.two_pos (x.scale - 2)
  have hq := powerRatio_pos 1 (show 0 < 10 by decide) (-s)
  have p := powerRatio_eq 1 Nat.two_pos (x.scale - 2)
  have q := powerRatio_eq 1 (show 0 < 10 by decide) (-s)
  have part (c : Nat) : ((c * (powerRatio 1 2 (x.scale - 2)).1 * (powerRatio 1 10 (-s)).1 : Nat) : ℚ) /
      ((powerRatio 1 2 (x.scale - 2)).2 * (powerRatio 1 10 (-s)).2 : Nat) =
        c * 2 ^ (x.scale - 2) * 10 ^ (-s) := by
    push_cast at p q ⊢
    rw [one_mul] at p q
    rw [mul_assoc, mul_div_assoc, mul_div_mul_comm, p, q]
    ring
  have gap : gapOf x.magnitude ≤ 4 * x.significand := by
    have := significandOf_pos hx
    rw [significand_eq]
    unfold gapOf
    split <;> omega
  refine ⟨Nat.mul_pos hp hq, ?_, ?_, ?_⟩
  · refine (part (4 * x.significand - gapOf x.magnitude)).trans ?_
    rw [border_pred hx, Nat.cast_sub gap]
    push_cast
    rfl
  · refine (part (4 * x.significand)).trans ?_
    rw [value, valueOf_eq]
    push_cast
    rfl
  · refine (part (4 * x.significand + 2)).trans ?_
    rw [border_eq]
    push_cast
    rfl

theorem grid_compare {a d : Nat} {b : ℚ} (hd : 0 < d) (h : (a : ℚ) / d = b * 10 ^ (-s)) (n : Nat) :
    (a ≤ n * d ↔ b ≤ n * 10 ^ s) ∧ (n * d ≤ a ↔ (n * 10 ^ s : ℚ) ≤ b) := by
  have hd' : (0 : ℚ) < d := by exact_mod_cast hd
  have unit : (0 : ℚ) < 10 ^ s := by positivity
  have hb : b = (a : ℚ) / d * 10 ^ s := by
    rw [h, mul_assoc, ← zpow_add₀ (by norm_num), neg_add_cancel, zpow_zero, mul_one]
  rw [hb, mul_le_mul_iff_left₀ unit, mul_le_mul_iff_left₀ unit, div_le_iff₀ hd', le_div_iff₀ hd']
  constructor <;> norm_cast

theorem holds_iff (hx : 0 < x.magnitude) :
    (x.span.measured s).holds n = true ↔ Rounds x.magnitude (n * 10 ^ s) := by
  obtain ⟨hd, low, -, high⟩ := measured_parts hx s
  have lows := grid_compare hd low n
  have highs := grid_compare hd high n
  have closed : (x.span.measured s).closed = decide (x.magnitude % 2 = 0) := by
    rw [← significandOf_mod_two]
    rfl
  unfold Span.holds Rounds
  rw [closed]
  generalize (x.span.measured s).low = a at *
  generalize (x.span.measured s).high = b at *
  by_cases even : x.magnitude % 2 = 0
  · simp only [even, decide_true, if_true, and_true, Bool.and_eq_true, decide_eq_true_eq, lows.1,
      highs.2, ← le_iff_lt_or_eq]
  · have strict : (a < n * (x.span.measured s).den ↔ border (x.magnitude - 1) < n * 10 ^ s) ∧
        (n * (x.span.measured s).den < b ↔ (n * 10 ^ s : ℚ) < border x.magnitude) :=
      ⟨by rw [← not_le, lows.2, not_le], by rw [← not_le, highs.1, not_le]⟩
    simp only [even, decide_false, if_false, Bool.false_eq_true, and_false, or_false,
      Bool.and_eq_true, decide_eq_true_eq, strict.1, strict.2]

/-! ### The two neighbours -/

namespace Span

variable {tie : Tie} {i : Span}

theorem neighbour?_eq_some (h : i.neighbour? tie = some n) :
    i.holds n = true ∧ n ≤ i.mid / i.den + 1 := by
  unfold neighbour? at h
  dsimp only at h
  split at h
  · simp at h
  · obtain rfl := Option.some.inj h
    exact ⟨by assumption, Nat.le_succ _⟩
  · obtain rfl := Option.some.inj h
    exact ⟨by assumption, le_rfl⟩
  · split at h
    · obtain rfl := Option.some.inj h
      exact ⟨by assumption, Nat.le_succ _⟩
    · split at h
      · obtain rfl := Option.some.inj h
        exact ⟨by assumption, le_rfl⟩
      · cases tie
        · obtain rfl := Option.some.inj h
          exact ⟨by assumption, le_rfl⟩
        · obtain rfl := Option.some.inj h
          split
          · exact ⟨by assumption, Nat.le_succ _⟩
          · exact ⟨by assumption, le_rfl⟩

/-- On a grid that is fine enough the point above the number, or the number itself, lies inside. -/
theorem neighbour?_isSome (hd : 0 < i.den) (low : i.low < i.mid) (high : i.mid + i.den ≤ i.high) :
    (i.neighbour? tie).isSome = true := by
  have hm : i.den * (i.mid / i.den) + i.mid % i.den = i.mid := Nat.div_add_mod ..
  have hr : i.mid % i.den < i.den := Nat.mod_lt _ hd
  have inside : i.holds (i.mid / i.den) = true ∨ i.holds (i.mid / i.den + 1) = true := by
    have next : (i.mid / i.den + 1) * i.den = i.den * (i.mid / i.den) + i.den := by ring
    have here : i.mid / i.den * i.den = i.den * (i.mid / i.den) := by ring
    unfold holds
    rw [next, here]
    generalize i.den * (i.mid / i.den) = p at *
    by_cases exact : i.mid % i.den = 0
    · left
      split <;> simp <;> omega
    · right
      split <;> simp <;> omega
  unfold neighbour?
  dsimp only
  split
  · rename_i h h'
    rcases inside with inside | inside
    · exact absurd (h.symm.trans inside) (by decide)
    · exact absurd (h'.symm.trans inside) (by decide)
  · rfl
  · rfl
  · split
    · rfl
    · split
      · rfl
      · cases tie <;> rfl

theorem search_eq {count : Nat} (h : ∃ j < count, ((i.measured (s - j)).neighbour? tie).isSome) :
    ∃ j : Nat, (i.search tie count s).exponent = s - j ∧
      (i.measured (s - j)).neighbour? tie = some (i.search tie count s).digits ∧
      ∀ j' < j, (i.measured (s - j')).neighbour? tie = none := by
  induction count generalizing s with
  | zero =>
    obtain ⟨j, hj, -⟩ := h
    exact absurd hj (Nat.not_lt_zero j)
  | succ count ih =>
    unfold search
    cases hs : (i.measured s).neighbour? tie with
    | some n => exact ⟨0, by simp, by simpa using hs, by simp⟩
    | none =>
      obtain ⟨j, hj, hsome⟩ := h
      cases j with
      | zero => simp [hs] at hsome
      | succ j =>
        have shift (j : Nat) : s - 1 - (j : Int) = s - (j + 1 : Nat) := by push_cast; ring
        obtain ⟨j, he, hn, hnone⟩ := ih ⟨j, by omega, by rwa [shift]⟩
        refine ⟨j + 1, by rw [← shift]; exact he, by rw [← shift]; exact hn, fun j' hj' => ?_⟩
        cases j' with
        | zero => simpa using hs
        | succ j' =>
          rw [← shift]
          exact hnone j' (by omega)

end Span

/-! ### Powers of ten against powers of two -/

theorem two_pow_le_ten_pow : 2 ^ 100000 ≤ 10 ^ 30103 := by
  decide +kernel

theorem ten_pow_le_two_pow : 10 ^ 30103 ≤ 2 ^ 100002 := by
  decide +kernel

theorem ten_zpow_mul {a b c : Nat} (hab : 2 ^ a ≤ 10 ^ b) (hbc : 10 ^ b ≤ 2 ^ c) (l : Int) :
    (2 : ℚ) ^ min (a * l) (c * l) ≤ 10 ^ (b * l) ∧ (10 : ℚ) ^ (b * l) ≤ 2 ^ max (a * l) (c * l) := by
  have hab : (2 : ℚ) ^ a ≤ 10 ^ b := by exact_mod_cast hab
  have hbc : (10 : ℚ) ^ b ≤ 2 ^ c := by exact_mod_cast hbc
  obtain ⟨n, rfl | rfl⟩ := l.eq_nat_or_neg
  · have low : (2 : ℚ) ^ (a * n : Int) ≤ 10 ^ (b * n : Int) := by
      rw [zpow_mul, zpow_mul, zpow_natCast, zpow_natCast, zpow_natCast, zpow_natCast]
      exact pow_le_pow_left₀ (by positivity) hab n
    have high : (10 : ℚ) ^ (b * n : Int) ≤ 2 ^ (c * n : Int) := by
      rw [zpow_mul, zpow_mul, zpow_natCast, zpow_natCast, zpow_natCast, zpow_natCast]
      exact pow_le_pow_left₀ (by positivity) hbc n
    exact ⟨(two_zpow_le (min_le_left _ _)).trans low, high.trans (two_zpow_le (le_max_right _ _))⟩
  · have low : (2 : ℚ) ^ (c * -n : Int) ≤ 10 ^ (b * -n : Int) := by
      rw [zpow_mul, zpow_mul, zpow_natCast, zpow_natCast, zpow_neg, zpow_neg, zpow_natCast,
        zpow_natCast]
      exact inv_anti₀ (by positivity) (pow_le_pow_left₀ (by positivity) hbc n)
    have high : (10 : ℚ) ^ (b * -n : Int) ≤ 2 ^ (a * -n : Int) := by
      rw [zpow_mul, zpow_mul, zpow_natCast, zpow_natCast, zpow_neg, zpow_neg, zpow_natCast,
        zpow_natCast]
      exact inv_anti₀ (by positivity) (pow_le_pow_left₀ (by positivity) hab n)
    exact ⟨(two_zpow_le (min_le_right _ _)).trans low, high.trans (two_zpow_le (le_max_left _ _))⟩

/-- The decimal logarithm that the search begins from is off by less than one binary place. -/
theorem decimal_log_bounds {l f : Int} (hl : -50000 ≤ l ∧ l ≤ 50000) (hf : f = 30103 * l / 100000) :
    (10 : ℚ) ^ f ≤ 2 ^ (l + 1) ∧ (2 : ℚ) ^ (l - 1) ≤ 10 ^ (f + 1) := by
  obtain ⟨low, high⟩ := ten_zpow_mul two_pow_le_ten_pow ten_pow_le_two_pow l
  have root {u v : ℚ} (hu : 0 ≤ u) (hv : 0 ≤ v) (h : u ^ (100000 : Int) ≤ v ^ (100000 : Int)) :
      u ≤ v := by
    have h : u ^ (100000 : ℕ) ≤ v ^ (100000 : ℕ) := by exact_mod_cast h
    exact (pow_le_pow_iff_left₀ hu hv (by decide)).mp h
  have hten {i j : Int} (h : i ≤ j) : (10 : ℚ) ^ i ≤ 10 ^ j :=
    zpow_le_zpow_right₀ (by norm_num) h
  constructor
  · refine root (by positivity) (by positivity) ?_
    rw [← zpow_mul, ← zpow_mul]
    exact (hten (by omega)).trans (high.trans (two_zpow_le (by omega)))
  · refine root (by positivity) (by positivity) ?_
    rw [← zpow_mul, ← zpow_mul]
    exact (two_zpow_le (by omega)).trans (low.trans (hten (by omega)))

/-! ### The search succeeds -/

theorem border_sub_valueOf (k : Nat) : border k - valueOf k = 2 ^ (scaleOf k - 1) := by
  rw [border, valueOf]
  conv_lhs => rw [show scaleOf k = scaleOf k - 1 + 1 by omega, zpow_add_one₀ (by norm_num)]
  rw [show scaleOf k - 1 + 1 - 1 = scaleOf k - 1 by omega]
  ring

theorem valueOf_bounds (hk : 0 < k) :
    (2 : ℚ) ^ scaleOf k ≤ valueOf k ∧ valueOf k < 2 ^ (scaleOf k + 53) := by
  have pos : (0 : ℚ) < 2 ^ scaleOf k := by positivity
  have low : (1 : ℚ) ≤ significandOf k := by exact_mod_cast significandOf_pos hk
  have high : (significandOf k : ℚ) < 9007199254740992 := by exact_mod_cast significandOf_lt k
  rw [valueOf, zpow_add₀ (by norm_num)]
  constructor
  · nlinarith
  · have power : (2 : ℚ) ^ (53 : Int) = 9007199254740992 := by norm_num
    rw [power, mul_comm ((2 : ℚ) ^ scaleOf k)]
    exact mul_lt_mul_of_pos_right high pos

theorem scaleOf_range (hk : k < infinityMagnitude) : -1074 ≤ scaleOf k ∧ scaleOf k ≤ 971 := by
  unfold scaleOf infinityMagnitude leadingBit at *
  omega

theorem neighbour?_of_fine {tie : Tie} (hx : 0 < x.magnitude)
    (fine : (10 : ℚ) ^ s ≤ 2 ^ (x.scale - 1)) :
    ((x.span.measured s).neighbour? tie).isSome = true := by
  obtain ⟨hd, low, mid, high⟩ := measured_parts hx s
  have hd' : (0 : ℚ) < (x.span.measured s).den := by exact_mod_cast hd
  have unit : (0 : ℚ) < 10 ^ (-s) := by positivity
  rw [div_eq_iff hd'.ne'] at low mid high
  refine Span.neighbour?_isSome hd ?_ ?_
  · have := border_lt_valueOf hx
    have h : ((x.span.measured s).low : ℚ) < (x.span.measured s).mid := by
      rw [low, mid, value]
      gcongr
    exact_mod_cast h
  · have gap : (1 : ℚ) ≤ (border x.magnitude - x.value) * 10 ^ (-s) := by
      rw [value, border_sub_valueOf, zpow_neg, ← div_eq_mul_inv, le_div_iff₀ (by positivity),
        one_mul]
      exact fine
    have h : ((x.span.measured s).mid : ℚ) + (x.span.measured s).den ≤ (x.span.measured s).high := by
      rw [mid, high]
      nlinarith
    exact_mod_cast h

theorem neighbour?_bounds {tie : Tie} (hx : 0 < x.magnitude)
    (h : (x.span.measured s).neighbour? tie = some n) :
    Rounds x.magnitude (n * 10 ^ s) ∧ (n : ℚ) ≤ x.value * 10 ^ (-s) + 1 := by
  obtain ⟨inside, bound⟩ := Span.neighbour?_eq_some h
  obtain ⟨-, -, mid, -⟩ := measured_parts hx s
  refine ⟨(holds_iff hx).mp inside, ?_⟩
  calc (n : ℚ) ≤ ((x.span.measured s).mid / (x.span.measured s).den : Nat) + 1 := by
        exact_mod_cast bound
    _ ≤ (x.span.measured s).mid / (x.span.measured s).den + 1 := by
        gcongr
        exact Nat.cast_div_le
    _ = x.value * 10 ^ (-s) + 1 := by rw [mid]

/-- The search begins two places above the decimal logarithm, which is taken from the binary one. -/
theorem exists_log (hf : x.isFinite = true) (hx : 0 < x.magnitude) : ∃ l : Int,
    x.coarsest = 30103 * l / 100000 + 2 ∧ x.value < 2 ^ (l + 1) ∧
      x.scale ≤ l ∧ l < x.scale + 53 ∧ -50000 ≤ l ∧ l ≤ 50000 := by
  obtain ⟨minScale, maxScale⟩ := scaleOf_range (isFinite_iff.mp hf)
  obtain ⟨lowScale, highScale⟩ := valueOf_bounds hx
  have numerator : 0 < x.ratio.1 := by
    refine Nat.pos_of_ne_zero fun h => ?_
    have zero := ratio_eq x
    rw [h, Nat.cast_zero, zero_div, value] at zero
    have : (0 : ℚ) < 2 ^ scaleOf x.magnitude := by positivity
    linarith
  obtain ⟨low, high⟩ := floorLog2_bounds numerator x.ratio_pos
  rw [ratio_eq, value] at low high
  have above : scaleOf x.magnitude < floorLog2 x.ratio.1 x.ratio.2 + 1 :=
    (zpow_lt_zpow_iff_right₀ (by norm_num)).mp (lowScale.trans_lt high)
  have below : floorLog2 x.ratio.1 x.ratio.2 < scaleOf x.magnitude + 53 :=
    (zpow_lt_zpow_iff_right₀ (by norm_num)).mp (low.trans_lt highScale)
  have first : x.coarsest = 30103 * floorLog2 x.ratio.1 x.ratio.2 / 100000 + 2 := by
    show (floorLog2 x.ratio.1 x.ratio.2 * 30103).fdiv 100000 + 2 = _
    rw [Int.fdiv_eq_ediv_of_nonneg _ (by decide), mul_comm]
  rw [scale_eq]
  exact ⟨_, first, high, by omega, below, by omega, by omega⟩

theorem last_grid_fine {l f : Int} (ten : (10 : ℚ) ^ f ≤ 2 ^ (l + 1)) (hl : l < x.scale + 53) :
    (10 : ℚ) ^ (f + 2 - 19) ≤ 2 ^ (x.scale - 1) := by
  calc (10 : ℚ) ^ (f + 2 - 19) = 10 ^ f * 10 ^ (-17 : Int) := by
        rw [← zpow_add₀ (by norm_num)]
        congr 1
        omega
    _ ≤ 2 ^ (l + 1) * 2 ^ (-56 : Int) := by
        gcongr
        norm_num
    _ = 2 ^ (l - 55) := by
        rw [← zpow_add₀ (by norm_num)]
        congr 1
        omega
    _ ≤ 2 ^ (x.scale - 1) := two_zpow_le (by omega)

theorem value_on_first_grid {l f : Int} (h : r < 2 ^ (l - 1 + 2))
    (ten : (2 : ℚ) ^ (l - 1) ≤ 10 ^ (f + 1)) : r * 10 ^ (-(f + 2)) < 199999999999999999 := by
  have pos : (0 : ℚ) < 10 ^ (-(f + 2)) := by positivity
  calc r * 10 ^ (-(f + 2)) < 2 ^ (l - 1 + 2) * 10 ^ (-(f + 2)) := by gcongr
    _ = 2 ^ (l - 1) * 4 * 10 ^ (-(f + 2)) := by
      rw [zpow_add₀ (by norm_num)]
      norm_num
    _ ≤ 10 ^ (f + 1) * 4 * 10 ^ (-(f + 2)) := by gcongr
    _ = 4 * 10 ^ (-1 : Int) := by
      rw [mul_right_comm, ← zpow_add₀ (by norm_num), mul_comm]
      congr 2
      omega
    _ < 199999999999999999 := by norm_num

/-- Ten times finer than a grid that is too coarse, the number has not become long. -/
theorem value_on_fine_grid (hx : 0 < x.magnitude) (coarse : (2 : ℚ) ^ (x.scale - 1) < 10 ^ s) :
    x.value * 10 ^ (-(s - 1)) < 199999999999999999 := by
  have pos : (0 : ℚ) < 10 ^ (-(s - 1)) := by positivity
  calc x.value * 10 ^ (-(s - 1)) < 2 ^ (x.scale + 53) * 10 ^ (-(s - 1)) := by
        gcongr
        exact (valueOf_bounds hx).2
    _ = 2 ^ (x.scale - 1) * 18014398509481984 * 10 ^ (-(s - 1)) := by
      rw [show x.scale + 53 = x.scale - 1 + 54 by omega, zpow_add₀ (by norm_num)]
      norm_num
    _ < 10 ^ s * 18014398509481984 * 10 ^ (-(s - 1)) := by gcongr
    _ = 18014398509481984 * 10 ^ (1 : Int) := by
      rw [mul_right_comm, ← zpow_add₀ (by norm_num), mul_comm]
      congr 2
      omega
    _ < 199999999999999999 := by norm_num

/-- The written digits round to the number, and they fit well into a word. -/
theorem shortest_spec (hf : x.isFinite = true) (hx : 0 < x.magnitude) (tie : Tie) :
    Rounds x.magnitude ((x.shortest tie).digits * 10 ^ (x.shortest tie).exponent) ∧
      (x.shortest tie).digits < 200000000000000000 := by
  have nonzero : x.isZero = false := by
    simp only [isZero, decide_eq_false_iff_not]
    omega
  obtain ⟨l, first, high, -, hl, range⟩ := exists_log hf hx
  obtain ⟨f, hf⟩ : ∃ f, 30103 * l / 100000 = f := ⟨_, rfl⟩
  obtain ⟨tenLow, tenHigh⟩ := decimal_log_bounds range hf.symm
  have last : ∃ j < 20, ((x.span.measured (f + 2 - (j : Nat))).neighbour? tie).isSome = true :=
    ⟨19, by decide, neighbour?_of_fine hx (last_grid_fine tenLow hl)⟩
  obtain ⟨j, exponent, found, before⟩ := Span.search_eq last
  obtain ⟨inside, bound⟩ := neighbour?_bounds hx found
  have small : x.value * 10 ^ (-(f + 2 - (j : Int))) < 199999999999999999 := by
    cases j with
    | zero =>
      rw [Nat.cast_zero, sub_zero]
      exact value_on_first_grid (high.trans_le (two_zpow_le (by omega))) tenHigh
    | succ j =>
      -- the grid before had no neighbour, so it was coarser than half the last place
      have coarse : (2 : ℚ) ^ (x.scale - 1) < 10 ^ (f + 2 - (j : Int)) := by
        by_contra h
        have := @neighbour?_of_fine x _ tie hx (not_lt.mp h)
        rw [before j (Nat.lt_succ_self j)] at this
        exact absurd this (by decide)
      rw [show f + 2 - ((j + 1 : Nat) : Int) = f + 2 - (j : Int) - 1 by push_cast; ring]
      exact value_on_fine_grid hx coarse
  have total : ((x.span.search tie 20 (f + 2)).digits : ℚ) < 200000000000000000 := by linarith
  rw [shortest, nonzero, if_neg (by decide), first, hf, exponent]
  exact ⟨inside, by exact_mod_cast total⟩

end Telemetry.Binary64
