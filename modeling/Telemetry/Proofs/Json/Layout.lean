import Mathlib.Data.Rat.Cast.Order
import Mathlib.Tactic.IntervalCases
import Mathlib.Tactic.Linarith
import Mathlib.Tactic.NormNum
import Mathlib.Tactic.Positivity
import Mathlib.Tactic.Ring
import Telemetry.Binary64.Layout
import Telemetry.Proofs.Json.Token
/-!
How decimals are laid out: every layout gives a numeral that the grammar admits and that stands for
the same number.
-/

namespace Telemetry

open Json

/-! ### Digits -/

theorem isDigit_toDigits (n : Nat) : ∀ c ∈ Nat.toDigits 10 n, isDigit c = true := by
  intro c hc
  have h := Nat.isDigit_of_mem_toDigits (by decide) (by decide) hc
  have range : 48 ≤ c.val ∧ c.val ≤ 57 := by simpa [Char.isDigit] using h
  have range : '0' ≤ c ∧ c ≤ '9' := range
  simpa [isDigit] using range

theorem isDigit_replicate (k : Nat) : ∀ c ∈ List.replicate k '0', isDigit c = true := by
  intro c hc
  rw [List.eq_of_mem_replicate hc]
  decide

theorem toDigits_head {n : Nat} (h : 0 < n) : ∃ c cs, Nat.toDigits 10 n = c :: cs ∧ c ≠ '0' := by
  induction n using Nat.base_induction 10 (by decide) with
  | single m hm =>
    rw [Nat.toDigits_of_lt_base hm]
    refine ⟨_, _, rfl, ?_⟩
    interval_cases m <;> decide
  | digit m k hk hm ih =>
    obtain ⟨c, cs, hc, hz⟩ := ih hm
    refine ⟨c, cs ++ Nat.toDigits 10 k, ?_, hz⟩
    rw [← Nat.toDigits_append_toDigits (by decide) hm hk, hc, List.cons_append]

theorem isWhole_cons {c : Char} (hc : c ≠ '0') (cs : List Char) : isWhole (c :: cs) = true := by
  unfold isWhole
  split
  · contradiction
  · rfl
  · rename_i h
    exact absurd (List.cons.inj h).1 hc
  · rfl

theorem isWhole_toDigits (n : Nat) : isWhole (Nat.toDigits 10 n) = true := by
  rcases Nat.eq_zero_or_pos n with rfl | hn
  · rfl
  · obtain ⟨c, cs, hc, hz⟩ := toDigits_head hn
    rw [hc]
    exact isWhole_cons hz cs

theorem toDigits_bounds {n : Nat} (hn : 0 < n) :
    10 ^ ((Nat.toDigits 10 n).length - 1) ≤ n ∧ n < 10 ^ (Nat.toDigits 10 n).length := by
  have pos : 0 < (Nat.toDigits 10 n).length := Nat.length_toDigits_pos
  constructor
  · by_contra h
    rcases Nat.eq_zero_or_pos ((Nat.toDigits 10 n).length - 1) with hz | hp
    · rw [hz] at h
      omega
    · have := (Nat.length_toDigits_le_iff (by decide) hp).mpr (not_le.mp h)
      omega
  · exact (Nat.length_toDigits_le_iff (by decide) pos).mp le_rfl

/-! ### The number of a numeral -/

namespace Numeral

/-- The absolute value of a numeral whose exponent stays below the limit of its reader. -/
def value (limit : Nat) (n : Numeral) : ℚ :=
  n.significand * 10 ^ (n.exponentValue limit - n.fraction.length)

theorem le_ofDigitChars (digits : List Char) (m : Nat) : m ≤ Nat.ofDigitChars 10 digits m := by
  have : 0 < 10 ^ digits.length := Nat.pow_pos (by decide)
  rw [Nat.ofDigitChars_eq_ofDigitChars_zero]
  nlinarith

theorem foldl_exponent {limit : Nat} {digits : List Char} {e : Nat}
    (h : Nat.ofDigitChars 10 digits e < limit) :
    digits.foldl (fun e c => if e < limit then 10 * e + digit c else e) e =
      Nat.ofDigitChars 10 digits e := by
  induction digits generalizing e with
  | nil => simp
  | cons c digits ih =>
    have grows := le_ofDigitChars digits (10 * e + digit c)
    rw [Nat.ofDigitChars_cons] at h ⊢
    have he : e < limit := by
      have : 10 * e + digit c < limit := lt_of_le_of_lt grows h
      omega
    rw [List.foldl_cons, if_pos he]
    exact ih h

theorem exponentValue_toDigits {limit : Nat} {s : Bool} {whole fraction : List Char} {e : Int}
    (h : e.natAbs < limit) :
    (Numeral.mk s whole fraction (some (some (if e < 0 then .minus else .plus),
      Nat.toDigits 10 e.natAbs))).exponentValue limit = e := by
  have digits : Nat.ofDigitChars 10 (Nat.toDigits 10 e.natAbs) 0 = e.natAbs :=
    Nat.ofDigitChars_ten_toDigits
  have folded := foldl_exponent (e := 0) (digits.symm ▸ h)
  rw [digits] at folded
  simp only [exponentValue, folded]
  by_cases he : e < 0
  · simp only [he, if_true]
    omega
  · simp only [he, if_false, Option.some.injEq, reduceCtorEq]
    omega

end Numeral

def Decimal.value (d : Decimal) : ℚ := d.digits * 10 ^ d.exponent

/-! ### Layouts -/

namespace Layout

/-- Both sides of the point, for digits that end at the place `e`. -/
structure Around (n : Nat) (e : Int) (whole fraction : List Char) : Prop where
  isWhole : isWhole whole = true
  wholeDigits : ∀ c ∈ whole, isDigit c = true
  fractionDigits : ∀ c ∈ fraction, isDigit c = true
  value : (Nat.ofDigitChars 10 (whole ++ fraction) 0 : ℚ) = n * 10 ^ (e + fraction.length)

theorem around_spec {n : Nat} {e : Int} (h : 0 < n ∨ e = 0) :
    Around n e (around (Nat.toDigits 10 n) e).1 (around (Nat.toDigits 10 n) e).2 := by
  unfold around
  split
  · rename_i he
    obtain ⟨k, rfl⟩ := Int.eq_ofNat_of_zero_le he
    refine ⟨?_, ?_, by simp, ?_⟩
    · rcases h with hn | hk
      · obtain ⟨c, cs, hc, hz⟩ := toDigits_head hn
        rw [hc]
        exact isWhole_cons hz _
      · obtain rfl : k = 0 := by omega
        simpa using isWhole_toDigits n
    · intro c hc
      rcases List.mem_append.mp hc with hc | hc
      · exact isDigit_toDigits n c hc
      · exact isDigit_replicate _ c hc
    · simp [Nat.ofDigitChars_append, mul_comm]
  · rename_i he
    have hn : 0 < n := by omega
    obtain ⟨k, hk⟩ := Int.eq_ofNat_of_zero_le (a := -e) (by omega)
    obtain rfl : e = -(k : Int) := by omega
    have places : (- -(k : Int)).toNat = k := by omega
    rw [places]
    dsimp only
    split
    · rename_i hl
      rw [List.splitAt_eq]
      refine ⟨?_, fun c hc => isDigit_toDigits n c (List.mem_of_mem_take hc),
        fun c hc => isDigit_toDigits n c (List.mem_of_mem_drop hc), ?_⟩
      · obtain ⟨c, cs, hc, hz⟩ := toDigits_head hn
        obtain ⟨t, ht⟩ : ∃ t, (Nat.toDigits 10 n).length - k = t + 1 :=
          ⟨(Nat.toDigits 10 n).length - k - 1, by omega⟩
        rw [ht, hc]
        exact isWhole_cons hz _
      · have length : (-(k : Int)) + ((Nat.toDigits 10 n).length - ((Nat.toDigits 10 n).length - k) :
            Nat) = 0 := by omega
        rw [List.take_append_drop, List.length_drop, length]
        simp
    · rename_i hl
      refine ⟨rfl, fun c hc => ?_, fun c hc => ?_, ?_⟩
      · rw [List.mem_singleton.mp hc]
        decide
      · rcases List.mem_append.mp hc with hc | hc
        · exact isDigit_replicate _ c hc
        · exact isDigit_toDigits n c hc
      · have length : (-(k : Int)) + ((k - (Nat.toDigits 10 n).length) + (Nat.toDigits 10 n).length :
            Nat) = 0 := by omega
        rw [List.length_append, List.length_replicate, length]
        simp [Nat.ofDigitChars_append, Nat.ofDigitChars_cons]

theorem around_length (digits : List Char) (e : Int) :
    ((around digits e).2.length : Int) ≤ max (-e) 0 := by
  unfold around
  split
  · simp
  · dsimp only
    split
    · rw [List.splitAt_eq, List.length_drop]
      omega
    · rw [List.length_append, List.length_replicate]
      omega

theorem Around.pointed {n : Nat} {e : Int} {whole : List Char} (h : Around n e whole []) :
    Around n e whole ['0'] where
  isWhole := h.isWhole
  wholeDigits := h.wholeDigits
  fractionDigits := fun c hc => by
    rw [List.mem_singleton.mp hc]
    decide
  value := by
    have value := h.value
    rw [List.append_nil] at value
    rw [Nat.ofDigitChars_append, Nat.ofDigitChars_cons, Nat.ofDigitChars_nil]
    push_cast
    rw [value, List.length_singleton, List.length_nil, Nat.cast_zero, add_zero, Nat.cast_one,
      zpow_add_one₀ (by norm_num)]
    norm_num
    ring

theorem positional_spec (l : Layout) (s : Bool) {n : Nat} {e : Int} (h : 0 < n ∨ e = 0)
    (limit : Nat) :
    (l.positionalNumeral s (Nat.toDigits 10 n) e).Spelled ∧
      (l.positionalNumeral s (Nat.toDigits 10 n) e).value limit = n * 10 ^ e := by
  obtain ⟨fraction, hp, hf⟩ : ∃ fraction,
      l.positionalNumeral s (Nat.toDigits 10 n) e =
        ⟨s, (around (Nat.toDigits 10 n) e).1, fraction, none⟩ ∧
      Around n e (around (Nat.toDigits 10 n) e).1 fraction := by
    have around := around_spec h
    refine ⟨_, rfl, ?_⟩
    split
    · rename_i hp
      have empty : (Layout.around (Nat.toDigits 10 n) e).2 = [] :=
        List.isEmpty_iff.mp (Bool.and_eq_true_iff.mp hp).2
      rw [empty] at around
      exact around.pointed
    · exact around
  rw [hp]
  refine ⟨⟨hf.isWhole, hf.wholeDigits, hf.fractionDigits, by simp⟩, ?_⟩
  show (Nat.ofDigitChars 10 ((around (Nat.toDigits 10 n) e).1 ++ fraction) 0 : ℚ) *
    10 ^ (0 - (fraction.length : Int)) = n * 10 ^ e
  rw [hf.value, mul_assoc, ← zpow_add₀ (by norm_num)]
  congr 2
  omega

theorem scientific_spec (s : Bool) {n : Nat} {e : Int} {limit : Nat}
    (hl : (e + (Nat.toDigits 10 n).length - 1).natAbs < limit) :
    (scientificNumeral s (Nat.toDigits 10 n) (e + (Nat.toDigits 10 n).length - 1)).Spelled ∧
      (scientificNumeral s (Nat.toDigits 10 n) (e + (Nat.toDigits 10 n).length - 1)).value limit =
        n * 10 ^ e := by
  constructor
  · refine ⟨?_, fun c hc => isDigit_toDigits n c (List.mem_of_mem_take hc),
      fun c hc => isDigit_toDigits n c (List.mem_of_mem_drop hc), ?_⟩
    · rcases Nat.eq_zero_or_pos n with rfl | hn
      · rfl
      · obtain ⟨c, cs, hc, hz⟩ := toDigits_head hn
        rw [scientificNumeral, hc]
        exact isWhole_cons hz _
    · rintro sign digits h
      obtain ⟨-, rfl⟩ := Prod.mk.inj (Option.some.inj h)
      exact ⟨Nat.toDigits_ne_nil, isDigit_toDigits _⟩
  · have exponent := @Numeral.exponentValue_toDigits limit s ((Nat.toDigits 10 n).take 1)
      ((Nat.toDigits 10 n).drop 1) _ hl
    have pos : 0 < (Nat.toDigits 10 n).length := Nat.length_toDigits_pos
    rw [Numeral.value, scientificNumeral, exponent, Numeral.significand]
    dsimp only
    rw [List.take_append_drop, Nat.ofDigitChars_ten_toDigits, List.length_drop]
    congr 2
    omega

/-- Every layout spells out the number of its decimal. -/
theorem numeral_spec (l : Layout) (s : Bool) {d : Decimal} (h : 0 < d.digits ∨ d.exponent = 0)
    {limit : Nat} (hl : d.leading.natAbs < limit) :
    (l.numeral s d).Spelled ∧ (l.numeral s d).negative = s ∧
      (l.numeral s d).value limit = d.value := by
  unfold Layout.numeral
  dsimp only
  split
  · obtain ⟨spelled, value⟩ := positional_spec l s h limit
    exact ⟨spelled, rfl, value⟩
  · obtain ⟨spelled, value⟩ := scientific_spec s hl
    exact ⟨spelled, rfl, value⟩

theorem significand_positional (l : Layout) (s : Bool) {d : Decimal}
    (h : 0 < d.digits ∨ d.exponent = 0) (hp : l.isPositional d.leading = true) :
    (l.numeral s d).significand ≤ d.digits * 10 ^ ((max d.exponent 0).toNat + 1) := by
  unfold Layout.numeral
  rw [if_pos hp]
  have spec := (positional_spec l s h 1).2
  have unscaled :
      (l.positionalNumeral s (Nat.toDigits 10 d.digits) d.exponent).exponentValue 1 = 0 := rfl
  have length : ((l.positionalNumeral s (Nat.toDigits 10 d.digits) d.exponent).fraction.length : Int)
      ≤ max (-d.exponent) 0 + 1 := by
    have := around_length (Nat.toDigits 10 d.digits) d.exponent
    show ((if l.point && (around (Nat.toDigits 10 d.digits) d.exponent).2.isEmpty then ['0']
      else (around (Nat.toDigits 10 d.digits) d.exponent).2).length : Int) ≤ _
    split
    · simp
    · omega
  generalize l.positionalNumeral s (Nat.toDigits 10 d.digits) d.exponent = n at *
  have digits : (n.significand : ℚ) = d.digits * 10 ^ (d.exponent + n.fraction.length) := by
    have ten : (10 : ℚ) ^ (n.fraction.length : Int) ≠ 0 := zpow_ne_zero _ (by norm_num)
    rw [Numeral.value, unscaled, zero_sub, zpow_neg, ← div_eq_mul_inv, div_eq_iff ten] at spec
    rw [spec, mul_assoc, ← zpow_add₀ (by norm_num)]
  have bound : (n.significand : ℚ) ≤
      d.digits * 10 ^ (((max d.exponent 0).toNat + 1 : Nat) : Int) := by
    rw [digits]
    gcongr
    · norm_num
    · omega
  rw [zpow_natCast] at bound
  exact_mod_cast bound

theorem significand_scientific (l : Layout) (s : Bool) {d : Decimal}
    (hp : l.isPositional d.leading = false) : (l.numeral s d).significand = d.digits := by
  unfold Layout.numeral
  rw [if_neg (by simp [hp])]
  rw [scientificNumeral, Numeral.significand, List.take_append_drop, Nat.ofDigitChars_ten_toDigits]

end Layout

end Telemetry
