import Telemetry.Json.Number
import Telemetry.Proofs.Binary64.Numerals
import Telemetry.Proofs.Json.Value
/-!
Reading numbers. A count is read back exactly. A finite gauge is read as some finite number too, and
as itself where its digits and its power of ten are both numbers of the format: one rounding is left
then, and the text rounds to the number.
-/

namespace Telemetry

open Json

variable {m n : Nat} {e : Int} {x : Binary64}

/-! ### The digits that are kept -/

theorem takeDigits_eq {digits : List Char} {count : Nat}
    (h : Nat.ofDigitChars 10 digits m < wordCount) :
    takeDigits m count digits = (Nat.ofDigitChars 10 digits m, count + digits.length) := by
  induction digits generalizing m count with
  | nil => simp [takeDigits]
  | cons c digits ih =>
    have grows := Numeral.le_ofDigitChars digits (10 * m + Numeral.digit c)
    rw [Nat.ofDigitChars_cons] at h ⊢
    have hm : 10 * m + Numeral.digit c < wordCount := lt_of_le_of_lt grows h
    simp only [takeDigits, if_pos hm]
    rw [@ih (10 * m + Numeral.digit c) (count + 1) h, List.length_cons]
    congr 1
    omega

theorem takeDigits_lt (digits : List Char) (count : Nat) (hm : m < wordCount) :
    (takeDigits m count digits).1 < wordCount := by
  induction digits generalizing m count with
  | nil => exact hm
  | cons c digits ih =>
    unfold takeDigits
    dsimp only
    split
    · rename_i h
      exact ih _ h
    · exact hm

theorem cutDecimal_lt (n : Numeral) : (cutDecimal n).digits < wordCount :=
  takeDigits_lt _ _ (takeDigits_lt _ _ (by decide))

theorem cutDecimal_eq {n : Numeral} (h : n.significand < wordCount) :
    cutDecimal n = ⟨n.significand, n.exponentValue 2147483648 - n.fraction.length⟩ := by
  rw [Numeral.significand, Nat.ofDigitChars_append] at h
  have hw := lt_of_le_of_lt (Numeral.le_ofDigitChars _ _) h
  unfold cutDecimal
  rw [takeDigits_eq hw]
  dsimp only
  rw [takeDigits_eq h, Numeral.significand, Nat.ofDigitChars_append]
  congr 1
  push_cast
  omega

/-! ### The result is finite -/

namespace Binary64

theorem ofNat_isFinite (hn : n ≤ wordCount) : (ofNat n).isFinite = true := by
  have most : (ofNat wordCount).isFinite = true := by decide +kernel
  rw [isFinite_iff, magnitude_ofNat] at *
  refine lt_of_le_of_lt (nearest_mono (by positivity) ?_) most
  exact_mod_cast hn

theorem powerOfTen_mono {k l : Nat} (h : k ≤ l) :
    (powerOfTen k).magnitude ≤ (powerOfTen l).magnitude := by
  rw [powerOfTen, powerOfTen, magnitude_ofNat, magnitude_ofNat]
  exact nearest_mono (by positivity) (Nat.cast_le.mpr (Nat.pow_le_pow_right (by decide) h))

theorem powerOfTen_isFinite {k : Nat} (hk : k ≤ 308) : (powerOfTen k).isFinite = true := by
  have most : (powerOfTen 308).isFinite = true := by decide +kernel
  rw [isFinite_iff] at *
  exact lt_of_le_of_lt (powerOfTen_mono hk) most

theorem value_le (hy : x.isFinite = true) {y : Binary64} (h : y.magnitude ≤ x.magnitude) :
    y.value ≤ x.value :=
  valueOf_le (isFinite_iff.mp hy) h

theorem one_le_powerOfTen {k : Nat} (hk : k ≤ 308) : 1 ≤ (powerOfTen k).value := by
  have one : (ofNat (1 * 2 ^ 0)).value = (1 : Nat) * 2 ^ 0 := value_ofNat (by decide) (by decide)
  have le : (ofNat (1 * 2 ^ 0)).value ≤ (powerOfTen k).value := by
    refine value_le (powerOfTen_isFinite hk) ?_
    rw [powerOfTen, magnitude_ofNat, magnitude_ofNat]
    refine nearest_mono (by positivity) ?_
    exact_mod_cast Nat.one_le_pow _ _ (by decide)
  rw [one] at le
  simpa using le

theorem magnitude_div_le (hx : x.isFinite = true) {y : Binary64} (hy : 1 ≤ y.value) :
    (x.div y).magnitude ≤ x.magnitude := by
  have pos : 0 < y.value := lt_of_lt_of_le one_pos hy
  rw [magnitude_div x pos]
  calc nearest (x.value / y.value) ≤ nearest x.value :=
        nearest_mono (div_nonneg x.value_nonneg pos.le) (div_le_self x.value_nonneg hy)
    _ = x.magnitude := nearest_valueOf (isFinite_iff.mp hx)

theorem div_isFinite (hx : x.isFinite = true) {y : Binary64} (hy : 1 ≤ y.value) :
    (x.div y).isFinite = true :=
  isFinite_iff.mpr (lt_of_le_of_lt (magnitude_div_le hx hy) (isFinite_iff.mp hx))

end Binary64

theorem shrink_isFinite {count : Nat} (hx : x.isFinite = true) :
    (shrink count x).isFinite = true := by
  induction count generalizing x with
  | zero => exact hx
  | succ count ih =>
    unfold shrink
    split
    · exact hx
    · exact ih (Binary64.div_isFinite hx (Binary64.one_le_powerOfTen le_rfl))

theorem scaled?_isFinite {y : Binary64} (hx : x.isFinite = true) (h : scaled? x e = some y) :
    y.isFinite = true := by
  unfold scaled? at h
  split at h
  · split at h
    · exact Option.some.inj h ▸ hx
    · split at h
      · simp at h
      · dsimp only at h
        split at h
        · rename_i finite
          exact Option.some.inj h ▸ finite
        · simp at h
  · have part := @shrink_isFinite x (((-e).toNat - 1) / 308) hx
    obtain rfl := Option.some.inj h
    split
    · exact part
    · exact Binary64.div_isFinite part (Binary64.one_le_powerOfTen (by omega))

/-- No numeral is read as an infinity. -/
theorem toBinary64?_isFinite {t : Numeral} (h : toBinary64? t = some x) : x.isFinite = true := by
  obtain ⟨y, hy, hx⟩ := Option.map_eq_some_iff.mp h
  have finite := scaled?_isFinite (Binary64.ofNat_isFinite (cutDecimal_lt t).le) hy
  subst hx
  split
  · exact Binary64.neg_isFinite finite
  · exact finite

/-! ### Every finite number is read -/

namespace Binary64

def lastBorder : Nat := 18014398509481981 * Nat.pow 2 970

theorem border_lastBorder : border (infinityMagnitude - 2) = lastBorder := by
  have hm : significandOf (infinityMagnitude - 2) = 9007199254740990 := by decide
  have whole : (2 * (9007199254740990 : Nat) + 1 : ℚ) = (18014398509481981 : Nat) := by norm_num
  -- stated for any exponent, so that no power is computed
  have border_eq (n : Nat) (hs : scaleOf (infinityMagnitude - 2) - 1 = n) :
      border (infinityMagnitude - 2) = (18014398509481981 * Nat.pow 2 n : Nat) := by
    rw [border, hm, hs, zpow_natCast, whole, Nat.cast_mul, Nat.pow_eq, Nat.cast_pow, Nat.cast_two]
  rw [border_eq 970 (by decide), lastBorder]

theorem exponent_lt_of_le_lastBorder {k : Nat} (h : Nat.pow 10 k ≤ lastBorder) : k < 309 := by
  have top : lastBorder < Nat.pow 10 309 := by decide +kernel
  generalize 309 = l at *
  exact (Nat.pow_lt_pow_iff_right (by decide)).mp (lt_of_le_of_lt h top)

theorem product_mono {k l : Nat} (hn : n ≤ wordCount) (hl : l ≤ 308) (hm : m ≤ n) (hk : k ≤ l)
    (h : ((ofNat n).mul (powerOfTen l)).isFinite = true) :
    ((ofNat m).mul (powerOfTen k)).isFinite = true := by
  have factor : (ofNat m).value ≤ (ofNat n).value := by
    refine value_le (ofNat_isFinite hn) ?_
    rw [magnitude_ofNat, magnitude_ofNat]
    exact nearest_mono (Nat.cast_nonneg m) (Nat.cast_le.mpr hm)
  have power := value_le (powerOfTen_isFinite hl) (powerOfTen_mono hk)
  have product : (ofNat m).value * (powerOfTen k).value ≤ (ofNat n).value * (powerOfTen l).value :=
    mul_le_mul factor power (value_nonneg _) (value_nonneg _)
  rw [isFinite_iff, magnitude_mul] at h ⊢
  exact lt_of_le_of_lt (nearest_mono (mul_nonneg (value_nonneg _) (value_nonneg _)) product) h

theorem products_isFinite : ((ofNat wordCount).mul (powerOfTen 288)).isFinite = true ∧
    ∀ j < 20, ((ofNat (min wordCount (lastBorder / Nat.pow 10 (289 + j)))).mul
      (powerOfTen (289 + j))).isFinite = true := by
  decide +kernel

/-- Neither rounding on the way takes a number below the last border out of the range. -/
theorem mul_powerOfTen_isFinite {e : Nat} (he : e < 309) (hm : m ≤ wordCount)
    (hv : m * Nat.pow 10 e ≤ lastBorder) : ((ofNat m).mul (powerOfTen e)).isFinite = true := by
  by_cases small : e ≤ 288
  · exact product_mono le_rfl (by decide) hm small products_isFinite.1
  · obtain ⟨j, rfl⟩ : ∃ j, e = 289 + j := ⟨e - 289, by omega⟩
    have top := products_isFinite.2 j (by omega)
    obtain ⟨q, hq⟩ : ∃ q, lastBorder / Nat.pow 10 (289 + j) = q := ⟨_, rfl⟩
    have quotient : m ≤ q := by
      rw [← hq]
      exact (Nat.le_div_iff_mul_le (Nat.pow_pos (by decide))).mpr hv
    rw [hq] at top
    exact product_mono (Nat.min_le_left _ _) (by omega) (le_min hm quotient) le_rfl top

end Binary64

open Binary64

theorem scaled?_isSome (hm : m ≤ wordCount) (hv : (m * 10 ^ e : ℚ) ≤ lastBorder) :
    (scaled? (ofNat m) e).isSome = true := by
  unfold scaled?
  split
  · rename_i he
    obtain ⟨k, rfl⟩ := Int.eq_ofNat_of_zero_le he
    have hv : m * Nat.pow 10 k ≤ lastBorder := by
      rw [zpow_natCast] at hv
      exact_mod_cast hv
    split
    · rfl
    · rename_i nonzero
      have pos : 0 < m := by
        refine Nat.pos_of_ne_zero fun h => nonzero ?_
        subst h
        decide
      have hk := exponent_lt_of_le_lastBorder ((Nat.le_mul_of_pos_left _ pos).trans hv)
      rw [if_neg (by omega)]
      simp [mul_powerOfTen_isFinite hk hm hv]
  · rfl

theorem border_mono {k l : Nat} (hl : l < infinityMagnitude) (h : k ≤ l) : border k ≤ border l := by
  rcases h.lt_or_eq with h | rfl
  · have step : border (k + 1 - 1) < valueOf (k + 1) := border_lt_valueOf (Nat.succ_pos k)
    have top := valueOf_le hl h
    exact (step.trans_le (top.trans (valueOf_lt_border l).le)).le
  · exact le_rfl

theorem significand_lt (hf : x.isFinite = true) :
    (x.numeral jsonLayout).significand < wordCount := by
  have written := shortest_written hf jsonLayout.tie
  unfold Binary64.numeral
  generalize x.shortest jsonLayout.tie = d at *
  have short := written.short
  cases hp : jsonLayout.isPositional d.leading with
  | false =>
    rw [Layout.significand_scientific _ _ hp]
    exact short.trans (by decide)
  | true =>
    refine lt_of_le_of_lt (Layout.significand_positional _ _ written.normal hp) ?_
    rcases lt_or_ge d.exponent 0 with he | he
    · rw [show (max d.exponent 0).toNat = 0 by omega]
      unfold wordCount
      omega
    · obtain ⟨k, hk⟩ := Int.eq_ofNat_of_zero_le he
      have leading : d.leading ≤ 15 := by
        have range : -5 ≤ d.leading ∧ d.leading ≤ 15 := by
          simpa [Layout.isPositional, jsonLayout] using hp
        exact range.2
      have places : d.length + (k + 1) ≤ 17 := by
        rw [Decimal.leading, hk] at leading
        omega
      have digits : d.digits < 10 ^ d.length :=
        (Nat.length_toDigits_le_iff (by decide) Nat.length_toDigits_pos).mp le_rfl
      rw [show (max d.exponent 0).toNat = k by omega]
      calc d.digits * 10 ^ (k + 1) < 10 ^ d.length * 10 ^ (k + 1) :=
            Nat.mul_lt_mul_of_pos_right digits (Nat.pow_pos (by decide))
        _ = 10 ^ (d.length + (k + 1)) := (Nat.pow_add ..).symm
        _ ≤ 10 ^ 17 := Nat.pow_le_pow_right (by decide) places
        _ < wordCount := by decide

namespace Binary64

def kept (x : Binary64) : Decimal := cutDecimal (x.numeral jsonLayout)

theorem kept_value (hf : x.isFinite = true) : x.kept.value = (x.shortest .even).value := by
  have value := (@numeral_spec x hf jsonLayout 2147483648 (by decide)).2.2
  rw [kept, cutDecimal_eq (significand_lt hf)]
  exact value

theorem toBinary64?_isSome (hf : x.isFinite = true) :
    (toBinary64? (x.numeral jsonLayout)).isSome = true := by
  rcases Nat.lt_or_ge x.magnitude (infinityMagnitude - 1) with hk | hk
  · have bound : x.kept.value ≤ lastBorder := by
      have written := shortest_written hf .even
      rw [kept_value hf, ← border_lastBorder]
      rcases Nat.eq_zero_or_pos x.magnitude with hz | hx
      · rw [Decimal.value, written.zero hz, Nat.cast_zero, zero_mul]
        exact (border_pos _).le
      · exact (written.rounds hx).le_border.trans (border_mono (by decide) (by omega))
    have some := scaled?_isSome (cutDecimal_lt (x.numeral jsonLayout)).le bound
    rw [toBinary64?, Option.isSome_map]
    exact some
  · -- the largest number is rounded twice and stays within the range
    have top : x.magnitude = infinityMagnitude - 1 := by
      have := isFinite_iff.mp hf
      omega
    rw [← ofMagnitude_magnitude x, top]
    cases x.negative <;> decide +kernel

/-- What the reader of numbers makes of the text of a number. -/
def reread (x : Binary64) : Binary64 := (toBinary64? (x.numeral jsonLayout)).getD x

theorem toBinary64?_numeral (hf : x.isFinite = true) :
    toBinary64? (x.numeral jsonLayout) = some x.reread := by
  obtain ⟨y, hy⟩ := Option.isSome_iff_exists.mp (toBinary64?_isSome hf)
  rw [reread, hy]
  rfl

theorem reread_isFinite (hf : x.isFinite = true) : x.reread.isFinite = true :=
  toBinary64?_isFinite (toBinary64?_numeral hf)

/-! ### Numbers that are read as themselves -/

theorem value_eq_zero (h : x.magnitude = 0) : x.value = 0 := by
  have : significandOf 0 = 0 := by decide
  rw [value, h, valueOf, this, Nat.cast_zero, zero_mul]

/-- The magnitude that is left of `r · 10 ^ e`: the power of ten is rounded, and so is the product or
the quotient. The powers end at `10 ^ 308`; below that two divisions follow each other. -/
def scaledMagnitude (r : ℚ) (e : Int) : Nat :=
  if 0 ≤ e then nearest (r * (powerOfTen e.toNat).value)
  else if -308 ≤ e then nearest (r / (powerOfTen (-e).toNat).value)
  else nearest (valueOf (nearest (r / (powerOfTen 308).value)) /
    (powerOfTen (-e - 308).toNat).value)

theorem zero_of_isZero (hz : x.isZero = true) : x.value = 0 ∧ x.magnitude = nearest 0 := by
  have hz : x.magnitude = 0 := by simpa [isZero] using hz
  exact ⟨value_eq_zero hz, hz.trans nearest_zero.symm⟩

theorem negative_powerOfTen (k : Nat) : (powerOfTen k).negative = false := negative_ofNat _

theorem quotient_spec {k : Nat} (hk : k ≤ 308) :
    (if x.isZero then x else x.div (powerOfTen k)).negative = x.negative ∧
      (if x.isZero then x else x.div (powerOfTen k)).magnitude =
        nearest (x.value / (powerOfTen k).value) := by
  by_cases hz : x.isZero = true
  · rw [if_pos hz, (zero_of_isZero hz).1, zero_div]
    exact ⟨rfl, (zero_of_isZero hz).2⟩
  · rw [if_neg hz]
    have pos : 0 < (powerOfTen k).value := lt_of_lt_of_le one_pos (one_le_powerOfTen hk)
    exact ⟨by rw [negative_div, negative_powerOfTen, Bool.bne_false], magnitude_div _ pos⟩

theorem scaled?_spec {y : Binary64} (he : -616 ≤ e) (h : scaled? x e = some y) :
    y.negative = x.negative ∧ y.magnitude = scaledMagnitude x.value e := by
  unfold scaled? at h
  unfold scaledMagnitude
  split at h
  · rename_i h0
    rw [if_pos h0]
    split at h
    · rename_i hz
      obtain rfl := Option.some.inj h
      rw [(zero_of_isZero hz).1, zero_mul]
      exact ⟨rfl, (zero_of_isZero hz).2⟩
    · split at h
      · simp at h
      · dsimp only at h
        split at h
        · obtain rfl := Option.some.inj h
          exact ⟨by rw [negative_mul, negative_powerOfTen, Bool.bne_false], magnitude_mul _ _⟩
        · simp at h
  · rename_i h0
    rw [if_neg h0]
    dsimp only at h
    by_cases near : -308 ≤ e
    · have none : ((-e).toNat - 1) / 308 = 0 := by omega
      rw [if_pos near]
      rw [none] at h
      change some (if x.isZero then x else x.div (powerOfTen (-e).toNat)) = some y at h
      obtain rfl := Option.some.inj h
      exact quotient_spec (by omega)
    · have once : ((-e).toNat - 1) / 308 = 1 := by omega
      have rest : (-e).toNat - 308 * 1 = (-e - 308).toNat := by omega
      rw [if_neg near]
      rw [once, rest] at h
      obtain rfl := Option.some.inj h
      obtain ⟨sign, magnitude⟩ := @quotient_spec x 308 le_rfl
      obtain ⟨sign', magnitude'⟩ := @quotient_spec (shrink 1 x) (-e - 308).toNat (by omega)
      have value : (shrink 1 x).value = valueOf (nearest (x.value / (powerOfTen 308).value)) :=
        congrArg valueOf magnitude
      rw [value] at magnitude'
      exact ⟨sign'.trans sign, magnitude'⟩

theorem value_ofNat_le (hm : m ≤ 2 * leadingBit) : (ofNat m).value = m := by
  rcases hm.lt_or_eq with hm | rfl
  · simpa using @value_ofNat m hm 0 (by decide)
  · have power := @value_ofNat 1 (by decide) 53 (by decide)
    rw [show 2 * leadingBit = 1 * 2 ^ 53 by decide, power]
    norm_num

theorem value_powerOfTen {k : Nat} (hk : k ≤ 22) : (powerOfTen k).value = 10 ^ k := by
  have hm : 5 ^ k < 2 * leadingBit :=
    (Nat.pow_le_pow_right (by decide) hk).trans_lt (by decide)
  have power := @value_ofNat (5 ^ k) hm k (by omega)
  rw [← Nat.mul_pow] at power
  rw [powerOfTen, Nat.pow_eq, power]
  push_cast
  rw [← mul_pow]
  norm_num

theorem kept_exponent (hf : x.isFinite = true) : -616 ≤ x.kept.exponent := by
  rcases Nat.eq_zero_or_pos x.magnitude with hz | hx
  · rw [← ofMagnitude_magnitude x, hz]
    cases x.negative <;> decide +kernel
  · have rounds : Rounds x.magnitude x.kept.value :=
      kept_value hf ▸ (shortest_written hf .even).rounds hx
    have leading := (leading_bounds rounds.digits_pos rounds (isFinite_iff.mp hf)).1
    have length : x.kept.length ≤ 20 :=
      (Nat.length_toDigits_le_iff (by decide) (by decide)).mpr
        ((cutDecimal_lt _).trans (by decide))
    rw [Decimal.leading] at leading
    omega

theorem reread_spec (hf : x.isFinite = true) : x.reread.negative = x.negative ∧
    x.reread.magnitude = scaledMagnitude (ofNat x.kept.digits).value x.kept.exponent := by
  obtain ⟨y, hy, hr⟩ := Option.map_eq_some_iff.mp (toBinary64?_numeral hf)
  obtain ⟨sign, magnitude⟩ := scaled?_spec (kept_exponent hf) hy
  have positive : y.negative = false := sign.trans (negative_ofNat _)
  have written := (@numeral_spec x hf jsonLayout 400 le_rfl).2.1
  rw [← hr, written]
  cases x.negative with
  | false => exact ⟨positive, magnitude⟩
  | true =>
    rw [if_pos rfl]
    exact ⟨by rw [negative_neg, positive, Bool.not_false], (magnitude_neg y).trans magnitude⟩

theorem reread_eq_iff (hf : x.isFinite = true) : x.reread = x ↔
    scaledMagnitude (ofNat x.kept.digits).value x.kept.exponent = x.magnitude := by
  obtain ⟨sign, magnitude⟩ := reread_spec hf
  rw [← magnitude]
  exact ⟨congrArg Binary64.magnitude, ext_of_magnitude sign⟩

/-- Only one rounding is left where the digits and the power of ten are numbers of the format. -/
theorem scaledMagnitude_exact {d : Decimal} (hd : d.digits ≤ 2 * leadingBit)
    (he : d.exponent.natAbs ≤ 22) :
    scaledMagnitude (ofNat d.digits).value d.exponent = nearest d.value := by
  rw [scaledMagnitude, Decimal.value, value_ofNat_le hd]
  split
  · rename_i h0
    obtain ⟨k, hk⟩ := Int.eq_ofNat_of_zero_le h0
    rw [hk, Int.toNat_natCast, value_powerOfTen (by omega), zpow_natCast]
  · obtain ⟨k, hk⟩ := Int.eq_ofNat_of_zero_le (a := -d.exponent) (by omega)
    rw [if_pos (by omega), hk, Int.toNat_natCast, value_powerOfTen (by omega), ← zpow_natCast,
      ← hk, zpow_neg, div_inv_eq_mul]

theorem reread_eq_self (hf : x.isFinite = true) (hd : x.kept.digits ≤ 2 * leadingBit)
    (he : x.kept.exponent.natAbs ≤ 22) : x.reread = x := by
  have written := shortest_written hf .even
  rw [reread_eq_iff hf, scaledMagnitude_exact hd he, kept_value hf]
  rcases Nat.eq_zero_or_pos x.magnitude with hz | hx
  · rw [Decimal.value, written.zero hz, Nat.cast_zero, zero_mul, hz, nearest_zero]
  · have rounds := written.rounds hx
    exact rounds.nearest_eq (isFinite_iff.mp hf) rounds.pos.le

end Binary64

/-! ### Counts -/

namespace Json

theorem toCount?_ofCount (c : Count) :
    ((Value.ofCount c).Spelled ∧ (Value.ofCount c).count? = some c) := by
  have lower := c.lower
  have upper := c.upper
  have length : (Nat.toDigits 10 c.val.natAbs).length ≤ 19 :=
    (Nat.length_toDigits_le_iff (by decide) (by decide)).mpr (by omega)
  have significand : ∀ s, (Numeral.mk s (Nat.toDigits 10 c.val.natAbs) [] none).significand =
      c.val.natAbs := fun s => by
    rw [Numeral.significand, List.append_nil, Nat.ofDigitChars_ten_toDigits]
  constructor
  · exact ⟨isWhole_toDigits _, isDigit_toDigits _, by simp, by simp⟩
  · show toCount? _ = some c
    unfold toCount?
    rw [significand]
    simp only [Numeral.isInteger, List.isEmpty_nil, Option.isNone_none, Bool.and_self, Bool.not_true,
      Bool.false_or, decide_eq_true_eq]
    rw [if_neg (by omega)]
    by_cases hc : c.val < 0
    · rw [if_pos hc, if_neg (by omega), show -(c.val.natAbs : Int) = c.val by omega,
        Count.ofInt?_val]
    · rw [if_neg hc, show (c.val.natAbs : Int) = c.val by omega, Count.ofInt?_val]

theorem binary64?_ofBinary64 (hf : x.isFinite = true) :
    (Value.ofBinary64 x).Spelled ∧ (Value.ofBinary64 x).binary64? = some x.reread := by
  rw [Value.ofBinary64, if_pos hf]
  exact ⟨(@numeral_spec x hf jsonLayout 400 le_rfl).1, toBinary64?_numeral hf⟩

end Json

end Telemetry
