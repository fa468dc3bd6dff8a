import Telemetry.Proofs.Json.Number
import Telemetry.Proofs.Text.Trim
/-!
Number literals, and what the two readers of decimal numbers make of them. A literal of JSON is a
numeral of plain text too. The reader of plain text rounds the number once; the reader of JSON rounds
its digits, a power of ten and then their product or quotient.
-/

namespace Telemetry

open Binary64 Json

/-- The text is a number in JSON, and this is its numeral. -/
structure Numeral.Literal (n : Numeral) (t : String) : Prop where
  spelled : n.Spelled
  written : ∃ mark, (mark = 'e' ∨ mark = 'E') ∧ t.toList = n.charsWith mark

/-! ### Plain text -/

namespace Numeral

variable {n : Numeral} {mark : Char}

theorem takeWhile_digits {digits rest : List Char} (hd : ∀ c ∈ digits, isDigit c = true)
    (hr : ∀ c ∈ rest.head?, isDigit c = false) :
    (digits ++ rest).takeWhile isDigit = digits ∧ (digits ++ rest).dropWhile isDigit = rest := by
  rw [List.takeWhile_append_of_pos hd, List.dropWhile_append_of_pos hd]
  cases rest with
  | nil => simp
  | cons c rest =>
    have other : isDigit c = false := hr c rfl
    simp [other]

theorem head_exponentChars (hm : mark = 'e' ∨ mark = 'E')
    (exponent : Option (Option Sign × List Char)) :
    ∀ c ∈ (exponentChars mark exponent).head?, isDigit c = false := by
  intro c hc
  cases exponent with
  | none => cases hc
  | some e =>
    obtain rfl : mark = c := Option.some.inj hc
    rcases hm with rfl | rfl <;> decide

theorem ne_of_isDigit {c d : Char} (hc : isDigit c = true) (hd : isDigit d = false) : c ≠ d := by
  rintro rfl
  rw [hc] at hd
  cases hd

theorem exponentPart?_exponentChars (hm : mark = 'e' ∨ mark = 'E')
    {exponent : Option (Option Sign × List Char)}
    (hd : ∀ sign digits, exponent = some (sign, digits) →
      digits ≠ [] ∧ ∀ c ∈ digits, isDigit c = true) :
    exponentPart? (exponentChars mark exponent) = some exponent := by
  cases exponent with
  | none => rfl
  | some e =>
    obtain ⟨sign, digits⟩ := e
    obtain ⟨nonempty, digit⟩ := hd sign digits rfl
    have all : digits.all isDigit = true := List.all_eq_true.mpr digit
    unfold exponentPart? exponentChars
    dsimp only
    rw [if_pos hm]
    cases sign with
    | none =>
      obtain ⟨c, cs, rfl⟩ := List.exists_cons_of_ne_nil nonempty
      have first : isDigit c = true := digit c (List.mem_cons_self ..)
      have plus : c ≠ '+' := ne_of_isDigit first (by decide)
      have minus : c ≠ '-' := ne_of_isDigit first (by decide)
      simp [signChars, plus, minus, all]
    | some sign => cases sign <;> simp [signChars, nonempty, all]

theorem unsignedOfText?_unsignedChars (hm : mark = 'e' ∨ mark = 'E') (hn : n.Spelled) :
    unsignedOfText? n.negative (n.unsignedChars mark) = some n := by
  have exponent := exponentPart?_exponentChars hm hn.exponentDigits
  have behind := head_exponentChars hm n.exponent
  have nonempty : n.whole ≠ [] := by
    obtain ⟨c, cs, -, hw, -, -⟩ := whole_eq_cons hn
    rw [hw]
    exact List.cons_ne_nil c cs
  rw [unsignedOfText?, unsignedChars]
  by_cases hf : n.fraction = []
  · obtain ⟨whole, rest⟩ := takeWhile_digits hn.wholeDigits behind
    rw [if_pos hf, List.nil_append, whole, rest]
    obtain ⟨negative, digits, fraction, written⟩ := n
    obtain rfl : fraction = [] := hf
    cases written with
    | none => simpa [exponentChars, nonempty] using exponent
    | some e =>
      rcases hm with rfl | rfl
      · simpa [exponentChars, nonempty] using exponent
      · simpa [exponentChars, nonempty] using exponent
  · have point : ∀ c ∈ ('.' :: (n.fraction ++ exponentChars mark n.exponent)).head?,
        isDigit c = false := by
      intro c hc
      obtain rfl : '.' = c := Option.some.inj hc
      decide
    obtain ⟨whole, rest⟩ := takeWhile_digits hn.wholeDigits point
    obtain ⟨fraction, last⟩ := takeWhile_digits hn.fractionDigits behind
    rw [if_neg hf, List.cons_append, whole, rest]
    simp only [fraction, last, nonempty, false_and, if_false, exponent, Option.map_some]

end Numeral

theorem unsignedChars_eq_cons {n : Numeral} (hn : n.Spelled) (mark : Char) :
    ∃ c cs, n.unsignedChars mark = c :: cs ∧ isDigit c = true := by
  obtain ⟨c, cs, -, hw, -, -⟩ := whole_eq_cons hn
  have digit : isDigit c = true := by
    apply hn.wholeDigits
    rw [hw]
    exact List.mem_cons_self ..
  exact ⟨c, _, by rw [Numeral.unsignedChars, hw, List.cons_append], digit⟩

theorem toLower_of_isDigit {c : Char} (h : isDigit c = true) : c.toLower = c := by
  have range := isDigit_range h
  unfold Char.toLower
  apply dif_neg
  intro upper
  have low : 65 ≤ c.toNat := UInt32.le_iff_toNat_le.mp upper.1
  omega

variable {n : Numeral} {mark : Char} {t : String}

theorem Binary64.ofUnsignedText?_unsignedChars (hm : mark = 'e' ∨ mark = 'E') (hn : n.Spelled) :
    ofUnsignedText? n.negative (n.unsignedChars mark) = some (ofNumeral n) := by
  obtain ⟨c, cs, first, digit⟩ := unsignedChars_eq_cons hn mark
  have number := Numeral.unsignedOfText?_unsignedChars hm hn
  rw [first] at number ⊢
  have i : c ≠ 'i' := Numeral.ne_of_isDigit digit (by decide)
  have n : c ≠ 'n' := Numeral.ne_of_isDigit digit (by decide)
  rw [ofUnsignedText?]
  simp [toLower_of_isDigit digit, i, n, number]

/-- Plain text is rounded once. -/
theorem Numeral.Literal.ofText?_eq (h : n.Literal t) : ofText? t = some (ofNumeral n) := by
  obtain ⟨mark, hm, ht⟩ := h.written
  have unsigned := ofUnsignedText?_unsignedChars hm h.spelled
  obtain ⟨c, cs, first, digit⟩ := unsignedChars_eq_cons h.spelled mark
  rw [ofText?, ht, Numeral.charsWith]
  cases hs : n.negative with
  | true =>
    rw [hs] at unsigned
    exact unsigned
  | false =>
    rw [hs, first] at unsigned
    have plus : c ≠ '+' := Numeral.ne_of_isDigit digit (by decide)
    have minus : c ≠ '-' := Numeral.ne_of_isDigit digit (by decide)
    rw [if_neg (by decide), List.nil_append, first]
    simp [plus, minus, unsigned]

/-- The characters of numbers: neither blanks nor anything that has a meaning in a path. -/
def Numeral.Plain (c : Char) : Prop := isDigit c = true ∨ c ∈ ['-', '+', '.', 'e', 'E']

theorem Numeral.plain_of_mem_exponentChars (hm : mark = 'e' ∨ mark = 'E') (hn : n.Spelled) :
    ∀ c ∈ exponentChars mark n.exponent, Numeral.Plain c := by
  intro c hc
  cases he : n.exponent with
  | none =>
    rw [he] at hc
    cases hc
  | some e =>
    obtain ⟨sign, digits⟩ := e
    rw [he] at hc
    rcases List.mem_cons.mp hc with rfl | hc
    · rcases hm with rfl | rfl
      · exact .inr (by decide)
      · exact .inr (by decide)
    · rcases List.mem_append.mp hc with hc | hc
      · have signs : ∀ sign, Numeral.signChars sign ⊆ ['-', '+', '.', 'e', 'E'] := by
          intro sign
          rcases sign with _ | _ | _ <;> simp [Numeral.signChars]
        exact .inr (signs sign hc)
      · exact .inl ((hn.exponentDigits sign digits he).2 c hc)

theorem Numeral.Literal.plain (h : n.Literal t) : ∀ c ∈ t.toList, Numeral.Plain c := by
  obtain ⟨mark, hm, ht⟩ := h.written
  intro c hc
  rw [ht, Numeral.charsWith, Numeral.unsignedChars] at hc
  rcases List.mem_append.mp hc with sign | hc
  · split at sign
    · obtain rfl := List.mem_singleton.mp sign
      exact .inr (by decide)
    · cases sign
  rcases List.mem_append.mp hc with whole | hc
  · exact .inl (h.spelled.wholeDigits c whole)
  rcases List.mem_append.mp hc with fraction | exponent
  · split at fraction
    · cases fraction
    · rcases List.mem_cons.mp fraction with rfl | digit
      · exact .inr (by decide)
      · exact .inl (h.spelled.fractionDigits c digit)
  · exact Numeral.plain_of_mem_exponentChars hm h.spelled c exponent

theorem Numeral.Literal.not_mem (h : n.Literal t) {c : Char} (other : isDigit c = false)
    (special : c ∉ ['-', '+', '.', 'e', 'E']) : c ∉ t.toList := by
  intro hc
  rcases h.plain c hc with digit | sign
  · rw [digit] at other
    cases other
  · exact special sign

theorem Numeral.Plain.isBlank_eq_false {c : Char} (h : Numeral.Plain c) : isBlank c = false := by
  have signs : ['-', '+', '.', 'e', 'E'].all (fun c => !isBlank c) = true := by decide
  rcases h with digit | sign
  · have range := isDigit_range digit
    simp only [isBlank, blankRanges, List.any_cons, List.any_nil, Bool.or_false, Bool.or_eq_false_iff,
      Bool.and_eq_false_iff, decide_eq_false_iff_not]
    omega
  · simpa using List.all_eq_true.mp signs c sign

theorem Numeral.Literal.trim_eq (h : n.Literal t) : trim t = t := by
  have inked : ∀ c ∈ t.toList, isBlank c = false := by
    intro c hc
    exact (h.plain c hc).isBlank_eq_false
  rw [trim, trimChars_eq_self inked, String.ofList_toList]

/-! ### Among other tokens -/

theorem readable_of_plain {ts : List Token} (plain : ∀ t ∈ ts, t.Spelled ∧ t.isNumber = false) :
    Readable ts := by
  induction ts with
  | nil => trivial
  | cons t ts ih =>
    obtain ⟨⟨spelled, other⟩, rest⟩ := List.forall_mem_cons.mp plain
    refine ⟨spelled, ?_, ih rest⟩
    rw [other]
    exact fun no => by cases no

theorem Numeral.Literal.tokens?_eq {n : Numeral} {t : String} (h : n.Literal t) {before after : List Token}
    (front : ∀ t ∈ before, t.Spelled ∧ t.isNumber = false)
    (back : ∀ t ∈ after, t.Spelled ∧ t.isNumber = false) :
    tokens? (before.flatMap Token.bytes ++ (Utf8.encode t ++ after.flatMap Token.bytes)) =
      some (before ++ .number n :: after) := by
  obtain ⟨mark, hm, ht⟩ := h.written
  obtain ⟨b, bytes, first, space⟩ := encodeChars_charsWith h.spelled mark
  have ends : Separated (after.flatMap Token.bytes) :=
    separated_tokens (readable_of_plain back) fun u hu => (back u (List.mem_of_mem_head? hu)).2
  have number := scanToken_charsWith hm h.spelled ends
  rw [← ht] at first number
  have text : Utf8.encode t = b :: bytes := first
  have frontLength := length_le_bytes (readable_of_plain front)
  have backLength := length_le_bytes (readable_of_plain back)
  obtain ⟨fuel, hf⟩ : ∃ fuel, (before.flatMap Token.bytes ++
      (Utf8.encode t ++ after.flatMap Token.bytes)).length - before.length = fuel + 1 ∧
        after.length ≤ fuel := by
    refine ⟨(before.flatMap Token.bytes).length - before.length + bytes.length +
      (after.flatMap Token.bytes).length, ?_, by omega⟩
    simp only [List.length_append, text, List.length_cons]
    omega
  rw [tokens?, tokensFrom_append front (by rw [List.length_append]; omega), hf.1, text,
    List.cons_append, tokensFrom.eq_def]
  rw [first, List.cons_append] at number
  simp only [List.dropWhile_cons, space, Bool.false_eq_true, if_false, number]
  rw [tokensFrom_bytes (readable_of_plain back) hf.2]
  simp

/-! ### Numbers in JSON -/

namespace Binary64

def finite? (negative : Bool) (k : Nat) : Option Binary64 :=
  if k < infinityMagnitude then some (ofMagnitude negative k) else none

theorem finite?_of_isFinite {x : Binary64} (hf : x.isFinite = true) :
    finite? x.negative x.magnitude = some x := by
  rw [finite?, if_pos (isFinite_iff.mp hf), ofMagnitude_magnitude]

theorem isFinite_of_mem_finite? {negative : Bool} {k : Nat} :
    ∀ x ∈ finite? negative k, x.isFinite = true := by
  intro x hx
  rw [finite?] at hx
  split at hx
  · obtain rfl := Option.some.inj hx
    have small : k < signBit := lt_trans ‹_› (by decide)
    rwa [isFinite_iff, magnitude_ofMagnitude small]
  · cases hx

theorem finite?_inj (negative : Bool) {k l : Nat} (hk : k ≤ infinityMagnitude)
    (hl : l ≤ infinityMagnitude) : finite? negative k = finite? negative l ↔ k = l := by
  refine ⟨fun same => ?_, fun h => h ▸ rfl⟩
  rw [finite?, finite?] at same
  split at same <;> split at same
  · have magnitude := congrArg magnitude (Option.some.inj same)
    rwa [magnitude_ofMagnitude (lt_trans ‹_› (by decide)),
      magnitude_ofMagnitude (lt_trans ‹_› (by decide))] at magnitude
  · cases same
  · cases same
  · omega

theorem map_neg_finite? (negative : Bool) (k : Nat) :
    (finite? false k).map (fun x => if negative then x.neg else x) = finite? negative k := by
  rw [finite?, finite?]
  by_cases finite : k < infinityMagnitude
  · have small : k < signBit := finite.trans (by decide)
    rw [if_pos finite, if_pos finite, Option.map_some]
    cases negative with
    | false => rfl
    | true => rw [if_pos rfl, neg, negative_ofMagnitude small, magnitude_ofMagnitude small, Bool.not_false]
  · rw [if_neg finite, if_neg finite, Option.map_none]

theorem scaledMagnitude_le (r : ℚ) (e : Int) : scaledMagnitude r e ≤ infinityMagnitude := by
  rw [scaledMagnitude]
  split
  · exact nearest_le _
  split
  · exact nearest_le _
  · exact nearest_le _

theorem value_powerOfTen_mono {k l : Nat} (h : k ≤ l) :
    (powerOfTen k).value ≤ (powerOfTen l).value := by
  have most : (powerOfTen l).magnitude ≤ infinityMagnitude := by
    rw [powerOfTen, magnitude_ofNat]
    exact nearest_le _
  rcases (powerOfTen_mono h).lt_or_eq with less | same
  · have step := border_lt_valueOf (Nat.zero_lt_of_lt less)
    have below : valueOf (powerOfTen k).magnitude ≤ valueOf ((powerOfTen l).magnitude - 1) :=
      valueOf_le (by omega) (by omega)
    exact (below.trans_lt ((valueOf_lt_border _).trans step)).le
  · rw [value, same]
    rfl

theorem one_le_value_ofNat {m : Nat} (hm : m ≤ wordCount) (pos : 0 < m) : 1 ≤ (ofNat m).value := by
  have one : (ofNat (1 * 2 ^ 0)).value = (1 : Nat) * 2 ^ 0 := value_ofNat (by decide) (by decide)
  have le : (ofNat (1 * 2 ^ 0)).value ≤ (ofNat m).value := by
    refine value_le (ofNat_isFinite hm) ?_
    rw [magnitude_ofNat, magnitude_ofNat]
    exact nearest_mono (by positivity) (by exact_mod_cast pos)
  rw [one] at le
  simpa using le

theorem shrink_of_isZero {x : Binary64} (hz : x.isZero = true) (count : Nat) : shrink count x = x := by
  cases count with
  | zero => rfl
  | succ count => rw [shrink, if_pos hz]

/-- Two divisions by the largest power of ten leave nothing of the digits. -/
theorem nearest_of_two_divisions {m : Nat} (hm : m ≤ wordCount) {q : ℚ}
    (hq : (powerOfTen 308).value ≤ q) :
    nearest (valueOf (nearest ((ofNat m).value / (powerOfTen 308).value)) / q) = 0 := by
  have one := one_le_powerOfTen (k := 308) le_rfl
  have pos : 0 < (powerOfTen 308).value := lt_of_lt_of_le one_pos one
  have most : (((ofNat wordCount).div (powerOfTen 308)).div (powerOfTen 308)).magnitude = 0 := by
    decide +kernel
  have finite := isFinite_iff.mp (div_isFinite (ofNat_isFinite le_rfl) one)
  rw [magnitude_div _ pos, value, magnitude_div _ pos] at most
  rw [magnitude_div _ pos] at finite
  have digits : (ofNat m).value ≤ (ofNat wordCount).value := by
    refine value_le (ofNat_isFinite le_rfl) ?_
    rw [magnitude_ofNat, magnitude_ofNat]
    exact nearest_mono (by positivity) (by exact_mod_cast hm)
  have once : nearest ((ofNat m).value / (powerOfTen 308).value) ≤
      nearest ((ofNat wordCount).value / (powerOfTen 308).value) :=
    nearest_mono (div_nonneg (value_nonneg _) pos.le) (by gcongr)
  have twice : valueOf (nearest ((ofNat m).value / (powerOfTen 308).value)) / q ≤
      valueOf (nearest ((ofNat wordCount).value / (powerOfTen 308).value)) /
        (powerOfTen 308).value :=
    div_le_div₀ (valueOf_nonneg _) (valueOf_le finite once) pos hq
  have least := nearest_mono (div_nonneg (valueOf_nonneg _) (pos.le.trans hq)) twice
  rw [most] at least
  exact Nat.le_zero.mp least

theorem shrink_twice {m : Nat} (hm : m ≤ wordCount) (count : Nat) (h : 2 ≤ count) :
    (shrink count (ofNat m)).isZero = true ∧ (shrink count (ofNat m)).negative = false := by
  obtain ⟨count, rfl⟩ : ∃ c, count = c + 2 := ⟨count - 2, by omega⟩
  have pos : 0 < (powerOfTen 308).value := lt_of_lt_of_le one_pos (one_le_powerOfTen le_rfl)
  have positive {x : Binary64} (hx : x.negative = false) : (x.div (powerOfTen 308)).negative = false := by
    rw [negative_div, hx, negative_powerOfTen, bne_self_eq_false]
  by_cases first : (ofNat m).isZero = true
  · rw [shrink_of_isZero first]
    exact ⟨first, negative_ofNat m⟩
  rw [shrink, if_neg first]
  by_cases second : ((ofNat m).div (powerOfTen 308)).isZero = true
  · rw [shrink_of_isZero second]
    exact ⟨second, positive (negative_ofNat m)⟩
  rw [shrink, if_neg second]
  have third : (((ofNat m).div (powerOfTen 308)).div (powerOfTen 308)).isZero = true := by
    have gone := nearest_of_two_divisions hm le_rfl
    rw [← magnitude_div _ pos] at gone
    exact decide_eq_true ((magnitude_div _ pos).trans gone)
  rw [shrink_of_isZero third]
  exact ⟨third, positive (positive (negative_ofNat m))⟩

theorem scaled?_of_small {m : Nat} (hm : m ≤ wordCount) {e : Int} (he : e < -616) :
    scaled? (ofNat m) e = finite? false (scaledMagnitude (ofNat m).value e) := by
  have none : scaledMagnitude (ofNat m).value e = 0 := by
    rw [scaledMagnitude, if_neg (by omega), if_neg (by omega)]
    exact nearest_of_two_divisions hm (value_powerOfTen_mono (by omega))
  obtain ⟨zero, positive⟩ := shrink_twice hm (((-e).toNat - 1) / 308) (by omega)
  have magnitude : (shrink (((-e).toNat - 1) / 308) (ofNat m)).magnitude = 0 := by
    simpa [isZero] using zero
  have finite : (shrink (((-e).toNat - 1) / 308) (ofNat m)).isFinite = true :=
    shrink_isFinite (ofNat_isFinite hm)
  rw [none, scaled?, if_neg (by omega)]
  dsimp only
  rw [if_pos zero, ← finite?_of_isFinite finite, positive, magnitude]

/-- No digits but zeros stay in the range when they are multiplied by a greater power of ten. -/
theorem infinityMagnitude_le_of_large {m : Nat} (hm : m ≤ wordCount) (pos : 0 < m) {k : Nat}
    (hk : 308 < k) : infinityMagnitude ≤ nearest ((ofNat m).value * (powerOfTen k).value) := by
  have infinite : (powerOfTen 309).magnitude = infinityMagnitude := by decide +kernel
  have power : valueOf infinityMagnitude ≤ (powerOfTen k).value := by
    rw [← infinite]
    exact value_powerOfTen_mono (by omega)
  have product : (powerOfTen k).value ≤ (ofNat m).value * (powerOfTen k).value :=
    le_mul_of_one_le_left (value_nonneg _) (one_le_value_ofNat hm pos)
  have last : border (infinityMagnitude - 1) < valueOf infinityMagnitude :=
    border_lt_valueOf (by decide)
  have above := (lt_nearest_iff (mul_nonneg (value_nonneg _) (value_nonneg _)) (by decide)).mpr
    (.inl (last.trans_le (power.trans product)))
  omega

theorem scaled?_eq_none {m : Nat} (hm : m ≤ wordCount) {e : Int} (h : scaled? (ofNat m) e = none) :
    infinityMagnitude ≤ scaledMagnitude (ofNat m).value e := by
  rw [scaled?] at h
  by_cases whole : 0 ≤ e
  · rw [if_pos whole] at h
    rw [scaledMagnitude, if_pos whole]
    by_cases zero : (ofNat m).isZero = true
    · rw [if_pos zero] at h
      cases h
    rw [if_neg zero] at h
    by_cases large : 308 < e
    · have pos : 0 < m := by
        apply Nat.pos_of_ne_zero
        rintro rfl
        exact zero (by decide)
      exact infinityMagnitude_le_of_large hm pos (by omega)
    · rw [if_neg large] at h
      dsimp only at h
      by_cases finite : ((ofNat m).mul (powerOfTen e.toNat)).isFinite = true
      · rw [if_pos finite] at h
        cases h
      · rw [isFinite_iff, magnitude_mul] at finite
        exact not_lt.mp finite
  · rw [if_neg whole] at h
    cases h

/-- What becomes of rounded digits, by the arithmetic of the roundings alone. -/
theorem scaled?_eq {m : Nat} (hm : m ≤ wordCount) (e : Int) :
    scaled? (ofNat m) e = finite? false (scaledMagnitude (ofNat m).value e) := by
  by_cases he : -616 ≤ e
  · cases h : scaled? (ofNat m) e with
    | some y =>
      obtain ⟨sign, magnitude⟩ := scaled?_spec he h
      rw [← finite?_of_isFinite (scaled?_isFinite (ofNat_isFinite hm) h), magnitude, sign,
        negative_ofNat]
    | none => rw [finite?, if_neg (not_lt.mpr (scaled?_eq_none hm h))]
  · exact scaled?_of_small hm (not_le.mp he)

end Binary64

namespace Numeral

variable {n : Numeral}

def jsonMagnitude (n : Numeral) : Nat :=
  scaledMagnitude (ofNat (cutDecimal n).digits).value (cutDecimal n).exponent

def textMagnitude (n : Numeral) : Nat := nearest (n.value 65536)

theorem toBinary64?_eq (n : Numeral) : toBinary64? n = finite? n.negative n.jsonMagnitude := by
  rw [toBinary64?, scaled?_eq (cutDecimal_lt n).le]
  exact map_neg_finite? n.negative _

theorem ofNumeral_eq (n : Numeral) : ofNumeral n = ofMagnitude n.negative n.textMagnitude :=
  ofDecimal_eq_nearest n.negative n.decimal

theorem filter_ofNumeral (n : Numeral) :
    (some (ofNumeral n)).filter isFinite = finite? n.negative n.textMagnitude := by
  have small : n.textMagnitude < signBit := nearest_lt_signBit _
  rw [ofNumeral_eq, Option.filter_some, finite?]
  simp only [isFinite_iff, magnitude_ofMagnitude small]

/-- Few digits, a small power of ten, and an exponent that every reader reads to its end. -/
structure Short (n : Numeral) : Prop where
  digits : n.significand ≤ 2 * leadingBit
  power : (n.exponentValue 65536 - n.fraction.length).natAbs ≤ 22
  written : ∀ sign digits, n.exponent = some (sign, digits) → Nat.ofDigitChars 10 digits 0 < 65536

theorem exponentValue_eq {limit : Nat} (h : 65536 ≤ limit)
    (written : ∀ sign digits, n.exponent = some (sign, digits) →
      Nat.ofDigitChars 10 digits 0 < 65536) : n.exponentValue limit = n.exponentValue 65536 := by
  cases he : n.exponent with
  | none => simp only [exponentValue, he]
  | some e =>
    obtain ⟨sign, digits⟩ := e
    have small := written sign digits he
    simp only [exponentValue, he, foldl_exponent small, foldl_exponent (small.trans_le h)]

theorem Short.magnitude_eq (h : n.Short) : n.jsonMagnitude = n.textMagnitude := by
  have significand : n.significand < wordCount := lt_of_le_of_lt h.digits (by decide)
  have kept : cutDecimal n = n.decimal := by
    rw [cutDecimal_eq significand, exponentValue_eq (by decide) h.written, decimal]
  rw [jsonMagnitude, kept]
  exact scaledMagnitude_exact h.digits h.power

end Numeral

end Telemetry
