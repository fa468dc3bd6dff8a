import Telemetry.Json.Token
import Telemetry.Proofs.Json.Quoted
/-!
A text written from tokens is cut into the same tokens again. Only numbers need care: where one ends
is told by the byte behind it, so no number may follow another.
-/

namespace Telemetry

/-- Whether the JSON grammar admits the spelling of the numeral. -/
structure Numeral.Spelled (n : Numeral) : Prop where
  whole : Json.isWhole n.whole = true
  wholeDigits : ∀ c ∈ n.whole, isDigit c = true
  fractionDigits : ∀ c ∈ n.fraction, isDigit c = true
  exponentDigits : ∀ sign digits, n.exponent = some (sign, digits) →
    digits ≠ [] ∧ ∀ c ∈ digits, isDigit c = true

namespace Json

variable {acc : List Token} {rest : Bytes}

theorem isDigit_range {c : Char} (h : isDigit c = true) : 0x30 ≤ c.toNat ∧ c.toNat ≤ 0x39 := by
  have h' : '0' ≤ c ∧ c ≤ '9' := by simpa [isDigit] using h
  exact h'

theorem encodeChar_digit {c : Char} (h : isDigit c = true) :
    ∃ b, Utf8.encodeChar c = [b] ∧ isDigitByte b = true ∧ Char.ofUInt8 b = c := by
  have range := isDigit_range h
  have ht : (UInt8.ofNat c.toNat).toNat = c.toNat := by
    rw [UInt8.toNat_ofNat']
    omega
  refine ⟨UInt8.ofNat c.toNat, ?_, ?_, ?_⟩
  · rw [Utf8.encodeChar, if_pos (by omega)]
  · have low : (0x30 : UInt8) ≤ UInt8.ofNat c.toNat := by
      rw [UInt8.le_iff_toNat_le, ht]
      exact range.1
    have high : UInt8.ofNat c.toNat ≤ 0x39 := by
      rw [UInt8.le_iff_toNat_le, ht]
      exact range.2
    simp [isDigitByte, low, high]
  · exact Char.toNat_inj.mp ht

/-- What may follow a number: no byte that could belong to it. -/
def endsNumber (b : UInt8) : Bool := !isDigitByte b && b ≠ 0x2E && b ≠ 0x65 && b ≠ 0x45

def Separated (rest : Bytes) : Prop := ∀ b ∈ rest.head?, endsNumber b = true

theorem scanDigits_append {digits : List Char} (hd : ∀ c ∈ digits, isDigit c = true)
    (hr : ∀ b ∈ rest.head?, isDigitByte b = false) :
    scanDigits (Utf8.encodeChars digits ++ rest) = (digits, rest) := by
  induction digits with
  | nil =>
    cases rest with
    | nil => rfl
    | cons b rest =>
      have hb : isDigitByte b = false := hr b rfl
      simp [scanDigits, Utf8.encodeChars, hb]
  | cons c digits ih =>
    obtain ⟨b, hb, hbd, hbc⟩ := encodeChar_digit (hd c (List.mem_cons_self ..))
    have ih := ih fun c hc => hd c (List.mem_cons_of_mem _ hc)
    simp only [scanDigits, Prod.mk.injEq] at ih ⊢
    rw [Utf8.encodeChars_cons, hb]
    constructor
    · simp [hbd, hbc, ih.1]
    · simp [hbd, ih.2]

theorem scanFraction_append {digits : List Char} (hd : ∀ c ∈ digits, isDigit c = true)
    (hr : ∀ b ∈ rest.head?, isDigitByte b = false ∧ b ≠ 0x2E) :
    scanFraction (Utf8.encodeChars (if digits = [] then [] else '.' :: digits) ++ rest) =
      some (digits, rest) := by
  by_cases hn : digits = []
  · subst hn
    cases rest with
    | nil => rfl
    | cons b rest =>
      have hb : b ≠ 0x2E := (hr b rfl).2
      simp [scanFraction, Utf8.encodeChars, hb]
  · rw [if_neg hn]
    show scanFraction (0x2E :: (Utf8.encodeChars digits ++ rest)) = _
    simp [scanFraction, scanDigits_append hd fun b hb => (hr b hb).1, hn]

theorem scanSign_append {sign : Option Sign} {digits : List Char} (hn : digits ≠ [])
    (hd : ∀ c ∈ digits, isDigit c = true) :
    scanSign (Utf8.encodeChars (Numeral.signChars sign ++ digits) ++ rest) =
      (sign, Utf8.encodeChars digits ++ rest) := by
  cases sign with
  | none =>
    obtain ⟨c, cs, rfl⟩ := List.exists_cons_of_ne_nil hn
    obtain ⟨b, hb, hbd, -⟩ := encodeChar_digit (hd c (List.mem_cons_self ..))
    have hp : b ≠ 0x2B := by rintro rfl; revert hbd; decide
    have hm : b ≠ 0x2D := by rintro rfl; revert hbd; decide
    simp [Numeral.signChars, Utf8.encodeChars_cons, hb, scanSign, hp, hm]
  | some sign => cases sign <;> rfl

def exponentChars (mark : Char) : Option (Option Sign × List Char) → List Char
  | none => []
  | some (sign, digits) => mark :: (Numeral.signChars sign ++ digits)

theorem scanExponent_append {mark : Char} (hm : mark = 'e' ∨ mark = 'E')
    {exponent : Option (Option Sign × List Char)}
    (hd : ∀ sign digits, exponent = some (sign, digits) →
      digits ≠ [] ∧ ∀ c ∈ digits, isDigit c = true) (hr : Separated rest) :
    scanExponent (Utf8.encodeChars (exponentChars mark exponent) ++ rest) = some (exponent, rest) := by
  cases exponent with
  | none =>
    cases rest with
    | nil => rfl
    | cons b rest =>
      have hb : endsNumber b = true := hr b rfl
      have he : ¬(b = 0x65 ∨ b = 0x45) := by
        rintro (rfl | rfl) <;> revert hb <;> decide
      simp [exponentChars, Utf8.encodeChars, scanExponent, he]
  | some e =>
    obtain ⟨sign, digits⟩ := e
    obtain ⟨hn, hd⟩ := hd sign digits rfl
    have hr' : ∀ b ∈ rest.head?, isDigitByte b = false := by
      intro b hb
      have := hr b hb
      simp only [endsNumber, Bool.and_eq_true, Bool.not_eq_true'] at this
      exact this.1.1.1
    rcases hm with rfl | rfl
    · show scanExponent (0x65 :: (Utf8.encodeChars (Numeral.signChars sign ++ digits) ++ rest)) = _
      simp [scanExponent, scanSign_append hn hd, scanDigits_append hd hr', hn]
    · show scanExponent (0x45 :: (Utf8.encodeChars (Numeral.signChars sign ++ digits) ++ rest)) = _
      simp [scanExponent, scanSign_append hn hd, scanDigits_append hd hr', hn]

end Json

namespace Numeral

def unsignedChars (mark : Char) (n : Numeral) : List Char :=
  n.whole ++ ((if n.fraction = [] then [] else '.' :: n.fraction) ++ Json.exponentChars mark n.exponent)

def charsWith (mark : Char) (n : Numeral) : List Char :=
  (if n.negative then ['-'] else []) ++ n.unsignedChars mark

theorem chars_eq (n : Numeral) : n.chars = n.charsWith 'e' := by
  rw [Numeral.chars, List.append_assoc, List.append_assoc]
  rfl

end Numeral

namespace Json

theorem head_exponent {mark : Char} (hm : mark = 'e' ∨ mark = 'E')
    (exponent : Option (Option Sign × List Char)) (hr : Separated rest) :
    ∀ b ∈ (Utf8.encodeChars (exponentChars mark exponent) ++ rest).head?,
      isDigitByte b = false ∧ b ≠ 0x2E := by
  intro b hb
  cases exponent with
  | none =>
    have := hr b hb
    simp only [endsNumber, Bool.and_eq_true, Bool.not_eq_true', decide_eq_true_eq] at this
    exact ⟨this.1.1.1, this.1.1.2⟩
  | some e =>
    rcases hm with rfl | rfl
    · obtain rfl : 0x65 = b := Option.some.inj hb
      decide
    · obtain rfl : 0x45 = b := Option.some.inj hb
      decide

theorem scanNumber_unsigned {n : Numeral} {mark : Char} (hm : mark = 'e' ∨ mark = 'E')
    (hn : n.Spelled) (hr : Separated rest) :
    scanNumber n.negative (Utf8.encodeChars (n.unsignedChars mark) ++ rest) =
      some (.number n, rest) := by
  have exponent := scanExponent_append hm hn.exponentDigits hr
  have fraction := scanFraction_append hn.fractionDigits (head_exponent hm n.exponent hr)
  have whole : scanDigits (Utf8.encodeChars n.whole ++ (Utf8.encodeChars (if n.fraction = [] then []
      else '.' :: n.fraction) ++ (Utf8.encodeChars (exponentChars mark n.exponent) ++ rest))) =
      (n.whole, Utf8.encodeChars (if n.fraction = [] then [] else '.' :: n.fraction) ++
        (Utf8.encodeChars (exponentChars mark n.exponent) ++ rest)) := by
    apply scanDigits_append hn.wholeDigits
    by_cases hf : n.fraction = []
    · rw [if_pos hf]
      exact fun b hb => (head_exponent hm n.exponent hr b hb).1
    · rw [if_neg hf]
      intro b hb
      obtain rfl : 0x2E = b := Option.some.inj hb
      decide
  rw [Numeral.unsignedChars, Utf8.encodeChars_append, Utf8.encodeChars_append, List.append_assoc,
    List.append_assoc, scanNumber, whole]
  simp [hn.whole, fraction, exponent]

theorem whole_eq_cons {n : Numeral} (hn : n.Spelled) :
    ∃ c cs b, n.whole = c :: cs ∧ Utf8.encodeChar c = [b] ∧ isDigitByte b = true := by
  cases hw : n.whole with
  | nil => exact absurd hn.whole (by simp [hw, isWhole])
  | cons c cs =>
    obtain ⟨b, hb, hbd, -⟩ := encodeChar_digit (hn.wholeDigits c (hw ▸ List.mem_cons_self ..))
    exact ⟨c, cs, b, rfl, hb, hbd⟩

theorem isSpace_of_isDigitByte {b : UInt8} (h : isDigitByte b = true) : isSpace b = false := by
  by_contra space
  have space : ((b = 0x20 ∨ b = 0x09) ∨ b = 0x0A) ∨ b = 0x0D := by
    simpa only [isSpace, Bool.not_eq_false, Bool.or_eq_true, decide_eq_true_eq] using space
  rcases space with ((rfl | rfl) | rfl) | rfl <;> revert h <;> decide

theorem encodeChars_charsWith {n : Numeral} (hn : n.Spelled) (mark : Char) :
    ∃ b bytes, Utf8.encodeChars (n.charsWith mark) = b :: bytes ∧ isSpace b = false := by
  cases hs : n.negative with
  | true => exact ⟨_, _, by rw [Numeral.charsWith, hs]; rfl, rfl⟩
  | false =>
    obtain ⟨c, cs, b, hw, hb, hbd⟩ := whole_eq_cons hn
    refine ⟨b, Utf8.encodeChars (cs ++ ((if n.fraction = [] then [] else '.' :: n.fraction) ++
      exponentChars mark n.exponent)), ?_, isSpace_of_isDigitByte hbd⟩
    rw [Numeral.charsWith, Numeral.unsignedChars, hs, hw]
    simp only [Bool.false_eq_true, if_false, List.nil_append, List.cons_append, Utf8.encodeChars_cons, hb]

theorem scanToken_charsWith {n : Numeral} {mark : Char} (hm : mark = 'e' ∨ mark = 'E')
    (hn : n.Spelled) (hr : Separated rest) :
    scanToken (Utf8.encodeChars (n.charsWith mark) ++ rest) = some (.number n, rest) := by
  have number := scanNumber_unsigned hm hn hr
  rw [Numeral.charsWith]
  cases hs : n.negative with
  | true =>
    rw [hs] at number
    exact number
  | false =>
    rw [hs] at number
    obtain ⟨c, cs, b, hw, hb, hbd⟩ := whole_eq_cons hn
    have hq : b ≠ 0x22 := by rintro rfl; revert hbd; decide
    have hm : b ≠ 0x2D := by rintro rfl; revert hbd; decide
    rw [Numeral.unsignedChars, hw, List.cons_append, Utf8.encodeChars_cons, hb] at number
    simp only [Bool.false_eq_true, if_false, List.nil_append, Numeral.unsignedChars, hw,
      List.cons_append, Utf8.encodeChars_cons, hb]
    simpa [scanToken, hq, hm, hbd] using number

namespace Token

/-- Whether a text can hold the token as it is written. -/
def Spelled : Token → Prop
  | number n => n.Spelled
  | _ => True

def isNumber : Token → Bool
  | number _ => true
  | _ => false

theorem scanQuoted_unreadable :
    scanQuoted [] (unreadable.tail ++ rest) = some ([.unit 0xD800], rest) := by
  have unit : hexUnit? 0x64 0x38 0x30 0x30 = some 0xD800 := by decide
  show scanQuoted [] (0x5C :: 0x75 :: 0x64 :: 0x38 :: 0x30 :: 0x30 :: 0x22 :: rest) = _
  rw [scanQuoted.eq_def]
  simp [unit, scanQuoted_close]

theorem scanToken_bytes {t : Token} (ht : t.Spelled) (hr : t.isNumber = true → Separated rest) :
    scanToken (t.bytes ++ rest) = some (t, rest) := by
  cases t with
  | number n =>
    rw [bytes, Numeral.chars_eq]
    exact scanToken_charsWith (.inl rfl) ht (hr rfl)
  | string text =>
    cases text with
    | none =>
      show (scanQuoted [] (unreadable.tail ++ rest)).map _ = _
      rw [scanQuoted_unreadable]
      rfl
    | some s =>
      show (scanQuoted [] ((quote s).tail ++ rest)).map _ = _
      rw [scanQuoted_quote]
      simp [join?_quoted]
  | bool b => cases b <;> rfl
  | _ => rfl

theorem bytes_eq_cons {t : Token} (ht : t.Spelled) : ∃ b bytes, t.bytes = b :: bytes ∧
    isSpace b = false ∧ (t.isNumber = false → endsNumber b = true) := by
  cases t with
  | number n =>
    obtain ⟨b, bytes, hb, space⟩ := encodeChars_charsWith ht 'e'
    exact ⟨b, bytes, by rw [Token.bytes, Numeral.chars_eq, hb], space, by simp [isNumber]⟩
  | string text =>
    cases text with
    | none => exact ⟨_, _, rfl, rfl, fun _ => rfl⟩
    | some s => exact ⟨_, _, rfl, rfl, fun _ => rfl⟩
  | bool b => cases b <;> exact ⟨_, _, rfl, rfl, fun _ => rfl⟩
  | _ => exact ⟨_, _, rfl, rfl, fun _ => rfl⟩

end Token

/-- Tokens that can be written one after another: a number is never followed by a number. -/
def Readable : List Token → Prop
  | [] => True
  | t :: ts => t.Spelled ∧ (t.isNumber = true → ∀ u ∈ ts.head?, u.isNumber = false) ∧ Readable ts

theorem separated_tokens {ts : List Token} (h : Readable ts)
    (hn : ∀ u ∈ ts.head?, u.isNumber = false) : Separated (ts.flatMap Token.bytes) := by
  cases ts with
  | nil => intro b hb; cases hb
  | cons t ts =>
    obtain ⟨b, bytes, ht, -, he⟩ := Token.bytes_eq_cons h.1
    intro b' hb'
    rw [List.flatMap_cons, ht] at hb'
    obtain rfl : b = b' := Option.some.inj hb'
    exact he (hn t rfl)

theorem tokensFrom_bytes {ts : List Token} (h : Readable ts) {fuel : Nat} (hf : ts.length ≤ fuel) :
    tokensFrom acc fuel (ts.flatMap Token.bytes) = some (acc.reverse ++ ts) := by
  induction ts generalizing acc fuel with
  | nil =>
    rw [tokensFrom.eq_def]
    simp
  | cons t ts ih =>
    obtain ⟨ht, hn, hts⟩ := h
    obtain ⟨fuel, rfl⟩ : ∃ k, fuel = k + 1 := ⟨fuel - 1, by simp at hf; omega⟩
    have token := Token.scanToken_bytes ht fun hm => separated_tokens hts (hn hm)
    obtain ⟨b, bytes, hb, hs, -⟩ := Token.bytes_eq_cons ht
    rw [hb, List.cons_append] at token
    rw [List.flatMap_cons, hb, List.cons_append, tokensFrom.eq_def]
    simp only [List.dropWhile_cons, hs, Bool.false_eq_true, if_false, token]
    rw [ih hts (by simpa using hf)]
    simp

/-- Tokens that are no numbers are read whatever follows them. -/
theorem tokensFrom_append {ts : List Token} (plain : ∀ t ∈ ts, t.Spelled ∧ t.isNumber = false)
    {fuel : Nat} (hf : ts.length ≤ fuel) :
    tokensFrom acc fuel (ts.flatMap Token.bytes ++ rest) =
      tokensFrom (ts.reverse ++ acc) (fuel - ts.length) rest := by
  induction ts generalizing acc fuel with
  | nil => rfl
  | cons t ts ih =>
    obtain ⟨⟨ht, hn⟩, hts⟩ := List.forall_mem_cons.mp plain
    obtain ⟨fuel, rfl⟩ : ∃ k, fuel = k + 1 := ⟨fuel - 1, by simp at hf; omega⟩
    have token {rest : Bytes} : scanToken (t.bytes ++ rest) = some (t, rest) :=
      Token.scanToken_bytes ht fun number => by rw [hn] at number; cases number
    obtain ⟨b, bytes, hb, hs, -⟩ := Token.bytes_eq_cons ht
    rw [hb] at token
    simp only [List.cons_append] at token
    rw [List.flatMap_cons, List.append_assoc, hb, List.cons_append, tokensFrom.eq_def]
    simp only [List.dropWhile_cons, hs, Bool.false_eq_true, if_false, token]
    rw [ih hts (by simpa using hf)]
    simp

theorem length_le_bytes {ts : List Token} (h : Readable ts) :
    ts.length ≤ (ts.flatMap Token.bytes).length := by
  induction ts with
  | nil => simp
  | cons t ts ih =>
    obtain ⟨b, bytes, hb, -, -⟩ := Token.bytes_eq_cons h.1
    have := ih h.2.2
    rw [List.flatMap_cons, List.length_append, List.length_cons, hb, List.length_cons]
    omega

theorem tokens?_bytes {ts : List Token} (h : Readable ts) :
    tokens? (ts.flatMap Token.bytes) = some ts :=
  tokensFrom_bytes h (length_le_bytes h)

end Json

end Telemetry
