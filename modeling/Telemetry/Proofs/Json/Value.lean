import Telemetry.Json.Value
import Telemetry.Proofs.Json.Token
/-!
A value is read back from its bytes. The machine finishes a value by placing it, so that each lemma
on parts says what has been placed when their tokens are used up.
-/

namespace Telemetry.Json.Value

open Builder

mutual

def Spelled : Value → Prop
  | .number n => n.Spelled
  | .array items => SpelledItems items
  | .object members => SpelledMembers members
  | _ => True

def SpelledItems : List Value → Prop
  | [] => True
  | v :: items => v.Spelled ∧ SpelledItems items

def SpelledMembers : List (Option String × Value) → Prop
  | [] => True
  | (_, v) :: members => v.Spelled ∧ SpelledMembers members

end

theorem spelledMembers_iff {members : List (Option String × Value)} :
    SpelledMembers members ↔ ∀ m ∈ members, m.2.Spelled := by
  induction members with
  | nil => simp [SpelledMembers]
  | cons m members ih => simp [SpelledMembers, ih]

theorem spelledItems_iff {items : List Value} : SpelledItems items ↔ ∀ v ∈ items, v.Spelled := by
  induction items with
  | nil => simp [SpelledItems]
  | cons v items ih => simp [SpelledItems, ih]

/-! ### From tokens to the value -/

theorem place_array (v : Value) (items : List Value) (outer : List Frame) :
    place v (.array items :: outer) = some ⟨.rest, .array (v :: items) :: outer, none⟩ := rfl

theorem place_member (v : Value) (key : Option String) (before : List (Option String × Value))
    (outer : List Frame) : place v (.member key before :: outer) =
      some ⟨.rest, .object ((key, v) :: before) :: outer, none⟩ := rfl

mutual

theorem foldlM_tokens (v : Value) {e : Expected} (he : e = .value ∨ e = .itemOrClose)
    (frames : List Frame) (whole : Option Value) :
    v.tokens.foldlM step ⟨e, frames, whole⟩ = place v frames := by
  have begin (t : Token) (ts : List Token) (ht : t ≠ .closeArray) :
      (t :: ts).foldlM step ⟨e, frames, whole⟩ =
        (beginValue frames t).bind fun b => ts.foldlM step b := by
    rcases he with rfl | rfl
    · rfl
    · cases t <;> first | rfl | exact absurd rfl ht
  cases v with
  | null => rw [tokens, begin _ _ (by simp)]; simp [beginValue]
  | bool b => rw [tokens, begin _ _ (by simp)]; simp [beginValue]
  | number n => rw [tokens, begin _ _ (by simp)]; simp [beginValue]
  | string s => rw [tokens, begin _ _ (by simp)]; simp [beginValue]
  | array items =>
    cases items with
    | nil => rw [tokens, begin _ _ (by simp)]; simp [beginValue, step, close]
    | cons v items =>
      rw [tokens, begin _ _ (by simp)]
      simp only [beginValue, Option.bind_some, List.foldlM_append,
        foldlM_tokens v (Or.inr rfl), place_array]
      exact foldlM_itemTokens items [v] frames
  | object members =>
    cases members with
    | nil => rw [tokens, begin _ _ (by simp)]; simp [beginValue, step, close]
    | cons m members =>
      obtain ⟨key, v⟩ := m
      rw [tokens, begin _ _ (by simp)]
      simp only [beginValue, Option.bind_some, List.foldlM_cons, step, beginMember,
        List.foldlM_append, Option.bind_eq_bind, foldlM_tokens v (Or.inl rfl), place_member]
      exact foldlM_memberTokens members [(key, v)] frames

theorem foldlM_itemTokens (items before : List Value) (frames : List Frame) :
    (itemTokens items).foldlM step ⟨.rest, .array before :: frames, none⟩ =
      place (.array (before.reverse ++ items)) frames := by
  cases items with
  | nil => simp [itemTokens, step, close]
  | cons v items =>
    simp only [itemTokens, List.foldlM_cons, step, Option.bind_eq_bind, Option.bind_some,
      List.foldlM_append, foldlM_tokens v (Or.inl rfl), place_array]
    rw [foldlM_itemTokens items (v :: before) frames]
    simp

theorem foldlM_memberTokens (members before : List (Option String × Value))
    (frames : List Frame) :
    (memberTokens members).foldlM step ⟨.rest, .object before :: frames, none⟩ =
      place (.object (before.reverse ++ members)) frames := by
  cases members with
  | nil => simp [memberTokens, step, close]
  | cons m members =>
    obtain ⟨key, v⟩ := m
    simp only [memberTokens, List.foldlM_cons, step, beginMember, Option.bind_eq_bind,
      Option.bind_some, List.foldlM_append, foldlM_tokens v (Or.inl rfl), place_member]
    rw [foldlM_memberTokens members ((key, v) :: before) frames]
    simp

end

theorem ofTokens?_tokens (v : Value) : ofTokens? v.tokens = some v := by
  have run := foldlM_tokens v (Or.inl rfl) [] none
  rw [place] at run
  simp [ofTokens?, start, run]

/-! ### The tokens of a value can be written -/

mutual

theorem readable_tokens (v : Value) (hv : v.Spelled) {ts : List Token} (hts : Readable ts)
    (hn : ∀ u ∈ ts.head?, u.isNumber = false) : Readable (v.tokens ++ ts) := by
  cases v with
  | number n => exact ⟨hv, fun _ => hn, hts⟩
  | array items =>
    cases items with
    | nil => simpa [tokens, Readable, Token.Spelled, Token.isNumber] using hts
    | cons v items =>
      have tail := readable_itemTokens items hv.2 hts
      have whole := readable_tokens v hv.1 tail.1 tail.2
      simpa [tokens, Readable, Token.Spelled, Token.isNumber] using whole
  | object members =>
    cases members with
    | nil => simpa [tokens, Readable, Token.Spelled, Token.isNumber] using hts
    | cons m members =>
      obtain ⟨key, v⟩ := m
      have tail := readable_memberTokens members hv.2 hts
      have whole := readable_tokens v hv.1 tail.1 tail.2
      simpa [tokens, Readable, Token.Spelled, Token.isNumber] using whole
  | _ => simpa [tokens, Readable, Token.Spelled, Token.isNumber] using hts

theorem readable_itemTokens (items : List Value) (hv : SpelledItems items) {ts : List Token}
    (hts : Readable ts) : Readable (itemTokens items ++ ts) ∧
      ∀ u ∈ (itemTokens items ++ ts).head?, u.isNumber = false := by
  cases items with
  | nil => simpa [itemTokens, Readable, Token.Spelled, Token.isNumber] using hts
  | cons v items =>
    have tail := readable_itemTokens items hv.2 hts
    have whole := readable_tokens v hv.1 tail.1 tail.2
    simpa [itemTokens, Readable, Token.Spelled, Token.isNumber] using whole

theorem readable_memberTokens (members : List (Option String × Value))
    (hv : SpelledMembers members) {ts : List Token} (hts : Readable ts) :
    Readable (memberTokens members ++ ts) ∧
      ∀ u ∈ (memberTokens members ++ ts).head?, u.isNumber = false := by
  cases members with
  | nil => simpa [memberTokens, Readable, Token.Spelled, Token.isNumber] using hts
  | cons m members =>
    obtain ⟨key, v⟩ := m
    have tail := readable_memberTokens members hv.2 hts
    have whole := readable_tokens v hv.1 tail.1 tail.2
    simpa [memberTokens, Readable, Token.Spelled, Token.isNumber] using whole

end

/-- Every value is read back from its bytes as it was written. -/
theorem read?_bytes {v : Value} (hv : v.Spelled) : read? v.bytes = some v := by
  have readable := @readable_tokens v hv [] trivial (by simp)
  rw [List.append_nil] at readable
  rw [read?, bytes, tokens?_bytes readable]
  exact ofTokens?_tokens v

end Telemetry.Json.Value
