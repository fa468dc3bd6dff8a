import Telemetry.Gzip
/-!
Reading moves forward: what is left behind a bit, a number, a word of a code or a block is a part of
what there was. So a member of a gzip stream is followed by fewer bytes than it began with.
-/

namespace Telemetry

namespace Deflate

variable {α β : Type} {s rest : Bits} {out whole : Array UInt8}

/-- A reader leaves no more bits than there were. -/
def MovesOn (read : Bits → Option (α × Bits)) : Prop :=
  ∀ s a rest, read s = some (a, rest) → rest.size ≤ s.size

theorem MovesOn.bind {read : Bits → Option (α × Bits)} {next : α × Bits → Option (β × Bits)} {b : β}
    (first : MovesOn read)
    (later : ∀ a s, next (a, s) = some (b, rest) → rest.size ≤ s.size)
    (h : (read s >>= next) = some (b, rest)) : rest.size ≤ s.size := by
  obtain ⟨⟨a, between⟩, hr, hn⟩ := Option.bind_eq_some_iff.mp h
  exact Nat.le_trans (later a between hn) (first s a between hr)

theorem size_le_of_pure {a b : α} (h : some (a, s) = some (b, rest)) : rest.size ≤ s.size := by
  cases h
  exact Nat.le_refl _

theorem Bits.movesOn_next? : MovesOn Bits.next? := by
  intro s bit rest h
  have := Bits.next?_size h
  omega

theorem Bits.movesOn_number? (count : Nat) : MovesOn (Bits.number? count) := by
  induction count with
  | zero => exact fun s n rest h => size_le_of_pure h
  | succ count ih =>
    intro s n rest h
    refine Bits.movesOn_next?.bind (fun low s h => ?_) h
    refine ih.bind (fun high s h => ?_) h
    exact size_le_of_pure h

theorem Range.movesOn_number? (r : Range) : MovesOn r.number? := by
  intro s n rest h
  obtain ⟨⟨m, behind⟩, read, he⟩ := Option.map_eq_some_iff.mp h
  obtain ⟨-, rfl⟩ := Prod.mk.inj he
  exact Bits.movesOn_number? r.bits _ _ _ read

theorem PrefixCode.movesOn_symbolFrom? {symbols : Array Nat} {word first index : Nat}
    (counts : List Nat) : MovesOn (symbolFrom? symbols word first index counts) := by
  induction counts generalizing word first index with
  | nil => exact fun s symbol rest h => nomatch h
  | cons count counts ih =>
    intro s symbol rest h
    rw [symbolFrom?] at h
    cases hn : s.next? with
    | none =>
      rw [hn] at h
      cases h
    | some found =>
      obtain ⟨bit, behind⟩ := found
      have forward := Bits.movesOn_next? _ _ _ hn
      rw [hn] at h
      dsimp only at h
      split at h
      · obtain ⟨e, -, he⟩ := Option.map_eq_some_iff.mp h
        obtain ⟨-, rfl⟩ := Prod.mk.inj he
        exact forward
      · exact Nat.le_trans (ih _ _ _ h) forward

theorem PrefixCode.movesOn_symbol? (c : PrefixCode) : MovesOn c.symbol? :=
  movesOn_symbolFrom? c.counts

theorem Codes.movesOn_item? (c : Codes) : MovesOn c.item? := by
  intro s item rest h
  refine c.items.movesOn_symbol?.bind (fun symbol s h => ?_) h
  dsimp only at h
  split at h
  · exact size_le_of_pure h
  split at h
  · exact size_le_of_pure h
  obtain ⟨lengths, -, h⟩ := Option.bind_eq_some_iff.mp h
  refine lengths.movesOn_number?.bind (fun length s h => ?_) h
  refine c.distances.movesOn_symbol?.bind (fun symbol s h => ?_) h
  obtain ⟨distances, -, h⟩ := Option.bind_eq_some_iff.mp h
  refine distances.movesOn_number?.bind (fun distance s h => ?_) h
  exact size_le_of_pure h

theorem movesOn_threeBits? (count : Nat) : MovesOn (threeBits? count) := by
  induction count with
  | zero => exact fun s ns rest h => size_le_of_pure h
  | succ count ih =>
    intro s ns rest h
    refine (Bits.movesOn_number? 3).bind (fun n s h => ?_) h
    refine ih.bind (fun ns s h => ?_) h
    exact size_le_of_pure h

theorem movesOn_lengthRun? (code : PrefixCode) (last : Option Nat) :
    MovesOn (lengthRun? code last) := by
  intro s run rest h
  -- The symbol says what is repeated; how often is a number in any case.
  have counted (found : Option (Nat × Range)) (s : Bits)
      (h : (found >>= fun e => e.2.number? s >>= fun n => some (List.replicate n.1 e.1, n.2)) =
        some (run, rest)) : rest.size ≤ s.size := by
    obtain ⟨⟨repeated, range⟩, -, h⟩ := Option.bind_eq_some_iff.mp h
    refine range.movesOn_number?.bind (fun count s h => ?_) h
    exact size_le_of_pure h
  refine code.movesOn_symbol?.bind (fun symbol s h => ?_) h
  dsimp only at h
  split at h
  · exact size_le_of_pure h
  · split at h <;> exact counted _ s h

theorem movesOn_lengths? (code : PrefixCode) (fuel : Nat) {acc : List Nat} {missing : Nat} :
    MovesOn fun s => lengths? code acc s fuel missing := by
  induction fuel generalizing acc missing with
  | zero =>
    intro s lengths rest h
    cases missing with
    | zero => exact size_le_of_pure h
    | succ missing => cases h
  | succ fuel ih =>
    intro s lengths rest h
    cases missing with
    | zero => exact size_le_of_pure h
    | succ missing =>
      refine (movesOn_lengthRun? code acc.head?).bind (fun run s h => ?_) h
      dsimp only at h
      split at h
      · cases h
      · exact ih _ _ _ h

theorem movesOn_codes? : MovesOn codes? := by
  intro s codes rest h
  refine (Range.movesOn_number? ⟨257, 5⟩).bind (fun items s h => ?_) h
  refine (Range.movesOn_number? ⟨1, 5⟩).bind (fun distances s h => ?_) h
  refine (Range.movesOn_number? ⟨4, 4⟩).bind (fun count s h => ?_) h
  dsimp only at h
  split at h
  · cases h
  refine (movesOn_threeBits? count).bind (fun widths s h => ?_) h
  dsimp only at h
  split at h
  · cases h
  obtain ⟨⟨lengths, behind⟩, hl, h⟩ := Option.bind_eq_some_iff.mp h
  have forward := movesOn_lengths? _ _ _ _ _ hl
  dsimp only at h
  split at h
  · exact Nat.le_trans (size_le_of_pure h) forward
  · cases h

theorem size_le_of_unpackItems {limit fuel : Nat} {c : Codes}
    (h : unpackItems limit c fuel out s = .more whole rest) : rest.size ≤ s.size := by
  induction fuel generalizing out s with
  | zero => cases h
  | succ fuel ih =>
    rw [unpackItems] at h
    split at h
    · cases h
    split at h
    · cases h
    · rename_i found
      obtain ⟨-, rfl⟩ := BlockEnd.more.inj h
      exact c.movesOn_item? _ _ _ found
    · rename_i found
      exact Nat.le_trans (ih h) (c.movesOn_item? _ _ _ found)
    · rename_i found
      split at h
      · cases h
      · exact Nat.le_trans (ih h) (c.movesOn_item? _ _ _ found)

theorem size_le_of_appendBytes_rest {count : Nat} {bytes : Bytes}
    (h : appendBytes count out bytes = .more whole rest) : rest.size ≤ (Bits.ofBytes bytes).size := by
  induction count generalizing out bytes with
  | zero =>
    obtain ⟨-, rfl⟩ := BlockEnd.more.inj h
    exact Nat.le_refl _
  | succ count ih =>
    cases bytes with
    | nil => cases h
    | cons b bytes =>
      have shorter := ih h
      simp only [Bits.size, Bits.ofBytes, List.length_cons] at shorter ⊢
      omega

theorem size_le_of_unpackBlock {limit kind : Nat}
    (h : unpackBlock limit kind out s = .more whole rest) : rest.size ≤ s.size := by
  unfold unpackBlock at h
  split at h
  · unfold unpackStored at h
    split at h
    · rename_i hs
      split at h
      · have shorter := size_le_of_appendBytes_rest h
        have room := congrArg List.length hs
        simp only [Bits.size, Bits.ofBytes, Bits.bytes, List.length_cons] at shorter room ⊢
        omega
      · cases h
    · cases h
  · exact size_le_of_unpackItems h
  · split at h
    · rename_i given
      exact Nat.le_trans (size_le_of_unpackItems h) (movesOn_codes? _ _ _ given)
    · cases h
  · cases h

theorem length_le_of_unpackBlocks {limit fuel : Nat} {behind : Bytes}
    (h : unpackBlocks limit fuel out s = .done whole behind) : 8 * behind.length ≤ s.size := by
  induction fuel generalizing out s with
  | zero => cases h
  | succ fuel ih =>
    rw [unpackBlocks] at h
    split at h
    · cases h
    rename_i marked
    have mark := Bits.movesOn_number? 3 _ _ _ marked
    split at h
    · cases h
    · cases h
    rename_i left block
    have shorter := size_le_of_unpackBlock block
    split at h
    · cases h
    split at h
    · obtain ⟨-, rfl⟩ := Unpacked.done.inj h
      have : 8 * left.bytes.length ≤ left.size := Nat.le_add_left _ _
      omega
    · have := ih h
      omega

theorem length_le_of_unpack {limit : Nat} {packed behind : Bytes}
    (h : unpack limit packed = .done whole behind) : behind.length ≤ packed.length := by
  have fewer := length_le_of_unpackBlocks h
  simp only [Bits.size, Bits.ofBytes] at fewer
  omega

end Deflate

namespace Gzip

variable {bytes rest : Bytes}

theorem length_of_behind? {count : Nat} (h : behind? count bytes = some rest) :
    rest.length + count = bytes.length := by
  unfold behind? at h
  split at h
  · obtain rfl := Option.some.inj h
    rw [List.length_drop]
    omega
  · cases h

theorem length_le_of_behindExtra? (h : behindExtra? bytes = some rest) :
    rest.length ≤ bytes.length := by
  unfold behindExtra? at h
  split at h
  · have := length_of_behind? h
    simp only [List.length_cons]
    omega
  · cases h

theorem length_le_of_behindText? (h : behindText? bytes = some rest) :
    rest.length ≤ bytes.length := by
  have text := length_of_behind? h
  have part := (List.dropWhile_sublist (l := bytes) fun b => b ≠ 0).length_le
  omega

theorem length_le_of_behindOptional? {present : Bool} {field? : Bytes → Option Bytes}
    (shorter : ∀ rest, field? bytes = some rest → rest.length ≤ bytes.length)
    (h : behindOptional? present field? bytes = some rest) : rest.length ≤ bytes.length := by
  unfold behindOptional? at h
  split at h
  · exact shorter rest h
  · obtain rfl := Option.some.inj h
    exact Nat.le_refl _

theorem length_lt_of_behindHead? (h : behindHead? bytes = some rest) :
    rest.length < bytes.length := by
  unfold behindHead? at h
  split at h
  · simp only [Option.bind_eq_bind, Option.bind_eq_some_iff] at h
    obtain ⟨fixed, hf, extra, he, name, hn, comment, hc, hk⟩ := h
    have := length_of_behind? hf
    have := length_le_of_behindOptional? (fun _ => length_le_of_behindExtra?) he
    have := length_le_of_behindOptional? (fun _ => length_le_of_behindText?) hn
    have := length_le_of_behindOptional? (fun _ => length_le_of_behindText?) hc
    have := length_le_of_behindOptional? (fun _ h => Nat.le.intro (length_of_behind? h)) hk
    simp only [List.length_cons]
    omega
  · cases h

theorem length_behindTrailer_le (bytes : Bytes) : (behindTrailer bytes).length ≤ bytes.length := by
  rw [behindTrailer, List.length_drop]
  exact Nat.sub_le _ _

end Gzip

end Telemetry
