import Telemetry.Proofs.Deflate.Progress
/-!
Unpacking under a limit. Data with a content is unpacked to that content under every limit which it
keeps, and under every other limit to more bytes than the limit: whoever reads no more than the limit
can tell from them that the content is too long.
-/

namespace Telemetry

namespace Deflate

variable {limit bound fuel kind : Nat} {c : Codes} {out whole : Array UInt8} {s rest : Bits}

theorem size_copyBack (distance count : Nat) (out : Array UInt8) :
    (copyBack distance count out).size = out.size + count := by
  induction count generalizing out with
  | zero => rfl
  | succ count ih =>
    rw [copyBack, ih, Array.size_push]
    omega

theorem size_le_of_appendBytes {count : Nat} {bytes : Bytes}
    (h : appendBytes count out bytes = .more whole rest) : out.size ≤ whole.size := by
  induction count generalizing out bytes with
  | zero =>
    obtain ⟨rfl, -⟩ := BlockEnd.more.inj h
    exact Nat.le_refl _
  | succ count ih =>
    cases bytes with
    | nil => cases h
    | cons b bytes =>
      have longer := ih h
      rw [Array.size_push] at longer
      omega

/-- How a block ends under a limit if all of it makes `whole`: in the same way if that keeps the limit. -/
structure BlockEnd.Limited (limit : Nat) (whole : Array UInt8) (rest : Bits) (e : BlockEnd) :
    Prop where
  within : whole.size ≤ limit → e = .more whole rest
  beyond : limit < whole.size → e = .more whole rest ∨ ∃ cut, e = .cut cut ∧ limit < cut.size

theorem limited_more : (BlockEnd.more whole rest).Limited limit whole rest :=
  ⟨fun _ => rfl, fun _ => .inl rfl⟩

theorem limited_cut (past : limit < out.size) (longer : out.size ≤ whole.size) :
    (BlockEnd.cut out).Limited limit whole rest :=
  ⟨fun within => by omega, fun _ => .inr ⟨out, rfl, past⟩⟩

def afterItem (limit : Nat) (c : Codes) (fuel : Nat) (out : Array UInt8) :
    Option (Item × Bits) → BlockEnd
  | none => .malformed
  | some (.stop, s) => .more out s
  | some (.byte b, s) => unpackItems limit c fuel (out.push b) s
  | some (.copy length distance, s) =>
    if out.size < distance then .malformed
    else unpackItems limit c fuel (copyBack distance length out) s

theorem unpackItems_succ (limit : Nat) (c : Codes) (fuel : Nat) (out : Array UInt8) (s : Bits) :
    unpackItems limit c (fuel + 1) out s =
      if limit < out.size then .cut out else afterItem limit c fuel out (c.item? s) := rfl

theorem unpackItems_limited (limit : Nat) (h : unpackItems bound c fuel out s = .more whole rest) :
    out.size ≤ whole.size ∧ (unpackItems limit c fuel out s).Limited limit whole rest := by
  induction fuel generalizing out s with
  | zero => cases h
  | succ fuel ih =>
    rw [unpackItems_succ] at h ⊢
    split at h
    · cases h
    -- Only the first test depends on the limit; past it both readings go on with the same word.
    suffices step : out.size ≤ whole.size ∧
        (afterItem limit c fuel out (c.item? s)).Limited limit whole rest by
      refine ⟨step.1, ?_⟩
      by_cases past : limit < out.size
      · rw [if_pos past]
        exact limited_cut past step.1
      · rw [if_neg past]
        exact step.2
    cases hi : c.item? s with
    | none =>
      rw [hi] at h
      cases h
    | some found =>
      obtain ⟨item, s⟩ := found
      rw [hi] at h
      cases item with
      | stop =>
        obtain ⟨rfl, rfl⟩ := BlockEnd.more.inj h
        exact ⟨Nat.le_refl _, limited_more⟩
      | byte b =>
        obtain ⟨longer, later⟩ := ih h
        rw [Array.size_push] at longer
        exact ⟨by omega, later⟩
      | copy length distance =>
        rw [afterItem] at h ⊢
        split at h
        · cases h
        · rename_i near
          obtain ⟨longer, later⟩ := ih h
          rw [size_copyBack] at longer
          rw [if_neg near]
          exact ⟨by omega, later⟩

theorem unpackBlock_limited (limit : Nat) (h : unpackBlock bound kind out s = .more whole rest) :
    out.size ≤ whole.size ∧ (unpackBlock limit kind out s).Limited limit whole rest := by
  unfold unpackBlock at h ⊢
  split at h
  case h_1 =>
    -- Bytes that are stored as they are do not depend on the limit.
    refine ⟨?_, h ▸ limited_more⟩
    unfold unpackStored at h
    split at h
    · split at h
      · exact size_le_of_appendBytes h
      · cases h
    · cases h
  case h_2 => exact unpackItems_limited limit h
  case h_3 =>
    split at h
    · exact unpackItems_limited limit h
    · cases h
  case h_4 => cases h

structure Unpacked.Limited (limit : Nat) (whole : Array UInt8) (behind : Bytes) (u : Unpacked) :
    Prop where
  within : whole.size ≤ limit → u = .done whole behind
  beyond : limit < whole.size → ∃ cut, u = .cut cut ∧ limit < cut.size

def BlockEnd.goOn (limit : Nat) (next : Array UInt8 → Bits → Unpacked) : BlockEnd → Unpacked
  | .malformed => .malformed
  | .cut out => .cut out
  | .more out s => if limit < out.size then .cut out else next out s

theorem BlockEnd.Limited.goOn {e : BlockEnd} {next : Array UInt8 → Bits → Unpacked} {behind : Bytes}
    (block : e.Limited limit out rest) (longer : out.size ≤ whole.size)
    (tail : out.size ≤ limit → (next out rest).Limited limit whole behind) :
    (e.goOn limit next).Limited limit whole behind := by
  by_cases fits : out.size ≤ limit
  · rw [block.within fits, BlockEnd.goOn, if_neg (by omega)]
    exact tail fits
  · refine ⟨fun within => by omega, fun _ => ?_⟩
    rcases block.beyond (by omega) with same | ⟨cut, stopped, past⟩
    · rw [same, BlockEnd.goOn, if_pos (by omega)]
      exact ⟨out, rfl, by omega⟩
    · rw [stopped]
      exact ⟨cut, rfl, past⟩

theorem unpackBlocks_limited (limit : Nat) {behind : Bytes}
    (h : unpackBlocks bound fuel out s = .done whole behind) :
    out.size ≤ whole.size ∧ (unpackBlocks limit fuel out s).Limited limit whole behind := by
  induction fuel generalizing out s with
  | zero => cases h
  | succ fuel ih =>
    rw [unpackBlocks] at h ⊢
    cases hn : s.number? 3 with
    | none =>
      rw [hn] at h
      cases h
    | some found =>
      obtain ⟨mark, s⟩ := found
      rw [hn] at h
      dsimp only at h ⊢
      cases hb : unpackBlock bound (mark / 2) out s with
      | malformed =>
        rw [hb] at h
        cases h
      | cut out =>
        rw [hb] at h
        cases h
      | more longer left =>
        rw [hb] at h
        dsimp only at h
        split at h
        · cases h
        obtain ⟨grown, block⟩ := unpackBlock_limited limit hb
        by_cases last : mark % 2 = 1
        · rw [if_pos last] at h
          obtain ⟨rfl, rfl⟩ := Unpacked.done.inj h
          refine ⟨grown, block.goOn (Nat.le_refl _) fun fits => ?_⟩
          rw [if_pos last]
          exact ⟨fun _ => rfl, fun past => by omega⟩
        · rw [if_neg last] at h
          obtain ⟨more, later⟩ := ih h
          refine ⟨by omega, block.goOn more fun _ => ?_⟩
          rw [if_neg last]
          exact later

end Deflate

namespace Gzip

/-- The bytes begin with a member of this content and go on with `rest`: behind the head is data that can
be unpacked to the content, and behind that its checksum and its length. -/
def Member (bytes content rest : Bytes) : Prop :=
  ∃ packed bound whole behind, behindHead? bytes = some packed ∧
    Deflate.unpack bound packed = .done whole behind ∧ whole.toList = content ∧
    confirms content behind = true ∧ behindTrailer behind = rest

/-- The bytes are one member after the other and nothing else, with these contents. -/
inductive Members : Bytes → List Bytes → Prop
  | nil : Members [] []
  | cons {bytes content rest : Bytes} {contents : List Bytes} (member : Member bytes content rest)
      (later : Members rest contents) : Members bytes (content :: contents)

def Extent.join : Extent → List Bytes → Bytes
  | .first, contents => contents.headD []
  | .all, contents => contents.flatten

variable {bytes content rest : Bytes}

theorem Member.length_lt (h : Member bytes content rest) : rest.length < bytes.length := by
  obtain ⟨packed, bound, whole, behind, head, unpacks, -, -, rfl⟩ := h
  have := length_lt_of_behindHead? head
  have := Deflate.length_le_of_unpack unpacks
  have := length_behindTrailer_le behind
  omega

theorem Member.member? (h : Member bytes content rest) (limit : Nat) :
    (content.length ≤ limit → Gzip.member? limit bytes = some (content, some rest)) ∧
      (limit < content.length →
        ∃ cut, Gzip.member? limit bytes = some (cut, none) ∧ limit < cut.length) := by
  obtain ⟨packed, bound, whole, behind, head, unpacks, rfl, confirmed, rfl⟩ := h
  obtain ⟨within, beyond⟩ := (Deflate.unpackBlocks_limited limit unpacks).2
  rw [Array.length_toList]
  constructor
  · intro fits
    simp [Gzip.member?, head, Deflate.unpack, within fits, confirmed]
  · intro past
    obtain ⟨cut, stopped, size⟩ := beyond past
    refine ⟨cut.toList, ?_, by rwa [Array.length_toList]⟩
    simp [Gzip.member?, head, Deflate.unpack, stopped]

theorem members?_of_whole {count limit : Nat}
    (h : Gzip.member? limit bytes = some (content, some rest)) :
    members? (count + 1) limit bytes =
      (members? count (limit - content.length) rest).map (content ++ ·) := by
  cases bytes with
  | nil => cases h
  | cons b bytes =>
    rw [members?, h]
    · rfl
    · exact List.cons_ne_nil b bytes

theorem members?_of_cut {count limit : Nat} {cut : Bytes}
    (h : Gzip.member? limit bytes = some (cut, none)) : members? (count + 1) limit bytes = some cut := by
  cases bytes with
  | nil => cases h
  | cons b bytes =>
    rw [members?, h]
    · rfl
    · exact List.cons_ne_nil b bytes

theorem members?_of_members {contents : List Bytes} (h : Members bytes contents) (count limit : Nat) :
    ((contents.take count).flatten.length ≤ limit →
        members? count limit bytes = some (contents.take count).flatten) ∧
      (limit < (contents.take count).flatten.length →
        ∃ cut, members? count limit bytes = some cut ∧ limit < cut.length) := by
  induction h generalizing count limit with
  | nil =>
    have read : members? count limit [] = some [] := by cases count <;> rfl
    rw [List.take_nil]
    exact ⟨fun _ => read, fun past => absurd past (Nat.not_lt_zero limit)⟩
  | @cons bytes content rest contents member later ih =>
    cases count with
    | zero =>
      have read : members? 0 limit bytes = some [] := by cases bytes <;> rfl
      exact ⟨fun _ => read, fun past => absurd past (Nat.not_lt_zero limit)⟩
    | succ count =>
      obtain ⟨within, beyond⟩ := member.member? limit
      rw [List.take_succ_cons, List.flatten_cons, List.length_append]
      by_cases fits : content.length ≤ limit
      · -- The members behind this one have what is left of the limit.
        obtain ⟨restWithin, restBeyond⟩ := ih count (limit - content.length)
        rw [members?_of_whole (within fits)]
        constructor
        · intro total
          rw [restWithin (by omega), Option.map_some]
        · intro past
          obtain ⟨cut, stopped, size⟩ := restBeyond (by omega)
          refine ⟨content ++ cut, ?_, by rw [List.length_append]; omega⟩
          rw [stopped, Option.map_some]
      · obtain ⟨cut, stopped, size⟩ := beyond (by omega)
        rw [members?_of_cut stopped]
        exact ⟨fun total => absurd total (by omega), fun _ => ⟨cut, rfl, size⟩⟩

theorem Members.length_le {contents : List Bytes} (h : Members bytes contents) :
    contents.length ≤ bytes.length := by
  induction h with
  | nil => exact Nat.le_refl _
  | cons member later ih =>
    have := member.length_lt
    rw [List.length_cons]
    omega

theorem Members.flatten_take {contents : List Bytes} (h : Members bytes contents) (extent : Extent) :
    (contents.take (extent.most bytes)).flatten = extent.join contents := by
  cases extent with
  | first => cases contents <;> simp [Extent.most, Extent.join]
  | all => rw [Extent.most, Extent.join, List.take_of_length_le h.length_le]

/-- What a decoder reads it reads to its end if that keeps the limit, and else past the limit. -/
theorem content?_of_members {contents : List Bytes} (h : Members bytes contents) (extent : Extent)
    (limit : Nat) :
    ((extent.join contents).length ≤ limit →
        content? extent limit bytes = some (extent.join contents)) ∧
      (limit < (extent.join contents).length →
        ∃ cut, content? extent limit bytes = some cut ∧ limit < cut.length) := by
  rw [← h.flatten_take extent]
  exact members?_of_members h (extent.most bytes) limit

def hi : Bytes :=
  [0x1F, 0x8B, 0x08, 0x00, 0x00, 0x00, 0x00, 0x00, 0x02, 0xFF, 0xCB, 0xC8, 0x04, 0x00, 0xAC, 0x2A,
    0x93, 0xD8, 0x02, 0x00, 0x00, 0x00]

example : content? .all 4 (hi ++ hi) = some (Utf8.encode "hihi") ∧
    content? .first 4 (hi ++ hi) = some (Utf8.encode "hi") := by
  decide +kernel

end Gzip

end Telemetry
