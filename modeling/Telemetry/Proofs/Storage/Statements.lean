import Telemetry.Proofs.Storage.Updates
/-!
The statements that a batch is cut into, by the names of their rows: parts of five hundred, first of
the rows that are new and then of the rows that are there. A batch whose rows are all prepared fails
with the first statement that does not reach all of its rows, and is written if there is none.
-/

namespace Telemetry

open Storage

variable {α β : Type}

theorem flatten_chunks (size : Nat) (xs : List α) : (chunks size xs).flatten = xs := by
  induction xs using chunks.induct size with
  | case1 => simp [chunks]
  | case2 x xs ih => rw [chunks, List.flatten_cons, ih, List.cons_append, List.take_append_drop]

theorem size_of_mem_chunks {size : Nat} {xs chunk : List α} (h : chunk ∈ chunks size xs) :
    chunk ≠ [] ∧ chunk.length ≤ max size 1 := by
  induction xs using chunks.induct size with
  | case1 => simp [chunks] at h
  | case2 x xs ih =>
    rw [chunks, List.mem_cons] at h
    rcases h with rfl | later
    · refine ⟨List.cons_ne_nil _ _, ?_⟩
      rw [List.length_cons, List.length_take]
      omega
    · exact ih later

theorem chunks_map (size : Nat) (f : α → β) (xs : List α) :
    chunks size (xs.map f) = (chunks size xs).map (List.map f) := by
  induction xs using chunks.induct size with
  | case1 => simp [chunks]
  | case2 x xs ih =>
    rw [List.map_cons, chunks, chunks, List.map_cons, ← List.map_drop, ← List.map_take, ih]
    rfl

def parts (size : Nat) (xs : List α) : List (List α) :=
  (List.range ((xs.length + size - 1) / size)).map fun i => (xs.drop (size * i)).take size

theorem chunks_eq_parts {size : Nat} (hs : 0 < size) (xs : List α) : chunks size xs = parts size xs := by
  induction xs using chunks.induct size with
  | case1 =>
    have none : (0 + size - 1) / size = 0 := Nat.div_eq_of_lt (by omega)
    rw [chunks, parts, List.length_nil, none]
    rfl
  | case2 x xs ih =>
    obtain ⟨k, rfl⟩ : ∃ k, size = k + 1 := ⟨size - 1, by omega⟩
    have count : ((x :: xs).length + (k + 1) - 1) / (k + 1) =
        ((xs.drop k).length + (k + 1) - 1) / (k + 1) + 1 := by
      rw [List.length_cons, List.length_drop]
      by_cases hk : k ≤ xs.length
      · rw [← Nat.add_div_right _ (by omega)]
        congr 1
        omega
      · have small : xs.length - k = 0 := by omega
        rw [small, Nat.div_eq_of_lt (by omega : 0 + (k + 1) - 1 < k + 1)]
        refine Nat.div_eq_of_lt_le ?_ ?_ <;> omega
    -- Every later part starts one part further on.
    rw [chunks, ih, parts, parts, count, List.range_succ_eq_map, List.map_cons, List.map_map]
    congr 1
    refine List.map_congr_left fun i _ => ?_
    have shift : (k + 1) * (i + 1) = (k + (k + 1) * i) + 1 := by
      rw [Nat.mul_succ]
      omega
    simp only [Function.comp_apply, Nat.succ_eq_add_one, shift, List.drop_succ_cons, List.drop_drop,
      Nat.add_sub_cancel]

theorem mem_parts {xs : List α} {x : α} : (∃ p ∈ parts 500 xs, x ∈ p) ↔ x ∈ xs := by
  rw [← chunks_eq_parts (by decide), ← List.mem_flatten, flatten_chunks]

/-- A statement: the names of its rows, and those that the table skips. -/
structure Statement where
  names : List String
  skipped : List String

namespace Statement

def written (s : Statement) : List String := s.names.filter (· ∉ s.skipped)

def isShort (s : Statement) : Bool := s.written.length ≠ s.names.length

theorem isShort_iff {s : Statement} : s.isShort = true ↔ ∃ name ∈ s.names, name ∈ s.skipped := by
  simp only [isShort, ne_eq, decide_eq_true_eq, written, List.length_filter_eq_length_iff]
  simp

def shortage (table : String) (s : Statement) : Error :=
  .consistency table s.names.length s.written.length

def overRows (names skipped : List String) : List Statement := (parts 500 names).map (⟨·, skipped⟩)

/-- The first statement that is short decides. -/
def verdict (table : String) (statements : List Statement) : Except Error Unit :=
  match statements.find? isShort with
  | some s => .error (s.shortage table)
  | none => .ok ()

theorem verdict_append (table : String) (ss more : List Statement) :
    verdict table (ss ++ more) = verdict table ss >>= fun _ => verdict table more := by
  unfold verdict
  rw [List.find?_append]
  cases ss.find? isShort <;> rfl

theorem verdict_eq_ok_iff {table : String} {ss : List Statement} :
    verdict table ss = .ok () ↔ ¬∃ s ∈ ss, s.isShort = true := by
  unfold verdict
  rw [← List.find?_isSome]
  cases ss.find? isShort <;> simp

theorem verdict_error {table : String} {ss : List Statement} {e : Error}
    (h : verdict table ss = .error e) : ∃ expected affected, e = .consistency table expected affected := by
  unfold verdict at h
  split at h
  · exact ⟨_, _, (Except.error.inj h).symm⟩
  · cases h

theorem verdict_consistency_iff {table : String} {ss : List Statement} :
    (∃ expected affected, verdict table ss = .error (.consistency table expected affected)) ↔
      ∃ s ∈ ss, s.isShort = true := by
  unfold verdict
  rw [← List.find?_isSome]
  cases ss.find? isShort with
  | none => simp
  | some s => simp [shortage]

theorem exists_isShort_overRows {names skipped : List String} :
    (∃ s ∈ overRows names skipped, s.isShort = true) ↔ ∃ name ∈ names, name ∈ skipped := by
  constructor
  · rintro ⟨s, hs, short⟩
    obtain ⟨p, hp, rfl⟩ := List.mem_map.mp hs
    obtain ⟨name, hn, hk⟩ := isShort_iff.mp short
    exact ⟨name, mem_parts.mp ⟨p, hp, hn⟩, hk⟩
  · rintro ⟨name, hn, hk⟩
    obtain ⟨p, hp, hn⟩ := mem_parts.mpr hn
    exact ⟨⟨p, skipped⟩, List.mem_map_of_mem hp, isShort_iff.mpr ⟨name, hn, hk⟩⟩

end Statement

namespace Table

variable {col : Column α} {t u : Table α} {skipped : List String}
  {write : Table α → String × α → Table α}

def fill (col : Column α) (t : Table α) (rows : List (String × α)) : Table α :=
  { t with rows := NameMap.putAll t.rows (rows.map fun e => (e.1, some (col.form e.2))) }

theorem skippedUpdates_fill (rows : List (String × α)) :
    (t.fill col rows).skippedUpdates = t.skippedUpdates := rfl

theorem fill_append (rows more : List (String × α)) :
    t.fill col (rows ++ more) = (t.fill col rows).fill col more := by
  simp [fill, NameMap.putAll]

def Writes (col : Column α) (skipped : List String) (write : Table α → String × α → Table α)
    (t : Table α) : Prop :=
  ∀ rows (e : String × α), e.1 ∉ skipped → write { t with rows } e = fill col { t with rows } [e]

theorem Writes.foldl {chunk : List (String × α)} (hw : Writes col skipped write t)
    (h : ∀ e ∈ chunk, e.1 ∉ skipped) : chunk.foldl write t = t.fill col chunk := by
  induction chunk generalizing t with
  | nil => rfl
  | cons e chunk ih =>
    obtain ⟨he, h⟩ := List.forall_mem_cons.mp h
    rw [List.foldl_cons, hw t.rows e he]
    exact ih (t := t.fill col [e]) hw h

theorem writes_insertRow (t : Table α) : Writes col t.skippedInserts (insertRow col) t :=
  fun rows e h => by simp [insertRow, h, fill, NameMap.putAll]

theorem writes_updateRow (t : Table α) : Writes col t.skippedUpdates (updateRow col) t :=
  fun rows e h => by simp [updateRow, h, fill, NameMap.putAll]

theorem statement_eq (chunk : List (String × α)) :
    statement col skipped write t chunk =
      if (Statement.mk (chunk.map Prod.fst) skipped).isShort then
        .error ((Statement.mk (chunk.map Prod.fst) skipped).shortage col.table)
      else .ok (chunk.foldl write t) := by
  have reached : (chunk.filter fun e => !skipped.contains e.1).length =
      (Statement.mk (chunk.map Prod.fst) skipped).written.length := by
    rw [Statement.written, List.filter_map, List.length_map]
    congr 2
    funext e
    simp
  rw [statement, reached, Statement.isShort, Statement.shortage]
  by_cases h : (Statement.mk (chunk.map Prod.fst) skipped).written.length = chunk.length
  · simp [h]
  · simp [h]

theorem Writes.foldlM_eq (hw : Writes col skipped write t) (cs : List (List (String × α))) :
    cs.foldlM (statement col skipped write) t =
      (Statement.verdict col.table (cs.map fun c => ⟨c.map Prod.fst, skipped⟩)).map
        fun _ => t.fill col cs.flatten := by
  induction cs generalizing t with
  | nil => rfl
  | cons chunk cs ih =>
    rw [List.foldlM_cons, statement_eq, List.map_cons, Statement.verdict, List.find?_cons]
    cases hs : (Statement.mk (chunk.map Prod.fst) skipped).isShort with
    | true => rfl
    | false =>
      have all : ∀ e ∈ chunk, e.1 ∉ skipped := by
        intro e he hm
        have short : (Statement.mk (chunk.map Prod.fst) skipped).isShort = true :=
          Statement.isShort_iff.mpr ⟨e.1, List.mem_map_of_mem he, hm⟩
        rw [hs] at short
        cases short
      simp only [Bool.false_eq_true, if_false, ok_bind, List.flatten_cons, fill_append]
      rw [hw.foldl all]
      exact ih (t := t.fill col chunk) hw

theorem Writes.chunks_eq (hw : Writes col skipped write t) (rows : List (String × α)) :
    (chunks rowsPerStatement rows).foldlM (statement col skipped write) t =
      (Statement.verdict col.table (Statement.overRows (rows.map Prod.fst) skipped)).map
        fun _ => t.fill col rows := by
  have named : (chunks rowsPerStatement rows).map (fun c => Statement.mk (c.map Prod.fst) skipped) =
      Statement.overRows (rows.map Prod.fst) skipped := by
    rw [Statement.overRows, ← chunks_eq_parts (by decide), chunks_map, List.map_map]
    rfl
  rw [hw.foldlM_eq, named, flatten_chunks]

/-- Whether the rows of a name are skipped, in the way in which they would be written. -/
def Skips (t : Table α) (name : String) : Prop :=
  name ∈ if t.rows[name]?.isSome then t.skippedUpdates else t.skippedInserts

def statementsOver (t : Table α) (inserts updates : List String) : List Statement :=
  Statement.overRows inserts t.skippedInserts ++ Statement.overRows updates t.skippedUpdates

/-- The statements of a batch with these names, in their order. -/
def statements (t : Table α) (names : List String) : List Statement :=
  t.statementsOver (names.filter fun name => t.rows[name]?.isNone)
    (names.filter fun name => t.rows[name]?.isSome)

theorem exists_isShort_over {inserts updates : List String} :
    (∃ s ∈ t.statementsOver inserts updates, s.isShort = true) ↔
      (∃ name ∈ inserts, name ∈ t.skippedInserts) ∨ ∃ name ∈ updates, name ∈ t.skippedUpdates := by
  simp only [statementsOver, List.mem_append, or_and_right, exists_or, Statement.exists_isShort_overRows]

theorem exists_isShort_iff {names : List String} :
    (∃ s ∈ t.statements names, s.isShort = true) ↔ ∃ name ∈ names, t.Skips name := by
  simp only [statements, exists_isShort_over, List.mem_filter, and_assoc, ← exists_or, ← and_or_left]
  refine exists_congr fun name => and_congr_right fun _ => ?_
  cases hr : t.rows[name]? <;> simp [Skips, hr]

end Table

namespace Relation

variable {col : Column α} {t : Table α} {inserts updates : List (String × α)}

theorem writeAll_table : (Relation.table t).writeAll col inserts updates =
    (Statement.verdict col.table (t.statementsOver (inserts.map Prod.fst) (updates.map Prod.fst))).map
      fun _ => .table ((t.fill col inserts).fill col updates) := by
  -- The second group finds what the first one left, but skips what the table skipped before.
  have writes : Table.Writes col _ (Table.updateRow col) (t.fill col inserts) :=
    Table.writes_updateRow _
  have second := writes.chunks_eq updates
  rw [Table.skippedUpdates_fill] at second
  rw [writeAll, (Table.writes_insertRow t).chunks_eq, Table.statementsOver, Statement.verdict_append]
  cases Statement.verdict col.table (Statement.overRows (inserts.map Prod.fst) t.skippedInserts) with
  | error e => rfl
  | ok _ =>
    simp only [Except.map, ok_bind, Table.skippedUpdates_fill, second]
    cases Statement.verdict col.table (Statement.overRows (updates.map Prod.fst) t.skippedUpdates) <;> rfl

end Relation

end Telemetry
