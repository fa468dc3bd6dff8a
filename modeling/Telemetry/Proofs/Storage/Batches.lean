import Telemetry.Proofs.Storage.Statements
/-!
Batches of rows. However many statements a batch is cut into, it is accepted as a whole if each of
them reaches all of its rows, and then the table holds a new row for every name of the batch and all
other rows as before.
-/

namespace Telemetry

open Storage

variable {α : Type}

namespace Relation

variable {col : Column α} {t : Table α} {r r' : Relation α}

theorem writeAll_eq_ok_iff {inserts updates : List (String × α)} :
    r.writeAll col inserts updates = .ok r' ↔ ∃ t, r = .table t ∧
      (∀ e ∈ inserts, e.1 ∉ t.skippedInserts) ∧ (∀ e ∈ updates, e.1 ∉ t.skippedUpdates) ∧
        .table ((t.fill col inserts).fill col updates) = r' := by
  cases r with
  | missing => simp [writeAll]
  | barred => simp [writeAll]
  | view => simp [writeAll]
  | table t =>
    have reached : Statement.verdict col.table
        (t.statementsOver (inserts.map Prod.fst) (updates.map Prod.fst)) = .ok () ↔
          (∀ e ∈ inserts, e.1 ∉ t.skippedInserts) ∧ ∀ e ∈ updates, e.1 ∉ t.skippedUpdates := by
      rw [Statement.verdict_eq_ok_iff, Table.exists_isShort_over]
      simp only [not_or, not_exists, not_and, List.forall_mem_map]
    rw [writeAll_table, check_map_eq_ok_iff, reached, and_assoc]
    simp only [Relation.table.injEq, exists_eq_left']

theorem fill_partition {rows : List (Bool × String × α)}
    (h : NameMap.Distinct (rows.map Prod.snd)) :
    (t.fill col ((rows.filter fun row => !row.1).map Prod.snd)).fill col
      ((rows.filter fun row => row.1).map Prod.snd) = t.fill col (rows.map Prod.snd) := by
  have parts : (rows.map Prod.snd).Perm ((rows.filter fun row => !row.1).map Prod.snd ++
      (rows.filter fun row => row.1).map Prod.snd) := by
    rw [← List.map_append]
    refine List.Perm.map _ ((List.filter_append_perm (fun row => row.1) rows).symm.trans ?_)
    exact List.perm_append_comm
  rw [← Table.fill_append]
  unfold Table.fill
  rw [NameMap.putAll_perm (h.map _) (parts.map _)]

theorem prepare_eq_ok_iff {e : String × α} {row : Bool × String × α} :
    r.prepare col e = .ok row ↔ ∃ old, r.lookup col e.1 = .ok old ∧
      row.1 = old.isSome ∧ row.2.1 = e.1 ∧ col.combine e.1 old e.2 = .ok row.2.2 := by
  simp only [prepare, bind_eq_ok_iff, pure_eq_ok_iff]
  constructor
  · rintro ⟨old, hold, v, hv, rfl⟩
    exact ⟨old, hold, rfl, rfl, hv⟩
  · rintro ⟨old, hold, h1, h2, hv⟩
    exact ⟨old, hold, row.2.2, hv, by rw [← h1, ← h2]⟩

theorem names_prepared {entries : List (String × α)} {rows : List (Bool × String × α)}
    (h : entries.mapM (r.prepare col) = .ok rows) :
    (rows.map Prod.snd).map Prod.fst = entries.map Prod.fst := by
  have hf := mapM_eq_ok_iff.mp h
  clear h
  induction hf with
  | nil => rfl
  | cons he _ ih =>
    obtain ⟨-, -, -, hname, -⟩ := prepare_eq_ok_iff.mp he
    simp only [List.map_cons, hname, ih]

theorem distinct_prepared {entries : List (String × α)} {rows : List (Bool × String × α)}
    (h : entries.mapM (r.prepare col) = .ok rows) (hd : NameMap.Distinct entries) :
    NameMap.Distinct (rows.map Prod.snd) := by
  have distinct : (entries.map Prod.fst).Pairwise (· ≠ ·) := List.pairwise_map.mpr hd
  rw [← names_prepared h] at distinct
  exact List.pairwise_map.mp distinct

theorem putBatch_eq_ok_iff {batch : NameMap α} (hne : batch.isEmpty = false) :
    r.putBatch col batch = .ok r' ↔ (∀ e ∈ batch.toList, checkName e.1 = .ok ()) ∧
      ∃ t rows, r = .table t ∧ batch.toList.mapM (r.prepare col) = .ok rows ∧
        (∀ row ∈ rows, row.2.1 ∉ if row.1 then t.skippedUpdates else t.skippedInserts) ∧
        .table (t.fill col (rows.map Prod.snd)) = r' := by
  have skips (t : Table α) (rows : List (Bool × String × α)) :
      ((∀ e ∈ (rows.filter fun row => !row.1).map Prod.snd, e.1 ∉ t.skippedInserts) ∧
        ∀ e ∈ (rows.filter fun row => row.1).map Prod.snd, e.1 ∉ t.skippedUpdates) ↔
      ∀ row ∈ rows, row.2.1 ∉ if row.1 then t.skippedUpdates else t.skippedInserts := by
    simp only [List.forall_mem_map, List.mem_filter, and_imp, ← forall_and]
    refine forall_congr' fun row => forall_congr' fun _ => ?_
    cases row.1 <;> simp
  simp only [putBatch, hne, Bool.false_eq_true, if_false]
  rw [check_bind_eq_ok_iff, forM_eq_ok_iff]
  refine and_congr_right fun _ => ?_
  simp only [bind_eq_ok_iff, writeAll_eq_ok_iff]
  constructor
  · rintro ⟨rows, hrows, t, ht, hi, hu, hr⟩
    rw [fill_partition (distinct_prepared hrows batch.distinct_toList)] at hr
    exact ⟨t, rows, ht, hrows, (skips t rows).mp ⟨hi, hu⟩, hr⟩
  · rintro ⟨t, rows, ht, hrows, hs, hr⟩
    obtain ⟨hi, hu⟩ := (skips t rows).mpr hs
    rw [← fill_partition (distinct_prepared hrows batch.distinct_toList)] at hr
    exact ⟨rows, hrows, t, ht, hi, hu, hr⟩

/-- Rows with names of their own are found where they were written, all others where they were. -/
theorem getElem?_fill {rows : List (String × α)} (h : NameMap.Distinct rows) (name : String) :
    (t.fill col rows).rows[name]? =
      ((rows.lookup name).map fun x => some (col.form x)).or t.rows[name]? := by
  rw [Table.fill, NameMap.getElem?_putAll_of_distinct (h.map _),
    NameMap.lookup_map fun _ x => some (col.form x)]

theorem lookup_fill {rows : List (String × α)} (h : NameMap.Distinct rows) (name : String) :
    (Relation.table (t.fill col rows)).lookup col name =
      match rows.lookup name with
      | some x => .ok (some (col.form x))
      | none => (Relation.table t).lookup col name := by
  simp only [lookup, getElem?_fill h]
  cases rows.lookup name <;> rfl

theorem lookup_of_putBatch {batch : NameMap α} (hne : batch.isEmpty = false)
    (h : r.putBatch col batch = .ok r') {name : String} (hn : name ∈ batch.keys) :
    ∃ x, r'.lookup col name = .ok (some x) := by
  obtain ⟨-, t, rows, -, hrows, -, rfl⟩ := (putBatch_eq_ok_iff hne).mp h
  have hd := distinct_prepared hrows batch.distinct_toList
  have listed : name ∈ (rows.map Prod.snd).map Prod.fst := by
    rw [names_prepared hrows, Std.ExtTreeMap.map_fst_toList_eq_keys]
    exact hn
  obtain ⟨⟨n, x⟩, he, rfl⟩ := List.mem_map.mp listed
  exact ⟨col.form x, by rw [lookup_fill hd, (NameMap.lookup_eq_some_iff hd).mpr he]⟩

theorem lookup_error {name : String} {e : Error} (h : r.lookup col name = .error e) :
    e = .backend col.table .query := by
  unfold lookup at h
  grind

theorem prepare_error {row : String × α} {e : Error} (h : r.prepare col row = .error e) :
    e = .backend col.table .query ∨ ∃ old, col.combine row.1 old row.2 = .error e := by
  rw [prepare, bind_eq_error_iff] at h
  rcases h with h | ⟨old, -, h⟩
  · exact .inl (lookup_error h)
  · rw [bind_eq_error_iff] at h
    rcases h with h | ⟨v, -, h⟩
    · exact .inr ⟨old, h⟩
    · exact absurd h pure_ne_error

theorem writeAll_error {inserts updates : List (String × α)} {e : Error}
    (h : r.writeAll col inserts updates = .error e) : e.isFault = true := by
  cases r with
  | missing => exact Except.error.inj h ▸ rfl
  | barred => exact Except.error.inj h ▸ rfl
  | view => exact Except.error.inj h ▸ rfl
  | table t =>
    rw [writeAll_table] at h
    cases hv : Statement.verdict col.table
        (t.statementsOver (inserts.map Prod.fst) (updates.map Prod.fst)) with
    | ok _ =>
      rw [hv] at h
      cases h
    | error d =>
      rw [hv] at h
      obtain rfl : d = e := Except.error.inj h
      obtain ⟨_, _, rfl⟩ := Statement.verdict_error hv
      rfl

/-- A batch fails for the name or the value of one of its rows, or the database fails it. -/
theorem putBatch_error {batch : NameMap α} {e : Error} (h : r.putBatch col batch = .error e) :
    (∃ row ∈ batch.toList, checkName row.1 = .error e) ∨
      (∃ name old x, col.combine name old x = .error e) ∨ e.isFault = true := by
  unfold putBatch at h
  by_cases hb : batch.isEmpty = true
  · simp [hb] at h
  · simp only [hb, Bool.false_eq_true, if_false, bind_eq_error_iff] at h
    rcases h with h | ⟨_, -, h | ⟨rows, -, h⟩⟩
    · exact .inl (error_of_forM h)
    · obtain ⟨row, _, h⟩ := error_of_mapM h
      rcases prepare_error h with rfl | ⟨old, h⟩
      · exact .inr (.inr rfl)
      · exact .inr (.inl ⟨row.1, old, row.2, h⟩)
    · exact .inr (.inr (writeAll_error h))

end Relation

namespace Database

variable {db db' : Database} {e : Error}

theorem putCounters_eq_ok_iff {batch : NameMap Count} : db.putCounters batch = .ok db' ↔
    ∃ counters, db.counters.putBatch counterColumn batch = .ok counters ∧
      { db with counters } = db' := by
  simp only [putCounters, bind_eq_ok_iff, pure_eq_ok_iff]

theorem putGauges_eq_ok_iff {batch : NameMap Binary64} : db.putGauges batch = .ok db' ↔
    (∀ e ∈ batch.toList, checkGauge e.1 e.2 = .ok ()) ∧
      ∃ gauges, db.gauges.putBatch gaugeColumn batch = .ok gauges ∧ { db with gauges } = db' := by
  rw [putGauges, check_bind_eq_ok_iff, forM_eq_ok_iff]
  simp only [bind_eq_ok_iff, pure_eq_ok_iff]

theorem putCounters_error {batch : NameMap Count} (h : db.putCounters batch = .error e) :
    e.isRefusal = true ∨ e.isFault = true := by
  rw [putCounters, bind_eq_error_iff] at h
  rcases h with h | ⟨_, -, h⟩
  · rcases Relation.putBatch_error h with ⟨_, _, h⟩ | ⟨_, _, _, h⟩ | h
    · exact .inl (by rw [checkName_error h]; rfl)
    · exact .inl (by rw [accumulate_error h]; rfl)
    · exact .inr h
  · exact absurd h pure_ne_error

theorem putGauges_error {batch : NameMap Binary64}
    (hc : ∀ e ∈ batch.toList, checkGauge e.1 e.2 = .ok ()) (h : db.putGauges batch = .error e) :
    e.isFault = true := by
  rw [putGauges, forM_eq_ok_iff.mpr hc] at h
  rcases bind_eq_error_iff.mp h with h | ⟨_, -, h⟩
  · cases h
  rcases bind_eq_error_iff.mp h with h | ⟨_, -, h⟩
  · rcases Relation.putBatch_error h with ⟨row, hr, h⟩ | ⟨_, _, _, h⟩ | h
    · have named := checkGauge_eq_ok_iff.mp (hc row hr)
      rw [checkName_eq_ok_iff.mpr named.1] at h
      cases h
    · cases h
    · exact h
  · exact absurd h pure_ne_error

end Database

end Telemetry
