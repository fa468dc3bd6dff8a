import Telemetry.Proofs.Storage.BatchOutcomes
/-!
What becomes of a single put in a database, and what the name reads as right after it. The one
statement of a put is not asked whether it reached its row: an acknowledged put is stored unless the
table skips the row, and then the name reads as it did before. A batch of one entry refuses such a row.
-/

namespace Telemetry

open Storage

variable {α : Type}

instance (t : Table α) (name : String) : Decidable (t.Skips name) :=
  inferInstanceAs (Decidable (name ∈ if t.rows[name]?.isSome then t.skippedUpdates else t.skippedInserts))

def Table.writeRow (col : Column α) (t : Table α) (name : String) (value : α) : Table α :=
  if t.Skips name then t else t.fill col [(name, value)]

/-- What is promised of a put that found the table `r`, left `r'` and was answered `result`, where the
name was read as `before` and is now read as `after`. -/
structure PutOutcome (rule : Rule α) (name : String) (x : α) (r r' : Relation α)
    (before after : Except Error (Option α)) (result : Except Error Unit) : Prop where
  refused : ∀ e, result = .error e → r' = r
  accepted : result = .ok () ↔ rule.Valid name x ∧
    ∃ t old y, r = .table t ∧ t.rows[name]? = old.map some ∧ rule.Leaves old x y
  answered : result = .ok () → ∃ t old y, r = .table t ∧ before = .ok old ∧ rule.Leaves old x y ∧
    after = .ok (if t.Skips name then old else some y)
  skipped : ∀ t, r = .table t → t.Skips name → r' = r
  others : ∀ other, other ≠ name → r'.row? other = r.row? other

theorem NameMap.toList_single (name : String) (x : α) :
    (NameMap.ofEntries [(name, x)]).toList = [(name, x)] := by
  refine List.perm_singleton.mp ((List.perm_ext_iff_of_nodup ?_ (List.pairwise_singleton _ _)).mpr ?_)
  · exact (NameMap.distinct_toList _).imp fun h he => h (congrArg Prod.fst he)
  · intro e
    rw [Std.ExtTreeMap.mem_toList_iff_getElem?_eq_some, List.mem_singleton]
    change ((∅ : NameMap α).insert name x)[e.1]? = some e.2 ↔ e = (name, x)
    rw [NameMap.getElem?_insert]
    simp [Prod.ext_iff, eq_comm]

namespace Relation

variable {col : Column α} {rule : Rule α} {t : Table α} {r r' : Relation α} {name : String} {x : α}

theorem lookup_table_eq_ok_iff {old : Option α} :
    (Relation.table t).lookup col name = .ok old ↔ t.rows[name]? = old.map some := by
  cases hr : t.rows[name]? with
  | none => cases old <;> simp [lookup, hr]
  | some value => cases value <;> cases old <;> simp [lookup, hr]

theorem written_eq {old : Option α} (hold : t.rows[name]? = old.map some) (value : α) :
    (if old.isSome then t.updateRow col (name, value) else t.insertRow col (name, value)) =
      t.writeRow col name value := by
  cases old <;>
    simp [Table.writeRow, Table.Skips, hold, Table.updateRow, Table.insertRow, Table.fill, NameMap.putAll]

theorem put_eq_ok_iff : r.put col name x = .ok r' ↔ checkName name = .ok () ∧
    ∃ t old value, r = .table t ∧ t.rows[name]? = old.map some ∧
      col.combine name old x = .ok value ∧ .table (t.writeRow col name value) = r' := by
  rw [put, check_bind_eq_ok_iff]
  refine and_congr_right fun _ => ?_
  simp only [bind_eq_ok_iff]
  constructor
  · rintro ⟨old, hold, value, hvalue, h⟩
    cases r with
    | missing => cases h
    | barred => cases h
    | view => cases h
    | table t =>
      have found := lookup_table_eq_ok_iff.mp hold
      refine ⟨t, old, value, rfl, found, hvalue, ?_⟩
      rw [← written_eq found]
      exact pure_eq_ok_iff.mp h
  · rintro ⟨t, old, value, rfl, found, hvalue, rfl⟩
    refine ⟨old, lookup_table_eq_ok_iff.mpr found, value, hvalue, ?_⟩
    exact pure_eq_ok_iff.mpr (congrArg Relation.table (written_eq found value))

theorem put_found (h : r.put col name x = .ok r') : ∃ t, r = .table t := by
  obtain ⟨-, t, -, -, ht, -⟩ := put_eq_ok_iff.mp h
  exact ⟨t, ht⟩

theorem lookup_writeRow {old : Option α} {value : α} (hold : t.rows[name]? = old.map some) :
    (Relation.table (t.writeRow col name value)).lookup col name =
      .ok (if t.Skips name then old else some (col.form value)) := by
  by_cases skips : t.Skips name
  · rw [Table.writeRow, if_pos skips, if_pos skips]
    exact lookup_table_eq_ok_iff.mpr hold
  · rw [Table.writeRow, if_neg skips, if_neg skips, lookup_fill (List.pairwise_singleton _ _),
      NameMap.lookup_cons, if_pos rfl]

theorem row?_writeRow {other : String} (h : other ≠ name) (value : α) :
    (Relation.table (t.writeRow col name value)).row? other = (Relation.table t).row? other := by
  by_cases skips : t.Skips name
  · rw [Table.writeRow, if_pos skips]
  · rw [Table.writeRow, if_neg skips, row?, getElem?_fill (List.pairwise_singleton _ _),
      NameMap.lookup_cons, if_neg h.symm]
    rfl

theorem put_outcome (hg : rule.Governs col) (r : Relation α) (hv : checkName name = .ok () → rule.Valid name x) :
    PutOutcome rule name x r ((r.put col name x).toOption.getD r) (r.lookup col name)
      (((r.put col name x).toOption.getD r).lookup col name) ((r.put col name x).map fun _ => ()) := by
  cases h : r.put col name x with
  | error e =>
    constructor
    case refused => exact fun _ _ => rfl
    case accepted =>
      refine ⟨fun hok => (nomatch hok), ?_⟩
      rintro ⟨valid, t, old, y, rfl, found, leaves⟩
      -- The rule leaves something, so the column can hold it and the put is accepted.
      cases hc : col.combine name old x with
      | error d => exact absurd leaves ((hg.overflows hc).2 y)
      | ok value =>
        have accepted := put_eq_ok_iff.mpr ⟨hg.named valid, t, old, value, rfl, found, hc, rfl⟩
        cases h.symm.trans accepted
    case answered => exact fun hok => nomatch hok
    case skipped => exact fun _ _ _ => rfl
    case others => exact fun _ _ => rfl
  | ok r' =>
    obtain ⟨named, t, old, value, rfl, found, hc, rfl⟩ := put_eq_ok_iff.mp h
    have leaves := hg.leaves hc
    constructor
    case refused => exact fun _ he => nomatch he
    case accepted => exact ⟨fun _ => ⟨hv named, t, old, _, rfl, found, leaves⟩, fun _ => rfl⟩
    case answered =>
      intro _
      exact ⟨t, old, _, rfl, lookup_table_eq_ok_iff.mpr found, leaves, lookup_writeRow found⟩
    case skipped =>
      intro u hu skips
      obtain rfl := Relation.table.inj hu
      exact congrArg Relation.table (if_pos skips)
    case others => exact fun other hne => row?_writeRow hne value

theorem verdict_single (t : Table α) (name table : String) :
    Statement.verdict table (t.statements [name]) =
      if t.Skips name then .error (.consistency table 1 0) else .ok () := by
  have none (skipped : List String) : Statement.overRows [] skipped = [] := by
    rw [Statement.overRows, ← chunks_eq_parts (by decide)]
    simp [chunks]
  have one (skipped : List String) : Statement.overRows [name] skipped = [⟨[name], skipped⟩] := by
    rw [Statement.overRows, ← chunks_eq_parts (by decide)]
    simp [chunks]
  have alone (skipped : List String) : Statement.verdict table [⟨[name], skipped⟩] =
      if name ∈ skipped then .error (.consistency table 1 0) else .ok () := by
    by_cases hs : name ∈ skipped <;>
      simp [Statement.verdict, Statement.isShort, Statement.written, Statement.shortage, hs]
  rw [Table.statements, Table.statementsOver]
  cases hr : t.rows[name]? with
  | none =>
    have inserts : [name].filter (fun n => t.rows[n]?.isNone) = [name] := by
      simp only [List.filter_cons, hr, Option.isNone_none, if_true, List.filter_nil]
    have updates : [name].filter (fun n => t.rows[n]?.isSome) = [] := by
      simp only [List.filter_cons, hr, Option.isSome_none, Bool.false_eq_true, if_false, List.filter_nil]
    rw [inserts, updates, one, none, List.append_nil, alone]
    simp [Table.Skips, hr]
  | some old =>
    have inserts : [name].filter (fun n => t.rows[n]?.isNone) = [] := by
      simp only [List.filter_cons, hr, Option.isNone_some, Bool.false_eq_true, if_false, List.filter_nil]
    have updates : [name].filter (fun n => t.rows[n]?.isSome) = [name] := by
      simp only [List.filter_cons, hr, Option.isSome_some, if_true, List.filter_nil]
    rw [inserts, updates, one, none, List.nil_append, alone]
    simp [Table.Skips, hr]

/-- A batch of one entry does what a put of it does, and refuses a row that the put would lose. -/
theorem putBatch_single (t : Table α) (name : String) (x : α) :
    (Relation.table t).putBatch col (NameMap.ofEntries [(name, x)]) =
      (Relation.table t).put col name x >>= fun r' =>
        if t.Skips name then .error (.consistency col.table 1 0) else .ok r' := by
  have entries := NameMap.toList_single name x
  have filled : (NameMap.ofEntries [(name, x)]).isEmpty = false := by
    rw [← Std.ExtTreeMap.isEmpty_toList, entries]
    rfl
  have keys : (NameMap.ofEntries [(name, x)]).keys = [name] := by
    rw [← Std.ExtTreeMap.map_fst_toList_eq_keys, entries]
    rfl
  cases hn : checkName name with
  | error e =>
    simp only [putBatch, put, filled, Bool.false_eq_true, if_false, entries, forM_cons, hn]
    rfl
  | ok _ =>
    rw [putBatch_table (by simpa [entries] using hn), entries, keys, verdict_single, mapM_cons, put, hn]
    simp only [prepare, ok_bind]
    cases hl : (Relation.table t).lookup col name with
    | error e => rfl
    | ok old =>
      cases hc : col.combine name old x with
      | error e => simp only [ok_bind, hc]; rfl
      | ok value =>
        have found := lookup_table_eq_ok_iff.mp hl
        simp only [ok_bind, hc, written_eq found, pure_bind]
        by_cases skips : t.Skips name
        · rw [if_pos skips, if_pos skips]
          rfl
        · rw [if_neg skips, if_neg skips, Table.writeRow, if_neg skips]
          rfl

end Relation

theorem PutOutcome.of_refused {rule : Rule α} {name : String} {x : α} {e : Error} (r : Relation α)
    (read : Except Error (Option α)) (h : ¬rule.Valid name x) :
    PutOutcome rule name x r r read read (.error e) where
  refused _ _ := rfl
  accepted := ⟨fun hok => (nomatch hok), fun hv => absurd hv.1 h⟩
  answered hok := nomatch hok
  skipped _ _ _ := rfl
  others _ _ := rfl

namespace Connection

variable {c : Connection} {files : FileTree}

theorem putOutcome_apply {col : Column α} {rule : Rule α} {name : String} {x : α} (hg : rule.Governs col)
    (hv : checkName name = .ok () → rule.Valid name x) (r : Relation α) (set : Relation α → Database)
    (hs : set r = c.database files) (hr : ∀ t, r = .table t → c.database files ≠ .empty)
    {change : Except Error Database} (hc : (r.put col name x).map set = change) : ∃ r',
      (c.apply files change).2.1.database (c.apply files change).2.2 = set r' ∧
        PutOutcome rule name x r r' (r.lookup col name) (r'.lookup col name) (c.apply files change).1 := by
  subst hc
  have outcome := Relation.put_outcome hg r hv
  refine ⟨(r.put col name x).toOption.getD r, ?_, ?_⟩
  · rw [database_apply]
    · cases r.put col name x with
      | error e => exact hs.symm
      | ok r' => rfl
    · intro db hdb
      obtain ⟨t, ht⟩ : ∃ t, r = .table t := by
        cases h : r.put col name x with
        | error e => simp [h, Except.map] at hdb
        | ok r' => exact Relation.put_found h
      exact .inr (hr t ht)
  · rw [reply_apply]
    cases h : r.put col name x <;> simpa [h, Except.map] using outcome

theorem ne_empty_of_gauges {db : Database} {t : Table Binary64} (h : db.gauges = .table t) : db ≠ .empty := by
  rintro rfl
  cases h

theorem ne_empty_of_counters {db : Database} {t : Table Count} (h : db.counters = .table t) :
    db ≠ .empty := by
  rintro rfl
  cases h

/-- Both kinds of puts keep what is promised of them, and leave the other table alone. What is read
before and after is what a get of the name is answered. -/
theorem put_outcomes (c : Connection) (files : FileTree) (name : String) :
    (∀ x : Binary64,
      let o := c.perform files (.putGauge name x)
      PutOutcome .gauges name x (c.database files).gauges (o.2.1.database o.2.2).gauges
          (c.perform files (.getGauge name)).1 (o.2.1.perform o.2.2 (.getGauge name)).1 o.1 ∧
        (o.2.1.database o.2.2).counters = (c.database files).counters) ∧
    ∀ delta : Count,
      let o := c.perform files (.putCounter name delta)
      PutOutcome .counters name delta (c.database files).counters (o.2.1.database o.2.2).counters
          (c.perform files (.getCounter name)).1 (o.2.1.perform o.2.2 (.getCounter name)).1 o.1 ∧
        (o.2.1.database o.2.2).gauges = (c.database files).gauges := by
  constructor
  · intro x
    -- Gauges are checked before the database is asked.
    cases hc : checkGauge name x with
    | error e =>
      have refused : c.perform files (.putGauge name x) = (.error e, c, files) := by
        simp only [perform, Database.putGauge, hc]
        rfl
      rw [refused]
      refine ⟨.of_refused _ _ fun valid => ?_, rfl⟩
      cases (checkGauge_eq_ok_iff.mpr valid).symm.trans hc
    | ok _ =>
      have change : ((c.database files).gauges.put gaugeColumn name x).map
          (fun gauges => ⟨gauges, (c.database files).counters⟩) = (c.database files).putGauge name x := by
        rw [Database.putGauge, hc]
        cases (c.database files).gauges.put gaugeColumn name x <;> rfl
      have valid : Rule.gauges.Valid name x := checkGauge_eq_ok_iff.mp hc
      obtain ⟨gauges, after, outcome⟩ :=
        putOutcome_apply Rule.governs_gauges (fun _ => valid) _ _ rfl (fun _ => ne_empty_of_gauges) change
      have now := congrArg Database.gauges after
      have kept := congrArg Database.counters after
      dsimp only at now kept
      rw [← now] at outcome
      exact ⟨outcome, kept⟩
  · intro delta
    have change : ((c.database files).counters.put counterColumn name delta).map
        (fun counters => ⟨(c.database files).gauges, counters⟩) =
          (c.database files).putCounter name delta := by
      rw [Database.putCounter]
      cases (c.database files).counters.put counterColumn name delta <;> rfl
    obtain ⟨counters, after, outcome⟩ :=
      putOutcome_apply Rule.governs_counters checkName_eq_ok_iff.mp _ _ rfl
        (fun _ => ne_empty_of_counters) change
    have now := congrArg Database.counters after
    have kept := congrArg Database.gauges after
    dsimp only at now kept
    rw [← now] at outcome
    exact ⟨outcome, kept⟩

/-- No row of one name is let in, and nothing is said of it. -/
def deafTable : Table Binary64 := ⟨∅, ["Alloc"], []⟩

def deafDatabase : Database := ⟨.table deafTable, .missing⟩

theorem deaf_table_acknowledges_put :
    let o := perform (.own deafDatabase) (.empty "/") (.putGauge "Alloc" .zero)
    o.1 = .ok () ∧ (o.2.1.perform o.2.2 (.getGauge "Alloc")).1 = .ok none := by
  have outcome := ((put_outcomes (.own deafDatabase) (.empty "/") "Alloc").1 .zero).1
  have valid : Rule.gauges.Valid "Alloc" .zero := by
    constructor <;> decide +kernel
  have acknowledged := outcome.accepted.mpr ⟨valid, _, none, _, rfl, rfl, rfl⟩
  refine ⟨acknowledged, ?_⟩
  obtain ⟨t, old, y, found, before, -, after⟩ := outcome.answered acknowledged
  obtain rfl : deafTable = t := Relation.table.inj found
  have skips : deafTable.Skips "Alloc" := by decide +kernel
  obtain rfl : none = old := Except.ok.inj before
  rw [after, if_pos skips]

end Connection

end Telemetry
