import Telemetry.Proofs.Storage.Batches
/-!
The tables that hold a content: one readable row for each of its names, in the form of the column,
and no row that is skipped. Every call does to them what it does to the content in memory.
-/

namespace Telemetry

open Storage

variable {α : Type}

namespace Relation

def holding (col : Column α) (m : NameMap α) : Relation α :=
  .table ⟨m.map fun _ x => some (col.form x), [], []⟩

variable {col : Column α} {m : NameMap α}

theorem lookup_holding (name : String) :
    (holding col m).lookup col name = .ok (m[name]?.map col.form) := by
  simp only [holding, lookup, NameMap.getElem?_map]
  cases m[name]? <;> rfl

theorem put_holding (name : String) (x : α) : (holding col m).put col name x = (do
    checkName name
    let value ← col.combine name (m[name]?.map col.form) x
    return holding col (m.insert name value)) := by
  unfold put
  refine bind_congr fun _ => ?_
  rw [lookup_holding, ok_bind]
  refine bind_congr fun value => ?_
  have written : (m.insert name value).map (fun _ x => some (col.form x)) =
      (m.map fun _ x => some (col.form x)).insert name (some (col.form value)) := NameMap.map_insert ..
  simp only [holding, written]
  cases m[name]? <;> rfl

def combineRow (col : Column α) (m : NameMap α) (e : String × α) : Except Error (String × α) := do
  return (e.1, ← col.combine e.1 (m[e.1]?.map col.form) e.2)

theorem prepare_holding : (holding col m).prepare col =
    fun e => (combineRow col m e).map fun row => (m[row.1]?.isSome, row) := by
  funext e
  rw [prepare, lookup_holding, ok_bind, Option.isSome_map, combineRow]
  cases col.combine e.1 (m[e.1]?.map col.form) e.2 <;> rfl

theorem fill_holding (rows : List (String × α)) :
    Relation.table (Table.fill col ⟨m.map fun _ x => some (col.form x), [], []⟩ rows) =
      holding col (NameMap.putAll m rows) := by
  rw [holding, NameMap.map_putAll]
  rfl

/-- Without rows that are skipped a batch is accepted whatever its size, unless a name or a value in
it is refused. -/
theorem putBatch_holding (batch : NameMap α) : (holding col m).putBatch col batch = (do
    batch.toList.forM fun e => checkName e.1
    let rows ← batch.toList.mapM (combineRow col m)
    return holding col (NameMap.putAll m rows)) := by
  unfold putBatch
  by_cases hb : batch.isEmpty = true
  · have none : batch.toList = [] := by simpa [← Std.ExtTreeMap.isEmpty_toList] using hb
    rw [if_pos hb, none]
    rfl
  · rw [if_neg hb]
    refine bind_congr fun _ => ?_
    have prepared := mapM_map_results (combineRow col m)
      (fun row : String × α => (m[row.1]?.isSome, row)) batch.toList
    rw [prepare_holding, prepared]
    cases hrows : batch.toList.mapM (combineRow col m) with
    | error e => rfl
    | ok rows =>
      rw [hrows, ← prepare_holding] at prepared
      have distinct := distinct_prepared prepared batch.distinct_toList
      refine writeAll_eq_ok_iff.mpr
        ⟨_, rfl, fun _ _ => List.not_mem_nil, fun _ _ => List.not_mem_nil, ?_⟩
      have marked : (rows.map fun row => (m[row.1]?.isSome, row)).map Prod.snd = rows := by
        rw [List.map_map]
        exact List.map_id rows
      rw [fill_partition distinct, marked]
      exact fill_holding rows

theorem list_holding : (holding col m).list col =
    .ok (m.toList.map fun e => (e.1, col.form e.2)) := by
  have listed (entries : List (String × α)) :
      (entries.map fun e => (e.1, some (col.form e.2))).mapM (listRow col) =
        .ok (entries.map fun e => (e.1, col.form e.2)) := by
    induction entries with
    | nil => rfl
    | cons e entries ih => rw [List.map_cons, mapM_cons, ih]; rfl
  have rows : (m.map fun _ x => some (col.form x)).toList =
      m.toList.map fun e => (e.1, some (col.form e.2)) := Std.ExtTreeMap.toList_map
  rw [← listed, ← rows]
  rfl

end Relation

namespace Database

def holding (s : Snapshot) : Database :=
  ⟨.holding gaugeColumn s.gauges, .holding counterColumn s.counters⟩

variable {s : Snapshot}

theorem combineRow_gauge (m : NameMap Binary64) :
    Relation.combineRow gaugeColumn m = fun e => .ok e := rfl

theorem combineRow_counter : Relation.combineRow counterColumn s.counters = s.sumOf := by
  funext e
  have same : s.counters[e.1]?.map counterColumn.form = s.counters[e.1]? := by
    simp [counterColumn]
  rw [Relation.combineRow, same]
  rfl

theorem putGauge_holding (name : String) (x : Binary64) :
    (holding s).putGauge name x = (s.putGauge name x).map holding := by
  unfold putGauge Snapshot.putGauge checkGauge
  rw [holding, Relation.put_holding]
  cases checkName name with
  | error e => rfl
  | ok _ => cases x.isFinite <;> rfl

theorem putCounter_holding (name : String) (d : Count) :
    (holding s).putCounter name d = (s.putCounter name d).map holding := by
  have same : s.counters[name]?.map counterColumn.form = s.counters[name]? := by
    simp [counterColumn]
  unfold putCounter Snapshot.putCounter
  rw [holding, Relation.put_holding, same]
  cases checkName name with
  | error e => rfl
  | ok _ =>
    simp only [ok_bind, counterColumn]
    cases accumulate name s.counters[name]? d <;> rfl

theorem putGauges_holding (batch : NameMap Binary64) :
    (holding s).putGauges batch = (s.putGauges batch.toList).map holding := by
  unfold putGauges Snapshot.putGauges
  cases hc : batch.toList.forM fun e => checkGauge e.1 e.2 with
  | error e => rfl
  | ok _ =>
    have named : (batch.toList.forM fun e => checkName e.1) = .ok () := by
      rw [forM_eq_ok_iff]
      intro e he
      have checked := checkGauge_eq_ok_iff.mp (forM_eq_ok_iff.mp hc e he)
      exact checkName_eq_ok_iff.mpr checked.1
    rw [holding, Relation.putBatch_holding, combineRow_gauge, named, mapM_ok]
    rfl

theorem putCounters_holding (batch : NameMap Count) :
    (holding s).putCounters batch = (s.putCounters batch.toList).map holding := by
  unfold putCounters Snapshot.putCounters
  rw [holding, Relation.putBatch_holding, combineRow_counter]
  cases batch.toList.forM fun e => checkName e.1 with
  | error e => rfl
  | ok _ =>
    cases batch.toList.mapM s.sumOf <;> rfl

end Database

end Telemetry
