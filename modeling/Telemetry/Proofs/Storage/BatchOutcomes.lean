import Telemetry.Proofs.Storage.Connections
import Telemetry.Proofs.Storage.Statements
import Telemetry.Proofs.Text.ByteOrder
/-!
What becomes of a batch in a database, whatever its tables hold. It is written as a whole or leaves
every row as it was. The first name in the order of bytes whose row is unreadable or whose sum
overflows decides about the error; without such a name, the first statement that does not reach all
of its rows.
-/

namespace Telemetry

open Storage

variable {α : Type}

/-- What is asked of an entry, and what it leaves in a row: from the value before, if there is one,
and the incoming value. -/
structure Rule (α : Type) where
  Valid : String → α → Prop
  Leaves : Option α → α → α → Prop

namespace Rule

def gauges : Rule Binary64 where
  Valid name x := isBlankText name = false ∧ x.isFinite = true
  Leaves _ x y := y = x.dropZeroSign

def counters : Rule Count where
  Valid name _ := isBlankText name = false
  Leaves old delta y := y.val = (old.map Count.val).getD 0 + delta.val

/-- No value of the column is what the entry would leave. -/
def Overflows (rule : Rule α) (old : Option α) (x : α) : Prop := ∀ y, ¬rule.Leaves old x y

def Admits (rule : Rule α) (batch : NameMap α) : Prop :=
  ∀ name x, batch[name]? = some x → rule.Valid name x

structure Governs (rule : Rule α) (col : Column α) : Prop where
  named : ∀ {name x}, rule.Valid name x → checkName name = .ok ()
  leaves : ∀ {name old x y}, col.combine name old x = .ok y → rule.Leaves old x (col.form y)
  overflows : ∀ {name old x e}, col.combine name old x = .error e →
    e = .counterOverflow name ∧ rule.Overflows old x

theorem governs_gauges : gauges.Governs gaugeColumn where
  named h := checkName_eq_ok_iff.mpr h.1
  leaves h := congrArg Binary64.dropZeroSign (Except.ok.inj h).symm
  overflows h := nomatch h

theorem governs_counters : counters.Governs counterColumn where
  named h := checkName_eq_ok_iff.mpr h
  leaves h := accumulate_eq_ok_iff.mp h
  overflows {name old x e} h := by
    refine ⟨accumulate_error h, fun y hy => ?_⟩
    have fits : accumulate name old x = .ok y := accumulate_eq_ok_iff.mpr hy
    exact nomatch fits.symm.trans h

end Rule

def Relation.row? (r : Relation α) (name : String) : Option (Option α) :=
  match r with
  | .table t => t.rows[name]?
  | _ => none

/-- Why the entry of a name cannot be written, and the error that says so. -/
inductive Obstacle (col : Column α) (rule : Rule α) (batch : NameMap α) (t : Table α)
    (name : String) : Error → Prop where
  | unreadable {x} (hx : batch[name]? = some x) (hr : t.rows[name]? = some none) :
    Obstacle col rule batch t name (.backend col.table .query)
  | overflow {x old} (hx : batch[name]? = some x) (hr : t.rows[name]? = old.map some)
    (ho : rule.Overflows old x) : Obstacle col rule batch t name (.counterOverflow name)

theorem Obstacle.listed {col : Column α} {rule : Rule α} {batch : NameMap α} {t : Table α}
    {name : String} {e : Error} (h : Obstacle col rule batch t name e) :
    ∃ x, batch[name]? = some x := by
  cases h with
  | unreadable hx _ => exact ⟨_, hx⟩
  | overflow hx _ _ => exact ⟨_, hx⟩

/-- What is promised of a batch that found the table `r`, left `r'` and was answered `result`. -/
structure Outcome (col : Column α) (rule : Rule α) (batch : NameMap α) (r r' : Relation α)
    (result : Except Error Unit) : Prop where
  refused : ∀ e, result = .error e → r' = r
  written : result = .ok () → ∀ name x, batch[name]? = some x → ∃ old y,
    r.lookup col name = .ok old ∧ rule.Leaves old x y ∧ r'.lookup col name = .ok (some y)
  kept : result = .ok () → ∀ name, batch[name]? = none → r'.row? name = r.row? name
  smallest : ∀ t, r = .table t → rule.Admits batch →
    (∃ name e, Obstacle col rule batch t name e) →
      ∃ name e, Obstacle col rule batch t name e ∧ result = .error e ∧
        ∀ other d, Obstacle col rule batch t other d →
          other = name ∨ Utf8.encode name < Utf8.encode other
  short : ∀ t, r = .table t → rule.Admits batch →
    (∀ name e, ¬Obstacle col rule batch t name e) →
      batch.keys.Pairwise (fun a b => Utf8.encode a < Utf8.encode b) ∧
        result = Statement.verdict col.table (t.statements batch.keys) ∧
        ((∃ expected affected, result = .error (.consistency col.table expected affected)) ↔
          ∃ name ∈ batch.keys, t.Skips name)

namespace Relation

variable {col : Column α} {rule : Rule α} {batch : NameMap α} {t : Table α} {r : Relation α}

theorem prepare_error_iff (hg : rule.Governs col) {name : String} {x : α} {e : Error}
    (hx : batch[name]? = some x) : (Relation.table t).prepare col (name, x) = .error e ↔
      Obstacle col rule batch t name e := by
  -- Where the row can be read, or there is none, only combining can fail.
  have readable (old : Option α) (hr : t.rows[name]? = old.map some) :
      (Relation.table t).prepare col (name, x) = .error e ↔ Obstacle col rule batch t name e := by
    have found : (Relation.table t).lookup col name = .ok old := by
      cases old <;> simp only [lookup, hr] <;> rfl
    rw [prepare, found, ok_bind, bind_eq_error_iff]
    simp only [pure_ne_error, and_false, exists_false, or_false]
    constructor
    · intro he
      obtain ⟨rfl, beyond⟩ := hg.overflows he
      exact .overflow hx hr beyond
    · intro obstacle
      cases obstacle with
      | unreadable _ hr' => cases old <;> simp [hr] at hr'
      | @overflow y before hy hr' beyond =>
        obtain rfl : x = y := Option.some.inj (hx.symm.trans hy)
        obtain rfl : old = before :=
          (Option.map_inj_right fun _ _ => Option.some.inj).mp (hr.symm.trans hr')
        cases hc : col.combine name old x with
        | ok z => exact absurd (hg.leaves hc) (beyond _)
        | error d => rw [(hg.overflows hc).1]
  cases hr : t.rows[name]? with
  | none => exact readable none hr
  | some row =>
    cases row with
    | some old => exact readable (some old) hr
    | none =>
      rw [prepare, lookup]
      simp only [hr]
      constructor
      · intro he
        cases he
        exact .unreadable hx hr
      · intro obstacle
        cases obstacle with
        | unreadable => rfl
        | @overflow _ old _ hr' _ => cases old <;> simp [hr] at hr'

theorem prepared_names {rows : List (Bool × String × α)}
    (h : batch.toList.mapM ((Relation.table t).prepare col) = .ok rows) :
    ((rows.filter fun row => !row.1).map Prod.snd).map Prod.fst =
        batch.keys.filter (fun name => t.rows[name]?.isNone) ∧
      ((rows.filter fun row => row.1).map Prod.snd).map Prod.fst =
        batch.keys.filter (fun name => t.rows[name]?.isSome) := by
  have marked : ∀ row ∈ rows, row.1 = t.rows[row.2.1]?.isSome := by
    intro row hrow
    obtain ⟨e, -, he⟩ := (results_of_mapM h).2 row hrow
    obtain ⟨old, hold, hmark, hname, -⟩ := prepare_eq_ok_iff.mp he
    rw [hmark, hname]
    cases hr : t.rows[e.1]? with
    | none =>
      obtain rfl : none = old := by simpa [lookup, hr] using hold
      rfl
    | some value =>
      cases value with
      | none => simp [lookup, hr] at hold
      | some x =>
        obtain rfl : some x = old := by simpa [lookup, hr] using hold
        rfl
  have names : batch.keys = rows.map fun row => row.2.1 := by
    rw [← Std.ExtTreeMap.map_fst_toList_eq_keys, ← names_prepared h, List.map_map]
    rfl
  rw [names, List.filter_map, List.filter_map, List.map_map, List.map_map]
  constructor
  · refine congrArg (List.map _) (List.filter_congr fun row hrow => ?_)
    simp [marked row hrow]
  · refine congrArg (List.map _) (List.filter_congr fun row hrow => ?_)
    exact marked row hrow

theorem smallest_of_prepare_error (hg : rule.Governs col) {e : Error}
    (h : batch.toList.mapM ((Relation.table t).prepare col) = .error e) :
    ∃ name, Obstacle col rule batch t name e ∧ ∀ other d, Obstacle col rule batch t other d →
      other = name ∨ Utf8.encode name < Utf8.encode other := by
  obtain ⟨before, ⟨name, x⟩, after, split, passed, failed⟩ := split_of_mapM_error h
  have listed (entry : String × α) (he : entry ∈ batch.toList) : batch[entry.1]? = some entry.2 :=
    Std.ExtTreeMap.mem_toList_iff_getElem?_eq_some.mp he
  have hx : batch[name]? = some x := listed (name, x) (by rw [split]; simp)
  refine ⟨name, (prepare_error_iff hg hx).mp failed, fun other d obstacle => ?_⟩
  obtain ⟨y, hy⟩ := obstacle.listed
  have there : (other, y) ∈ before ++ (name, x) :: after := by
    rw [← split]
    exact Std.ExtTreeMap.mem_toList_iff_getElem?_eq_some.mpr hy
  have ascending : (before ++ (name, x) :: after).Pairwise fun a b => a.1 < b.1 := by
    have keys := batch.ascending_keys
    rwa [← Std.ExtTreeMap.map_fst_toList_eq_keys, split, List.pairwise_map] at keys
  -- Names before the first failure were prepared, so nothing stands in their way.
  rcases List.mem_append.mp there with hb | hb
  · obtain ⟨v, hv⟩ := passed _ hb
    rw [(prepare_error_iff hg hy).mpr obstacle] at hv
    cases hv
  · rcases List.mem_cons.mp hb with heq | hb
    · exact .inl (congrArg Prod.fst heq)
    · have later := (List.pairwise_cons.mp (List.pairwise_append.mp ascending).2.1).1 _ hb
      exact .inr (Utf8.encode_lt later)

theorem putBatch_table (hn : ∀ e ∈ batch.toList, checkName e.1 = .ok ()) :
    (Relation.table t).putBatch col batch = (do
      let rows ← batch.toList.mapM ((Relation.table t).prepare col)
      (Statement.verdict col.table (t.statements batch.keys)).map fun _ =>
        .table (t.fill col (rows.map Prod.snd))) := by
  unfold putBatch
  by_cases hb : batch.isEmpty = true
  · have none : batch.toList = [] := by simpa [← Std.ExtTreeMap.isEmpty_toList] using hb
    have unwritten : Statement.verdict col.table (t.statements []) = .ok () := by
      simp [Statement.verdict_eq_ok_iff, Table.exists_isShort_iff]
    rw [if_pos hb, none, ← Std.ExtTreeMap.map_fst_toList_eq_keys, none, List.map_nil, unwritten]
    rfl
  · rw [if_neg hb, forM_eq_ok_iff.mpr hn, ok_bind]
    cases hrows : batch.toList.mapM ((Relation.table t).prepare col) with
    | error e => rfl
    | ok rows =>
      obtain ⟨hi, hu⟩ := prepared_names hrows
      rw [ok_bind, ok_bind, writeAll_table, hi, hu, ← Table.statements,
        fill_partition (distinct_prepared hrows batch.distinct_toList)]

theorem putBatch_written (hg : rule.Governs col) {r' : Relation α}
    (h : r.putBatch col batch = .ok r') {name : String} {x : α} (hx : batch[name]? = some x) :
    ∃ old y, r.lookup col name = .ok old ∧ rule.Leaves old x y ∧
      r'.lookup col name = .ok (some y) := by
  have hne : batch.isEmpty = false := by
    by_contra hb
    rw [NameMap.getElem?_of_isEmpty (by simpa using hb)] at hx
    cases hx
  obtain ⟨-, t, rows, -, hrows, -, rfl⟩ := (putBatch_eq_ok_iff hne).mp h
  have entry : (name, x) ∈ batch.toList := Std.ExtTreeMap.mem_toList_iff_getElem?_eq_some.mpr hx
  obtain ⟨row, hrow, hp⟩ := (results_of_mapM hrows).1 _ entry
  obtain ⟨old, hold, -, hname, hc⟩ := prepare_eq_ok_iff.mp hp
  have hd := distinct_prepared hrows batch.distinct_toList
  have found : (rows.map Prod.snd).lookup name = some row.2.2 := by
    refine (NameMap.lookup_eq_some_iff hd).mpr (List.mem_map.mpr ⟨row, hrow, ?_⟩)
    exact Prod.ext hname rfl
  exact ⟨old, _, hold, hg.leaves hc, by rw [lookup_fill hd, found]⟩

theorem putBatch_kept {r' : Relation α} (h : r.putBatch col batch = .ok r') {name : String}
    (hx : batch[name]? = none) : r'.row? name = r.row? name := by
  by_cases hb : batch.isEmpty = true
  · rw [putBatch, if_pos hb] at h
    rw [Except.ok.inj h]
  · obtain ⟨-, t, rows, rfl, hrows, -, rfl⟩ := (putBatch_eq_ok_iff (by simpa using hb)).mp h
    have hd := distinct_prepared hrows batch.distinct_toList
    have absent : (rows.map Prod.snd).lookup name = none := by
      refine Option.eq_none_iff_forall_ne_some.mpr fun y hy => ?_
      have listed : name ∈ (rows.map Prod.snd).map Prod.fst :=
        List.mem_map_of_mem ((NameMap.lookup_eq_some_iff hd).mp hy)
      rw [names_prepared hrows, Std.ExtTreeMap.map_fst_toList_eq_keys, NameMap.mem_keys_iff, hx] at listed
      cases listed
    rw [row?, row?, getElem?_fill hd, absent]
    rfl

theorem putBatch_outcome (hg : rule.Governs col) (r : Relation α) (batch : NameMap α) :
    Outcome col rule batch r ((r.putBatch col batch).toOption.getD r)
      ((r.putBatch col batch).map fun _ => ()) := by
  have named (hv : rule.Admits batch) : ∀ e ∈ batch.toList, checkName e.1 = .ok () := by
    intro e he
    exact hg.named (hv e.1 e.2 (Std.ExtTreeMap.mem_toList_iff_getElem?_eq_some.mp he))
  constructor
  case refused =>
    intro e he
    cases h : r.putBatch col batch with
    | error d => rfl
    | ok r' => simp [h, Except.map] at he
  case written =>
    intro hok name x hx
    cases h : r.putBatch col batch with
    | error d => simp [h, Except.map] at hok
    | ok r' => exact putBatch_written hg h hx
  case kept =>
    intro hok name hx
    cases h : r.putBatch col batch with
    | error d => rfl
    | ok r' => exact putBatch_kept h hx
  case smallest =>
    rintro t rfl hv ⟨name, e, obstacle⟩
    rw [putBatch_table (named hv)]
    cases h : batch.toList.mapM ((Relation.table t).prepare col) with
    | error d =>
      obtain ⟨first, hfirst, least⟩ := smallest_of_prepare_error hg h
      exact ⟨first, d, hfirst, rfl, least⟩
    | ok rows =>
      obtain ⟨x, hx⟩ : ∃ x, batch[name]? = some x := obstacle.listed
      have entry := Std.ExtTreeMap.mem_toList_iff_getElem?_eq_some.mpr hx
      obtain ⟨row, -, hrow⟩ := (results_of_mapM h).1 _ entry
      rw [(prepare_error_iff hg hx).mpr obstacle] at hrow
      cases hrow
  case short =>
    rintro t rfl hv free
    have decided : ((Relation.table t).putBatch col batch).map (fun _ => ()) =
        Statement.verdict col.table (t.statements batch.keys) := by
      rw [putBatch_table (named hv)]
      cases h : batch.toList.mapM ((Relation.table t).prepare col) with
      | error d =>
        obtain ⟨first, hfirst, -⟩ := smallest_of_prepare_error hg h
        exact absurd hfirst (free first d)
      | ok rows =>
        rw [ok_bind]
        cases Statement.verdict col.table (t.statements batch.keys) <;> rfl
    rw [decided]
    refine ⟨batch.ascending_keys.imp Utf8.encode_lt, rfl, ?_⟩
    rw [Statement.verdict_consistency_iff, Table.exists_isShort_iff]

theorem putBatch_found {r' : Relation α} (h : r.putBatch col batch = .ok r') :
    r' = r ∨ ∃ t, r = .table t := by
  by_cases hb : batch.isEmpty = true
  · rw [putBatch, if_pos hb] at h
    exact .inl (Except.ok.inj h).symm
  · obtain ⟨-, t, -, ht, -⟩ := (putBatch_eq_ok_iff (by simpa using hb)).mp h
    exact .inr ⟨t, ht⟩

end Relation

theorem Outcome.of_refused {col : Column α} {rule : Rule α} {batch : NameMap α} {e : Error}
    (r : Relation α) (h : ¬rule.Admits batch) : Outcome col rule batch r r (.error e) where
  refused _ _ := rfl
  written hok := nomatch hok
  kept hok := nomatch hok
  smallest _ _ hv := absurd hv h
  short _ _ hv := absurd hv h

namespace Connection

variable {c : Connection} {files : FileTree}

theorem outcome_apply {col : Column α} {rule : Rule α} (hg : rule.Governs col) (r : Relation α)
    (batch : NameMap α) (set : Relation α → Database) (hs : set r = c.database files)
    (hr : ∀ t, r = .table t → c.database files ≠ .empty) {change : Except Error Database}
    (hc : (r.putBatch col batch).map set = change) : ∃ r',
      (c.apply files change).2.1.database (c.apply files change).2.2 = set r' ∧
        Outcome col rule batch r r' (c.apply files change).1 := by
  subst hc
  have outcome := Relation.putBatch_outcome hg r batch
  refine ⟨(r.putBatch col batch).toOption.getD r, ?_, ?_⟩
  · rw [database_apply]
    · cases r.putBatch col batch with
      | error e => exact hs.symm
      | ok r' => rfl
    · intro db hdb
      cases h : r.putBatch col batch with
      | error e => simp [h, Except.map] at hdb
      | ok r' =>
        obtain rfl : set r' = db := by simpa [h, Except.map] using hdb
        rcases Relation.putBatch_found h with rfl | ⟨t, ht⟩
        · exact .inl hs
        · exact .inr (hr t ht)
  · rw [reply_apply]
    cases h : r.putBatch col batch <;> simpa [h, Except.map] using outcome

/-- Both kinds of batches keep what is promised of them, and leave the other table alone. -/
theorem batch_outcomes (c : Connection) (files : FileTree) :
    (∀ batch : NameMap Binary64,
      let o := c.perform files (.putGauges batch)
      Outcome gaugeColumn .gauges batch (c.database files).gauges (o.2.1.database o.2.2).gauges o.1 ∧
        (o.2.1.database o.2.2).counters = (c.database files).counters) ∧
    ∀ batch : NameMap Count,
      let o := c.perform files (.putCounters batch)
      Outcome counterColumn .counters batch (c.database files).counters
          (o.2.1.database o.2.2).counters o.1 ∧
        (o.2.1.database o.2.2).gauges = (c.database files).gauges := by
  constructor
  · intro batch
    -- Gauges are checked before the database is asked.
    cases hc : batch.toList.forM fun e => checkGauge e.1 e.2 with
    | error e =>
      have refused : c.perform files (.putGauges batch) = (.error e, c, files) := by
        simp only [perform, Database.putGauges, hc]
        rfl
      rw [refused]
      refine ⟨.of_refused _ fun hv => ?_, rfl⟩
      have passed : (batch.toList.forM fun e => checkGauge e.1 e.2) = .ok () := by
        refine forM_eq_ok_iff.mpr fun e he => checkGauge_eq_ok_iff.mpr ?_
        exact hv e.1 e.2 (Std.ExtTreeMap.mem_toList_iff_getElem?_eq_some.mp he)
      cases passed.symm.trans hc
    | ok _ =>
      have change : ((c.database files).gauges.putBatch gaugeColumn batch).map
          (fun gauges => ⟨gauges, (c.database files).counters⟩) =
            (c.database files).putGauges batch := by
        rw [Database.putGauges, hc]
        cases (c.database files).gauges.putBatch gaugeColumn batch <;> rfl
      have exist (t : Table Binary64) (ht : (c.database files).gauges = .table t) :
          c.database files ≠ .empty := by
        intro hempty
        rw [hempty] at ht
        cases ht
      obtain ⟨gauges, after, outcome⟩ :=
        outcome_apply Rule.governs_gauges _ batch _ rfl exist change
      have now := congrArg Database.gauges after
      have kept := congrArg Database.counters after
      dsimp only at now kept
      rw [← now] at outcome
      exact ⟨outcome, kept⟩
  · intro batch
    have change : ((c.database files).counters.putBatch counterColumn batch).map
        (fun counters => ⟨(c.database files).gauges, counters⟩) =
          (c.database files).putCounters batch := by
      rw [Database.putCounters]
      cases (c.database files).counters.putBatch counterColumn batch <;> rfl
    have exist (t : Table Count) (ht : (c.database files).counters = .table t) :
        c.database files ≠ .empty := by
      intro hempty
      rw [hempty] at ht
      cases ht
    obtain ⟨counters, after, outcome⟩ :=
      outcome_apply Rule.governs_counters _ batch _ rfl exist change
    have now := congrArg Database.counters after
    have kept := congrArg Database.gauges after
    dsimp only at now kept
    rw [← now] at outcome
    exact ⟨outcome, kept⟩

def threeGauges : NameMap Binary64 := .ofEntries [("a", .zero), ("b", .zero), ("c", .zero)]

def heldTable : Table Binary64 :=
  ⟨(NameMap.ofEntries [("a", Binary64.zero), ("b", .zero)]).map fun _ x => some x, [], ["b"]⟩

def heldDatabase : Database := ⟨.table heldTable, .missing⟩

/-- The new row is written first, then one of the two others, and both are given up. -/
theorem held_row_refuses_batch :
    let o := perform (.own heldDatabase) (.empty "/") (.putGauges threeGauges)
    o.1 = .error (.consistency "gauge_metrics" 2 1) ∧
      (o.2.1.database o.2.2).gauges = .table heldTable := by
  have outcome := ((batch_outcomes (.own heldDatabase) (.empty "/")).1 threeGauges).1
  have listed : threeGauges.toList = [("a", .zero), ("b", .zero), ("c", .zero)] := by decide +kernel
  have admitted : Rule.gauges.Admits threeGauges := by
    intro name x hx
    have entry : (name, x) ∈ threeGauges.toList :=
      Std.ExtTreeMap.mem_toList_iff_getElem?_eq_some.mpr hx
    have all : ∀ e ∈ threeGauges.toList, isBlankText e.1 = false ∧ e.2.isFinite = true := by
      rw [listed]
      decide +kernel
    exact all _ entry
  have free (name : String) (e : Error) :
      ¬Obstacle gaugeColumn .gauges threeGauges heldTable name e := by
    intro obstacle
    cases obstacle with
    | unreadable _ hr =>
      rw [heldTable, NameMap.getElem?_map] at hr
      obtain ⟨x, -, hx⟩ := Option.map_eq_some_iff.mp hr
      cases hx
    | overflow _ _ beyond => exact beyond _ rfl
  obtain ⟨-, decided, -⟩ := outcome.short heldTable rfl admitted free
  have verdict : Statement.verdict gaugeColumn.table (heldTable.statements threeGauges.keys) =
      .error (.consistency "gauge_metrics" 2 1) := by decide +kernel
  have refused := decided.trans verdict
  exact ⟨refused, outcome.refused _ refused⟩

end Connection

end Telemetry
