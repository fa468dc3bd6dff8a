import Telemetry.Proofs.Server.BatchUpdates
import Telemetry.Proofs.Storage.SinglePuts
/-!
How a counter grows on any storage. A call adds what it asks for or leaves the counter alone. A list
of metrics asks for a counter at most once, and it is answered with success only if the storage has
taken that; whether the counter has grown then is up to the storage, and memory keeps its word.
-/

namespace Telemetry

open Storage Server

/-- A counter as it is read; zero if it cannot be read. -/
def Store.total (s : Store) (name : String) : Int := (storedCounter s name).getD 0

/-- What was asked for was added as a whole or not at all. -/
def Grown (before : Int) (asked : Option Int) (after : Int) : Prop :=
  after = before ∨ ∃ n, asked = some n ∧ after = before + n

theorem Grown.refl (before : Int) (asked : Option Int) : Grown before asked before := .inl rfl

theorem grown_plus (old asked : Option Int) :
    Grown (old.getD 0) asked ((Update.plus old asked).getD 0) := by
  cases asked with
  | none => exact .refl _ _
  | some n => exact .inr ⟨n, rfl, rfl⟩

namespace Relation

def total (r : Relation Count) (name : String) : Int := ((r.row? name).join.map Count.val).getD 0

variable {r r' : Relation Count} {name : String}

theorem total_of_lookup {old : Option Count} (h : r.lookup counterColumn name = .ok old) :
    r.total name = (old.map Count.val).getD 0 := by
  cases r with
  | missing => cases h
  | barred => cases h
  | view =>
    obtain rfl := Except.ok.inj h
    rfl
  | table t =>
    rw [total, row?, lookup_table_eq_ok_iff.mp h]
    cases old <;> rfl

theorem total_of_lookup_error {e : Error} (h : r.lookup counterColumn name = .error e) :
    r.total name = 0 := by
  cases r with
  | missing => rfl
  | barred => rfl
  | view => cases h
  | table t =>
    rw [total, row?]
    cases hr : t.rows[name]? with
    | none => rfl
    | some value =>
      cases value with
      | none => rfl
      | some x => simp [lookup, hr] at h

theorem grown_put {n : String} {d : Count} (h : r.put counterColumn n d = .ok r') :
    Grown (r.total name) (if n = name then some d.val else none) (r'.total name) := by
  obtain ⟨-, t, old, value, rfl, found, sum, rfl⟩ := put_eq_ok_iff.mp h
  by_cases same : n = name
  · subst same
    have before := total_of_lookup (lookup_table_eq_ok_iff.mpr found)
    have after : (Relation.table (t.writeRow counterColumn n value)).lookup counterColumn n = _ :=
      lookup_writeRow found
    rw [if_pos rfl, before, total_of_lookup after]
    by_cases skips : t.Skips n
    · rw [if_pos skips]
      exact .refl _ _
    · rw [if_neg skips]
      exact .inr ⟨d.val, rfl, accumulate_eq_ok_iff.mp sum⟩
  · refine .inl ?_
    rw [total, row?_writeRow (Ne.symm same), ← total]

theorem grown_putBatch {batch : NameMap Count} (h : r.putBatch counterColumn batch = .ok r') :
    Grown (r.total name) (batch[name]?.map Count.val) (r'.total name) := by
  cases asked : batch[name]? with
  | none =>
    refine .inl ?_
    rw [total, putBatch_kept h asked, ← total]
  | some d =>
    obtain ⟨old, sum, before, leaves, after⟩ := putBatch_written Rule.governs_counters h asked
    rw [total_of_lookup before, total_of_lookup after]
    exact .inr ⟨d.val, rfl, leaves⟩

end Relation

namespace Connection

variable {c : Connection} {files : FileTree}

theorem database_apply_cases (c : Connection) (files : FileTree) (change : Except Error Database) :
    let after := (c.apply files change).2.1.database (c.apply files change).2.2
    after = c.database files ∨ change = .ok after := by
  cases change with
  | error e => exact .inl rfl
  | ok db =>
    by_cases place : c = .file []
    · subst place
      exact .inl rfl
    · exact .inr (congrArg Except.ok (database_setDatabase place).symm)

theorem grown_apply {change : Except Error Database} {asked : Option Int} {name : String}
    (h : ∀ db, change = .ok db →
      Grown ((c.database files).counters.total name) asked (db.counters.total name)) :
    Grown ((c.database files).counters.total name) asked
      (((c.apply files change).2.1.database (c.apply files change).2.2).counters.total name) := by
  rcases database_apply_cases c files change with same | changed
  · rw [same]
    exact .refl _ _
  · exact h _ changed

theorem grown_perform (c : Connection) (files : FileTree) (call : Call) (name : String) :
    Grown ((c.database files).counters.total name) (call.delta? name)
      (((c.perform files call).2.1.database (c.perform files call).2.2).counters.total name) := by
  cases call with
  | putGauge n x =>
    refine grown_apply fun db changed => ?_
    simp only [Database.putGauge, bind_eq_ok_iff, pure_eq_ok_iff] at changed
    obtain ⟨-, -, -, -, rfl⟩ := changed
    exact .refl _ _
  | putGauges batch =>
    refine grown_apply fun db changed => ?_
    obtain ⟨-, -, -, rfl⟩ := Database.putGauges_eq_ok_iff.mp changed
    exact .refl _ _
  | putCounter n d =>
    refine grown_apply fun db changed => ?_
    simp only [Database.putCounter, bind_eq_ok_iff, pure_eq_ok_iff] at changed
    obtain ⟨counters, put, rfl⟩ := changed
    exact Relation.grown_put put
  | putCounters batch =>
    refine grown_apply fun db changed => ?_
    obtain ⟨counters, put, rfl⟩ := Database.putCounters_eq_ok_iff.mp changed
    exact Relation.grown_putBatch put
  | backend => exact .refl _ _
  | getGauge n => exact .refl _ _
  | getCounter n => exact .refl _ _
  | getAll => exact .refl _ _
  | ping => exact .refl _ _

end Connection

namespace Call

/-- Whether the storage has taken an update: at most its snapshot could not be written. -/
def accepted : Except Error Unit → Bool
  | .ok _ => true
  | .error e => e.isPersistence

def took : (c : Call) → c.Reply → Bool
  | .putGauge _ _, r | .putCounter _ _, r | .putGauges _, r | .putCounters _, r => accepted r
  | _, _ => false

end Call

namespace Memory

theorem grown_perform (m : Memory) (files : FileTree) (c : Call) (name : String) :
    Grown ((m.content.total? name).getD 0) (c.delta? name)
      (((m.perform files c).2.1.content.total? name).getD 0) := by
  rw [Memory.perform_memory]
  cases hu : m.content.change? c with
  | none => exact .refl _ _
  | some u =>
    rw [Option.getD_some, load, Snapshot.total?_of_change hu]
    exact grown_plus _ _

theorem accepted_apply {m : Memory} {files : FileTree} {change : Except Error Snapshot}
    (refused : ∀ e, change = .error e → e.isRefusal = true)
    (taken : Call.accepted (m.apply files change).1 = true) : change.toOption.isSome := by
  rcases m.apply_answer files change with ⟨e, he, answer⟩ | ⟨⟨u, rfl⟩, -⟩
  · rw [answer, Call.accepted, isPersistence_of_isRefusal (refused e he)] at taken
    cases taken
  · rfl

theorem total_of_took {m : Memory} {files : FileTree} {c : Call} {name : String} {n : Int}
    (asks : c.delta? name = some n) (taken : c.took (m.perform files c).1 = true) :
    ((m.perform files c).2.1.content.total? name).getD 0 = (m.content.total? name).getD 0 + n := by
  have changed : (m.content.change? c).isSome := by
    cases c with
    | putCounter key d => exact accepted_apply (fun _ => Snapshot.putCounter_error) taken
    | putCounters batch =>
      have filled : batch.toList.isEmpty = false := by
        obtain ⟨d, there, -⟩ := Option.map_eq_some_iff.mp asks
        have entry := Std.ExtTreeMap.mem_toList_iff_getElem?_eq_some.mpr there
        exact List.isEmpty_eq_false_iff_exists_mem.mpr ⟨_, entry⟩
      rw [perform, applyBatch, filled] at taken
      exact accepted_apply (fun _ => Snapshot.putCounters_error) taken
    | _ => cases asks
  obtain ⟨u, hu⟩ := Option.isSome_iff_exists.mp changed
  rw [Memory.perform_memory, hu, Option.getD_some, load, Snapshot.total?_of_change hu, asks]
  rfl

end Memory

namespace Store

variable {s : Store} {name : String}

theorem total_relational (c : Connection) (files : FileTree) (name : String) :
    total ⟨.relational c, files⟩ name = (c.database files).counters.total name := by
  have read : perform ⟨.relational c, files⟩ (.getCounter name) =
    ((c.database files).counters.lookup counterColumn name, ⟨.relational c, files⟩) := rfl
  rw [total, storedCounter, read]
  cases found : (c.database files).counters.lookup counterColumn name with
  | ok old => exact (Relation.total_of_lookup found).symm
  | error e => exact (Relation.total_of_lookup_error found).symm

theorem total_faulty (f : Faulty) (files : FileTree) (name : String) :
    total ⟨.faulty f, files⟩ name =
      if (f.fault? .getCounter).isSome then 0 else (f.memory.content.total? name).getD 0 := by
  have read : perform ⟨.faulty f, files⟩ (.getCounter name) =
    (f.answer .getCounter (.ok f.memory.content.counters[name]?), ⟨.faulty f, files⟩) := rfl
  rw [total, storedCounter, read, Faulty.answer]
  cases f.fault? .getCounter <;> rfl

/-- Whatever keeps the metrics, a call adds to a counter what it asks for or leaves it alone. -/
theorem grown_perform (s : Store) (c : Call) (name : String) :
    Grown (s.total name) (c.delta? name) ((s.perform c).2.total name) := by
  obtain ⟨engine, files⟩ := s
  cases engine with
  | memory m => exact m.grown_perform files c name
  | relational k =>
    have after : (perform ⟨.relational k, files⟩ c).2 =
      ⟨.relational (k.perform files c).2.1, (k.perform files c).2.2⟩ := rfl
    rw [after, total_relational, total_relational]
    exact k.grown_perform files c name
  | faulty f =>
    have after : (perform ⟨.faulty f, files⟩ c).2 =
      ⟨.faulty (f.perform files c).2.1, (f.perform files c).2.2⟩ := rfl
    have faults : (f.perform files c).2.1.fault? .getCounter = f.fault? .getCounter := by
      cases c <;> rfl
    have same : (f.perform files c).2.1.memory = (f.memory.perform files c).2.1 := by
      cases c <;> rfl
    rw [after, total_faulty, total_faulty, faults, same]
    by_cases fault : (f.fault? .getCounter).isSome
    · rw [if_pos fault, if_pos fault]
      exact .refl _ _
    · rw [if_neg fault, if_neg fault]
      exact f.memory.grown_perform files c name

theorem total_of_took {m : Memory} (engine : s.engine = .memory m) {c : Call} {n : Int}
    (asks : c.delta? name = some n) (taken : c.took (s.perform c).1 = true) :
    (s.perform c).2.total name = s.total name + n := by
  obtain ⟨_, files⟩ := s
  obtain rfl := engine
  exact Memory.total_of_took asks taken

end Store

/-! ### What a list of metrics asks for -/

namespace Server

open Http

/-- What the calls of a request ask to be added to a counter, and whether the storage has taken it.
What else happens to the storage is left open. -/
def asking (name : String) : Surroundings Call.Reply (List (Int × Bool)) where
  Answers asked c reply later := later = asked ++ (c.delta? name).toList.map (·, c.took reply)
  Others asked later := later = asked

def Told (carried : Option Int) (status : Nat) (asked : List (Int × Bool)) : Prop :=
  (asked = [] ∨ ∃ n taken, carried = some n ∧ asked = [(n, taken)]) ∧
    (status = 200 → asked = (carried.map (·, true)).toList)

variable {name : String}

theorem exists_end {α : Type} {w : Work α} {Q : α → List (Int × Bool) → Prop}
    {asked : List (Int × Bool)} (h : w.Ensures (asking name) Q asked) :
    ∃ a later, Q a later ∧ asked <+: later := by
  induction w generalizing asked with
  | done a => exact ⟨a, asked, h, List.prefix_rfl⟩
  | log e next ih => exact ih h
  | call c next ih =>
    have reply : c.Reply := ((Store.mk (.memory (.new none .inline)) (.empty "")).perform c).1
    obtain ⟨a, later, ends, first⟩ := ih reply (h asked rfl reply _ rfl)
    exact ⟨a, later, ends, (List.prefix_append _ _).trans first⟩

namespace Handler

variable {asked : List (Int × Bool)} {R : Refusal → List (Int × Bool) → Prop}

theorem ensures_perform_quiet {c : Call} {Q : c.Reply → List (Int × Bool) → Prop}
    (quiet : c.delta? name = none) (hQ : ∀ reply, Q reply asked) :
    Ensures (asking name) R Q (perform c) asked := by
  rw [ensures_perform]
  rintro _ rfl reply _ rfl
  rw [quiet]
  simpa using hQ reply

theorem ensures_stored_quiet {α : Type} {reply : Except Error α} {Q : α → List (Int × Bool) → Prop}
    (hQ : ∀ a, Q a asked) (hR : ∀ e, R e asked) :
    Ensures (asking name) R Q (stored reply) asked := by
  cases reply with
  | ok a => exact hQ a
  | error e => exact hR _

theorem ensures_found_quiet {α : Type} {key : String} {value : Option α}
    {Q : α → List (Int × Bool) → Prop} (hQ : ∀ a, Q a asked) (hR : ∀ e, R e asked) :
    Ensures (asking name) R Q (found key value) asked := by
  cases value with
  | some a => exact hQ a
  | none => exact hR _

theorem ensures_current_quiet {kind : Kind} {key : String} {Q : Metric → List (Int × Bool) → Prop}
    (hQ : ∀ m, Q m asked) (hR : ∀ e, R e asked) :
    Ensures (asking name) R Q (current kind key) asked := by
  rw [current, ensures_bind]
  cases kind with
  | gauge =>
    simp only [currentPayload, getGauge, ensures_bind]
    refine ensures_perform_quiet rfl fun reply => ensures_stored_quiet (fun value => ?_) hR
    exact ensures_found_quiet (fun x => hQ _) hR
  | counter =>
    simp only [currentPayload, getCounter, ensures_bind]
    refine ensures_perform_quiet rfl fun reply => ensures_stored_quiet (fun value => ?_) hR
    exact ensures_found_quiet (fun x => hQ _) hR

theorem ensures_currentBatch_quiet {b : Batch} {Q : List Metric → List (Int × Bool) → Prop}
    (hQ : ∀ ms, Q ms asked) (hR : ∀ e, R e asked) :
    Ensures (asking name) R Q (currentBatch b) asked := by
  have all {kind : Kind} {keys : List String} {Q : List Metric → List (Int × Bool) → Prop}
      (hQ : ∀ ms, Q ms asked) : Ensures (asking name) R Q (keys.mapM (current kind)) asked := by
    induction keys generalizing Q with
    | nil => exact hQ []
    | cons key keys ih =>
      simp only [List.mapM_cons, ensures_bind, ensures_pure]
      exact ensures_current_quiet (fun m => ih fun ms => hQ (m :: ms)) hR
  rw [currentBatch, ensures_bind]
  refine all fun gauges => ?_
  rw [ensures_bind]
  exact all fun counters => hQ _

theorem ensures_written_told {what : String} {reply : Except Error Unit}
    {Q : Unit → List (Int × Bool) → Prop} (hQ : Call.accepted reply = true → Q () asked)
    (hR : ∀ e, R e asked) : Ensures (asking name) R Q (written what reply) asked := by
  rw [ensures_written]
  refine ⟨fun taken => hQ ?_, fun e _ _ => hR _⟩
  rcases taken with rfl | ⟨e, rfl, persistence⟩
  · rfl
  · exact persistence

theorem ensures_putGauges_quiet {gauges : NameMap Binary64} {Q : Unit → List (Int × Bool) → Prop}
    (hQ : Q () asked) (hR : ∀ e, R e asked) :
    Ensures (asking name) R Q (putGauges gauges) asked := by
  unfold putGauges
  by_cases empty : gauges.isEmpty = true
  · simpa [empty] using hQ
  · simp only [empty, Bool.not_false, if_true, ensures_bind]
    exact ensures_perform_quiet rfl fun reply => ensures_written_told (fun _ => hQ) hR

theorem ensures_putCounters_told {counters : NameMap Count} {Q : Unit → List (Int × Bool) → Prop}
    (hQ : Q () (asked ++ (counters[name]?.map fun d => (d.val, true)).toList))
    (hR : ∀ e taken, R e (asked ++ (counters[name]?.map fun d => (d.val, taken)).toList)) :
    Ensures (asking name) R Q (putCounters counters) asked := by
  unfold putCounters
  by_cases empty : counters.isEmpty = true
  · rw [NameMap.getElem?_of_isEmpty empty] at hQ
    simpa [empty] using hQ
  · simp only [empty, Bool.not_false, if_true, ensures_bind, ensures_perform]
    rintro now rfl reply _ rfl
    have heard (taken : Bool) : ((Call.putCounters counters).delta? name).toList.map (·, taken) =
        (counters[name]?.map fun d => (d.val, taken)).toList := by
      rw [Call.delta?]
      cases counters[name]? <;> rfl
    rw [heard]
    refine ensures_written_told (fun taken => ?_) fun e => hR e _
    show Q () (now ++ (counters[name]?.map fun d => (d.val, Call.accepted reply)).toList)
    rw [taken]
    exact hQ

theorem ensures_updateBatch_told {r : Request} {body : Bytes} {carried : Option Int} (carries :
    ∀ ms us, Metric.readList? body = some ms → ms.mapM Metric.update? = some us →
      Update.sum? (Update.deltas name us) = carried) :
    Ensures (asking name) (fun e => Told carried e.status) (fun a => Told carried a.status)
      (updateBatch r body) [] := by
  have refused {status : Nat} (h : status ≠ 200) : Told carried status [] :=
    ⟨.inl rfl, fun ok => absurd ok h⟩
  rw [updateBatch, ensures_bind]
  refine ensures_readJson (fun ms hms => ?_) (refused (by decide)) (refused (by decide))
  rw [ensures_bind, ensures_checked]
  refine ⟨fun b hb => ?_, fun d _ => refused (show 400 ≠ 200 by decide)⟩
  obtain ⟨us, asked, -, holds⟩ := Batch.holds_ofMetrics hb
  have whole (taken : Bool) : [] ++ (b.counters[name]?.map fun d => (d.val, taken)).toList =
      (carried.map (·, taken)).toList := by
    rw [← carries ms us hms asked, ← holds.counters]
    cases b.counters[name]? <;> rfl
  have started (e : Refusal) (taken : Bool) :
      Told carried e.status (carried.map (·, taken)).toList := by
    refine ⟨?_, fun ok => absurd ok (Nat.ne_of_gt ?_)⟩
    · cases carried with
      | none => exact .inl rfl
      | some n => exact .inr ⟨n, taken, rfl, rfl⟩
    · exact Nat.lt_of_lt_of_le (by decide) e.status_ge
  rw [ensures_bind]
  refine ensures_putCounters_told ?_ fun e taken => ?_
  · rw [whole, ensures_bind]
    refine ensures_putGauges_quiet ?_ fun e => started e true
    rw [ensures_bind, ensures_report, ensures_bind]
    refine ensures_currentBatch_quiet (fun stored => ?_) fun e => started e true
    exact ⟨(started .notJson true).1, fun _ => rfl⟩
  · rw [whole]
    exact started e taken

end Handler

/-- A list of metrics asks for a counter at most once, whatever else happens to the storage and however it
answers, and is answered with success only if that was taken. -/
theorem ensures_told {key : Option String} {r : Request} (path : r.path = "/updates")
    {carried : Option Int} (carries : ∀ us, updates? r = some us →
      Update.sum? (Update.deltas name us) = carried) :
    Program.Ensures (asking name) (fun a => Told carried a.status) (Application.handle key r) [] := by
  have away : ∀ n ∈ turnedAway, Told carried n [] := by
    intro n hn
    exact ⟨.inl rfl, fun ok => absurd (ok ▸ hn) (by decide)⟩
  have batch : Route.ofPath? "/updates" = some .updateBatch := by decide +kernel
  refine Application.ensures_handle away (ensures_route away fun found hf => ?_)
  rw [path, batch] at hf
  obtain rfl := Option.some.inj hf
  refine ensures_withBody away fun body hb => Handler.ensures_answer ?_
  refine Handler.ensures_updateBatch_told fun ms us hms hus => carries us ?_
  rw [updates?, path, batch, Option.bind_some, hb]
  show (Metric.readList? body).bind _ = some us
  rw [hms]
  exact hus

end Server

end Telemetry
