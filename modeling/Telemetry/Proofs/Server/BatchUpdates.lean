import Telemetry.Proofs.Server.Requests
import Telemetry.Proofs.Storage.Connections
/-!
Lists of metrics on a storage that nobody else uses. A list is stored as one batch of counters and
one batch of gauges, and each of them is stored as a whole or not at all. In memory the gauges of a
list that got so far cannot be refused, so nothing is stored of a list that is refused. A database
can fail between the two batches, and then the counters of the list stay.
-/

namespace Telemetry

open Storage

namespace Server

open Http

/-- A storage that one request has for itself. -/
def privateStore : Surroundings Call.Reply Store := .alone Store.perform

def batchOf? (r : Request) : Option Batch := do
  (Batch.ofMetrics (← Metric.readList? (← contentOf? r))).toOption

/-- The counters of a list were committed, and then the database failed its gauges. -/
def HalfStored (r : Request) (before after : Database) : Prop :=
  ∃ b, batchOf? r = some b ∧ b.counters.isEmpty = false ∧ b.gauges.isEmpty = false ∧
    before.putCounters b.counters = .ok after ∧ ∃ e, after.putGauges b.gauges = .error e

/-- How a list may end that came to the database `before`. -/
def Ended (r : Request) (before : Database) (status : Nat) (s : Store) : Prop :=
  ∃ after, s.Holds after ∧
    (status / 100 = 2 ∨ after = before ∨ status = 500 ∧ HalfStored r before after)

def Readable (kind : Kind) (name : String) (db : Database) : Prop :=
  match kind with
  | .gauge => ∃ x, db.gauges.lookup gaugeColumn name = .ok (some x)
  | .counter => ∃ x, db.counters.lookup counterColumn name = .ok (some x)

namespace Handler

variable {s : Store} {db : Database} {R : Refusal → Store → Prop}

theorem ensures_perform_alone {c : Call} {Q : c.Reply → Store → Prop} :
    Ensures privateStore R Q (perform c) s ↔ Q (s.perform c).1 (s.perform c).2 := by
  rw [ensures_perform]
  constructor
  · exact fun h => h s rfl _ _ rfl
  · rintro h u rfl r v hv
    obtain ⟨rfl, rfl⟩ := Prod.mk.inj hv
    exact h

theorem ensures_current_readable {kind : Kind} {name : String} {Q : Metric → Store → Prop}
    (h : s.Holds db) (hr : Readable kind name db) (hQ : ∀ m, Q m s) :
    Ensures privateStore R Q (current kind name) s := by
  rw [current, ensures_bind]
  cases kind with
  | gauge =>
    obtain ⟨x, hx⟩ := hr
    simp only [currentPayload, getGauge, ensures_bind, ensures_perform_alone,
      Store.perform_getGauge h, hx]
    exact hQ _
  | counter =>
    obtain ⟨x, hx⟩ := hr
    simp only [currentPayload, getCounter, ensures_bind, ensures_perform_alone,
      Store.perform_getCounter h, hx]
    exact hQ _

theorem ensures_currentBatch_readable {b : Batch} {Q : List Metric → Store → Prop} (h : s.Holds db)
    (hg : ∀ name ∈ b.gauges.keys, Readable .gauge name db)
    (hc : ∀ name ∈ b.counters.keys, Readable .counter name db) (hQ : ∀ ms, Q ms s) :
    Ensures privateStore R Q (currentBatch b) s := by
  have all {kind : Kind} {names : List String} {Q : List Metric → Store → Prop}
      (hn : ∀ name ∈ names, Readable kind name db) (hQ : ∀ ms, Q ms s) :
      Ensures privateStore R Q (names.mapM (current kind)) s := by
    induction names generalizing Q with
    | nil => exact hQ []
    | cons name names ih =>
      obtain ⟨hh, hn⟩ := List.forall_mem_cons.mp hn
      simp only [List.mapM_cons, ensures_bind, ensures_pure]
      exact ensures_current_readable h hh fun m => ih hn fun ms => hQ (m :: ms)
  rw [currentBatch, ensures_bind]
  refine all hg fun gauges => ?_
  rw [ensures_bind]
  exact all hc fun counters => hQ _

theorem ensures_written_changed {change : Except Error Database} {what : String}
    {o : Except Error Unit × Store} {Q : Unit → Store → Prop} (h : Store.Changed s change o)
    (hQ : ∀ after t, change = .ok after → t.Holds after → Q () t)
    (hR : ∀ e, change = .error e → e.isPersistence = false ∧ R (.storage e) s) :
    Ensures privateStore R Q (written what o.1) o.2 := by
  rw [ensures_written]
  cases h with
  | committed h ht => exact ⟨fun _ => hQ _ _ h ht, fun e he => by cases he⟩
  | @failed e h =>
    obtain ⟨hp, hr⟩ := hR e h
    constructor
    · rintro (he | ⟨d, hd, hdp⟩)
      · cases he
      · obtain rfl := Except.error.inj hd
        rw [hp] at hdp
        cases hdp
    · intro d hd _
      obtain rfl := Except.error.inj hd
      exact hr

theorem isPersistence_of_isFault {e : Error} (h : e.isFault = true) : e.isPersistence = false := by
  cases e <;> first | rfl | cases h

theorem status_of_isFault {e : Error} (h : e.isFault = true) : (Refusal.storage e).status = 500 := by
  cases e <;> first | rfl | cases h

theorem ensures_putCounters_alone {counters : NameMap Count} {Q : Unit → Store → Prop}
    (h : s.Holds db)
    (hQ : ∀ after t, t.Holds after → (counters.isEmpty = true ∧ after = db ∨
      counters.isEmpty = false ∧ db.putCounters counters = .ok after) → Q () t)
    (hR : ∀ e, R (.storage e) s) :
    Ensures privateStore R Q (putCounters counters) s := by
  unfold putCounters
  cases he : counters.isEmpty with
  | true => exact hQ db s h (.inl ⟨he, rfl⟩)
  | false =>
    simp only [Bool.not_false, if_true, ensures_bind, ensures_perform_alone]
    refine ensures_written_changed (Store.perform_putCounters h he)
      (fun after t ha ht => hQ after t ht (.inr ⟨he, ha⟩)) fun e hc => ⟨?_, hR e⟩
    rcases Database.putCounters_error hc with hr | hf
    · exact isPersistence_of_isRefusal hr
    · exact isPersistence_of_isFault hf

theorem ensures_putGauges_alone {gauges : NameMap Binary64} {Q : Unit → Store → Prop}
    (h : s.Holds db) (hc : ∀ e ∈ gauges.toList, checkGauge e.1 e.2 = .ok ())
    (hQ : ∀ after t, t.Holds after → (gauges.isEmpty = true ∧ after = db ∨
      gauges.isEmpty = false ∧ db.putGauges gauges = .ok after) → Q () t)
    (hR : ∀ e, gauges.isEmpty = false → e.isFault = true → db.putGauges gauges = .error e →
      R (.storage e) s) :
    Ensures privateStore R Q (putGauges gauges) s := by
  unfold putGauges
  cases he : gauges.isEmpty with
  | true => exact hQ db s h (.inl ⟨he, rfl⟩)
  | false =>
    simp only [Bool.not_false, if_true, ensures_bind, ensures_perform_alone]
    refine ensures_written_changed (Store.perform_putGauges h he)
      (fun after t ha ht => hQ after t ht (.inr ⟨he, ha⟩)) fun e hg => ?_
    have fault := Database.putGauges_error hc hg
    exact ⟨isPersistence_of_isFault fault, hR e he fault hg⟩

theorem not_mem_keys {α : Type} {m : NameMap α} (h : m.isEmpty = true) {name : String} :
    name ∉ m.keys := by
  rw [NameMap.mem_keys_iff, NameMap.getElem?_of_isEmpty h]
  exact fun h => by cases h

theorem ensures_updateBatch_alone {r : Request} {body : Bytes} (hr : contentOf? r = some body)
    (h : s.Holds db) : Ensures privateStore (fun e => Ended r db e.status)
      (fun a => Ended r db a.status) (updateBatch r body) s := by
  have unchanged (n : Nat) : Ended r db n s := ⟨db, h, .inr (.inl rfl)⟩
  rw [updateBatch, ensures_bind]
  refine ensures_readJson (fun ms hms => ?_) (unchanged 400) (unchanged 400)
  rw [ensures_bind, ensures_checked]
  refine ⟨fun b hb => ?_, fun d _ => unchanged 400⟩
  obtain ⟨us, -, sound, holds⟩ := Batch.holds_ofMetrics hb
  have asked : batchOf? r = some b := by simp [batchOf?, hr, hms, hb, Except.toOption]
  rw [ensures_bind]
  refine ensures_putCounters_alone h (fun mid t ht hmid => ?_) fun e => unchanged _
  rw [ensures_bind]
  refine ensures_putGauges_alone ht (checkGauge_of_holds holds sound) (fun after u hu hafter => ?_)
    fun e hg fault he => ?_
  · have counters : after.counters = mid.counters := by
      rcases hafter with ⟨-, rfl⟩ | ⟨-, hput⟩
      · rfl
      · obtain ⟨-, gauges, -, rfl⟩ := Database.putGauges_eq_ok_iff.mp hput
        rfl
    rw [ensures_bind, ensures_report, ensures_bind]
    refine ensures_currentBatch_readable hu (fun name hn => ?_) (fun name hn => ?_) fun ms =>
      ⟨after, hu, .inl (by decide : 200 / 100 = 2)⟩
    · rcases hafter with ⟨hempty, -⟩ | ⟨hne, hput⟩
      · exact absurd hn (not_mem_keys hempty)
      · obtain ⟨-, gauges, hrows, rfl⟩ := Database.putGauges_eq_ok_iff.mp hput
        exact Relation.lookup_of_putBatch hne hrows hn
    · rw [Readable, counters]
      rcases hmid with ⟨hempty, -⟩ | ⟨hne, hput⟩
      · exact absurd hn (not_mem_keys hempty)
      · obtain ⟨rows, hrows, rfl⟩ := Database.putCounters_eq_ok_iff.mp hput
        exact Relation.lookup_of_putBatch hne hrows hn
  · rcases hmid with ⟨-, rfl⟩ | ⟨hne, hput⟩
    · exact ⟨mid, ht, .inr (.inl rfl)⟩
    · exact ⟨mid, ht, .inr (.inr ⟨status_of_isFault fault, b, asked, hne, hg, hput, e, he⟩)⟩

end Handler

theorem ensures_ended {s : Store} {db : Database} (key : Option String) {r : Request}
    (hp : r.path = "/updates") (h : s.Holds db) :
    Program.Ensures privateStore (fun a => Ended r db a.status) (Application.handle key r) s := by
  have away : ∀ n ∈ turnedAway, Ended r db n s := fun n _ => ⟨db, h, .inr (.inl rfl)⟩
  refine Application.ensures_handle away (ensures_route away fun found hf => ?_)
  have route : Route.ofPath? "/updates" = some .updateBatch := by decide +kernel
  rw [hp, route] at hf
  obtain rfl := Option.some.inj hf
  refine ensures_withBody away fun body hb => Handler.ensures_answer ?_
  exact Handler.ensures_updateBatch_alone hb h

def Mirrors (before : Snapshot) (l : Ledger) (s : Store) : Prop :=
  ∃ m files, s = ⟨.memory m, files⟩ ∧ Memory.content m = l.content ∧
    (l.changes = [] → l.content = before)

theorem ensures_mirrored (m : Memory) (files : FileTree) (key : Option String) (r : Request) :
    Program.Ensures privateStore
      (fun a s => ∃ l, Answered (updates? r) a l ∧ Mirrors m.content l s)
      (Application.handle key r) ⟨.memory m, files⟩ := by
  have settled := ensures_settled key r (l := ⟨m.content, []⟩) rfl
  refine settled.simulate ⟨m, files, rfl, rfl, fun _ => rfl⟩ ?_ ?_
  · rintro l s t h rfl
    exact ⟨l, Ledger.others_refl l, h⟩
  · rintro l s c r t ⟨m', files', rfl, hm, hc⟩ hr
    obtain ⟨rfl, rfl⟩ := Prod.mk.inj ((Store.perform_memory m' files' c).symm.trans hr)
    refine ⟨l.record c, ⟨m', files', hm, rfl, rfl⟩, _, _, rfl, ?_, ?_⟩
    · rw [Memory.perform_memory, hm, Ledger.record]
      cases l.content.change? c <;> rfl
    · rw [Ledger.record]
      cases l.content.change? c with
      | none => exact hc
      | some u => simp

/-- A list of metrics is all or nothing in memory, and in a database by kinds. -/
theorem updates_all_or_nothing (key : Option String) (r : Request) (hp : r.path = "/updates")
    (files : FileTree) :
    (∀ m : Memory, ∃ m' files',
      let (response, s, _) := (Application.handle key r).run ⟨.memory m, files⟩
      s = ⟨.memory m', files'⟩ ∧ (response.status / 100 ≠ 2 → m'.content = m.content)) ∧
    ∀ c : Connection, ∃ c' files',
      let (response, s, _) := (Application.handle key r).run ⟨.relational c, files⟩
      let before := c.database files
      let after := c'.database files'
      s = ⟨.relational c', files'⟩ ∧ (response.status / 100 ≠ 2 →
        after.gauges = before.gauges ∧
          (after.counters = before.counters ∨ response.status = 500 ∧ HalfStored r before after)) := by
  constructor
  · intro m
    obtain ⟨l, answered, m', files', hs, hm, hl⟩ :=
      Program.ensures_alone_iff.mp (ensures_mirrored m files key r)
    refine ⟨m', files', hs, fun hbad => ?_⟩
    have refused := answered.2.2 fun h200 => hbad (by rw [h200])
    rw [hm, hl refused]
  · intro c
    obtain ⟨after, ⟨c', files', hs, rfl⟩, hend⟩ :=
      Program.ensures_alone_iff.mp (ensures_ended key hp ⟨c, files, rfl, rfl⟩)
    refine ⟨c', files', hs, fun hbad => ?_⟩
    rcases hend with h2 | hsame | ⟨h5, half⟩
    · exact absurd h2 hbad
    · exact ⟨by rw [hsame], .inl (by rw [hsame])⟩
    · refine ⟨?_, .inr ⟨h5, half⟩⟩
      obtain ⟨b, -, -, -, hput, -⟩ := half
      obtain ⟨counters, -, heq⟩ := Database.putCounters_eq_ok_iff.mp hput
      rw [← heq]

def skippingAlloc : Connection := .own ⟨.table ⟨∅, ["Alloc"], []⟩, .table .empty⟩

def noFiles : FileTree := .empty "/work"

def countAndAlloc : Request :=
  ⟨"POST", "/updates", [("content-type", Utf8.encode "application/json")], .raw (Utf8.encode
    ("[\x7b\"id\":\"PollCount\",\"type\":\"counter\",\"delta\":1\x7d," ++
      "\x7b\"id\":\"Alloc\",\"type\":\"gauge\",\"value\":1.5\x7d]"))⟩

theorem refused_list_keeps_gauges : countAndAlloc.path = "/updates" ∧
    ((Application.handle none countAndAlloc).run ⟨.relational skippingAlloc, noFiles⟩).1.status = 500 ∧
    ∃ c' files', ((Application.handle none countAndAlloc).run
        ⟨.relational skippingAlloc, noFiles⟩).2.1 = ⟨.relational c', files'⟩ ∧
      (c'.database files').gauges = (skippingAlloc.database noFiles).gauges := by
  have status : ((Application.handle none countAndAlloc).run
      ⟨.relational skippingAlloc, noFiles⟩).1.status = 500 := by decide +kernel
  have refused : ((Application.handle none countAndAlloc).run
      ⟨.relational skippingAlloc, noFiles⟩).1.status / 100 ≠ 2 := by
    rw [status]
    decide
  obtain ⟨c', files', hs, h⟩ :=
    (updates_all_or_nothing none countAndAlloc rfl noFiles).2 skippingAlloc
  exact ⟨rfl, status, c', files', hs, (h refused).1⟩

def storedCounter (s : Store) (name : String) : Option Int :=
  match s.perform (.getCounter name) with
  | (.ok count, _) => count.map Count.val
  | (.error _, _) => none

/-- A refused list can leave its counters behind. -/
theorem refused_list_keeps_counters :
    ((Application.handle none countAndAlloc).run ⟨.relational skippingAlloc, noFiles⟩).1.status = 500 ∧
    storedCounter ⟨.relational skippingAlloc, noFiles⟩ "PollCount" = none ∧
    storedCounter ((Application.handle none countAndAlloc).run
      ⟨.relational skippingAlloc, noFiles⟩).2.1 "PollCount" = some 1 := by
  decide +kernel

end Server

end Telemetry
