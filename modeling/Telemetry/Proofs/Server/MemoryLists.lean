import Telemetry.Proofs.Metric.Acceptance
import Telemetry.Proofs.Server.Admission
import Telemetry.Proofs.Server.BatchUpdates
import Telemetry.Proofs.Server.Names
/-!
Lists of metrics on a memory that nobody else uses. If a list is accepted as a batch and no counter of
the memory overflows by it, it is stored as a whole, whatever becomes of the snapshot, and the answer
holds what is stored then for its names.
-/

namespace Telemetry

open Storage

namespace Snapshot

def payload? (s : Snapshot) (kind : Kind) (name : String) : Option Payload :=
  match kind with
  | .gauge => s.gauges[name]?.map .gauge
  | .counter => s.counters[name]?.map .counter

def metric? (s : Snapshot) (kind : Kind) (name : String) : Option Metric :=
  (s.payload? kind name).map (Metric.ofPayload name)

def metrics? (s : Snapshot) (b : Batch) : Option (List Metric) := do
  return (← b.gauges.keys.mapM (s.metric? .gauge)) ++ (← b.counters.keys.mapM (s.metric? .counter))

/-- Every gauge has its last new value, every counter the sum of its deltas more; all else is as it
was. -/
structure Absorbs (us : List Update) (s after : Snapshot) : Prop where
  gauges : ∀ name : String, after.gauges[name]? = (Update.gauges name us).getLast?.or s.gauges[name]?
  totals : ∀ name : String,
    after.total? name = Update.plus (s.total? name) (Update.sum? (Update.deltas name us))

/-- No counter leaves its range when the deltas are added to it. -/
def HasRoom (us : List Update) (s : Snapshot) : Prop :=
  ∀ name, Update.deltas name us ≠ [] →
    ∃ c : Count, c.val = (s.total? name).getD 0 + (Update.deltas name us).sum

/-- The content after a batch: its counters are put first, and then its gauges. -/
def putBatch? (s : Snapshot) (b : Batch) : Option Snapshot :=
  (s.change? (.putCounters b.counters)).bind fun mid => mid.change? (.putGauges b.gauges)

variable {s after : Snapshot} {b : Batch} {us : List Update}

theorem exists_change_putGauges (s : Snapshot) {gauges : NameMap Binary64}
    (checks : ∀ e ∈ gauges.toList, checkGauge e.1 e.2 = .ok ()) :
    ∃ u, s.change? (.putGauges gauges) = some u :=
  ⟨_, toOption_eq_some.mpr (putGauges_eq_ok_iff.mpr ⟨checks, rfl⟩)⟩

theorem exists_change_putCounters {counters : NameMap Count}
    (names : ∀ e ∈ counters.toList, checkName e.1 = .ok ())
    (room : ∀ e ∈ counters.toList, ∃ c : Count, c.val = (s.total? e.1).getD 0 + e.2.val) :
    ∃ u, s.change? (.putCounters counters) = some u := by
  cases hs : counters.toList.mapM s.sumOf with
  | ok sums => exact ⟨_, toOption_eq_some.mpr (putCounters_eq_ok_iff.mpr ⟨names, sums, hs, rfl⟩)⟩
  | error e =>
    obtain ⟨entry, mem, failed⟩ := error_of_mapM hs
    obtain ⟨c, hc⟩ := room entry mem
    have sum : s.sumOf entry = .ok (entry.1, c) :=
      sumOf_eq_ok_iff.mpr ⟨rfl, accumulate_eq_ok_iff.mpr hc⟩
    rw [failed] at sum
    cases sum

theorem exists_putBatch (held : b.Holds us) (sound : ∀ u ∈ us, u.Sound) (room : HasRoom us s) :
    ∃ after, s.putBatch? b = some after := by
  obtain ⟨mid, hm⟩ : ∃ mid, s.change? (.putCounters b.counters) = some mid := by
    refine exists_change_putCounters (fun e he => ?_) fun e he => ?_
    · rw [Std.ExtTreeMap.mem_toList_iff_getElem?_eq_some] at he
      obtain ⟨u, hu, hn⟩ := held.mem_counters (by rw [he]; rfl)
      exact checkName_eq_ok_iff.mpr (hn ▸ (sound u hu).1)
    · rw [Std.ExtTreeMap.mem_toList_iff_getElem?_eq_some] at he
      have total := held.counters e.1
      rw [he, Option.map_some] at total
      cases hd : Update.deltas e.1 us with
      | nil =>
        rw [hd] at total
        cases total
      | cons d ds =>
        obtain ⟨c, hc⟩ := room e.1 (by rw [hd]; exact List.cons_ne_nil d ds)
        rw [hd] at total hc
        exact ⟨c, hc.trans (congrArg (_ + ·) (Option.some.inj total).symm)⟩
  obtain ⟨after, ha⟩ := exists_change_putGauges mid (Server.Handler.checkGauge_of_holds held sound)
  exact ⟨after, by rw [putBatch?, hm]; exact ha⟩

theorem absorbs_of_putBatch (held : b.Holds us) (h : s.putBatch? b = some after) :
    Absorbs us s after := by
  obtain ⟨mid, hm, ha⟩ := Option.bind_eq_some_iff.mp h
  constructor
  · intro name
    rw [gauges_of_change ha, gauges_of_change hm, ← held.gauges]
    rfl
  · intro name
    rw [total?_of_change ha, total?_of_change hm, ← held.counters]
    rfl

theorem Absorbs.stores_gauges (h : Absorbs us s after) (held : b.Holds us) {name : String} {x : Binary64}
    (hx : b.gauges[name]? = some x) : after.gauges[name]? = some x := by
  rw [h.gauges, ← held.gauges, hx]
  rfl

theorem Absorbs.stores_counters (h : Absorbs us s after) (held : b.Holds us) {name : String}
    (hn : name ∈ b.counters.keys) : after.counters[name]?.isSome := by
  rw [NameMap.mem_keys_iff, ← Option.isSome_map (f := Count.val), held.counters] at hn
  obtain ⟨d, hd⟩ := Option.isSome_iff_exists.mp hn
  have total := h.totals name
  rw [hd] at total
  obtain ⟨c, hc, -⟩ := Option.map_eq_some_iff.mp total
  rw [hc]
  rfl

theorem exists_metrics (held : b.Holds us) (h : Absorbs us s after) :
    ∃ stored, after.metrics? b = some stored := by
  have gauges : ∀ name ∈ b.gauges.keys, (after.metric? .gauge name).isSome := by
    intro name hn
    obtain ⟨x, hx⟩ := Option.isSome_iff_exists.mp (NameMap.mem_keys_iff.mp hn)
    simp [metric?, payload?, h.stores_gauges held hx]
  have counters : ∀ name ∈ b.counters.keys, (after.metric? .counter name).isSome := by
    intro name hn
    obtain ⟨c, hc⟩ := Option.isSome_iff_exists.mp (h.stores_counters held hn)
    simp [metric?, payload?, hc]
  obtain ⟨gs, hgs⟩ := exists_mapM_of_isSome gauges
  obtain ⟨cs, hcs⟩ := exists_mapM_of_isSome counters
  exact ⟨gs ++ cs, by simp [metrics?, hgs, hcs]⟩

end Snapshot

namespace Server

open Http

namespace Handler

variable {R : Refusal → Store → Prop} {m : Memory} {files : FileTree}

theorem ensures_written_accepted {c : Call} {k : Ledger} {r : Except Error Unit} {what : String}
    {u : Snapshot} {Q : Unit → Store → Prop} {s : Store}
    (answers : Ledger.AnswersUpdate c ⟨m.content, []⟩ r k) (accepted : m.content.change? c = some u)
    (hQ : Q () s) : Ensures privateStore R Q (written what r) s := by
  rw [ensures_written]
  rcases answers with ⟨e, -, refused, -⟩ | ⟨v, -, -, persistence⟩
  · exact absurd (refused.symm.trans accepted) (by simp)
  · refine ⟨fun _ => hQ, fun e he other => ?_⟩
    rw [persistence e he] at other
    cases other

theorem perform_accepted {c : Call} {u : Snapshot} (accepted : m.content.change? c = some u) :
    (Store.perform ⟨.memory m, files⟩ c).2 = ⟨.memory (m.load u), (m.perform files c).2.2⟩ := by
  rw [Store.perform_memory, Memory.perform_memory, accepted]
  rfl

theorem ensures_putCounters_memory {counters : NameMap Count} {u : Snapshot}
    {Q : Unit → Store → Prop} (accepted : m.content.change? (.putCounters counters) = some u)
    (hQ : ∀ files', Q () ⟨.memory (m.load u), files'⟩) :
    Ensures privateStore R Q (putCounters counters) ⟨.memory m, files⟩ := by
  unfold putCounters
  cases he : counters.isEmpty with
  | true =>
    rw [Std.ExtTreeMap.isEmpty_iff.mp he] at accepted
    obtain rfl : m.content = u := Option.some.inj accepted
    exact hQ files
  | false =>
    simp only [Bool.not_false, if_true, ensures_bind, ensures_perform_alone]
    rw [perform_accepted accepted]
    exact ensures_written_accepted (Ledger.answers_putCounters ⟨m, files, rfl, rfl, rfl⟩) accepted
      (hQ _)

theorem ensures_putGauges_memory {gauges : NameMap Binary64} {u : Snapshot}
    {Q : Unit → Store → Prop} (accepted : m.content.change? (.putGauges gauges) = some u)
    (hQ : ∀ files', Q () ⟨.memory (m.load u), files'⟩) :
    Ensures privateStore R Q (putGauges gauges) ⟨.memory m, files⟩ := by
  unfold putGauges
  cases he : gauges.isEmpty with
  | true =>
    rw [Std.ExtTreeMap.isEmpty_iff.mp he] at accepted
    obtain rfl : m.content = u := Option.some.inj accepted
    exact hQ files
  | false =>
    simp only [Bool.not_false, if_true, ensures_bind, ensures_perform_alone]
    rw [perform_accepted accepted]
    exact ensures_written_accepted (Ledger.answers_putGauges ⟨m, files, rfl, rfl, rfl⟩) accepted
      (hQ _)

theorem ensures_currentPayload_memory {kind : Kind} {name : String} {p : Payload}
    {Q : Payload → Store → Prop} (h : m.content.payload? kind name = some p)
    (hQ : Q p ⟨.memory m, files⟩) :
    Ensures privateStore R Q (currentPayload kind name) ⟨.memory m, files⟩ := by
  cases kind with
  | gauge =>
    obtain ⟨x, hx, rfl⟩ := Option.map_eq_some_iff.mp h
    simp only [currentPayload, getGauge, ensures_bind, ensures_perform_alone, Store.perform_memory,
      Memory.perform, hx]
    exact hQ
  | counter =>
    obtain ⟨d, hd, rfl⟩ := Option.map_eq_some_iff.mp h
    simp only [currentPayload, getCounter, ensures_bind, ensures_perform_alone, Store.perform_memory,
      Memory.perform, hd]
    exact hQ

theorem ensures_current_memory {kind : Kind} {name : String} {x : Metric} {Q : Metric → Store → Prop}
    (h : m.content.metric? kind name = some x) (hQ : Q x ⟨.memory m, files⟩) :
    Ensures privateStore R Q (current kind name) ⟨.memory m, files⟩ := by
  obtain ⟨p, hp, rfl⟩ := Option.map_eq_some_iff.mp h
  rw [current, ensures_bind]
  exact ensures_currentPayload_memory hp hQ

theorem ensures_current_all_memory {kind : Kind} {names : List String} {xs : List Metric}
    {Q : List Metric → Store → Prop} (h : names.mapM (m.content.metric? kind) = some xs)
    (hQ : Q xs ⟨.memory m, files⟩) :
    Ensures privateStore R Q (names.mapM (current kind)) ⟨.memory m, files⟩ := by
  have each := mapM_eq_some_iff.mp h
  clear h
  induction each generalizing Q with
  | nil => exact hQ
  | cons hx _ ih =>
    simp only [List.mapM_cons, ensures_bind, ensures_pure]
    exact ensures_current_memory hx (ih hQ)

theorem ensures_currentBatch_memory {b : Batch} {stored : List Metric}
    {Q : List Metric → Store → Prop} (h : m.content.metrics? b = some stored)
    (hQ : Q stored ⟨.memory m, files⟩) :
    Ensures privateStore R Q (currentBatch b) ⟨.memory m, files⟩ := by
  obtain ⟨gs, hgs, h⟩ := Option.bind_eq_some_iff.mp h
  obtain ⟨cs, hcs, h⟩ := Option.bind_eq_some_iff.mp h
  obtain rfl := Option.some.inj h
  rw [currentBatch, ensures_bind]
  refine ensures_current_all_memory hgs ?_
  rw [ensures_bind]
  exact ensures_current_all_memory hcs hQ

def SaysJson (r : Request) : Prop :=
  ∃ type, r.text? "content-type" = some type ∧
    "application/json".toList.isPrefixOf (type.toList.dropWhile isBlank) = true

theorem readJson_eq {α : Type} {read : Bytes → Option α} {r : Request} {body : Bytes} {a : α}
    (typed : SaysJson r) (h : read body = some a) : readJson read r body = pure a := by
  obtain ⟨type, ht, json⟩ := typed
  simp only [readJson, ht, json, h, Bool.not_true, Bool.false_eq_true, if_false]

theorem readJson_of_none {α : Type} {read : Bytes → Option α} {r : Request} {body : Bytes}
    (typed : SaysJson r) (h : read body = none) : readJson read r body = throw .malformedBody := by
  obtain ⟨type, ht, json⟩ := typed
  simp only [readJson, ht, json, h, Bool.not_true, Bool.false_eq_true, if_false]

theorem ensures_updateBatch_memory {r : Request} {body : Bytes} {ms stored : List Metric} {b : Batch}
    {after : Snapshot} (typed : SaysJson r) (read : Metric.readList? body = some ms)
    (accepted : Batch.ofMetrics ms = .ok b) (put : m.content.putBatch? b = some after)
    (answer : after.metrics? b = some stored) :
    Ensures privateStore R (fun a s => a = .json (Metric.listJson stored).bytes ∧
      ∃ files', s = ⟨.memory (m.load after), files'⟩) (updateBatch r body) ⟨.memory m, files⟩ := by
  obtain ⟨mid, hm, ha⟩ := Option.bind_eq_some_iff.mp put
  rw [updateBatch, readJson_eq typed read, ensures_bind, ensures_pure, accepted, ensures_bind]
  show Ensures privateStore R _ (putCounters b.counters >>= _) _
  rw [ensures_bind]
  refine ensures_putCounters_memory hm fun files' => ?_
  rw [ensures_bind]
  refine ensures_putGauges_memory ha fun files' => ?_
  rw [ensures_bind, ensures_report, ensures_bind]
  exact ensures_currentBatch_memory answer ⟨rfl, files', rfl⟩

end Handler

/-- A list of metrics that is sent to its route and let through. -/
structure Lists (key : Option String) (r : Request) (ms : List Metric) : Prop where
  method : r.method = "POST"
  path : r.path = "/updates"
  typed : Handler.SaysJson r
  through : Application.LetThrough key r
  content : ∃ body, contentOf? r = some body ∧ body.length ≤ bodyLimit ∧
    Metric.readList? body = some ms

/-- The list was stored: the memory is as it should be, and the answer holds what is stored now. -/
def Stored (now : Memory) (stored : List Metric) (status : Nat) (content : Bytes) (s : Store) : Prop :=
  status = 200 ∧ content = (Metric.listJson stored).bytes ∧ ∃ files, s = ⟨.memory now, files⟩

theorem route_updates {r : Request} {content : Option Bytes} (method : r.method = "POST")
    (path : r.path = "/updates") : route r content = withBody content (Handler.updateBatch r) := by
  have found : Route.ofPath? "/updates" = some .updateBatch := by decide +kernel
  rw [route, path, found]
  simp [Route.accepts, Route.isGet, method, Route.run]

theorem ensures_handle_of_body {key : Option String} {r : Request} {body : Bytes} {s : Store}
    {handler : Bytes → Handler Response} {P : Nat → Bytes → Store → Prop}
    (through : Application.LetThrough key r) (method : r.method = "POST")
    (routed : ∀ content, route r content = withBody content handler)
    (hc : contentOf? r = some body) (short : body.length ≤ bodyLimit)
    (handled : Handler.Ensures privateStore
      (fun e s => P e.status (Response.text e.status e.message).body.content s)
      (fun a s => P a.status a.body.content s) (handler body) s) :
    Program.Ensures privateStore (fun a s => P a.status a.body.content s)
      (Application.handle key r) s := by
  have readable : readBody (contentOf? r) = .ok body := by
    rw [hc, readBody, if_neg (by omega)]
  have method : r.method ≠ "HEAD" := by
    rw [method]
    decide
  refine Application.ensures_handle_of_letThrough through method ?_
  rw [routed, withBody, readable]
  exact Handler.ensures_answer handled

/-- The whole server stores a list that is accepted as a batch and fits beside what is stored. -/
theorem ensures_list_stored {key : Option String} {r : Request} {ms stored : List Metric} {b : Batch}
    {m : Memory} {files : FileTree} {after : Snapshot} (h : Lists key r ms)
    (accepted : Batch.ofMetrics ms = .ok b) (put : m.content.putBatch? b = some after)
    (answer : after.metrics? b = some stored) :
    Program.Ensures privateStore (fun a s => Stored (m.load after) stored a.status a.body.content s)
      (Application.handle key r) ⟨.memory m, files⟩ := by
  obtain ⟨body, hc, short, read⟩ := h.content
  refine ensures_handle_of_body h.through h.method (fun _ => route_updates h.method h.path) hc short
    ((Handler.ensures_updateBatch_memory h.typed read accepted put answer).mono
      (fun _ _ refused => refused) ?_)
  rintro a s ⟨rfl, files', rfl⟩
  exact ⟨rfl, rfl, files', rfl⟩

end Server

end Telemetry
