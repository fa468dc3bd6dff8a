import Telemetry.Proofs.Metric.Folding
import Telemetry.Proofs.Server.Accounting
import Telemetry.Proofs.Server.Isolation
import Telemetry.Proofs.Server.MemoryLists
/-!
Metrics sent in one list, in several or one at a time. Requests that are answered 200 are absorbed in
their order, and what a list leaves depends on its entries alone: wherever it is cut, the memory ends
with the same gauges and counters. A metric that is sent alone is answered 200 exactly if it is valid
and the memory has room for it.
-/

namespace Telemetry

open Storage

namespace Update

theorem getD_plus (old : Option Int) (ds : List Int) :
    (plus old (sum? ds)).getD 0 = old.getD 0 + ds.sum := by
  cases ds <;> simp [plus, sum?]

end Update

namespace Snapshot

variable {us vs : List Update} {s t u : Snapshot}

theorem Absorbs.nil (s : Snapshot) : Absorbs [] s s := ⟨fun _ => rfl, fun _ => rfl⟩

theorem Absorbs.append (h : Absorbs us s t) (k : Absorbs vs t u) : Absorbs (us ++ vs) s u := by
  constructor
  · intro name
    rw [k.gauges, h.gauges, Update.gauges, Update.gauges, Update.gauges, List.filterMap_append,
      List.getLast?_append, Option.or_assoc]
  · intro name
    rw [k.totals, h.totals, Update.plus_assoc, ← Update.sum?_append, Update.deltas, Update.deltas,
      Update.deltas, List.filterMap_append]

theorem Absorbs.unique (h : Absorbs us s t) (k : Absorbs us s u) : t = u := by
  have gauges : t.gauges = u.gauges := NameMap.ext fun name => (h.gauges name).trans (k.gauges name).symm
  have counters : t.counters = u.counters := by
    refine NameMap.ext fun name => ?_
    have same : t.total? name = u.total? name := (h.totals name).trans (k.totals name).symm
    exact (Option.map_inj_right fun _ _ => Count.ext).mp same
  cases t
  cases u
  congr

theorem total_inRange (s : Snapshot) (name : String) : Count.InRange ((s.total? name).getD 0) := by
  apply Count.exists_val_iff.mp
  cases h : s.counters[name]? with
  | none => exact ⟨.zero, by simp [total?, h, Count.zero]⟩
  | some c => exact ⟨c, by simp [total?, h]⟩

end Snapshot

namespace Server

open Http

/-- The changes of a ledger lead from this content to its own. -/
structure Ledger.From (before : Snapshot) (l : Ledger) : Prop where
  gauges : ∀ name : String, l.content.gauges[name]? =
    (l.changes.filterMap (Call.gauge? name)).getLast?.or before.gauges[name]?
  totals : ∀ name : String, l.content.total? name =
    Update.plus (before.total? name) (Update.sum? (l.changes.filterMap (Call.delta? name)))

namespace Ledger

variable {before : Snapshot} {l : Ledger}

theorem From.record (h : From before l) (c : Call) : From before (l.record c) := by
  rw [Ledger.record]
  cases hu : l.content.change? c with
  | none => exact h
  | some u =>
    constructor
    · intro name
      rw [Snapshot.gauges_of_change hu, h.gauges, List.filterMap_append, List.getLast?_append,
        Option.or_assoc]
      cases hg : c.gauge? name <;> simp [hg]
    · intro name
      rw [Snapshot.total?_of_change hu, h.totals, Update.plus_assoc, List.filterMap_append,
        Update.sum?_append]
      cases hd : c.delta? name <;> simp [hd, Update.sum?]

theorem From.absorbs (h : From before l) {us : List Update} (applied : Applied us l.changes) :
    Snapshot.Absorbs us before l.content := by
  constructor
  · intro name
    rw [h.gauges, applied.gauges]
    cases (Update.gauges name us).getLast? <;> rfl
  · intro name
    rw [h.totals, applied.deltas, Update.sum?_toList]

end Ledger

def Remembers (s : Store) (content : Snapshot) : Prop :=
  ∃ m files, s = ⟨.memory m, files⟩ ∧ m.content = content

/-- Whatever a request is: answered 200 it asks for updates, and they are absorbed. -/
theorem absorbed {s : Store} {before : Snapshot} (h : Remembers s before) (key : Option String)
    (r : Request) : ∃ after, Remembers ((Application.handle key r).run s).2.1 after ∧
      (((Application.handle key r).run s).1.status = 200 →
        ∃ us, updates? r = some us ∧ Snapshot.Absorbs us before after) := by
  obtain ⟨m, files, rfl, rfl⟩ := h
  -- The ledger of the request is carried along, as if others used the memory too.
  have settled := ensures_settled key r (l := ⟨m.content, []⟩) rfl
  have mirrored : Program.Ensures privateStore (fun a s => ∃ l, Answered (updates? r) a l ∧
      Remembers s l.content ∧ l.From m.content) (Application.handle key r) ⟨.memory m, files⟩ := by
    refine settled.simulate ⟨⟨m, files, rfl, rfl⟩, fun _ => rfl, fun _ => rfl⟩ ?_ ?_
    · rintro l s t h rfl
      exact ⟨l, Ledger.others_refl l, h⟩
    · rintro l s c r t ⟨⟨m', files', rfl, hm⟩, hl⟩ hr
      obtain ⟨rfl, rfl⟩ := Prod.mk.inj ((Store.perform_memory m' files' c).symm.trans hr)
      refine ⟨l.record c, ⟨m', files', hm, rfl, rfl⟩, ⟨_, _, rfl, ?_⟩, hl.record c⟩
      rw [Memory.perform_memory, hm, Ledger.record]
      cases l.content.change? c <;> rfl
  obtain ⟨l, answered, remembers, hl⟩ := Program.ensures_alone_iff.mp mirrored
  refine ⟨l.content, remembers, fun ok => ?_⟩
  obtain ⟨us, hus, applied⟩ := answered.2.1 ok
  exact ⟨us, hus, hl.absorbs applied⟩

def AllStored (answered : List (Request × Response)) : Prop := ∀ x ∈ answered, x.2.status = 200

/-- A metric that is sent to its route and let through. -/
structure Sends (key : Option String) (r : Request) (x : Metric) : Prop where
  method : r.method = "POST"
  path : r.path = "/update"
  typed : Handler.SaysJson r
  through : Application.LetThrough key r
  content : ∃ body, contentOf? r = some body ∧ body.length ≤ bodyLimit ∧ Metric.read? body = some x

variable {key : Option String} {r : Request}

/-- What a request asks for are the updates of these metrics, whichever route it takes. -/
def Asks (r : Request) (ms : List Metric) : Prop := updates? r = ms.mapM Metric.update?

theorem Lists.asks {ms : List Metric} (h : Lists key r ms) : Asks r ms := by
  obtain ⟨body, hc, -, read⟩ := h.content
  have found : Route.ofPath? "/updates" = some .updateBatch := by decide +kernel
  simp [Asks, updates?, h.path, found, Route.updates?, hc, read]

theorem Sends.asks {x : Metric} (h : Sends key r x) : Asks r [x] := by
  obtain ⟨body, hc, -, read⟩ := h.content
  have found : Route.ofPath? "/update" = some .updateJson := by decide +kernel
  simp [Asks, updates?, h.path, found, Route.updates?, hc, read]

theorem Asks.single {x : Metric} {us : List Update} (h : Asks r [x]) (asked : updates? r = some us) :
    ∃ u, x.update? = some u ∧ us = [u] := by
  rw [Asks, asked] at h
  cases hu : x.update? <;> simp_all

theorem allStored_cons {s : Store} {rs : List Request} : AllStored (serve key s (r :: rs)).1 ↔
    ((Application.handle key r).run s).1.status = 200 ∧
      AllStored (serve key ((Application.handle key r).run s).2.1 rs).1 := by
  simp [AllStored, serve]

theorem absorbed_of_allStored {s : Store} {before : Snapshot} {rs : List Request}
    {cuts : List (List Metric)} (asks : List.Forall₂ Asks rs cuts) (h : Remembers s before)
    (stored : AllStored (serve key s rs).1) : ∃ us after, cuts.flatten.mapM Metric.update? = some us ∧
      Remembers (serve key s rs).2 after ∧ Snapshot.Absorbs us before after := by
  induction asks generalizing s before with
  | nil => exact ⟨[], before, rfl, h, .nil before⟩
  | @cons r cut rs cuts hr _ ih =>
    obtain ⟨ok, rest⟩ := allStored_cons.mp stored
    obtain ⟨mid, hmid, accepted⟩ := absorbed h key r
    obtain ⟨us, hus, first⟩ := accepted ok
    obtain ⟨vs, after, hvs, hafter, second⟩ := ih hmid rest
    rw [hr] at hus
    exact ⟨us ++ vs, after, by simp [List.mapM_append, hus, hvs], hafter, first.append second⟩

namespace Handler

variable {R : Refusal → Store → Prop} {m : Memory} {files : FileTree}

theorem ensures_put_memory {name : String} {payload : Payload} {u : Snapshot} {Q : Unit → Store → Prop}
    (accepted : m.content.change? (callOf name payload) = some u)
    (hQ : ∀ files', Q () ⟨.memory (m.load u), files'⟩) :
    Ensures privateStore R Q (put name payload) ⟨.memory m, files⟩ := by
  cases payload with
  | gauge x =>
    rw [callOf] at accepted
    rw [put, ensures_bind, ensures_perform_alone, perform_accepted accepted]
    exact ensures_written_accepted (Ledger.answers_putGauge ⟨m, files, rfl, rfl, rfl⟩) accepted (hQ _)
  | counter d =>
    rw [callOf] at accepted
    rw [put, ensures_bind, ensures_perform_alone, perform_accepted accepted]
    exact ensures_written_accepted (Ledger.answers_putCounter ⟨m, files, rfl, rfl, rfl⟩) accepted (hQ _)

theorem exists_metric {s : Snapshot} {kind : Kind} {name : String} (h : Has kind name s) :
    ∃ x, s.metric? kind name = some x := by
  cases kind with
  | gauge =>
    obtain ⟨x, hx⟩ := Option.isSome_iff_exists.mp h
    exact ⟨.gauge name x, by simp [Snapshot.metric?, Snapshot.payload?, hx, Metric.ofPayload]⟩
  | counter =>
    obtain ⟨d, hd⟩ := Option.isSome_iff_exists.mp h
    exact ⟨.counter name d, by simp [Snapshot.metric?, Snapshot.payload?, hd, Metric.ofPayload]⟩

theorem ensures_updateJson_memory {r : Request} {body : Bytes} {x : Metric} {name : String}
    {payload : Payload} {u : Snapshot} (typed : SaysJson r) (read : Metric.read? body = some x)
    (asked : x.update? = some (name, payload))
    (accepted : m.content.change? (callOf name payload) = some u) :
    Ensures privateStore R (fun a s => a.status = 200 ∧ ∃ files', s = ⟨.memory (m.load u), files'⟩)
      (updateJson r body) ⟨.memory m, files⟩ := by
  obtain ⟨hn, hp⟩ := Metric.update?_eq_some_iff.mp asked
  obtain ⟨stored, found⟩ := exists_metric (has_of_change accepted)
  rw [updateJson, readJson_eq typed read, ensures_bind, ensures_pure, hn, hp]
  show Ensures privateStore R _ (put name payload >>= _) _
  rw [ensures_bind]
  refine ensures_put_memory accepted fun files' => ?_
  rw [ensures_bind]
  exact ensures_current_memory found ⟨rfl, files', rfl⟩

end Handler

theorem route_update {content : Option Bytes} (method : r.method = "POST") (path : r.path = "/update") :
    route r content = withBody content (Handler.updateJson r) := by
  have found : Route.ofPath? "/update" = some .updateJson := by decide +kernel
  rw [route, path, found]
  simp [Route.accepts, Route.isGet, method, Route.run]

theorem status_of_sends {x : Metric} {u : Update} {m : Memory} (h : Sends key r x)
    (asked : x.update? = some u) (accepted : ∃ after, m.content.change? (callOf u.1 u.2) = some after)
    (files : FileTree) : ((Application.handle key r).run ⟨.memory m, files⟩).1.status = 200 := by
  obtain ⟨after, accepted⟩ := accepted
  obtain ⟨body, hc, short, read⟩ := h.content
  have stored : Program.Ensures privateStore (fun a _ => a.status = 200) (Application.handle key r)
      ⟨.memory m, files⟩ :=
    ensures_handle_of_body (P := fun n _ _ => n = 200) h.through h.method
      (fun _ => route_update h.method h.path) hc short
      ((Handler.ensures_updateJson_memory h.typed read asked accepted).mono
        (fun _ _ refused => refused) fun _ _ stored => stored.1)
  exact Program.ensures_alone_iff.mp stored

theorem change?_putGauge (s : Snapshot) {name : String} {x : Binary64}
    (named : isBlankText name = false) (finite : x.isFinite = true) :
    s.change? (.putGauge name x) = some { s with gauges := s.gauges.insert name x } :=
  Snapshot.toOption_eq_some.mpr
    (Snapshot.putGauge_eq_ok_iff.mpr ⟨checkGauge_eq_ok_iff.mpr ⟨named, finite⟩, rfl⟩)

/-- A sound update is refused for its sum only. -/
theorem exists_change {s : Snapshot} {u : Update} (sound : u.Sound)
    (room : Count.InRange ((s.total? u.1).getD 0 + (Update.deltas u.1 [u]).sum)) :
    ∃ after, s.change? (callOf u.1 u.2) = some after := by
  obtain ⟨name, payload⟩ := u
  cases payload with
  | gauge x => exact ⟨_, change?_putGauge s sound.1 (sound.2 x rfl)⟩
  | counter d =>
    obtain ⟨sum, hs⟩ := Count.exists_val_iff.mpr room
    have check := checkName_eq_ok_iff.mpr sound.1
    have added : accumulate name s.counters[name]? d = .ok sum := by
      rw [accumulate_eq_ok_iff, hs]
      simp [Update.deltas, Snapshot.total?]
    exact ⟨_, Snapshot.toOption_eq_some.mpr (Snapshot.putCounter_eq_ok_iff.mpr ⟨check, sum, added, rfl⟩)⟩

/-- Every running total of the deltas, from what is stored on, is a count. -/
def Fits (s : Snapshot) (ms : List Metric) : Prop :=
  ∀ name ds, ds <+: ms.filterMap (Metric.deltaFor? name) →
    Count.InRange ((s.total? name).getD 0 + ds.sum)

theorem deltas_single {x : Metric} {u : Update} (h : x.update? = some u) (name : String) :
    Update.deltas name [u] = [x].filterMap (Metric.deltaFor? name) := by
  rw [Update.deltas, List.filterMap_cons, List.filterMap_cons, (Metric.update?_says h name).2]
  rfl

theorem fits_cons_iff {s after : Snapshot} {x : Metric} {u : Update} {ms : List Metric}
    (asked : x.update? = some u) (h : Snapshot.Absorbs [u] s after) :
    Fits s (x :: ms) ↔ Fits after ms := by
  have shifted (name : String) : (after.total? name).getD 0 =
      (s.total? name).getD 0 + ([x].filterMap (Metric.deltaFor? name)).sum := by
    rw [h.totals, Update.getD_plus, deltas_single asked]
  have split (name : String) : (x :: ms).filterMap (Metric.deltaFor? name) =
      [x].filterMap (Metric.deltaFor? name) ++ ms.filterMap (Metric.deltaFor? name) := by
    rw [← List.filterMap_append]
    rfl
  constructor
  · intro fits name ds hds
    rw [shifted, Int.add_assoc, ← List.sum_append]
    refine fits name _ ?_
    rw [split]
    exact (List.prefix_append_right_inj _).mpr hds
  · intro fits name ds hds
    rw [split] at hds
    cases hd : Metric.deltaFor? name x with
    | none =>
      have same : (after.total? name).getD 0 = (s.total? name).getD 0 := by simp [shifted, hd]
      rw [← same]
      exact fits name ds (by simpa [hd] using hds)
    | some d =>
      have grown : (after.total? name).getD 0 = (s.total? name).getD 0 + d := by simp [shifted, hd]
      rcases List.prefix_cons_iff.mp (by simpa [hd] using hds) with rfl | ⟨es, rfl, hes⟩
      · simpa using s.total_inRange name
      · rw [List.sum_cons, ← Int.add_assoc, ← grown]
        exact fits name es hes

theorem status_iff {x : Metric} {m : Memory} (h : Sends key r x) (files : FileTree) :
    ((Application.handle key r).run ⟨.memory m, files⟩).1.status = 200 ↔
      x.Valid ∧ ∀ name, Count.InRange
        ((m.content.total? name).getD 0 + ([x].filterMap (Metric.deltaFor? name)).sum) := by
  constructor
  · intro ok
    obtain ⟨after, -, accepted⟩ := absorbed ⟨m, files, rfl, rfl⟩ key r
    obtain ⟨us, hus, absorbs⟩ := accepted ok
    obtain ⟨u, hu, rfl⟩ := h.asks.single hus
    refine ⟨Metric.exists_update?_iff.mp ⟨u, hu⟩, fun name => ?_⟩
    have total := after.total_inRange name
    rwa [absorbs.totals, Update.getD_plus, deltas_single hu] at total
  · rintro ⟨valid, room⟩
    obtain ⟨u, hu⟩ := Metric.exists_update?_iff.mpr valid
    refine status_of_sends h hu (exists_change (Metric.update?_sound hu) ?_) files
    rw [deltas_single hu]
    exact room u.1

theorem allStored_iff {rs : List Request} {ms : List Metric} (sent : List.Forall₂ (Sends key) rs ms)
    {m : Memory} {files : FileTree} :
    AllStored (serve key ⟨.memory m, files⟩ rs).1 ↔ (∀ x ∈ ms, x.Valid) ∧ Fits m.content ms := by
  induction sent generalizing m files with
  | nil =>
    have fits : Fits m.content [] := by
      intro name ds hds
      obtain rfl := List.prefix_nil.mp hds
      simpa using m.content.total_inRange name
    exact ⟨fun _ => ⟨by simp, fits⟩, fun _ => by simp [AllStored, serve]⟩
  | @cons r x rs ms hr _ ih =>
    rw [allStored_cons, List.forall_mem_cons]
    -- Where the first one is answered 200, the others find what it left.
    obtain ⟨after, ⟨m', files', hs, rfl⟩, accepted⟩ := absorbed ⟨m, files, rfl, rfl⟩ key r
    have later (ok : ((Application.handle key r).run ⟨.memory m, files⟩).1.status = 200) :
        Fits m.content (x :: ms) ↔ Fits m'.content ms := by
      obtain ⟨us, hus, absorbs⟩ := accepted ok
      obtain ⟨u, hu, rfl⟩ := hr.asks.single hus
      exact fits_cons_iff hu absorbs
    rw [hs, ih]
    constructor
    · rintro ⟨ok, valid, fits⟩
      exact ⟨⟨((status_iff hr files).mp ok).1, valid⟩, (later ok).mpr fits⟩
    · rintro ⟨⟨first, valid⟩, fits⟩
      have ok := (status_iff hr files).mpr ⟨first, fun name => fits name _ ?_⟩
      · exact ⟨ok, valid, (later ok).mp fits⟩
      · exact List.IsPrefix.filterMap _ (List.prefix_append [x] ms)

/-- Wherever a list is cut: if the list as a whole and its parts are all accepted, they leave the same
gauges and counters. Its entries, sent one at a time, are all accepted if each is valid and every
running total is a count, and then they leave what the whole list leaves if that is accepted too. -/
theorem cutting_keeps_content (key : Option String) (m : Memory) (files : FileTree) (ms : List Metric) :
    (∀ whole parts cuts, Lists key whole ms → List.Forall₂ (Lists key) parts cuts → cuts.flatten = ms →
      AllStored (serve key ⟨.memory m, files⟩ [whole]).1 →
        AllStored (serve key ⟨.memory m, files⟩ parts).1 →
          ∃ content, Remembers (serve key ⟨.memory m, files⟩ [whole]).2 content ∧
            Remembers (serve key ⟨.memory m, files⟩ parts).2 content) ∧
    ∀ singles, List.Forall₂ (Sends key) singles ms →
      (AllStored (serve key ⟨.memory m, files⟩ singles).1 ↔
        (∀ x ∈ ms, x.Valid) ∧ ∀ name ds, ds <+: ms.filterMap (Metric.deltaFor? name) →
          Count.InRange ((m.content.total? name).getD 0 + ds.sum)) ∧
      ∀ whole, Lists key whole ms → AllStored (serve key ⟨.memory m, files⟩ singles).1 →
        AllStored (serve key ⟨.memory m, files⟩ [whole]).1 →
          ∃ content, Remembers (serve key ⟨.memory m, files⟩ [whole]).2 content ∧
            Remembers (serve key ⟨.memory m, files⟩ singles).2 content := by
  have start : Remembers ⟨.memory m, files⟩ m.content := ⟨m, files, rfl, rfl⟩
  -- Both ways of sending the list absorb the same updates.
  have same {whole : Request} {parts : List Request} {cuts : List (List Metric)} (hw : Lists key whole ms)
      (asks : List.Forall₂ Asks parts cuts) (hc : cuts.flatten = ms)
      (accepted : AllStored (serve key ⟨.memory m, files⟩ [whole]).1)
      (stored : AllStored (serve key ⟨.memory m, files⟩ parts).1) :
      ∃ content, Remembers (serve key ⟨.memory m, files⟩ [whole]).2 content ∧
        Remembers (serve key ⟨.memory m, files⟩ parts).2 content := by
    obtain ⟨us, one, hus, hone, first⟩ := absorbed_of_allStored (.cons hw.asks .nil) start accepted
    obtain ⟨vs, all, hvs, hall, second⟩ := absorbed_of_allStored asks start stored
    rw [List.flatten_singleton] at hus
    rw [hc, hus] at hvs
    obtain rfl := Option.some.inj hvs
    obtain rfl := first.unique second
    exact ⟨one, hone, hall⟩
  refine ⟨fun whole parts cuts hw lists => same hw (lists.imp fun _ _ => Lists.asks),
    fun singles sent => ⟨allStored_iff sent, fun whole hw stored accepted => ?_⟩⟩
  have asks : List.Forall₂ Asks singles (ms.map ([·])) :=
    List.forall₂_map_right_iff.mpr (sent.imp fun _ _ => Sends.asks)
  have whole : (ms.map ([·])).flatten = ms := by rw [← List.flatMap_def, List.flatMap_singleton']
  exact same hw asks whole accepted stored

def jsonRequest (path json : String) : Request :=
  ⟨"POST", path, [("content-type", Utf8.encode "application/json")], .raw (Utf8.encode json)⟩

theorem saysJson_jsonRequest (path json : String) : Handler.SaysJson (jsonRequest path json) := by
  -- The path and the body have no part in it.
  have same : (jsonRequest path json).text? "content-type" =
      (jsonRequest "/" "").text? "content-type" := rfl
  refine ⟨"application/json", ?_, by decide +kernel⟩
  rw [same]
  decide +kernel

theorem letThrough_jsonRequest {path json : String} (short : (Utf8.encode json).length ≤ bodyLimit) :
    Application.LetThrough none (jsonRequest path json) where
  shown long := by
    have length : bodyLimit < (Utf8.encode json).length := long.2
    omega
  coding coding h := nomatch (show none = some coding from h)
  allowed key h := nomatch h

theorem lists_jsonRequest {json : String} {ms : List Metric}
    (short : (Utf8.encode json).length ≤ bodyLimit)
    (read : Metric.readList? (Utf8.encode json) = some ms) :
    Lists none (jsonRequest "/updates" json) ms :=
  ⟨rfl, rfl, saysJson_jsonRequest _ _, letThrough_jsonRequest short, _, rfl, short, read⟩

theorem sends_jsonRequest {json : String} {x : Metric} (short : (Utf8.encode json).length ≤ bodyLimit)
    (read : Metric.read? (Utf8.encode json) = some x) : Sends none (jsonRequest "/update" json) x :=
  ⟨rfl, rfl, saysJson_jsonRequest _ _, letThrough_jsonRequest short, _, rfl, short, read⟩

def countJson : String := "\x7b\"id\":\"PollCount\",\"type\":\"counter\",\"delta\":1\x7d"

def oneCount : Metric := .counter "PollCount" .one

def freshMemory : Store := ⟨.memory (.new none .inline), noFiles⟩

theorem two_counts_cut :
    let whole := jsonRequest "/updates" ("[" ++ countJson ++ "," ++ countJson ++ "]")
    let part := jsonRequest "/updates" ("[" ++ countJson ++ "]")
    let single := jsonRequest "/update" countJson
    AllStored (serve none freshMemory [single, single]).1 ∧
      (∃ content, Remembers (serve none freshMemory [whole]).2 content ∧
        Remembers (serve none freshMemory [part, part]).2 content) ∧
      ∃ content, Remembers (serve none freshMemory [whole]).2 content ∧
        Remembers (serve none freshMemory [single, single]).2 content := by
  intro whole part single
  obtain ⟨lists, singles⟩ :=
    cutting_keeps_content none (.new none .inline) noFiles [oneCount, oneCount]
  have hw : Lists none whole [oneCount, oneCount] :=
    lists_jsonRequest (by decide +kernel) (by decide +kernel)
  have hp : Lists none part [oneCount] := lists_jsonRequest (by decide +kernel) (by decide +kernel)
  have hs : Sends none single oneCount := sends_jsonRequest (by decide +kernel) (by decide +kernel)
  have accepted : AllStored (serve none freshMemory [whole]).1 := by
    unfold AllStored
    decide +kernel
  have cut : AllStored (serve none freshMemory [part, part]).1 := by
    unfold AllStored
    decide +kernel
  have stored : AllStored (serve none freshMemory [single, single]).1 := by
    unfold AllStored
    decide +kernel
  obtain ⟨-, same⟩ := singles [single, single] (.cons hs (.cons hs .nil))
  refine ⟨stored, ?_, same whole hw stored accepted⟩
  exact lists whole [part, part] [[oneCount], [oneCount]] hw (.cons hp (.cons hp .nil)) rfl accepted cut

end Server

end Telemetry
