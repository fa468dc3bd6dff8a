import Telemetry.Proofs.Server.Cutting
import Telemetry.Proofs.Text.ByteOrder
/-!
What a list of metrics is answered with. The answer has the gauges of the list in the order of their
names, each with its last value, and then its counters, each with what was stored before and all its
deltas together. Whoever asks for one of these metrics afterwards is answered with the same metric.
-/

namespace Telemetry

open Storage

theorem exists_entries {α : Type} {names : List String} {f : String → Option α}
    (h : ∀ name ∈ names, (f name).isSome) :
    ∃ entries : List (String × α), entries.map Prod.fst = names ∧ ∀ e ∈ entries, f e.1 = some e.2 := by
  induction names with
  | nil => exact ⟨[], rfl, by simp⟩
  | cons name names ih =>
    obtain ⟨first, rest⟩ := List.forall_mem_cons.mp h
    obtain ⟨x, hx⟩ := Option.isSome_iff_exists.mp first
    obtain ⟨entries, keys, found⟩ := ih rest
    exact ⟨(name, x) :: entries, by rw [List.map_cons, keys], List.forall_mem_cons.mpr ⟨hx, found⟩⟩

/-- The names are in the order of their bytes, and none is repeated. -/
def Ascending {α : Type} (entries : List (String × α)) : Prop :=
  entries.Pairwise fun e f => Utf8.encode e.1 < Utf8.encode f.1

theorem ascending_of_keys {α β : Type} {entries : List (String × α)} {b : NameMap β}
    (keys : entries.map Prod.fst = b.keys) : Ascending entries := by
  have ordered := b.ascending_keys
  rw [← keys, List.pairwise_map] at ordered
  exact ordered.imp Utf8.encode_lt

/-- The gauges of a list of metrics: its names, each with the last value it has for them. -/
structure GaugesOf (ms : List Metric) (entries : List (String × Binary64)) : Prop where
  ascending : Ascending entries
  names : ∀ name, name ∈ entries.map Prod.fst ↔ ∃ m ∈ ms, trim m.id = name ∧ m.Is .gauge
  values : ∀ e ∈ entries, (ms.filterMap (Metric.valueFor? e.1)).getLast? = some e.2

/-- The counters of a list of metrics beside this content: its names, each with the sum of its deltas
and of what is stored. -/
structure CountersOf (s : Snapshot) (ms : List Metric) (entries : List (String × Count)) : Prop where
  ascending : Ascending entries
  names : ∀ name, name ∈ entries.map Prod.fst ↔ ∃ m ∈ ms, trim m.id = name ∧ m.Is .counter
  sums : ∀ e ∈ entries,
    e.2.val = (s.total? e.1).getD 0 + (ms.filterMap (Metric.deltaFor? e.1)).sum

def listed (gauges : List (String × Binary64)) (counters : List (String × Count)) : List Metric :=
  gauges.map (fun e => .gauge e.1 e.2) ++ counters.map fun e => .counter e.1 e.2

section Listed

variable {ms : List Metric} {us : List Update} {b : Batch} {s after : Snapshot}
  {gauges : List (String × Binary64)} {counters : List (String × Count)}

theorem gaugesOf_ofMetrics (hb : Batch.ofMetrics ms = .ok b) : GaugesOf ms b.gauges.toList where
  ascending := ascending_of_keys Std.ExtTreeMap.map_fst_toList_eq_keys
  names name := by
    rw [Std.ExtTreeMap.map_fst_toList_eq_keys]
    exact (Batch.folding_ofMetrics ms).gaugeNames b hb name
  values e he := by
    rw [← (Batch.folding_ofMetrics ms).gauges b hb]
    exact Std.ExtTreeMap.mem_toList_iff_getElem?_eq_some.mp he

theorem countersOf_ofMetrics (hb : Batch.ofMetrics ms = .ok b) (hus : ms.mapM Metric.update? = some us)
    (absorbs : Snapshot.Absorbs us s after) (keys : counters.map Prod.fst = b.counters.keys)
    (found : ∀ e ∈ counters, after.counters[e.1]? = some e.2) : CountersOf s ms counters where
  ascending := ascending_of_keys keys
  names name := by
    rw [keys]
    exact (Batch.folding_ofMetrics ms).counterNames b hb name
  sums e he := by
    have total := absorbs.totals e.1
    rw [Snapshot.total?, found e he] at total
    rw [← (updates_say hus e.1).2, ← Update.getD_plus, ← total]
    rfl

theorem mapM_metric?_eq {α : Type} {entries : List (String × α)} (kind : Kind) (payload : α → Payload)
    (found : ∀ e ∈ entries, after.payload? kind e.1 = some (payload e.2)) :
    (entries.map Prod.fst).mapM (after.metric? kind) =
      some (entries.map fun e => .ofPayload e.1 (payload e.2)) := by
  rw [mapM_eq_some_iff, List.forall₂_map_left_iff, List.forall₂_map_right_iff, List.forall₂_same]
  intro e he
  rw [Snapshot.metric?, found e he]
  rfl

theorem metrics?_eq_listed (gaugeKeys : gauges.map Prod.fst = b.gauges.keys)
    (gaugesFound : ∀ e ∈ gauges, after.gauges[e.1]? = some e.2)
    (keys : counters.map Prod.fst = b.counters.keys)
    (found : ∀ e ∈ counters, after.counters[e.1]? = some e.2) :
    after.metrics? b = some (listed gauges counters) := by
  have first := mapM_metric?_eq .gauge .gauge fun e he =>
    congrArg (Option.map Payload.gauge) (gaugesFound e he)
  have second := mapM_metric?_eq .counter .counter fun e he =>
    congrArg (Option.map Payload.counter) (found e he)
  rw [Snapshot.metrics?, ← gaugeKeys, ← keys, first, second]
  rfl

end Listed

/-- The metric is stored, under a name by which it can be asked for. -/
def Snapshot.Offers (s : Snapshot) (x : Metric) : Prop :=
  ∃ kind name, Telemetry.IsTidy name ∧ s.metric? kind name = some x

namespace Server

open Http

namespace Handler

variable {α : Type} {read : Bytes → Option α} {r : Request} {body : Bytes}

theorem readJson_of_not (h : ¬SaysJson r) : readJson read r body = throw .notJson := by
  cases ht : r.text? "content-type" with
  | none => simp only [readJson, ht, Bool.not_false, if_true]
  | some type =>
    have other : "application/json".toList.isPrefixOf (type.toList.dropWhile isBlank) = false := by
      rw [← Bool.not_eq_true]
      exact fun json => h ⟨type, ht, json⟩
    simp only [readJson, ht, other, Bool.not_false, if_true]

theorem status_ne_of_refusal (e : Refusal) : e.status ≠ 200 := by
  cases e with
  | storage e => cases e <;> simp [Refusal.status]
  | _ => simp [Refusal.status]

theorem readable_of_updateBatch {σ : Type} {E : Surroundings Call.Reply σ} {s : σ} {P : Prop}
    (accepted : SaysJson r → ∀ ms b, Metric.readList? body = some ms → Batch.ofMetrics ms = .ok b → P) :
    Ensures E (fun e _ => e.status = 200 → P) (fun a _ => a.status = 200 → P) (updateBatch r body) s := by
  have refuses (e : Refusal) (ok : e.status = 200) : P := absurd ok (status_ne_of_refusal e)
  by_cases typed : SaysJson r
  · rw [updateBatch, ensures_bind]
    refine ensures_readJson (fun ms read => ?_) (refuses _) (refuses _)
    rw [ensures_bind, ensures_checked]
    refine ⟨fun b hb => ?_, fun d _ => refuses _⟩
    exact (Program.ensures_true _ s).mono fun result t _ => by
      cases result with
      | error e => exact refuses e
      | ok a => exact fun _ => accepted typed ms b read hb
  · rw [updateBatch, ensures_bind, readJson_of_not typed]
    exact refuses _

end Handler

variable {key : Option String} {r : Request} {m : Memory} {files : FileTree}

def ListsBatch (key : Option String) (r : Request) : Prop :=
  ∃ ms b, Lists key r ms ∧ Batch.ofMetrics ms = .ok b

theorem letThrough_of_ok {s : Store} (ok : ((Application.handle key r).run s).1.status = 200) :
    Application.LetThrough key r := by
  by_contra closed
  have rejected := ((Application.handle_of_not_letThrough closed).runFrom Store.perform [] s).1.status
  have ok : ((Application.handle key r).runFrom Store.perform [] s).1.status = 200 := ok
  omega

theorem listsBatch_of_ok {s : Store} (path : r.path = "/updates")
    (ok : ((Application.handle key r).run s).1.status = 200) : ListsBatch key r := by
  have through := letThrough_of_ok ok
  have away : ∀ n ∈ turnedAway, n = 200 → ListsBatch key r := by
    rintro n hn rfl
    exact absurd hn (by decide)
  have found : Route.ofPath? "/updates" = some .updateBatch := by decide +kernel
  have routed : Program.Ensures privateStore (fun a _ => a.status = 200 → ListsBatch key r)
      (route r (contentOf? r)) s := by
    by_cases method : r.method = "POST"
    · rw [route_updates method path]
      unfold withBody
      cases readable : readBody (contentOf? r) with
      | error u => exact away _ u.status_mem
      | ok body =>
        refine Handler.ensures_answer (Handler.readable_of_updateBatch fun typed ms b read hb => ?_)
        have short : body.length ≤ bodyLimit := by
          by_contra long
          rw [readBody_eq_ok readable, readBody, if_pos (by omega)] at readable
          cases readable
        exact ⟨ms, b, ⟨method, path, typed, through, body, readBody_eq_ok readable, short, read⟩, hb⟩
    · rw [route, path, found]
      simp only [Route.accepts, Route.isGet, method, decide_false, Bool.false_eq_true, if_false]
      exact away 404 (by decide)
  have handled : Program.Ensures privateStore (fun a _ => a.status = 200 → ListsBatch key r)
      (Application.handle key r) s :=
    Application.ensures_handle (P := fun n _ => n = 200 → ListsBatch key r) away routed
  exact Program.ensures_alone_iff.mp handled ok

/-! ### Asking for one metric -/

/-- A request for what is stored under the id of a metric, for its kind. -/
structure Fetches (key : Option String) (r : Request) (x : Metric) : Prop where
  method : r.method = "POST"
  path : r.path = "/value"
  typed : Handler.SaysJson r
  through : Application.LetThrough key r
  content : ∃ body query, contentOf? r = some body ∧ body.length ≤ bodyLimit ∧
    Metric.read? body = some query ∧ query.id = x.id ∧ query.type = x.type

def Found (x : Metric) (a : Response) : Prop := a.status = 200 ∧ a.body.content = x.json.bytes

theorem route_value {content : Option Bytes} (method : r.method = "POST") (path : r.path = "/value") :
    route r content = withBody content (Handler.valueJson r) := by
  have found : Route.ofPath? "/value" = some .valueJson := by decide +kernel
  rw [route, path, found]
  simp [Route.accepts, Route.isGet, method, Route.run]

theorem ensures_valueJson_memory {body : Bytes} {query x : Metric} (typed : Handler.SaysJson r)
    (read : Metric.read? body = some query) (id : query.id = x.id) (type : query.type = x.type)
    (offers : m.content.Offers x) :
    Handler.Ensures privateStore (fun _ _ => False)
      (fun a s => a = .json x.json.bytes ∧ s = ⟨.memory m, files⟩)
      (Handler.valueJson r body) ⟨.memory m, files⟩ := by
  obtain ⟨kind, name, tidy, stored⟩ := offers
  obtain ⟨payload, hp, rfl⟩ := Option.map_eq_some_iff.mp stored
  have kinds : query.kind? = .ok kind := by
    rw [Metric.kind?, type]
    cases kind with
    | gauge =>
      obtain ⟨_, -, rfl⟩ := Option.map_eq_some_iff.mp hp
      exact kindOf_text .gauge
    | counter =>
      obtain ⟨_, -, rfl⟩ := Option.map_eq_some_iff.mp hp
      exact kindOf_text .counter
  have names : query.name? = .ok name := by
    rw [Metric.name?, id]
    cases payload <;> exact tidy.nameOf
  rw [Handler.valueJson, Handler.readJson_eq typed read, Handler.ensures_bind, Handler.ensures_pure,
    kinds, names]
  show Handler.Ensures privateStore _ _ (Handler.current kind name >>= _) _
  rw [Handler.ensures_bind]
  exact Handler.ensures_current_memory stored ⟨rfl, rfl⟩

theorem found_of_fetches {x : Metric} (h : Fetches key r x) (offers : m.content.Offers x)
    (files : FileTree) :
    Found x ((Application.handle key r).run ⟨.memory m, files⟩).1 ∧
      ((Application.handle key r).run ⟨.memory m, files⟩).2.1 = ⟨.memory m, files⟩ := by
  obtain ⟨body, query, hc, short, read, id, type⟩ := h.content
  have found : Program.Ensures privateStore
      (fun a s => (a.status = 200 ∧ a.body.content = x.json.bytes) ∧ s = ⟨.memory m, files⟩)
      (Application.handle key r) ⟨.memory m, files⟩ := by
    refine ensures_handle_of_body
      (P := fun n content t => (n = 200 ∧ content = x.json.bytes) ∧ t = Store.mk (.memory m) files)
      h.through h.method (fun _ => route_value h.method h.path) hc short
      ((ensures_valueJson_memory h.typed read id type offers).mono (fun _ _ no => no.elim) ?_)
    rintro a s ⟨rfl, rfl⟩
    exact ⟨⟨rfl, rfl⟩, rfl⟩
  exact Program.ensures_alone_iff.mp found

theorem found_of_all {queries : List Request} {asked : List Metric}
    (h : List.Forall₂ (Fetches key) queries asked) (offers : ∀ x ∈ asked, m.content.Offers x) :
    List.Forall₂ (fun x answered => Found x answered.2) asked
      (serve key ⟨.memory m, files⟩ queries).1 := by
  induction h with
  | nil => exact .nil
  | @cons q x queries asked first _ ih =>
    obtain ⟨offered, others⟩ := List.forall_mem_cons.mp offers
    obtain ⟨found, same⟩ := found_of_fetches first offered files
    refine .cons found ?_
    show List.Forall₂ _ asked (serve key ((Application.handle key q).run _).2.1 queries).1
    rw [same]
    exact ih others

/-! ### The answer to a list -/

theorem offers_of_metrics {b : Batch} {after : Snapshot} {stored : List Metric} {ms : List Metric}
    (hb : Batch.ofMetrics ms = .ok b) (h : after.metrics? b = some stored) :
    ∀ x ∈ stored, after.Offers x := by
  obtain ⟨us, hus, -, held⟩ := Batch.holds_ofMetrics hb
  have tidy : ∀ u ∈ us, IsTidy u.1 := forall_mem_of_mapM hus fun _ _ => Metric.update?_tidy
  obtain ⟨gs, hgs, h⟩ := Option.bind_eq_some_iff.mp h
  obtain ⟨cs, hcs, h⟩ := Option.bind_eq_some_iff.mp h
  obtain rfl := Option.some.inj h
  intro x hx
  rcases List.mem_append.mp hx with hx | hx
  · obtain ⟨name, hn, hx⟩ := (mem_of_mapM hgs).mp hx
    obtain ⟨u, hu, rfl⟩ := held.mem_gauges (NameMap.mem_keys_iff.mp hn)
    exact ⟨.gauge, u.1, tidy u hu, hx⟩
  · obtain ⟨name, hn, hx⟩ := (mem_of_mapM hcs).mp hx
    obtain ⟨u, hu, rfl⟩ := held.mem_counters (NameMap.mem_keys_iff.mp hn)
    exact ⟨.counter, u.1, tidy u hu, hx⟩

/-- What is promised where a list of metrics is answered with `a` and leaves the store `s`: the answer
lists the gauges and then the counters, and whoever asks for some of them is answered the same. -/
structure Listed (key : Option String) (before : Snapshot) (ms : List Metric) (a : Response) (s : Store)
    (gauges : List (String × Binary64)) (counters : List (String × Count)) : Prop where
  gaugesFirst : GaugesOf ms gauges
  countersNext : CountersOf before ms counters
  content : a.body.content = (Metric.listJson (listed gauges counters)).bytes
  fetched : ∀ queries asked, List.Forall₂ (Fetches key) queries asked →
    (∀ x ∈ asked, x ∈ listed gauges counters) →
      List.Forall₂ (fun x answered => Found x answered.2) asked (serve key s queries).1

theorem hasRoom_of_ok {ms : List Metric} {us : List Update} (lists : Lists key r ms)
    (hus : ms.mapM Metric.update? = some us)
    (ok : ((Application.handle key r).run ⟨.memory m, files⟩).1.status = 200) :
    Snapshot.HasRoom us m.content := by
  obtain ⟨after, -, accepted⟩ := absorbed ⟨m, files, rfl, rfl⟩ key r
  obtain ⟨vs, hvs, absorbs⟩ := accepted ok
  rw [lists.asks, hus] at hvs
  obtain rfl := Option.some.inj hvs
  intro name _
  rw [← Update.getD_plus, ← absorbs.totals]
  exact Count.exists_val_iff.mpr (after.total_inRange name)

/-- Whatever request for a list is answered 200: it is answered with the metrics of the list, and each
of them can be asked for afterwards. -/
theorem updates_are_listed (path : r.path = "/updates")
    (ok : ((Application.handle key r).run ⟨.memory m, files⟩).1.status = 200) :
    let answered := (Application.handle key r).run ⟨.memory m, files⟩
    ∃ body ms gauges counters, contentOf? r = some body ∧ Metric.readList? body = some ms ∧
      Listed key m.content ms answered.1 answered.2.1 gauges counters := by
  obtain ⟨ms, b, lists, hb⟩ := listsBatch_of_ok path ok
  obtain ⟨body, hc, -, read⟩ := lists.content
  obtain ⟨us, hus, sound, held⟩ := Batch.holds_ofMetrics hb
  obtain ⟨after, put⟩ := Snapshot.exists_putBatch held sound (hasRoom_of_ok lists hus ok)
  have absorbs := Snapshot.absorbs_of_putBatch held put
  have gaugesFound : ∀ e ∈ b.gauges.toList, after.gauges[e.1]? = some e.2 := fun e he =>
    absorbs.stores_gauges held (Std.ExtTreeMap.mem_toList_iff_getElem?_eq_some.mp he)
  obtain ⟨counters, keys, found⟩ := exists_entries fun _ => absorbs.stores_counters held
  have answer := metrics?_eq_listed Std.ExtTreeMap.map_fst_toList_eq_keys gaugesFound keys found
  have stored : Stored (m.load after) (listed b.gauges.toList counters)
      ((Application.handle key r).run ⟨.memory m, files⟩).1.status
      ((Application.handle key r).run ⟨.memory m, files⟩).1.body.content
      ((Application.handle key r).run ⟨.memory m, files⟩).2.1 :=
    Program.ensures_alone_iff.mp (ensures_list_stored lists hb put answer)
  obtain ⟨-, content, files', left⟩ := stored
  refine ⟨body, ms, b.gauges.toList, counters, hc, read, gaugesOf_ofMetrics hb,
    countersOf_ofMetrics hb hus absorbs keys found, content, fun queries asked h listed => ?_⟩
  rw [left]
  exact found_of_all h fun x hx => offers_of_metrics hb answer x (listed x hx)

def countedMemory : Memory := (Memory.new none .inline).load ⟨∅, NameMap.ofEntries [("x", .one)]⟩

/-- One name for a gauge and a counter, written with blanks and without, and twice for each. -/
def sharedName : Request := jsonRequest "/updates" ("[" ++
  "\x7b\"id\":\" x\",\"type\":\"gauge\",\"value\":1\x7d," ++
  "\x7b\"id\":\"x\",\"type\":\"Counter\",\"delta\":2\x7d," ++
  "\x7b\"id\":\"x \",\"type\":\"gauge\",\"value\":2.5\x7d," ++
  "\x7b\"id\":\"a\",\"type\":\"counter\",\"delta\":3\x7d," ++
  "\x7b\"id\":\"x\",\"type\":\"counter\",\"delta\":-7\x7d]")

theorem shared_name_is_listed :
    let answered := (Application.handle none sharedName).run ⟨.memory countedMemory, noFiles⟩
    (answered.1.status = 200 ∧ answered.1.body.content = Utf8.encode ("[" ++
      "\x7b\"id\":\"x\",\"type\":\"gauge\",\"value\":2.5\x7d," ++
      "\x7b\"id\":\"a\",\"type\":\"counter\",\"delta\":3\x7d," ++
      "\x7b\"id\":\"x\",\"type\":\"counter\",\"delta\":-4\x7d]")) ∧
    ∃ body ms gauges counters, contentOf? sharedName = some body ∧ Metric.readList? body = some ms ∧
      Listed none countedMemory.content ms answered.1 answered.2.1 gauges counters := by
  refine (and_iff_left_of_imp fun seen => updates_are_listed rfl seen.1).mpr ?_
  decide +kernel

end Server

end Telemetry
