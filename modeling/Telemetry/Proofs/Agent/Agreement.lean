import Telemetry.Proofs.Agent.Posting
import Telemetry.Proofs.Agent.Samples
import Telemetry.Proofs.Agent.Settings
import Telemetry.Proofs.Storage.Statements
/-!
An agent and its server agree: whatever an agent has read, every chunk of its report is accepted by a
server that is given the same key, and is stored as a whole, unless it is too long or the counter of
the polls overflows.
-/

namespace Telemetry

namespace Agent

open Server

/-- What a list of metrics brings to a storage: its gauges as they are read from their text, its
counters on top of what was there, and nothing else. -/
structure Arrived (ms : List Metric) (before after : Snapshot) : Prop where
  gauges : ∀ name x, Metric.gauge name x ∈ ms → after.gauges[name]? = some x.reread
  otherGauges : ∀ name : String, (∀ x, Metric.gauge name x ∉ ms) →
    after.gauges[name]? = before.gauges[name]?
  counters : ∀ name d, Metric.counter name d ∈ ms →
    after.total? name = some ((before.total? name).getD 0 + d.val)
  otherCounters : ∀ name, (∀ d, Metric.counter name d ∉ ms) → after.total? name = before.total? name

variable {s : Samples} {chunk : List Metric} {us : List Update}

theorem update?_gauge {name : String} {x : Binary64} (sound : Samples.Sound s.gauges)
    (hx : s.gauges[name]? = some x) :
    (Metric.gauge name x).reread.update? = some (name, .gauge x.reread) := by
  obtain ⟨tidy, finite⟩ := sound name x hx
  have same : (Metric.gauge name x).reread = Metric.gauge name x.reread := by
    simp [Metric.reread, Metric.gauge, finite]
  rw [same]
  exact Metric.update?_eq_some_iff.mpr
    ⟨tidy.nameOf, Metric.payload?_gauge name (Binary64.reread_isFinite finite)⟩

theorem update?_polls (p : Count) : (Metric.counter Samples.pollCountName p).reread.update? =
    some (Samples.pollCountName, .counter p) :=
  Metric.update?_eq_some_iff.mpr ⟨Metric.nameOf_pollCountName, Metric.payload?_counter _ p⟩

theorem exists_updates (sound : Samples.Sound s.gauges) (part : chunk.Sublist s.report) :
    ∃ us, (chunk.map Metric.reread).mapM Metric.update? = some us := by
  refine exists_mapM_of_isSome fun m hm => ?_
  obtain ⟨m, hc, rfl⟩ := List.mem_map.mp hm
  rcases Samples.mem_report_iff.mp (part.subset hc) with ⟨name, x, hx, rfl⟩ | ⟨-, rfl⟩
  · rw [update?_gauge sound hx]
    rfl
  · rw [update?_polls]
    rfl

theorem gauge_of_mem (part : chunk.Sublist s.report) {name : String} {x : Binary64}
    (h : Metric.gauge name x ∈ chunk) : s.gauges[name]? = some x := by
  rcases Samples.mem_report_iff.mp (part.subset h) with ⟨n, y, hy, same⟩ | ⟨-, other⟩
  · obtain ⟨rfl, rfl⟩ : name = n ∧ x = y := by simpa [Metric.gauge] using same
    exact hy
  · simp [Metric.gauge, Metric.counter] at other

theorem counter_of_mem (part : chunk.Sublist s.report) {name : String} {d : Count}
    (h : Metric.counter name d ∈ chunk) : name = Samples.pollCountName := by
  rcases Samples.mem_report_iff.mp (part.subset h) with ⟨_, _, -, other⟩ | ⟨-, same⟩
  · simp [Metric.gauge, Metric.counter] at other
  · exact congrArg Metric.id same

section Updates

variable (sound : Samples.Sound s.gauges) (part : chunk.Sublist s.report)
  (asked : (chunk.map Metric.reread).mapM Metric.update? = some us)
include sound part asked

theorem mem_updates {u : Update} : u ∈ us ↔
    (∃ name x, Metric.gauge name x ∈ chunk ∧ u = (name, .gauge x.reread)) ∨
      ∃ name d, Metric.counter name d ∈ chunk ∧ u = (name, .counter d) := by
  rw [mem_of_mapM asked]
  constructor
  · rintro ⟨m, hm, hu⟩
    obtain ⟨m, hc, rfl⟩ := List.mem_map.mp hm
    rcases Samples.mem_report_iff.mp (part.subset hc) with ⟨name, x, hx, rfl⟩ | ⟨-, rfl⟩
    · rw [update?_gauge sound hx] at hu
      exact .inl ⟨name, x, hc, (Option.some.inj hu).symm⟩
    · rw [update?_polls] at hu
      exact .inr ⟨_, _, hc, (Option.some.inj hu).symm⟩
  · rintro (⟨name, x, hc, rfl⟩ | ⟨name, d, hc, rfl⟩)
    · exact ⟨_, List.mem_map_of_mem hc, update?_gauge sound (gauge_of_mem part hc)⟩
    · obtain rfl := counter_of_mem part hc
      exact ⟨_, List.mem_map_of_mem hc, update?_polls d⟩

theorem mem_gauges {name : String} {y : Binary64} :
    y ∈ Update.gauges name us ↔ ∃ x, Metric.gauge name x ∈ chunk ∧ y = x.reread := by
  simp only [Update.gauges, List.mem_filterMap, mem_updates sound part asked]
  constructor
  · rintro ⟨u, ⟨n, x, hc, rfl⟩ | ⟨n, d, hc, rfl⟩, hu⟩
    · obtain ⟨rfl, rfl⟩ : n = name ∧ x.reread = y := by simpa using hu
      exact ⟨x, hc, rfl⟩
    · cases hu
  · rintro ⟨x, hc, rfl⟩
    exact ⟨(name, .gauge x.reread), .inl ⟨name, x, hc, rfl⟩, by simp⟩

theorem mem_deltas {name : String} {n : Int} :
    n ∈ Update.deltas name us ↔ ∃ d : Count, Metric.counter name d ∈ chunk ∧ n = d.val := by
  simp only [Update.deltas, List.mem_filterMap, mem_updates sound part asked]
  constructor
  · rintro ⟨u, ⟨m, x, hc, rfl⟩ | ⟨m, d, hc, rfl⟩, hu⟩
    · cases hu
    · obtain ⟨rfl, rfl⟩ : m = name ∧ d.val = n := by simpa using hu
      exact ⟨d, hc, rfl⟩
  · rintro ⟨d, hc, rfl⟩
    exact ⟨(name, .counter d), .inr ⟨name, d, hc, rfl⟩, by simp⟩

/-- No counter has more than one delta: only the polls are counted, and they stand there once. -/
theorem deltas_length_le (name : String) : (Update.deltas name us).length ≤ 1 := by
  by_cases polls : name = Samples.pollCountName
  · have carried : chunk.filterMap Metric.polls? = Update.deltas name us := by
      rw [polls, ← Metric.filterMap_polls? asked, List.filterMap_map]
      exact congrArg (chunk.filterMap ·) (funext fun m => m.polls?_reread.symm)
    have most : (s.report.filterMap Metric.polls?).length ≤ 1 := by
      have gauges :
          (s.gauges.toList.map fun e => Metric.gauge e.1 e.2).filterMap Metric.polls? = [] := by
        simp [Metric.polls?_gauge]
      rw [Samples.report, List.filterMap_append, gauges, List.nil_append]
      refine (List.length_filterMap_le _ _).trans ?_
      split <;> simp
    rw [← carried]
    exact (part.filterMap Metric.polls?).length_le.trans most
  · suffices Update.deltas name us = [] by simp [this]
    refine List.eq_nil_iff_forall_not_mem.mpr fun n hn => ?_
    obtain ⟨d, hd, -⟩ := (mem_deltas sound part asked).mp hn
    exact polls (counter_of_mem part hd)

theorem deltas_eq_singleton {name : String} {d : Count} (h : Metric.counter name d ∈ chunk) :
    Update.deltas name us = [d.val] := by
  have mem : d.val ∈ Update.deltas name us := (mem_deltas sound part asked).mpr ⟨d, h, rfl⟩
  have few := deltas_length_le sound part asked name
  obtain ⟨n, hn⟩ := List.length_eq_one_iff.mp (le_antisymm few (List.length_pos_of_mem mem))
  rw [hn] at mem ⊢
  rw [List.mem_singleton.mp mem]

theorem deltas_eq_nil {name : String} (h : ∀ d, Metric.counter name d ∉ chunk) :
    Update.deltas name us = [] :=
  List.eq_nil_iff_forall_not_mem.mpr fun n hn => by
    obtain ⟨d, hd, -⟩ := (mem_deltas sound part asked).mp hn
    exact h d hd

theorem fits_updates : Update.Fits us := by
  intro front hf name
  have first : Update.deltas name front <+: Update.deltas name us := hf.filterMap _
  have few := first.length_le.trans (deltas_length_le sound part asked name)
  rcases hd : Update.deltas name front with _ | ⟨n, rest⟩
  · exact ⟨.zero, rfl⟩
  · rw [hd, List.length_cons] at few
    obtain rfl := List.length_eq_zero_iff.mp (show rest.length = 0 by omega)
    have mem : n ∈ Update.deltas name us := first.subset (by rw [hd]; exact List.mem_singleton_self n)
    obtain ⟨d, -, rfl⟩ := (mem_deltas sound part asked).mp mem
    exact ⟨d, (List.sum_singleton).symm⟩

theorem hasRoom_updates {before : Snapshot}
    (room : ∀ d, Metric.counter Samples.pollCountName d ∈ chunk →
      ((before.counters.getD Samples.pollCountName .zero).add? d).isSome) :
    Snapshot.HasRoom us before := by
  intro name some
  obtain ⟨n, hn⟩ := List.exists_mem_of_ne_nil _ some
  obtain ⟨d, hd, -⟩ := (mem_deltas sound part asked).mp hn
  obtain rfl := counter_of_mem part hd
  obtain ⟨c, hc⟩ := Option.isSome_iff_exists.mp (room d hd)
  refine ⟨c, ?_⟩
  rw [Count.add?_eq_some_iff.mp hc, deltas_eq_singleton sound part asked hd, List.sum_singleton,
    Std.ExtTreeMap.getD_eq_getD_getElem?, Snapshot.total?]
  cases before.counters[Samples.pollCountName]? <;> rfl

theorem arrived_of_absorbs {before after : Snapshot} (h : Snapshot.Absorbs us before after) :
    Arrived chunk before after where
  gauges name x hx := by
    -- All values that a chunk has for one gauge are the one that the samples have.
    have value : ∀ y ∈ Update.gauges name us, y = x.reread := by
      intro y hy
      obtain ⟨z, hz, rfl⟩ := (mem_gauges sound part asked).mp hy
      have same := (gauge_of_mem part hz).symm.trans (gauge_of_mem part hx)
      rw [Option.some.inj same]
    have some : Update.gauges name us ≠ [] :=
      List.ne_nil_of_mem ((mem_gauges sound part asked).mpr ⟨x, hx, rfl⟩)
    rw [h.gauges, List.getLast?_eq_some_getLast some, value _ (List.getLast_mem some)]
    rfl
  otherGauges name absent := by
    have none : Update.gauges name us = [] :=
      List.eq_nil_iff_forall_not_mem.mpr fun y hy => by
        obtain ⟨x, hx, -⟩ := (mem_gauges sound part asked).mp hy
        exact absent x hx
    rw [h.gauges, none]
    rfl
  counters name d hd := by
    rw [h.totals, deltas_eq_singleton sound part asked hd, Update.sum?_singleton]
    rfl
  otherCounters name absent := by
    rw [h.totals, deltas_eq_nil sound part asked absent]
    rfl

end Updates

/-- A client and a server with one key: a part of a report that is not too long and whose polls fit is
answered with success, is stored as a whole, and is sent once. -/
theorem sendBatch_accepted {c : Client} (path : Http.pathOfUrl c.url = "/updates")
    (sound : Samples.Sound s.gauges) (part : chunk.Sublist s.report) (m : Memory) (files : FileTree)
    (short : (Metric.listJson chunk).bytes.length ≤ bodyLimit)
    (room : ∀ d, Metric.counter Samples.pollCountName d ∈ chunk →
      ((m.content.counters.getD Samples.pollCountName .zero).add? d).isSome) :
    ∃ answer m' files' logs stored,
      (Application.handle c.key (c.request (Metric.listJson chunk).bytes)).run ⟨.memory m, files⟩ =
        (answer, ⟨.memory m', files'⟩, logs) ∧
      answer.status = 200 ∧ Arrived chunk m.content m'.content ∧
      ((c.sendBatch chunk).run (Link.toServer c.key) s ⟨.memory m, files⟩).1 = .ok stored ∧
      ((c.sendBatch chunk).run (Link.toServer c.key) s ⟨.memory m, files⟩).2.1 =
        (s, ⟨.memory m', files'⟩) := by
  obtain ⟨us, asked⟩ := exists_updates sound part
  obtain ⟨b, accepted⟩ := Batch.exists_ofMetrics asked (fits_updates sound part asked)
  obtain ⟨vs, hvs, sane, held⟩ := Batch.holds_ofMetrics accepted
  obtain rfl := Option.some.inj (asked.symm.trans hvs)
  obtain ⟨after, put⟩ := Snapshot.exists_putBatch held sane (hasRoom_updates sound part asked room)
  have absorbs := Snapshot.absorbs_of_putBatch held put
  obtain ⟨stored, answer⟩ := Snapshot.exists_metrics held absorbs
  have lists : Lists c.key (c.request (Metric.listJson chunk).bytes) (chunk.map Metric.reread) :=
    Client.lists_request path short
  have kept : Program.Ensures privateStore _ (Application.handle c.key _) ⟨.memory m, files⟩ :=
    ensures_list_stored lists accepted put answer
  obtain ⟨status, content, files', ended⟩ := Program.ensures_alone_iff.mp kept
  have handled : (Application.handle c.key (c.request (Metric.listJson chunk).bytes)).run
      ⟨.memory m, files⟩ = (_, ⟨.memory (m.load after), files'⟩, _) :=
    Prod.ext rfl (Prod.ext ended rfl)
  have sends : Program.Ensures (.alone (Work.answer (Link.toServer c.key))) _ (c.sendBatch chunk)
      (s, ⟨.memory m, files⟩) := Client.ensures_sendBatch handled status content
  obtain ⟨sent, left⟩ := Program.ensures_alone_iff.mp sends
  exact ⟨_, m.load after, files', _, _, handled, status,
    arrived_of_absorbs sound part asked absorbs, sent, left⟩

/-- An agent and a server that are given the same key sign with the same key. Whatever the agent has
read, each chunk of a report that it sends to the server is answered 200 and stored, unless it is longer
than a body may be or the polls do not fit on top of those that are stored. -/
theorem reports_are_accepted {agentFile serverFile : Option Telemetry.Config.File}
    {agentEnv serverEnv : Telemetry.Config.Environment} {a : Config} {s : Server.Config}
    (agent : Config.resolve agentFile agentEnv = .ok a)
    (server : Server.Config.resolve serverFile serverEnv = .ok s)
    (file : Telemetry.Config.givenKey? agentFile = Telemetry.Config.givenKey? serverFile)
    (env : agentEnv["KEY"]? = serverEnv["KEY"]?) (backoff : Backoff) :
    (Client.ofConfig a backoff).key = s.signingKey ∧
    (Http.pathOfUrl (Client.ofConfig a backoff).url = "/updates" →
      ∀ (events : List Samples.Event) (batchSize : Nat),
      ∀ chunk ∈ chunks batchSize (Samples.new.run events).report, ∀ (m : Memory) (files : FileTree),
      (Metric.listJson chunk).bytes.length ≤ 1048576 →
      (∀ polls, Metric.counter Samples.pollCountName polls ∈ chunk →
        ((m.content.counters.getD Samples.pollCountName .zero).add? polls).isSome) →
      let request := (Client.ofConfig a backoff).request (Metric.listJson chunk).bytes
      let run := ((Client.ofConfig a backoff).sendBatch chunk).run (Link.toServer s.signingKey)
        (Samples.new.run events) ⟨.memory m, files⟩
      ∃ answer m' files' logs stored,
        (Application.handle s.signingKey request).run ⟨.memory m, files⟩ =
          (answer, ⟨.memory m', files'⟩, logs) ∧
        answer.status = 200 ∧ Arrived chunk m.content m'.content ∧
        run.1 = .ok stored ∧ run.2.1 = (Samples.new.run events, ⟨.memory m', files'⟩)) := by
  have same : (Client.ofConfig a backoff).key = s.signingKey := by
    show Signature.keyOf a.hashKey = _
    rw [Config.key_of_resolve agent, Server.Config.key_of_resolve server,
      Telemetry.Config.effectiveKey?, Telemetry.Config.effectiveKey?, file,
      Telemetry.Config.Environment.optionalText, Telemetry.Config.Environment.optionalText, env]
  refine ⟨same, fun path events batchSize chunk mem m files short room => ?_⟩
  have part : chunk.Sublist (Samples.new.run events).report := by
    rw [← flatten_chunks batchSize (Samples.new.run events).report]
    exact List.sublist_flatten_of_mem mem
  rw [← same]
  exact sendBatch_accepted path (Samples.sound_run Samples.sound_empty events) part m files short room

def keyFile : Telemetry.Config.File :=
  ⟨"settings.toml", some (Utf8.encode "hash_key = \"secret\"\n")⟩

def keyedAgent : Config := { Config.standard with hashKey := some "secret" }

def keyedServer : Server.Config := { Server.Config.standard with hashKey := some "secret" }

/-- Two polls, with readings among them that are no gauges. -/
def mixedPolls : List Samples.Event :=
  [.record [.gauge " Alloc " ⟨0x3FF8000000000000⟩, .gauge "" .zero, .gauge "Free" .nan],
    .record [.counter "Polls" .one, ⟨"Used", "gauge", none, none⟩]]

def mixedReport : List Metric :=
  [.gauge "Alloc" ⟨0x3FF8000000000000⟩, .counter Samples.pollCountName ⟨2, by decide, by decide⟩]

/-- The server has counted two polls after a signed report of them. -/
theorem mixed_polls_are_counted :
    Config.resolve (some keyFile) ∅ = .ok keyedAgent ∧
    Server.Config.resolve (some keyFile) ∅ = .ok keyedServer ∧
    (Client.ofConfig keyedAgent .standard).key = some "secret" ∧
    mixedReport ∈ chunks 5 (Samples.new.run mixedPolls).report ∧
    ∃ m', (((Client.ofConfig keyedAgent .standard).sendBatch mixedReport).run
        (Link.toServer keyedServer.signingKey) (Samples.new.run mixedPolls)
        ⟨.memory (.new none .inline), .empty "/work"⟩).2.1.2.engine = .memory m' ∧
      m'.content.total? Samples.pollCountName = some 2 := by
  have agent : Config.resolve (some keyFile) ∅ = .ok keyedAgent := by decide +kernel
  have server : Server.Config.resolve (some keyFile) ∅ = .ok keyedServer := by decide +kernel
  have path := path_ofConfig (a := keyedAgent) (by decide +kernel) .standard
  have mem : mixedReport ∈ chunks 5 (Samples.new.run mixedPolls).report := by decide +kernel
  obtain ⟨key, accepted⟩ := reports_are_accepted agent server rfl rfl .standard
  have room : ∀ polls, Metric.counter Samples.pollCountName polls ∈ mixedReport →
      (((Memory.new none .inline).content.counters.getD Samples.pollCountName .zero).add?
        polls).isSome := by
    intro polls hp
    obtain rfl : polls = ⟨2, by decide, by decide⟩ := by
      simpa [mixedReport, Metric.gauge, Metric.counter] using hp
    decide +kernel
  obtain ⟨answer, m', files', logs, stored, -, -, arrived, -, ended⟩ :=
    accepted path mixedPolls 5 mixedReport mem (.new none .inline) (.empty "/work")
      (by decide +kernel) room
  refine ⟨agent, server, by decide +kernel, mem, m', ?_, ?_⟩
  · rw [ended]
  · rw [arrived.counters Samples.pollCountName _ (List.mem_cons_of_mem _ List.mem_cons_self)]
    decide +kernel

end Agent

end Telemetry
