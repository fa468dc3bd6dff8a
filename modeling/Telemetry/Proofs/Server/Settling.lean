import Telemetry.Proofs.Server.Layers
import Telemetry.Proofs.Server.Ledger
/-!
Every request settles: answered 200 it has applied the updates that it asks for, once each; answered
anything else it has applied nothing; and it is never answered with a fault of the server.
-/

namespace Telemetry.Server

open Storage Http

/-- The changes do to every name what the updates ask for, and do it once. -/
structure Applied (us : List Update) (changes : List Call) : Prop where
  gauges : ∀ name, changes.filterMap (Call.gauge? name) = (Update.gauges name us).getLast?.toList
  deltas : ∀ name, changes.filterMap (Call.delta? name) = (Update.sum? (Update.deltas name us)).toList

def textUpdate? (kind name value : String) : Option Update := do
  let kind ← (kindOf kind).toOption
  let name ← (nameOf name).toOption
  return (name, ← (Payload.ofText kind value).toOption)

def Route.updates? (content : Option Bytes) : Route → Option (List Update)
  | .updateText kind name value => do
    return [← textUpdate? (← segmentText? kind) (← segmentText? name) (← segmentText? value)]
  | .updateJson => do return [← (← Metric.read? (← content)).update?]
  | .updateBatch => do (← Metric.readList? (← content)).mapM Metric.update?
  | _ => some []

/-- The updates that a request asks for, in order, under trimmed names. -/
def updates? (r : Request) : Option (List Update) :=
  (Route.ofPath? r.path).bind (Route.updates? (contentOf? r))

/-- How a request that asks for `us` may end. -/
def Settled (us : Option (List Update)) (status : Nat) (l : Ledger) : Prop :=
  status < 500 ∧ (status = 200 → ∃ vs, us = some vs ∧ Applied vs l.changes) ∧
    (status ≠ 200 → l.changes = [])

def Answered (us : Option (List Update)) (response : Response) (l : Ledger) : Prop :=
  Settled us response.status l

def callOf (name : String) : Payload → Call
  | .gauge x => .putGauge name x
  | .counter d => .putCounter name d

def Has (kind : Kind) (name : String) (s : Snapshot) : Prop :=
  match kind with
  | .gauge => s.gauges[name]?.isSome
  | .counter => s.counters[name]?.isSome

theorem Has.within {kind : Kind} {name : String} {s u : Snapshot} (h : Has kind name s)
    (hw : s.Within u) : Has kind name u := by
  cases kind with
  | gauge => exact hw.gauges name h
  | counter => exact hw.counters name h

theorem isPersistence_of_isRefusal {e : Error} (h : e.isRefusal = true) :
    e.isPersistence = false := by
  cases e <;> first | rfl | cases h

theorem status_of_isRefusal {e : Error} (h : e.isRefusal = true) :
    (Refusal.storage e).status = 400 := by
  cases e <;> first | rfl | cases h

namespace Handler

variable {l : Ledger} {R : Refusal → Ledger → Prop}

theorem ensures_written_update {c : Call} {what : String} {k : Ledger} {r : Except Error Unit}
    {Q : Unit → Ledger → Prop} (h : Ledger.AnswersUpdate c l r k)
    (hQ : ∀ u, l.content.change? c = some u → Q () ⟨u, l.changes ++ [c]⟩)
    (hR : ∀ e, e.isRefusal = true → l.content.change? c = none → R (.storage e) l) :
    Ensures sharedMemory R Q (written what r) k := by
  rw [ensures_written]
  rcases h with ⟨e, he, hc, rfl, rfl⟩ | ⟨u, hu, rfl, hp⟩
  · refine ⟨?_, fun d hd _ => Except.error.inj hd ▸ hR e he hc⟩
    rintro (h | ⟨d, hd, hd'⟩)
    · cases h
    · obtain rfl := Except.error.inj hd
      rw [isPersistence_of_isRefusal he] at hd'
      cases hd'
  · exact ⟨fun _ => hQ u hu, fun e he hf => by rw [hp e he] at hf; cases hf⟩

theorem ensures_put {name : String} {payload : Payload} {Q : Unit → Ledger → Prop}
    (hQ : ∀ k, sharedMemory.Others l k → ∀ u, k.content.change? (callOf name payload) = some u →
      Q () ⟨u, k.changes ++ [callOf name payload]⟩)
    (hR : ∀ k, sharedMemory.Others l k → ∀ e, e.isRefusal = true → R (.storage e) k) :
    Ensures sharedMemory R Q (put name payload) l := by
  cases payload with
  | gauge x =>
    rw [put, ensures_bind, ensures_perform]
    exact fun u hu r v hv =>
      ensures_written_update (Ledger.answers_putGauge hv) (hQ u hu) fun e he _ => hR u hu e he
  | counter d =>
    rw [put, ensures_bind, ensures_perform]
    exact fun u hu r v hv =>
      ensures_written_update (Ledger.answers_putCounter hv) (hQ u hu) fun e he _ => hR u hu e he

theorem ensures_currentPayload {kind : Kind} {name : String} {Q : Payload → Ledger → Prop}
    (hQ : ∀ p k, sharedMemory.Others l k → Q p k)
    (hR : ¬ Has kind name l.content → ∀ k, sharedMemory.Others l k → R (.notFound name) k) :
    Ensures sharedMemory R Q (currentPayload kind name) l := by
  have absent (k : Ledger) (hk : sharedMemory.Others l k) (hn : ¬ Has kind name k.content) :
      R (.notFound name) k := hR (fun h => hn (h.within hk.2)) k hk
  cases kind with
  | gauge =>
    simp only [currentPayload, getGauge, ensures_bind, ensures_perform, ensures_found, ensures_pure]
    rintro k hk r v ⟨m, files, hm, rfl, rfl⟩
    refine ⟨fun a _ => hQ (.gauge a) v hk, fun hn => absent v hk ?_⟩
    rw [hm] at hn
    simp [Has, hn]
  | counter =>
    simp only [currentPayload, getCounter, ensures_bind, ensures_perform, ensures_found,
      ensures_pure]
    rintro k hk r v ⟨m, files, hm, rfl, rfl⟩
    refine ⟨fun a _ => hQ (.counter a) v hk, fun hn => absent v hk ?_⟩
    rw [hm] at hn
    simp [Has, hn]

theorem ensures_current {kind : Kind} {name : String} {Q : Metric → Ledger → Prop}
    (hQ : ∀ m k, sharedMemory.Others l k → Q m k)
    (hR : ¬ Has kind name l.content → ∀ k, sharedMemory.Others l k → R (.notFound name) k) :
    Ensures sharedMemory R Q (current kind name) l := by
  rw [current, ensures_bind]
  exact ensures_currentPayload (fun p k hk => hQ (.ofPayload name p) k hk) hR

theorem ensures_current_all {kind : Kind} {names : List String} {Q : List Metric → Ledger → Prop}
    (hn : ∀ name ∈ names, Has kind name l.content)
    (hQ : ∀ ms k, sharedMemory.Others l k → Q ms k) :
    Ensures sharedMemory R Q (names.mapM (current kind)) l := by
  induction names generalizing l Q with
  | nil => exact hQ [] l (Ledger.others_refl l)
  | cons name names ih =>
    obtain ⟨hh, hn⟩ := List.forall_mem_cons.mp hn
    simp only [List.mapM_cons, ensures_bind, ensures_pure]
    refine ensures_current (fun m k hk => ?_) (fun h => absurd hh h)
    exact ih (fun n hm => (hn n hm).within hk.2) fun ms j hj =>
      hQ (m :: ms) j (Ledger.others_trans hk hj)

def Refused (e : Refusal) (l : Ledger) : Prop :=
  (e.status = 400 ∨ e.status = 404) ∧ l.changes = []

theorem settled_of_refused {us : Option (List Update)} {e : Refusal} (h : Refused e l) :
    Settled us e.status l := by
  obtain ⟨h | h, hl⟩ := h <;> simp [Settled, h, hl]

theorem settled_ok {vs : List Update} {status : Nat} (h : status = 200)
    (ha : Applied vs l.changes) : Settled (some vs) status l := by
  subst h
  exact ⟨by decide, fun _ => ⟨vs, rfl, ha⟩, fun h => absurd rfl h⟩

theorem applied_single (name : String) (payload : Payload) :
    Applied [(name, payload)] [callOf name payload] := by
  cases payload with
  | gauge x =>
    constructor
    · intro key
      by_cases hk : name = key <;> simp [callOf, Call.gauge?, Update.gauges, hk]
    · intro key
      simp [callOf, Call.delta?, Update.deltas, Update.sum?, List.filterMap_cons]
  | counter d =>
    constructor
    · intro key
      simp [callOf, Call.gauge?, Update.gauges, List.filterMap_cons]
    · intro key
      by_cases hk : name = key <;> simp [callOf, Call.delta?, Update.deltas, Update.sum?, hk]

theorem has_of_change {s u : Snapshot} {name : String} {payload : Payload}
    (h : s.change? (callOf name payload) = some u) : Has payload.kind name u := by
  cases payload with
  | gauge x =>
    have hg := Snapshot.gauges_of_change h name
    simp [callOf, Call.gauge?] at hg
    simp [Has, Payload.kind, hg]
  | counter d =>
    have ht := Snapshot.total?_of_change h name
    simp only [callOf, Call.delta?, if_true, Update.plus, Snapshot.total?] at ht
    rw [Payload.kind, Has, ← Option.isSome_map (f := Count.val), ht]
    rfl

theorem ensures_put_settled {name : String} {payload : Payload}
    {α : Type} {f : Unit → Handler α} {Q : α → Ledger → Prop} (hl : l.changes = [])
    (hf : ∀ k, k.changes = [callOf name payload] → Has payload.kind name k.content →
      Ensures sharedMemory Refused Q (f ()) k) :
    Ensures sharedMemory Refused Q (put name payload >>= f) l := by
  rw [ensures_bind]
  refine ensures_put (fun k hk u hu => hf _ ?_ (has_of_change hu)) fun k hk e he => ?_
  · simp [hk.1, hl]
  · exact ⟨.inl (status_of_isRefusal he), hk.1.trans hl⟩

theorem ensures_updateText {kind name raw : String} (hl : l.changes = []) :
    Ensures sharedMemory Refused (Answered ((textUpdate? kind name raw).map ([·])))
      (updateText kind name raw) l := by
  rw [updateText, ensures_bind, ensures_checked]
  refine ⟨fun k hk => ?_, fun d _ => ⟨.inl rfl, hl⟩⟩
  rw [ensures_bind, ensures_checked]
  refine ⟨fun n hn => ?_, fun d _ => ⟨.inl rfl, hl⟩⟩
  rw [ensures_bind, ensures_checked]
  refine ⟨fun p hp => ?_, fun d _ => ⟨.inl rfl, hl⟩⟩
  refine ensures_put_settled hl fun j hj _ => ?_
  have hu : textUpdate? kind name raw = some (n, p) := by
    simp [textUpdate?, hk, hn, hp, Except.toOption]
  rw [hu]
  exact settled_ok rfl (hj ▸ applied_single n p)

theorem ensures_updateJson {r : Request} {body : Bytes} (hl : l.changes = []) :
    Ensures sharedMemory Refused (Answered (Route.updateJson.updates? (some body)))
      (updateJson r body) l := by
  rw [updateJson, ensures_bind]
  refine ensures_readJson (fun m hm => ?_) ⟨.inl rfl, hl⟩ ⟨.inl rfl, hl⟩
  rw [ensures_bind, ensures_checked]
  refine ⟨fun n hn => ?_, fun d _ => ⟨.inl rfl, hl⟩⟩
  rw [ensures_bind, ensures_checked]
  refine ⟨fun p hp => ?_, fun d _ => ⟨.inl rfl, hl⟩⟩
  refine ensures_put_settled hl fun j hj hh => ?_
  rw [ensures_bind]
  refine ensures_current (fun stored k hk => ?_) (fun h => absurd hh h)
  have hu : Route.updateJson.updates? (some body) = some [(n, p)] := by
    simp [Route.updates?, hm, Metric.update?_eq_some_iff.mpr ⟨hn, hp⟩]
  rw [hu]
  exact settled_ok rfl ((hk.1.trans hj) ▸ applied_single n p)

theorem checkGauge_of_holds {b : Batch} {us : List Update} (hb : b.Holds us)
    (hs : ∀ u ∈ us, u.Sound) : ∀ e ∈ b.gauges.toList, checkGauge e.1 e.2 = .ok () := by
  rintro ⟨name, x⟩ he
  rw [Std.ExtTreeMap.mem_toList_iff_getElem?_eq_some, hb.gauges] at he
  obtain ⟨⟨n, p⟩, hu, hg⟩ := List.mem_filterMap.mp (List.mem_of_getLast? he)
  cases p with
  | counter d => cases hg
  | gauge y =>
    obtain ⟨rfl, rfl⟩ : n = name ∧ y = x := by simpa [Update.gauge?] using hg
    exact checkGauge_eq_ok_iff.mpr ⟨(hs _ hu).1, (hs _ hu).2 y rfl⟩

/-- The call that stores a part of a batch; an empty part needs none. -/
def partCall (isEmpty : Bool) (c : Call) : List Call := if isEmpty then [] else [c]

theorem filterMap_partCall {β : Type} {isEmpty : Bool} {c : Call} {f : Call → Option β}
    (h : isEmpty = true → f c = none) : (partCall isEmpty c).filterMap f = (f c).toList := by
  cases isEmpty with
  | true => simp [partCall, h rfl]
  | false => cases hf : f c <;> simp [partCall, hf]

theorem applied_batch {b : Batch} {us : List Update} (hb : b.Holds us) :
    Applied us (partCall b.counters.isEmpty (.putCounters b.counters) ++
      partCall b.gauges.isEmpty (.putGauges b.gauges)) := by
  constructor
  · intro name
    rw [List.filterMap_append, filterMap_partCall (fun _ => rfl), filterMap_partCall, ← hb.gauges]
    · rfl
    · exact fun h => NameMap.getElem?_of_isEmpty h name
  · intro name
    rw [List.filterMap_append, filterMap_partCall, filterMap_partCall (fun _ => rfl),
      ← hb.counters]
    · simp [Call.delta?]
    · exact fun h => by rw [Call.delta?, NameMap.getElem?_of_isEmpty h]; rfl

theorem ensures_putCounters {counters : NameMap Count} {Q : Unit → Ledger → Prop}
    (hQ : ∀ k, k.changes = l.changes ++ partCall counters.isEmpty (.putCounters counters) →
      (∀ name ∈ counters.keys, Has .counter name k.content) → Q () k)
    (hR : ∀ k, sharedMemory.Others l k → ∀ e, e.isRefusal = true → R (.storage e) k) :
    Ensures sharedMemory R Q (putCounters counters) l := by
  unfold putCounters
  by_cases he : counters.isEmpty = true
  · simp only [he, Bool.not_true, Bool.false_eq_true, if_false, ensures_pure]
    refine hQ l (by simp [partCall, he]) fun name hm => ?_
    rw [NameMap.mem_keys_iff, NameMap.getElem?_of_isEmpty he] at hm
    cases hm
  · simp only [he, Bool.not_false, if_true, ensures_bind, ensures_perform]
    intro k hk r v hv
    refine ensures_written_update (Ledger.answers_putCounters hv) (fun u hu => ?_)
      fun e he _ => hR k hk e he
    refine hQ _ (by simp [partCall, he, hk.1]) fun name hm => ?_
    have ht := Snapshot.total?_of_change hu name
    obtain ⟨d, hd⟩ := Option.isSome_iff_exists.mp (NameMap.mem_keys_iff.mp hm)
    rw [Has, ← Option.isSome_map (f := Count.val)]
    simp only [Snapshot.total?, Call.delta?, hd] at ht
    rw [ht]
    rfl

theorem ensures_putGauges {gauges : NameMap Binary64} {Q : Unit → Ledger → Prop}
    (hc : ∀ e ∈ gauges.toList, checkGauge e.1 e.2 = .ok ())
    (hQ : ∀ k, k.changes = l.changes ++ partCall gauges.isEmpty (.putGauges gauges) →
      l.content.Within k.content → (∀ name ∈ gauges.keys, Has .gauge name k.content) → Q () k) :
    Ensures sharedMemory R Q (putGauges gauges) l := by
  unfold putGauges
  by_cases he : gauges.isEmpty = true
  · simp only [he, Bool.not_true, Bool.false_eq_true, if_false, ensures_pure]
    refine hQ l (by simp [partCall, he]) (.refl _) fun name hm => ?_
    rw [NameMap.mem_keys_iff, NameMap.getElem?_of_isEmpty he] at hm
    cases hm
  · simp only [he, Bool.not_false, if_true, ensures_bind, ensures_perform]
    intro k hk r v hv
    have accepted : (k.content.change? (.putGauges gauges)).isSome := by
      rw [Snapshot.change?, Snapshot.putGauges_eq_ok_iff.mpr ⟨hc, rfl⟩]
      rfl
    refine ensures_written_update (Ledger.answers_putGauges hv) (fun u hu => ?_)
      fun e _ hn => by rw [hn] at accepted; cases accepted
    refine hQ _ (by simp [partCall, he, hk.1]) (hk.2.trans (Snapshot.within_of_change hu)) ?_
    intro name hm
    obtain ⟨x, hx⟩ := Option.isSome_iff_exists.mp (NameMap.mem_keys_iff.mp hm)
    rw [Has, Snapshot.gauges_of_change hu name, Call.gauge?, hx]
    rfl

theorem ensures_currentBatch {batch : Batch} {Q : List Metric → Ledger → Prop}
    (hg : ∀ name ∈ batch.gauges.keys, Has .gauge name l.content)
    (hc : ∀ name ∈ batch.counters.keys, Has .counter name l.content)
    (hQ : ∀ ms k, sharedMemory.Others l k → Q ms k) :
    Ensures sharedMemory R Q (currentBatch batch) l := by
  rw [currentBatch, ensures_bind]
  refine ensures_current_all hg fun gauges k hk => ?_
  rw [ensures_bind]
  refine ensures_current_all (fun name hm => (hc name hm).within hk.2) fun counters j hj => ?_
  exact hQ _ j (Ledger.others_trans hk hj)

theorem ensures_updateBatch {r : Request} {body : Bytes} (hl : l.changes = []) :
    Ensures sharedMemory Refused (Answered (Route.updateBatch.updates? (some body)))
      (updateBatch r body) l := by
  rw [updateBatch, ensures_bind]
  refine ensures_readJson (fun ms hms => ?_) ⟨.inl rfl, hl⟩ ⟨.inl rfl, hl⟩
  rw [ensures_bind, ensures_checked]
  refine ⟨fun b hb => ?_, fun d _ => ⟨.inl rfl, hl⟩⟩
  obtain ⟨us, hus, sound, holds⟩ := Batch.holds_ofMetrics hb
  rw [ensures_bind]
  refine ensures_putCounters (fun k hk hkc => ?_) fun k hk e he =>
    ⟨.inl (status_of_isRefusal he), hk.1.trans hl⟩
  rw [ensures_bind]
  refine ensures_putGauges (checkGauge_of_holds holds sound) fun j hj hw hjg => ?_
  rw [ensures_bind, ensures_report, ensures_bind]
  refine ensures_currentBatch hjg (fun name hm => (hkc name hm).within hw) fun ms i hi => ?_
  have hu : Route.updateBatch.updates? (some body) = some us := by
    simp [Route.updates?, hms, hus]
  rw [hu]
  refine settled_ok rfl ?_
  rw [hi.1, hj, hk, hl]
  exact applied_batch holds

end Handler

end Telemetry.Server
