import Telemetry.Proofs.Server.Layers
import Telemetry.Proofs.Server.Settling
/-!
Under which names the server stores. Every handler trims the name it was given before it calls the
storage, so no request can store anything under a name that is empty or has blanks around it.
-/

namespace Telemetry

/-- A name that trimming leaves as it is, and that has something in it. -/
structure IsTidy (name : String) : Prop where
  named : name ≠ ""
  trimmed : trim name = name

theorem tidy_of_nameOf {text name : String} (h : nameOf text = .ok name) : IsTidy name := by
  unfold nameOf at h
  dsimp only at h
  split at h
  · cases h
  · obtain rfl := Except.ok.inj h
    exact ⟨‹_›, trim_trim text⟩

theorem IsTidy.nameOf {name : String} (h : IsTidy name) : nameOf name = .ok name := by
  rw [Telemetry.nameOf, h.trimmed, if_neg h.named]

theorem Metric.update?_tidy {m : Metric} {u : Update} (h : m.update? = some u) : IsTidy u.1 := by
  exact tidy_of_nameOf (Metric.update?_eq_some_iff.mp h).1

def Call.IsTidy (c : Call) : Prop :=
  ∀ name, (c.gauge? name).isSome ∨ (c.delta? name).isSome → Telemetry.IsTidy name

def Snapshot.IsTidy (s : Snapshot) : Prop :=
  ∀ name : String, s.gauges[name]?.isSome ∨ s.counters[name]?.isSome → Telemetry.IsTidy name

theorem Snapshot.IsTidy.change {s u : Snapshot} {c : Call} (hs : s.IsTidy) (hc : c.IsTidy)
    (h : s.change? c = some u) : u.IsTidy := by
  rintro name (stored | stored)
  · rw [gauges_of_change h, Option.isSome_or, Bool.or_eq_true] at stored
    rcases stored with new | old
    · exact hc name (.inl new)
    · exact hs name (.inl old)
  · have total := total?_of_change h name
    rw [total?, total?] at total
    rw [← Option.isSome_map (f := Count.val), total] at stored
    cases hd : c.delta? name with
    | some d => exact hc name (.inr (by rw [hd]; rfl))
    | none =>
      rw [hd, Update.plus_none, Option.isSome_map] at stored
      exact hs name (.inr stored)

namespace Batch

variable {b : Batch} {us : List Update}

theorem Holds.mem_gauges (h : b.Holds us) {name : String} (hn : b.gauges[name]?.isSome) :
    ∃ u ∈ us, u.1 = name := by
  rw [h.gauges, List.getLast?_isSome] at hn
  obtain ⟨x, hx⟩ := List.exists_mem_of_ne_nil _ hn
  obtain ⟨⟨n, payload⟩, mem, hu⟩ := List.mem_filterMap.mp hx
  refine ⟨_, mem, ?_⟩
  cases payload <;> simp_all

theorem Holds.mem_counters (h : b.Holds us) {name : String} (hn : b.counters[name]?.isSome) :
    ∃ u ∈ us, u.1 = name := by
  rw [← Option.isSome_map (f := Count.val), h.counters] at hn
  have some : Update.deltas name us ≠ [] := by
    intro none
    rw [none] at hn
    cases hn
  obtain ⟨d, hd⟩ := List.exists_mem_of_ne_nil _ some
  obtain ⟨⟨n, payload⟩, mem, hu⟩ := List.mem_filterMap.mp hd
  refine ⟨_, mem, ?_⟩
  cases payload <;> simp_all

theorem tidy_of_ofMetrics {ms : List Metric} (h : ofMetrics ms = .ok b) :
    (Call.putGauges b.gauges).IsTidy ∧ (Call.putCounters b.counters).IsTidy := by
  obtain ⟨us, hus, -, holds⟩ := holds_ofMetrics h
  have tidy : ∀ u ∈ us, IsTidy u.1 := forall_mem_of_mapM hus fun _ _ => Metric.update?_tidy
  constructor
  · rintro name (stored | stored)
    · obtain ⟨u, mem, rfl⟩ := holds.mem_gauges stored
      exact tidy u mem
    · cases stored
  · rintro name (stored | stored)
    · cases stored
    · rw [Call.delta?, Option.isSome_map] at stored
      obtain ⟨u, mem, rfl⟩ := holds.mem_counters stored
      exact tidy u mem

end Batch

/-! ### Programs that are watched -/

/-- A protocol that allows some calls, whatever was answered before. -/
def Protocol.allowing {C : Type} {Reply : C → Type} (A : C → Prop) : Protocol Reply Unit :=
  ⟨fun _ c => A c, fun _ _ _ => ()⟩

/-- Every answer may come; the state tells whether all calls so far were allowed. -/
def Surroundings.watching {C : Type} {Reply : C → Type} (A : C → Prop) : Surroundings Reply Prop :=
  ⟨fun p c _ q => q = (p ∧ A c), fun p q => q = p⟩

theorem Program.follows_of_watched {C : Type} {Reply : C → Type} {α : Type} {A : C → Prop}
    [∀ c, Nonempty (Reply c)] {w : Program Reply α} {p : Prop}
    (h : w.Ensures (.watching A) (fun _ q => q) p) :
    p ∧ w.Follows (.allowing A) (fun _ _ => True) () := by
  induction w generalizing p with
  | done a => exact ⟨h, trivial⟩
  | call c next ih =>
    have each (r : Reply c) := ih r (h p rfl r _ rfl)
    obtain ⟨r⟩ := ‹∀ c, Nonempty (Reply c)› c
    exact ⟨(each r).1.1, (each r).1.2, fun r => (each r).2⟩
  | log e next ih => exact ih h

namespace Server

open Http

instance (c : Call) : Nonempty c.Reply := by
  cases c
  case backend => exact ⟨""⟩
  all_goals exact ⟨.error .emptyName⟩

namespace Handler

variable {α β : Type}

def Keeps (h : Handler α) : Prop :=
  Ensures (.watching Call.IsTidy) (fun _ p => p) (fun _ p => p) h True

theorem keeps_perform {c : Call} (h : c.IsTidy) : Keeps (perform c) := by
  rintro p rfl r q rfl
  exact ⟨trivial, h⟩

theorem keeps_pure (a : α) : Keeps (pure a : Handler α) := trivial

theorem keeps_report (e : Log.Event) : Keeps (report e) := trivial

theorem Keeps.bind {h : Handler α} {f : α → Handler β} (hh : Keeps h) (hf : ∀ a, Keeps (f a)) :
    Keeps (h >>= f) := by
  rw [Keeps, ensures_bind]
  refine Ensures.mono hh (fun _ _ hp => hp) fun a p hp => ?_
  rw [eq_true hp]
  exact hf a

theorem keeps_checked {x : Except Defect α} {f : α → Handler β} (hf : ∀ a, x = .ok a → Keeps (f a)) :
    Keeps (checked x >>= f) := by
  rw [Keeps, ensures_bind, ensures_checked]
  exact ⟨hf, fun _ _ => trivial⟩

theorem keeps_readJson {read : Bytes → Option α} {r : Request} {body : Bytes} {f : α → Handler β}
    (hf : ∀ a, Keeps (f a)) : Keeps (readJson read r body >>= f) := by
  rw [Keeps, ensures_bind]
  exact ensures_readJson (fun a _ => hf a) trivial trivial

theorem keeps_stored (x : Except Storage.Error α) : Keeps (stored x) := by
  cases x <;> trivial

theorem keeps_found (name : String) (x : Option α) : Keeps (found name x) := by
  cases x <;> trivial

theorem keeps_written (what : String) (x : Except Storage.Error Unit) : Keeps (written what x) := by
  rw [Keeps, ensures_written]
  exact ⟨fun _ => trivial, fun _ _ _ => trivial⟩

theorem tidy_of_asking {c : Call} (gauge : ∀ name, c.gauge? name = none)
    (delta : ∀ name, c.delta? name = none) : c.IsTidy := by
  rintro name (stored | stored)
  · rw [gauge] at stored
    cases stored
  · rw [delta] at stored
    cases stored

theorem keeps_put {name : String} (h : IsTidy name) (payload : Payload) : Keeps (put name payload) := by
  have tidy {n : String} (hn : name = n) : IsTidy n := hn ▸ h
  cases payload with
  | gauge x =>
    refine (keeps_perform ?_).bind fun _ => keeps_written ..
    rintro n (stored | stored)
    · simp only [Call.gauge?, Option.isSome_ite] at stored
      exact tidy stored
    · cases stored
  | counter d =>
    refine (keeps_perform ?_).bind fun _ => keeps_written ..
    rintro n (stored | stored)
    · cases stored
    · simp only [Call.delta?, Option.isSome_ite] at stored
      exact tidy stored

theorem keeps_currentPayload (kind : Kind) (name : String) : Keeps (currentPayload kind name) := by
  cases kind with
  | gauge =>
    refine Keeps.bind ?_ fun _ => (keeps_found ..).bind fun _ => keeps_pure _
    exact (keeps_perform (tidy_of_asking (fun _ => rfl) fun _ => rfl)).bind fun _ => keeps_stored _
  | counter =>
    refine Keeps.bind ?_ fun _ => (keeps_found ..).bind fun _ => keeps_pure _
    exact (keeps_perform (tidy_of_asking (fun _ => rfl) fun _ => rfl)).bind fun _ => keeps_stored _

theorem keeps_current (kind : Kind) (name : String) : Keeps (current kind name) :=
  (keeps_currentPayload kind name).bind fun _ => keeps_pure _

theorem keeps_mapM {f : α → Handler β} (hf : ∀ a, Keeps (f a)) (xs : List α) : Keeps (xs.mapM f) := by
  induction xs with
  | nil => exact keeps_pure []
  | cons x xs ih =>
    rw [List.mapM_cons]
    exact (hf x).bind fun _ => ih.bind fun _ => keeps_pure _

theorem keeps_page : Keeps page :=
  (keeps_perform (tidy_of_asking (fun _ => rfl) fun _ => rfl)).bind fun _ =>
    (keeps_stored _).bind fun _ => keeps_pure _

theorem keeps_updateText (kind name raw : String) : Keeps (updateText kind name raw) :=
  keeps_checked fun _ _ => keeps_checked fun _ hn => keeps_checked fun payload _ =>
    (keeps_put (tidy_of_nameOf hn) payload).bind fun _ => keeps_pure _

theorem keeps_valueText (kind name : String) : Keeps (valueText kind name) :=
  keeps_checked fun _ _ => keeps_checked fun _ _ =>
    (keeps_currentPayload ..).bind fun _ => keeps_pure _

theorem keeps_updateJson (r : Request) (body : Bytes) : Keeps (updateJson r body) :=
  keeps_readJson fun _ => keeps_checked fun _ hn => keeps_checked fun payload _ =>
    (keeps_put (tidy_of_nameOf hn) payload).bind fun _ =>
      (keeps_current ..).bind fun _ => keeps_pure _

theorem keeps_valueJson (r : Request) (body : Bytes) : Keeps (valueJson r body) :=
  keeps_readJson fun _ => keeps_checked fun _ _ => keeps_checked fun _ _ =>
    (keeps_current ..).bind fun _ => keeps_pure _

theorem keeps_updateBatch (r : Request) (body : Bytes) : Keeps (updateBatch r body) := by
  refine keeps_readJson fun ms => keeps_checked fun b hb => ?_
  obtain ⟨gauges, counters⟩ := Batch.tidy_of_ofMetrics hb
  have putCounters : Keeps (putCounters b.counters) := by
    unfold Handler.putCounters
    split
    · exact (keeps_perform counters).bind fun _ => keeps_written ..
    · exact keeps_pure ()
  have putGauges : Keeps (putGauges b.gauges) := by
    unfold Handler.putGauges
    split
    · exact (keeps_perform gauges).bind fun _ => keeps_written ..
    · exact keeps_pure ()
  have currentBatch : Keeps (currentBatch b) :=
    (keeps_mapM (keeps_current .gauge) _).bind fun _ =>
      (keeps_mapM (keeps_current .counter) _).bind fun _ => keeps_pure _
  exact putCounters.bind fun _ => putGauges.bind fun _ => (keeps_report _).bind fun _ =>
    currentBatch.bind fun _ => keeps_pure _

end Handler

theorem keeps_run (found : Route) (r : Request) (content : Option Bytes) :
    Program.Ensures (.watching Call.IsTidy) (fun _ p => p) (found.run r content) True := by
  have away : ∀ n ∈ turnedAway, (fun (_ : Nat) (p : Prop) => p) n True := fun _ _ => trivial
  have answered {h : Handler Response} (hh : h.Keeps) :
      Program.Ensures (.watching Call.IsTidy) (fun _ p => p) h.answer True :=
    Handler.ensures_answer hh
  have reads {h : Bytes → Handler Response} (hh : ∀ body, (h body).Keeps) :
      Program.Ensures (.watching Call.IsTidy) (fun _ p => p) (withBody content h) True :=
    ensures_withBody (P := fun _ p => p) away fun body _ => answered (hh body)
  cases found with
  | page => exact answered Handler.keeps_page
  | ping =>
    rintro p rfl r q rfl
    cases r with
    | ok => exact ⟨trivial, Handler.tidy_of_asking (fun _ => rfl) fun _ => rfl⟩
    | error e =>
      rintro p rfl r q rfl
      exact ⟨⟨trivial, Handler.tidy_of_asking (fun _ => rfl) fun _ => rfl⟩,
        Handler.tidy_of_asking (fun _ => rfl) fun _ => rfl⟩
  | updateText kind name value =>
    simp only [Route.run, texts_cons, texts_nil]
    cases segmentText? kind with
    | none => trivial
    | some k =>
      cases segmentText? name with
      | none => trivial
      | some n =>
        cases segmentText? value with
        | none => trivial
        | some v => exact answered (Handler.keeps_updateText k n v)
  | valueText kind name =>
    simp only [Route.run, texts_cons, texts_nil]
    cases segmentText? kind with
    | none => trivial
    | some k =>
      cases segmentText? name with
      | none => trivial
      | some n => exact answered (Handler.keeps_valueText k n)
  | updateJson => exact reads (Handler.keeps_updateJson r)
  | valueJson => exact reads (Handler.keeps_valueJson r)
  | updateBatch => exact reads (Handler.keeps_updateBatch r)

/-- Whatever a request asks for, it is stored under tidy names only. -/
theorem follows_tidy (key : Option String) (r : Request) :
    (Application.handle key r).Follows (.allowing Call.IsTidy) (fun _ _ => True) () := by
  have away : ∀ n ∈ turnedAway, (fun (_ : Nat) (p : Prop) => p) n True := fun _ _ => trivial
  have route : Program.Ensures (.watching Call.IsTidy) (fun _ p => p) (route r (contentOf? r)) True :=
    ensures_route (P := fun _ p => p) away fun found _ => keeps_run found r _
  have watched :
      Program.Ensures (.watching Call.IsTidy) (fun _ p => p) (Application.handle key r) True :=
    Application.ensures_handle (P := fun _ p => p) away route
  exact (Program.follows_of_watched watched).2

end Server

end Telemetry
