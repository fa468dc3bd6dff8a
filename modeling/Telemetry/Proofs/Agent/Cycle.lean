import Telemetry.Proofs.Agent.Polls
import Telemetry.Proofs.Agent.Samples
import Telemetry.Proofs.Agent.WireFormat
import Telemetry.Proofs.Storage.Statements
/-!
One cycle of an agent: the samples are read, and their report is sent in chunks up to the first that
fails. Polls go on meanwhile, at any moment. They alone change the gauges, and of the number of polls
exactly what was read is taken off, once the server has accepted every chunk of the report.
-/

namespace Telemetry.Agent

namespace Samples

def recordAll (s : Samples) (polls : List (List Metric)) : Samples := s.run (polls.map .record)

theorem pollCount_recordAll {s : Samples} (h : 0 ≤ s.pollCount.val) (polls : List (List Metric)) :
    (s.recordAll polls).pollCount.val =
      min (s.pollCount.val + polls.length) 9223372036854775807 := by
  have upper := s.pollCount.upper
  induction polls generalizing s with
  | nil =>
    show s.pollCount.val = min (s.pollCount.val + (0 : Nat)) _
    omega
  | cons readings polls ih =>
    have first : (s.record readings).1.pollCount.val = _ := Count.val_addSaturating_one h
    have rest := ih (s := (s.record readings).1) (by omega) (Count.upper _)
    rw [first] at rest
    rw [List.length_cons]
    refine Eq.trans rest ?_
    omega

end Samples

namespace Cycle

/-- What happens around a report: a poll is recorded, or a call of the report is answered. -/
inductive Event where
  | poll (readings : List Metric)
  | answer (action : Action) (reply : action.Reply)

namespace Event

def readings? : Event → Option (List Metric)
  | .poll readings => some readings
  | .answer _ _ => none

def call? : Event → Option (Σ a : Action, a.Reply)
  | .poll _ => none
  | .answer action reply => some ⟨action, reply⟩

def change? : Event → Option Samples.Event
  | .poll readings => some (.record readings)
  | .answer (.flush reported) _ => some (.flush reported)
  | .answer _ _ => none

end Event

def polls (events : List Event) : List (List Metric) := events.filterMap Event.readings?
def calls (events : List Event) : List (Σ a : Action, a.Reply) := events.filterMap Event.call?

def samples (s : Samples) (events : List Event) : Samples := s.run (events.filterMap Event.change?)

/-- Whoever reads the samples gets them as they are; anything may become of a post. -/
def Answer (s : Samples) : (action : Action) → action.Reply → Prop
  | .read, reply => reply = s
  | _, _ => True

/-- A report over these samples, with polls at any moment. The state is what has happened so far. -/
def surroundings (s : Samples) : Surroundings Action.Reply (List Event) where
  Answers events action reply later :=
    Answer (samples s events) action reply ∧ later = events ++ [.answer action reply]
  Others events later := ∃ recorded : List (List Metric), later = events ++ recorded.map .poll

/-- A chunk that was sent, with the calls of the client and what came of them. -/
structure Parcel where
  chunk : List Metric
  calls : List (Σ a : Action, a.Reply)
  outcome : Except ClientError (List Metric)

def Parcel.accepted (p : Parcel) : Bool := p.outcome.isOk

def AllAccepted (parcels : List Parcel) : Prop := ∀ p ∈ parcels, p.accepted = true

instance (parcels : List Parcel) : Decidable (AllAccepted parcels) :=
  inferInstanceAs (Decidable (∀ p ∈ parcels, p.accepted = true))

def delivered (parcels : List Parcel) : Nat :=
  ((parcels.filter Parcel.accepted).map (·.chunk.length)).sum

theorem allAccepted_cons (chunk : List Metric) (made : List (Σ a : Action, a.Reply))
    (stored : List Metric) (parcels : List Parcel) :
    AllAccepted (⟨chunk, made, .ok stored⟩ :: parcels) ↔ AllAccepted parcels :=
  ⟨fun all => (List.forall_mem_cons.mp all).2, fun all => List.forall_mem_cons.mpr ⟨rfl, all⟩⟩

theorem delivered_cons (chunk : List Metric) (made : List (Σ a : Action, a.Reply))
    (stored : List Metric) (parcels : List Parcel) :
    delivered (⟨chunk, made, .ok stored⟩ :: parcels) = chunk.length + delivered parcels := rfl

/-- Chunks are sent in turn, up to the first that fails. -/
inductive Sending (c : Client) : List (List Metric) → List Parcel → Prop
  | finished : Sending c [] []
  | accepted {chunk : List Metric} {rest : List (List Metric)} {made : List (Σ a : Action, a.Reply)}
      {stored : List Metric} {parcels : List Parcel} (run : (c.sendBatch chunk).Yields made (.ok stored))
      (later : Sending c rest parcels) :
      Sending c (chunk :: rest) (⟨chunk, made, .ok stored⟩ :: parcels)
  | stopped {chunk : List Metric} {rest : List (List Metric)} {made : List (Σ a : Action, a.Reply)}
      {e : ClientError} (run : (c.sendBatch chunk).Yields made (.error e)) :
      Sending c (chunk :: rest) [⟨chunk, made, .error e⟩]

variable {c : Client} {s : Samples} {cs : List (List Metric)} {parcels : List Parcel}

namespace Sending

theorem yields (h : Sending c cs parcels) :
    ∀ p ∈ parcels, (c.sendBatch p.chunk).Yields p.calls p.outcome := by
  induction h with
  | finished => exact fun p hp => nomatch hp
  | accepted run later ih => exact List.forall_mem_cons.mpr ⟨run, ih⟩
  | stopped run => exact List.forall_mem_singleton.mpr run

theorem initial (h : Sending c cs parcels) : parcels.map Parcel.chunk <+: cs := by
  induction h with
  | finished => exact List.prefix_rfl
  | accepted run later ih => exact List.cons_prefix_cons.mpr ⟨rfl, ih⟩
  | stopped run => exact List.cons_prefix_cons.mpr ⟨rfl, List.nil_prefix⟩

theorem accepted_of_dropLast (h : Sending c cs parcels) : AllAccepted parcels.dropLast := by
  induction h with
  | finished => exact fun p hp => nomatch hp
  | @accepted chunk rest made stored parcels run later ih =>
    cases parcels with
    | nil => exact fun p hp => nomatch hp
    | cons next parcels =>
      rw [List.dropLast_cons_cons]
      exact List.forall_mem_cons.mpr ⟨rfl, ih⟩
  | stopped run => exact fun p hp => nomatch hp

theorem delivered_cases (h : Sending c cs parcels) (filled : ∀ chunk ∈ cs, chunk ≠ []) :
    AllAccepted parcels ∧ parcels.map Parcel.chunk = cs ∧
        delivered parcels = cs.flatten.length ∨
      ¬AllAccepted parcels ∧ delivered parcels < cs.flatten.length := by
  induction h with
  | finished => exact .inl ⟨fun p hp => (nomatch hp), rfl, rfl⟩
  | @accepted chunk rest made stored parcels run later ih =>
    rw [delivered_cons, allAccepted_cons, List.flatten_cons, List.length_append]
    rcases ih fun chunk there => filled chunk (.tail _ there) with ⟨all, same, sum⟩ | ⟨some, less⟩
    · exact .inl ⟨all, congrArg (chunk :: ·) same, by omega⟩
    · exact .inr ⟨some, by omega⟩
  | @stopped chunk rest made e run =>
    have left := List.length_pos_iff.mpr (filled chunk (.head _))
    refine .inr ⟨fun all => Bool.noConfusion (all _ (.head _)), ?_⟩
    rw [List.flatten_cons, List.length_append]
    exact Nat.add_pos_left left _

end Sending

/-! ### What happens -/

theorem calls_append (events later : List Event) :
    calls (events ++ later) = calls events ++ calls later := List.filterMap_append

@[simp] theorem calls_polls (recorded : List (List Metric)) : calls (recorded.map .poll) = [] := by
  induction recorded with
  | nil => rfl
  | cons readings recorded ih => exact ih

theorem samples_append (s : Samples) (events later : List Event) :
    samples s (events ++ later) = samples (samples s events) later := by
  rw [samples, List.filterMap_append]
  exact List.foldl_append

theorem samples_polls (s : Samples) (recorded : List (List Metric)) :
    samples s (recorded.map .poll) = s.recordAll recorded := by
  rw [samples, List.filterMap_map]
  exact congrArg s.run (List.filterMap_eq_map ▸ rfl)

theorem samples_of_calls {during : List Event}
    (h : ∀ made ∈ calls during, ∀ reported, made.1 ≠ .flush reported) (s : Samples) :
    samples s during = s.recordAll (polls during) := by
  induction during generalizing s with
  | nil => rfl
  | cons e during ih =>
    cases e with
    | poll readings => exact ih h _
    | answer action reply =>
      have later := ih (fun made there => h made (.tail _ there)) s
      cases action with
      | flush reported => exact absurd rfl (h ⟨.flush reported, reply⟩ (.head _) reported)
      | read | post | pause => exact later

theorem ensures_yields {α : Type} (w : Work α) (s : Samples) (events : List Event) :
    w.Ensures (surroundings s)
      (fun a later => ∃ during, later = events ++ during ∧ w.Yields (calls during) a) events := by
  induction w generalizing events with
  | done a => exact ⟨[], (List.append_nil _).symm, rfl, rfl⟩
  | log e next ih => exact ih events
  | call action next ih =>
    rintro _ ⟨recorded, rfl⟩ reply _ ⟨-, rfl⟩
    refine (ih reply _).mono ?_
    rintro a _ ⟨during, rfl, run⟩
    refine ⟨recorded.map .poll ++ .answer action reply :: during, by simp, reply, calls during, ?_, run⟩
    rw [calls_append, calls_polls]
    rfl

/-- Polls are taken off the samples if their report is complete. -/
def flushing (polls : Count) (complete : Prop) [Decidable complete] : List Event :=
  if complete then [.answer (.flush polls) ()] else []

theorem flushing_congr {polls : Count} {p q : Prop} [Decidable p] [Decidable q] (h : p ↔ q) :
    flushing polls p = flushing polls q := if_congr h rfl rfl

theorem ensures_sendChunks (c : Client) (polls : Count) (sent : Nat) (cs : List (List Metric))
    (s : Samples) (events : List Event) :
    (Reporter.sendChunks c polls sent cs).Ensures (surroundings s) (fun summary later =>
      ∃ during parcels, Sending c cs parcels ∧ calls during = parcels.flatMap Parcel.calls ∧
        later = events ++ (during ++ flushing polls (AllAccepted parcels)) ∧
        summary = ⟨sent + delivered parcels, cs.flatten.length - delivered parcels⟩) events := by
  induction cs generalizing sent events with
  | nil =>
    rw [Reporter.sendChunks]
    rintro _ ⟨recorded, rfl⟩ _ _ ⟨-, rfl⟩
    exact ⟨recorded.map .poll, [], .finished, calls_polls recorded, List.append_assoc _ _ _, rfl⟩
  | cons chunk rest ih =>
    rw [Reporter.sendChunks, Program.ensures_bind]
    refine (ensures_yields (c.sendBatch chunk) s events).mono ?_
    rintro (e | stored) _ ⟨during, rfl, run⟩
    · refine ⟨during, [⟨chunk, calls during, .error e⟩], .stopped run, (List.append_nil _).symm, ?_, rfl⟩
      rw [flushing, if_neg fun all => Bool.noConfusion (all _ (.head _)), List.append_nil]
    · refine (ih (sent + chunk.length) (events ++ during)).mono ?_
      rintro _ _ ⟨after, parcels, later, made, rfl, rfl⟩
      refine ⟨during ++ after, ⟨chunk, calls during, .ok stored⟩ :: parcels, .accepted run later, ?_, ?_,
        ?_⟩
      · rw [calls_append, made]
        rfl
      · rw [flushing_congr (allAccepted_cons _ _ _ _), List.append_assoc, List.append_assoc]
      · rw [delivered_cons, List.flatten_cons, List.length_append, Nat.add_sub_add_left, Nat.add_assoc]

/-! ### What comes of it -/

structure Delivered (c : Client) (batchSize : Nat) (metrics : List Metric) (parcels : List Parcel)
    (summary : Summary) : Prop where
  passed : ∀ p ∈ parcels, (c.sendBatch p.chunk).Yields p.calls p.outcome
  size : ∀ p ∈ parcels, p.chunk ≠ [] ∧ p.chunk.length ≤ max batchSize 1
  order : (parcels.map Parcel.chunk).flatten <+: metrics
  stops : AllAccepted parcels.dropLast
  sent : summary.sent = delivered parcels
  total : summary.sent + summary.failed = metrics.length
  failed : summary.failed = 0 ↔ AllAccepted parcels
  whole : summary.failed = 0 → (parcels.map Parcel.chunk).flatten = metrics

/-- Samples that were read for a report, and what is left of them when it is over: polls were recorded
in between, and the polls that were read are taken off if the report is complete. -/
structure Settled (captured left : Samples) (meanwhile : List (List Metric)) (complete : Prop) :
    Prop where
  gauges : left.gauges = (captured.recordAll meanwhile).gauges
  counted : (captured.recordAll meanwhile).pollCount.val =
    min (captured.pollCount.val + meanwhile.length) 9223372036854775807
  taken : complete → left.pollCount.val =
    (captured.recordAll meanwhile).pollCount.val - captured.pollCount.val
  kept : ¬complete → left.pollCount = (captured.recordAll meanwhile).pollCount

theorem Sending.delivered {batchSize : Nat} {metrics : List Metric}
    (h : Sending c (chunks batchSize metrics) parcels) : Delivered c batchSize metrics parcels
      ⟨Cycle.delivered parcels, metrics.length - Cycle.delivered parcels⟩ := by
  have parts := h.delivered_cases fun chunk there => (size_of_mem_chunks there).1
  rw [flatten_chunks] at parts
  have unsent : metrics.length - Cycle.delivered parcels = 0 ↔ AllAccepted parcels := by
    rcases parts with ⟨all, -, sum⟩ | ⟨some, less⟩
    · exact iff_of_true (by omega) all
    · exact iff_of_false (by omega) some
  constructor
  case passed => exact h.yields
  case size =>
    intro p there
    exact size_of_mem_chunks (h.initial.mem (List.mem_map_of_mem there))
  case order =>
    have first := h.initial.flatten
    rwa [flatten_chunks] at first
  case stops => exact h.accepted_of_dropLast
  case sent => rfl
  case total =>
    exact Nat.add_sub_cancel' (parts.elim (fun all => all.2.2.le) fun part => part.2.le)
  case failed => exact unsent
  case whole =>
    intro none
    rcases parts with ⟨-, same, -⟩ | ⟨some, -⟩
    · rw [same, flatten_chunks]
    · exact absurd (unsent.mp none) some

theorem Sending.ne_flush (h : Sending c cs parcels) :
    ∀ made ∈ parcels.flatMap Parcel.calls, ∀ reported, made.1 ≠ .flush reported := by
  intro made there reported flush
  obtain ⟨p, mem, there⟩ := List.mem_flatMap.mp there
  obtain ⟨_, allowed⟩ := (c.sendsAs p.chunk).repeated.allows_of_yields (h.yields p mem) made there
  rw [flush] at allowed
  exact allowed

theorem settled {captured : Samples} {during : List Event} (h : 0 ≤ captured.pollCount.val)
    (quiet : ∀ made ∈ calls during, ∀ reported, made.1 ≠ .flush reported) (complete : Prop)
    [Decidable complete] : Settled captured
      (samples captured (during ++ flushing captured.pollCount complete)) (polls during) complete := by
  rw [samples_append, samples_of_calls quiet]
  have counted := captured.pollCount_recordAll h (polls during)
  have upper := captured.pollCount.upper
  by_cases whole : complete
  · rw [flushing, if_pos whole]
    refine ⟨rfl, counted, fun _ => ?_, fun part => absurd whole part⟩
    refine (Count.val_drop h).trans ?_
    omega
  · rw [flushing, if_neg whole]
    exact ⟨rfl, counted, fun all => absurd all whole, fun _ => rfl⟩

def sendAll (c : Client) (batchSize : Nat) (captured : Samples) : Work Summary :=
  match captured.report with
  | [] => return ⟨0, 0⟩
  | metrics => Reporter.sendChunks c captured.pollCount 0 (chunks batchSize metrics)

theorem ensures_sendAll (c : Client) (batchSize : Nat) {captured : Samples}
    (h : 0 ≤ captured.pollCount.val) {events : List Event} (now : samples s events = captured) :
    (sendAll c batchSize captured).Ensures (surroundings s) (fun summary later =>
      ∃ during parcels,
        let complete := captured.report ≠ [] ∧ AllAccepted parcels
        later = events ++ (during ++ flushing captured.pollCount complete) ∧
        calls during = parcels.flatMap Parcel.calls ∧
        Delivered c batchSize captured.report parcels summary ∧
        Settled captured (samples s later) (polls during) complete) events := by
  unfold sendAll
  cases whole : captured.report with
  | nil =>
    have sending : Sending c (chunks batchSize []) [] := by
      rw [chunks]
      exact .finished
    have unflushed : events = events ++
        ([] ++ flushing captured.pollCount (([] : List Metric) ≠ [] ∧ AllAccepted [])) := by
      rw [flushing, if_neg fun all => all.1 rfl, List.append_nil, List.append_nil]
    refine ⟨[], [], unflushed, rfl, sending.delivered, ?_⟩
    rw [unflushed, samples_append, now]
    exact settled h (show ∀ made ∈ calls [], ∀ reported, made.1 ≠ .flush reported from
      fun _ none => absurd none List.not_mem_nil) _
  | cons m ms =>
    refine (ensures_sendChunks c captured.pollCount 0 (chunks batchSize (m :: ms)) s events).mono ?_
    rintro _ _ ⟨during, parcels, sending, made, rfl, rfl⟩
    have same : AllAccepted parcels ↔ m :: ms ≠ [] ∧ AllAccepted parcels :=
      (and_iff_right (List.cons_ne_nil m ms)).symm
    refine ⟨during, parcels, by rw [flushing_congr same], made, ?_, ?_⟩
    · rw [flatten_chunks, Nat.zero_add]
      exact sending.delivered
    · rw [flushing_congr same, samples_append, now]
      exact settled h (made ▸ sending.ne_flush) _

/-- One cycle. Whatever the samples hold, however the posts are answered and whenever polls go on, the
report of the samples as they are read is sent in chunks up to the first that fails, and only a report
that is not empty and whose chunks are all accepted has its polls taken off in the end. -/
theorem report_once (c : Client) (batchSize : Nat) (earlier : List Samples.Event) :
    let s := Samples.new.run earlier
    (Reporter.report c batchSize).Ensures (surroundings s) (fun summary events =>
      ∃ before during parcels,
        let captured := s.recordAll before
        let complete := captured.report ≠ [] ∧ AllAccepted parcels
        events = before.map .poll ++
          .answer .read captured :: (during ++ flushing captured.pollCount complete) ∧
        calls during = parcels.flatMap Parcel.calls ∧
        Delivered c batchSize captured.report parcels summary ∧
        Settled captured (samples s events) (polls during) complete) [] := by
  intro s
  show (Work.perform .read >>= sendAll c batchSize).Ensures _ _ _
  rw [Program.ensures_bind]
  rintro _ ⟨before, rfl⟩ _ _ ⟨rfl, rfl⟩
  have positive : 0 ≤ (samples s (before.map .poll)).pollCount.val := by
    rw [samples_polls]
    exact Samples.pollCount_run_nonneg (Samples.pollCount_run_nonneg le_rfl earlier) _
  have unchanged : samples s (before.map .poll ++ [.answer .read (samples s (before.map .poll))]) =
      samples s (before.map .poll) := samples_append _ _ _
  refine (ensures_sendAll c batchSize positive unchanged).mono ?_
  rintro summary events ⟨during, parcels, happened, made, delivered, settled⟩
  rw [samples_polls] at happened delivered settled
  refine ⟨before, during, parcels, ?_, made, delivered, settled⟩
  rw [happened, List.append_assoc]
  rfl

end Cycle

end Telemetry.Agent
