import Telemetry.Server.SaverTask
import Telemetry.Proofs.Backoff
import Telemetry.Proofs.Storage.AtomicWrites
/-!
The steps of the task that saves at intervals: what each of them can do, and what it leaves alone.
-/

namespace Telemetry

theorem AtomicWrite.Course.trace_length {p : Path} {path : String} {bytes : Bytes}
    {fault : Option Step} {t : FileTree} {o : Outcome} (h : Course p path bytes fault t o) :
    o.trace.length ≤ 4 := by
  cases h with
  | refused | unpaved | uncreated | unwritten | renamed => simp [abandon]

namespace Server

open Storage Log

namespace Saver

/-! The saver moves from phase to phase; the rest of its state is time and the order to stop. -/

theorem begin_frame (s : Saver) : ∃ phase, s.begin.1 = { s with phase := phase } := by
  unfold begin
  split
  · split
    · exact ⟨_, rfl⟩
    · exact ⟨_, rfl⟩
  · exact ⟨s.phase, rfl⟩

theorem stop_frame (s : Saver) : ∃ phase, s.stop.1 = { s with phase := phase } := by
  unfold stop
  split
  · exact ⟨s.phase, rfl⟩
  · split
    · exact ⟨_, rfl⟩
    · exact ⟨_, rfl⟩
    · exact ⟨s.phase, rfl⟩

theorem wakeTime?_stop {s : Saver} (cancelled : s.cancelled = true) :
    s.stop.1.wakeTime? = none := by
  rw [stop, cancelled]
  cases hp : s.phase with
  | waiting | retrying => rfl
  | unstarted | stopped | panicked =>
    rw [wakeTime?]
    simp [hp]

theorem attempt_frame (s : Saver) (result : Except Error Unit) :
    ∃ phase, (s.attempt result).1 = { s with phase := phase } := by
  have after (attempt : Nat) (b : Backoff) (due : Nat) :
      ∃ phase, (s.afterAttempt attempt b due result).1 = { s with phase := phase } := by
    unfold afterAttempt
    split
    · exact ⟨_, rfl⟩
    · split
      · exact ⟨_, rfl⟩
      · exact ⟨_, rfl⟩
  unfold attempt
  split
  · exact after _ _ _
  · exact after _ _ _
  · exact ⟨s.phase, rfl⟩

end Saver

namespace Job

/-- Attempts that have begun and that the task has not heard of. -/
def pending : Job → Nat
  | idle => 0
  | _ => 1

/-- The steps that a save has before it, or more. -/
def left : Job → Nat
  | idle | finished _ => 0
  | writing _ trees _ => trees.length + 1
  | captured _ _ _ => 6
  | handed => 7

theorem pending_eq_zero {job : Job} : job.pending = 0 ↔ job = .idle := by
  cases job <;> simp [pending]

theorem pending_eq_one {job : Job} : job.pending = 1 ↔ job ≠ .idle := by
  cases job <;> simp [pending]

end Job

namespace Saving

variable {s : Saving}

/-- A step leaves the memory alone, and brings a save nearer to its end. -/
theorem work_frame (s : Saving) (fault : Option AtomicWrite.Step) (written : Nat) :
    ∃ job files saves,
      s.work fault written = { s with job := job, files := files, saves := saves } ∧
      job.pending = s.job.pending ∧ job.left ≤ s.job.left - 1 := by
  obtain ⟨job, ⟨content, path, mode⟩, files, applied, saves⟩ := s
  cases job with
  | idle => exact ⟨_, _, _, rfl, rfl, Nat.le_refl 0⟩
  | finished result => exact ⟨_, _, _, rfl, rfl, Nat.le_refl 0⟩
  | handed =>
    cases path with
    | none => exact ⟨_, _, _, rfl, rfl, Nat.zero_le _⟩
    | some path => exact ⟨_, _, _, rfl, rfl, Nat.le_refl 6⟩
  | captured path count bytes =>
    have short := (AtomicWrite.attempt_course fault written files path bytes).trace_length
    exact ⟨_, _, _, rfl, rfl, Nat.succ_le_succ short⟩
  | writing count trees result =>
    cases trees with
    | nil => exact ⟨_, _, _, rfl, rfl, Nat.zero_le _⟩
    | cons tree trees => exact ⟨_, _, _, rfl, rfl, Nat.le_refl (trees.length + 1)⟩

/-- What will have become of a save, and of the files, when nothing else happens and no step of it
fails. -/
def outcome? (s : Saving) : Option (Except Error Unit × FileTree) :=
  match s.job with
  | .idle => none
  | .handed => some (s.memory.save s.files)
  | .captured path _ bytes => some (AtomicWrite.run s.files path bytes)
  | .writing _ trees result => some (result, trees.getLastD s.files)
  | .finished result => some (result, s.files)

theorem outcome?_work (s : Saving) : (s.work none 0).outcome? = s.outcome? := by
  obtain ⟨job, ⟨content, path, mode⟩, files, applied, saves⟩ := s
  cases job with
  | idle | finished | captured => rfl
  | handed =>
    cases path with
    | none => rfl
    | some path => rfl
  | writing count trees result =>
    cases trees with
    | nil => rfl
    | cons tree trees =>
      show some (result, trees.getLastD tree) = some (result, (tree :: trees).getLastD files)
      rw [List.getLastD_cons]

end Saving

namespace SaverTask

variable {s t : SaverTask}

theorem run_append (s : SaverTask) (events more : List Event) :
    s.run (events ++ more) = (s.run events).run more := List.foldl_append

theorem run_preserves {P : SaverTask → Prop} (step : ∀ s e, P s → P (s.next e)) (h : P s)
    (events : List Event) : P (s.run events) := by
  induction events generalizing s with
  | nil => exact h
  | cons e events ih => exact ih (step s e h)

/-! ### The parts of a pass -/

theorem begin_of_started (h : s.saver.phase ≠ .unstarted) : s.begin = s := by
  have same : s.saver.begin = (s.saver, []) := by
    unfold Saver.begin
    split
    · contradiction
    · rfl
  rw [begin, same, if_neg h, List.append_nil]

theorem begin_unstarted (h : s.saver.phase = .unstarted) (filled : s.saver.interval ≠ 0) :
    s.begin = { s with
      saver := { s.saver with phase := .waiting (s.saver.now + s.saver.interval) }
      logs := s.logs ++ s.saver.begin.2
      begun := some s.saver.now } := by
  have moved : s.saver.begin.1 =
      { s.saver with phase := .waiting (s.saver.now + s.saver.interval) } := by
    rw [Saver.begin, h]
    dsimp only
    rw [if_neg filled]
  rw [begin, moved, if_pos h]

/-- What a look at the work finds: nothing, a tick, an attempt that is due, or a save that is done. -/
inductive Looked (s : SaverTask) : SaverTask → Prop where
  | overlooked : Looked s s.overlook
  | fired {due : Nat} (left : s.looks.work = true) (phase : s.saver.phase = .waiting due)
      (come : due ≤ s.saver.now) : Looked s (s.fire due)
  | launched {wake k due : Nat} {b : Backoff} (left : s.looks.work = true)
      (phase : s.saver.phase = .retrying wake k b due) (idle : s.saving.job = .idle)
      (come : wake ≤ s.saver.now) : Looked s s.handOver
  | heard {wake k due : Nat} {b : Backoff} {result : Except Error Unit}
      (left : s.looks.work = true) (phase : s.saver.phase = .retrying wake k b due)
      (done : s.saving.job = .finished result) : Looked s (s.take result)

theorem look_looked (s : SaverTask) (seen : Bool) : Looked s (s.look seen) := by
  unfold look
  cases left : s.looks.work with
  | false => exact .overlooked
  | true =>
    cases seen with
    | false => exact .overlooked
    | true =>
      rw [if_neg (by simp)]
      split
      · rename_i phase
        split
        · exact .fired left phase ‹_›
        · exact .overlooked
      · rename_i phase idle
        split
        · exact .launched left phase idle ‹_›
        · exact .overlooked
      · rename_i phase done
        exact .heard left phase done
      · exact .overlooked

inductive Heeded (s : SaverTask) : SaverTask → Prop where
  | passed (before : s.looks.order = false) : Heeded s s
  | free (uncancelled : s.saver.cancelled = false) :
      Heeded s { s with looks := ⟨false, s.looks.work⟩ }
  | ended (left : s.looks.order = true) (cancelled : s.saver.cancelled = true) : Heeded s s.stop

theorem heed_heeded (s : SaverTask) : Heeded s s.heed := by
  unfold heed
  cases left : s.looks.order with
  | false => exact .passed left
  | true =>
    cases cancelled : s.saver.cancelled with
    | false => exact .free cancelled
    | true => exact .ended left cancelled

theorem pass_cases (s : SaverTask) : s.pass = s ∧ s.looks ≠ ⟨false, false⟩ ∨
    s.looks = ⟨false, false⟩ ∧ s.pass = { s.begin with looks := ⟨true, true⟩ } := by
  by_cases rests : s.looks = ⟨false, false⟩
  · exact .inr ⟨rests, if_pos rests⟩
  · exact .inl ⟨if_neg rests, rests⟩

theorem stop_of_waits {wake : Nat} (cancelled : s.saver.cancelled = true)
    (waits : s.saver.wakeTime? = some wake) :
    s.stop = { s with
      saver := { s.saver with phase := .stopped }
      logs := s.logs ++ s.saver.stop.2
      looks := ⟨false, false⟩ } := by
  have moved : s.saver.stop.1 = { s.saver with phase := .stopped } := by
    rw [Saver.stop, if_neg (by simp [cancelled])]
    cases phase : s.saver.phase with
    | waiting | retrying => rfl
    | unstarted | stopped | panicked =>
      rw [Saver.wakeTime?, phase] at waits
      cases waits
  rw [stop, moved]

theorem stop_of_waitless (waitless : s.saver.wakeTime? = none) :
    s.stop = { s with looks := ⟨false, false⟩ } := by
  have same : s.saver.stop = (s.saver, []) := by
    rw [Saver.stop]
    cases phase : s.saver.phase with
    | waiting | retrying =>
      rw [Saver.wakeTime?, phase] at waitless
      cases waitless
    | unstarted | stopped | panicked => exact ite_self _
  rw [stop, same, List.append_nil]

theorem take_eq (s : SaverTask) (result : Except Error Unit) : ∃ looks rounds round,
    (looks = s.looks ∨ looks = ⟨true, true⟩) ∧ s.take result = { s with
      saver := (s.saver.attempt result).1
      saving := { s.saving with job := .idle }
      looks := looks
      fresh := false
      logs := s.logs ++ (s.saver.attempt result).2
      prompt := if s.fresh then s.prompt + 1 else s.prompt
      rounds := rounds, round := round } := by
  unfold take
  dsimp only
  split
  · exact ⟨_, _, _, .inr rfl, rfl⟩
  · exact ⟨_, _, _, .inl rfl, rfl⟩

/-- What the task does by itself takes no time, and does not give the order to stop. -/
structure Frames (s t : SaverTask) : Prop where
  now : t.saver.now = s.saver.now
  cancelled : t.saver.cancelled = s.saver.cancelled

theorem Frames.trans {u : SaverTask} (h : Frames s t) (k : Frames t u) : Frames s u :=
  ⟨k.now.trans h.now, k.cancelled.trans h.cancelled⟩

theorem frames_pass (s : SaverTask) : Frames s s.pass := by
  obtain ⟨still, -⟩ | ⟨-, begun⟩ := s.pass_cases
  · rw [still]
    exact ⟨rfl, rfl⟩
  · obtain ⟨phase, moved⟩ := s.saver.begin_frame
    rw [begun, begin, moved]
    exact ⟨rfl, rfl⟩

theorem frames_heed (s : SaverTask) : Frames s s.heed := by
  have heeded := s.heed_heeded
  generalize s.heed = t at heeded
  cases heeded with
  | passed | free => exact ⟨rfl, rfl⟩
  | ended =>
    obtain ⟨phase, moved⟩ := s.saver.stop_frame
    rw [stop, moved]
    exact ⟨rfl, rfl⟩

theorem frames_take (s : SaverTask) (result : Except Error Unit) : Frames s (s.take result) := by
  obtain ⟨looks, rounds, round, -, taken⟩ := s.take_eq result
  obtain ⟨phase, moved⟩ := s.saver.attempt_frame result
  rw [taken, moved]
  exact ⟨rfl, rfl⟩

theorem frames_look (s : SaverTask) (seen : Bool) : Frames s (s.look seen) := by
  have looked := s.look_looked seen
  generalize s.look seen = t at looked
  cases looked with
  | overlooked | fired | launched => exact ⟨rfl, rfl⟩
  | @heard _ _ _ _ result => exact s.frames_take result

theorem cancelled_run {events : List Event} (unordered : .cancel ∉ events) :
    (s.run events).saver.cancelled = s.saver.cancelled := by
  induction events generalizing s with
  | nil => rfl
  | cons e events ih =>
    obtain ⟨other, rest⟩ := not_or.mp (mt List.mem_cons.mpr unordered)
    refine (ih rest).trans ?_
    cases e with
    | call | elapse | work => rfl
    | cancel => exact absurd rfl other
    | pass => exact s.frames_pass.cancelled
    | heed => exact s.frames_heed.cancelled
    | look seen => exact (s.frames_look seen).cancelled

/-- What is made of the result of a first attempt is what the saver makes of it when it waits for
the tick. -/
theorem attempt_fire {due : Nat} (waits : s.saver.phase = .waiting due) :
    (s.fire due).saver.attempt = s.saver.attempt := by
  funext result
  rw [Saver.attempt, Saver.attempt, waits]
  cases result with
  | ok _ => rfl
  | error e =>
    show (Saver.afterAttempt _ _ _ _ _) = Saver.afterAttempt _ _ _ _ _
    unfold Saver.afterAttempt
    rfl

/-- What becomes of the result of an attempt: the tick goes on with another attempt, or it is done
with. -/
theorem take_cases {wake k due : Nat} {b : Backoff} (phase : s.saver.phase = .retrying wake k b due)
    (result : Except Error Unit) : ∃ logs,
      (∃ e delay rest, result = .error e ∧ b.remaining = rest.remaining + 1 ∧
        s.take result = { s with
          saver := { s.saver with
            phase := .retrying (s.saver.now + Duration.nanos delay) (k + 1) rest due }
          saving := { s.saving with job := .idle }
          logs := logs
          fresh := false
          prompt := if s.fresh then s.prompt + 1 else s.prompt
          round := s.round ++ [result] }) ∨
      ((result = .ok () ∨ ∃ e, result = .error e ∧ b.remaining = 0) ∧
        s.take result = { s with
          saver := { s.saver with phase := .waiting due }
          saving := { s.saving with job := .idle }
          logs := logs
          fresh := false
          looks := ⟨true, true⟩
          prompt := if s.fresh then s.prompt + 1 else s.prompt
          rounds := s.rounds ++ [s.round ++ [result]]
          round := [] }) := by
  have attempted : s.saver.attempt result = s.saver.afterAttempt k b due result := by
    rw [Saver.attempt, phase]
  refine ⟨s.logs ++ (s.saver.attempt result).2, ?_⟩
  cases result with
  | ok _ =>
    right
    refine ⟨.inl rfl, ?_⟩
    rw [take, attempted]
    rfl
  | error e =>
    rcases b.step?_cases with ⟨used, zero⟩ | ⟨delay, rest, left, more⟩
    · right
      have settled : s.saver.afterAttempt k b due (.error e) =
          ({ s.saver with phase := .waiting due },
            [⟨.error, "Snapshot save failed", [("error", e.message)]⟩]) := by
        rw [Saver.afterAttempt, used]
      refine ⟨.inr ⟨e, rfl, zero⟩, ?_⟩
      rw [take, attempted, settled]
    · left
      have resumed : (s.saver.afterAttempt k b due (.error e)).1 = { s.saver with
          phase := .retrying (s.saver.now + delay.nanos) (k + 1) rest due } := by
        rw [Saver.afterAttempt, left]
      refine ⟨e, delay, rest, rfl, more, ?_⟩
      rw [take, attempted, resumed]

end SaverTask

end Server

end Telemetry
