import Telemetry.Proofs.Server.SaverServing
/-!
When a task that saves at intervals makes its attempts. None comes before one interval is over,
every tick is tried until it is done with, and nothing that an attempt results in ends the task.
-/

namespace Telemetry.Server

open Storage

namespace SaverTask

variable {s t : SaverTask} {interval : Nat} {backoff : Backoff}

/-! ### The ticks and their attempts -/

def Failing (results : List (Except Error Unit)) : Prop := ∀ r ∈ results, ∃ e, r = .error e

/-- The results of a tick that is done with: attempts that failed until one succeeded, or as many as
there can be. -/
inductive Complete (retries : Nat) : List (Except Error Unit) → Prop
  | success {front : List (Except Error Unit)} (failing : Failing front)
      (within : front.length ≤ retries) : Complete retries (front ++ [.ok ()])
  | exhausted {results : List (Except Error Unit)} (failing : Failing results)
      (all : results.length = retries + 1) : Complete retries results

/-- One interval after the beginning of the task, or later. -/
def Reached (interval : Nat) (s : SaverTask) (time : Nat) : Prop :=
  ∃ began, s.begun = some began ∧ began + interval ≤ time

structure Quiet (s : SaverTask) : Prop where
  idle : s.saving.job = .idle
  round : s.round = []
  ticks : s.ticks = s.rounds.length

/-- What is under way in each phase. -/
inductive Fits (interval : Nat) (backoff : Backoff) (s : SaverTask) : Prop
  | unstarted (phase : s.saver.phase = .unstarted) (begun : s.begun = none) (quiet : Quiet s)
  | waiting {due : Nat} (phase : s.saver.phase = .waiting due) (reached : Reached interval s due)
      (quiet : Quiet s)
  | retrying {wake due : Nat} {b : Backoff}
      (phase : s.saver.phase = .retrying wake (s.round.length + 1) b due)
      (now : Reached interval s s.saver.now) (reached : Reached interval s due)
      (left : b.remaining + s.round.length = backoff.remaining)
      (ticks : s.ticks = s.rounds.length + 1)
  | stopped (phase : s.saver.phase = .stopped) (cancelled : s.saver.cancelled = true)
      (ticks : Quiet s ∨ s.ticks = s.rounds.length + 1)

/-- What holds of the task and its attempts after every step. -/
structure Schedule (interval : Nat) (backoff : Backoff) (s : SaverTask) : Prop where
  pace : s.saver.interval = interval
  delays : s.saver.backoff = backoff
  fits : Fits interval backoff s
  starts : ∀ time ∈ s.starts, Reached interval s time
  rounds : ∀ round ∈ s.rounds, Complete backoff.remaining round
  failing : Failing s.round
  short : s.round.length ≤ backoff.remaining
  attempts : s.starts.length =
    s.rounds.flatten.length + s.round.length + s.saving.job.pending
  watched : s.saving.job = .idle → s.fresh = false
  asleep : s.saver.phase = .unstarted → s.looks = ⟨false, false⟩

theorem Reached.later {time later : Nat} (h : Reached interval s time) (le : time ≤ later) :
    Reached interval s later := by
  obtain ⟨began, hb, bound⟩ := h
  exact ⟨began, hb, Nat.le_trans bound le⟩

theorem Failing.snoc {results : List (Except Error Unit)} {result : Except Error Unit}
    (h : Failing results) (failed : ∃ e, result = .error e) : Failing (results ++ [result]) := by
  intro r hr
  rcases List.mem_append.mp hr with old | new
  · exact h r old
  · rw [List.mem_singleton.mp new]
    exact failed

theorem start_schedule (content : Snapshot) (path : Option String) (mode : Duration)
    (files : FileTree) (interval : Nat) (backoff : Backoff) :
    Schedule interval backoff (start content path mode files interval backoff) where
  pace := rfl
  delays := rfl
  fits := .unstarted rfl rfl ⟨rfl, rfl, rfl⟩
  starts _ h := nomatch h
  rounds _ h := nomatch h
  failing _ h := nomatch h
  short := Nat.zero_le _
  attempts := rfl
  watched _ := rfl
  asleep _ := rfl

theorem Fits.of_unstarted (h : Fits interval backoff s) (phase : s.saver.phase = .unstarted) :
    s.begun = none ∧ Quiet s := by
  cases h with
  | unstarted _ begun quiet => exact ⟨begun, quiet⟩
  | waiting other | retrying other | stopped other => simp [phase] at other

theorem Fits.of_waiting {due : Nat} (h : Fits interval backoff s)
    (phase : s.saver.phase = .waiting due) : Reached interval s due ∧ Quiet s := by
  cases h with
  | @waiting due' same reached quiet =>
    obtain rfl : due = due' := Phase.waiting.inj (phase.symm.trans same)
    exact ⟨reached, quiet⟩
  | unstarted other | retrying other | stopped other => simp [phase] at other

theorem Fits.of_retrying {wake k due : Nat} {b : Backoff} (h : Fits interval backoff s)
    (phase : s.saver.phase = .retrying wake k b due) : k = s.round.length + 1 ∧
      Reached interval s s.saver.now ∧ Reached interval s due ∧
      b.remaining + s.round.length = backoff.remaining ∧ s.ticks = s.rounds.length + 1 := by
  cases h with
  | retrying same now reached left ticks =>
    obtain ⟨-, rfl, rfl, rfl⟩ := Phase.retrying.inj (phase.symm.trans same)
    exact ⟨rfl, now, reached, left, ticks⟩
  | unstarted other | waiting other | stopped other => simp [phase] at other

theorem Fits.of_stopped (h : Fits interval backoff s) (phase : s.saver.phase = .stopped) :
    s.saver.cancelled = true := by
  cases h with
  | stopped _ cancelled => exact cancelled
  | unstarted other | waiting other | retrying other => simp [phase] at other

theorem Fits.not_panicked (h : Fits interval backoff s) : s.saver.phase ≠ .panicked := by
  cases h with
  | unstarted phase | waiting phase | retrying phase | stopped phase => simp [phase]

/-- What changes neither the phase nor what is under way is nothing to the task. -/
theorem Schedule.frame (h : Schedule interval backoff s) {saver : Saver} {saving : Saving}
    {looks : Looks} {fresh : Bool}
    (pace : saver.interval = s.saver.interval) (delays : saver.backoff = s.saver.backoff)
    (phase : saver.phase = s.saver.phase) (later : s.saver.now ≤ saver.now)
    (cancelled : s.saver.cancelled = true → saver.cancelled = true)
    (same : saving.job.pending = s.saving.job.pending) (older : s.fresh = false → fresh = false)
    (asleep : s.saver.phase = .unstarted → looks = ⟨false, false⟩) :
    Schedule interval backoff
      { s with saver := saver, saving := saving, looks := looks, fresh := fresh } := by
  have idle (still : saving.job = .idle) : s.saving.job = .idle :=
    Job.pending_eq_zero.mp (same.symm.trans (Job.pending_eq_zero.mpr still))
  have quiet (q : Quiet s) :
      Quiet { s with saver := saver, saving := saving, looks := looks, fresh := fresh } :=
    ⟨Job.pending_eq_zero.mp (same.trans (Job.pending_eq_zero.mpr q.idle)), q.round, q.ticks⟩
  refine ⟨pace.trans h.pace, delays.trans h.delays, ?_, h.starts, h.rounds, h.failing, h.short, ?_,
    fun still => older (h.watched (idle still)), fun unstarted => asleep (phase.symm.trans unstarted)⟩
  · cases h.fits with
    | unstarted at' begun q => exact .unstarted (phase.trans at') begun (quiet q)
    | waiting at' reached q => exact .waiting (phase.trans at') reached (quiet q)
    | retrying at' now reached left ticks =>
      exact .retrying (phase.trans at') (now.later later) reached left ticks
    | stopped at' told ticks =>
      exact .stopped (phase.trans at') (cancelled told) (ticks.imp_left quiet)
  · rw [same]
    exact h.attempts

theorem Schedule.begin (h : Schedule interval backoff s) (positive : 0 < interval) :
    Schedule interval backoff s.begin := by
  by_cases started : s.saver.phase = .unstarted
  · obtain ⟨begun, quiet⟩ := h.fits.of_unstarted started
    have unreached (time : Nat) : ¬Reached interval s time := by
      rintro ⟨began, hb, -⟩
      rw [begun] at hb
      cases hb
    rw [begin_unstarted started (by rw [h.pace]; exact Nat.ne_of_gt positive), h.pace]
    refine ⟨h.pace, h.delays, ?_, fun time ht => absurd (h.starts time ht) (unreached time),
      h.rounds, h.failing, h.short, h.attempts, h.watched, fun waits => nomatch waits⟩
    exact .waiting rfl ⟨s.saver.now, rfl, Nat.le_refl _⟩ ⟨quiet.idle, quiet.round, quiet.ticks⟩
  · rw [begin_of_started started]
    exact h

theorem le_nextDue (saver : Saver) (due : Nat) (come : due ≤ saver.now) :
    due ≤ saver.nextDue due := by
  rw [Saver.nextDue]
  by_cases timely : saver.now ≤ due + Saver.tolerance
  · rw [if_pos timely]
    exact Nat.le_add_right due _
  · rw [if_neg timely]
    exact Nat.le_trans come (Nat.le_add_right saver.now _)

theorem started_begin (s : SaverTask) : s.begin.saver.phase ≠ .unstarted := by
  show s.saver.begin.1.phase ≠ .unstarted
  unfold Saver.begin
  split
  · split
    · exact Phase.noConfusion
    · exact Phase.noConfusion
  · assumption

theorem Schedule.pass (h : Schedule interval backoff s) (positive : 0 < interval) :
    Schedule interval backoff s.pass := by
  obtain ⟨still, -⟩ | ⟨-, begun⟩ := s.pass_cases
  · rw [still]
    exact h
  · rw [begun]
    exact (h.begin positive).frame rfl rfl rfl (Nat.le_refl _) id rfl id
      fun unstarted => absurd unstarted s.started_begin

theorem Schedule.fire {due : Nat} (h : Schedule interval backoff s)
    (phase : s.saver.phase = .waiting due) (come : due ≤ s.saver.now) :
    Schedule interval backoff (s.fire due) := by
  obtain ⟨reached, quiet⟩ := h.fits.of_waiting phase
  refine ⟨h.pace, h.delays, ?_, h.starts, h.rounds, h.failing, h.short, h.attempts, h.watched,
    fun retries => nomatch retries⟩
  apply Fits.retrying
  case phase =>
    show Phase.retrying _ 1 _ _ = .retrying _ (s.round.length + 1) _ _
    rw [quiet.round]
    rfl
  case now => exact reached.later come
  case reached => exact reached.later (le_nextDue s.saver due come)
  case left =>
    show s.saver.backoff.remaining + s.round.length = _
    rw [quiet.round, h.delays]
    rfl
  case ticks => exact congrArg (· + 1) quiet.ticks

theorem Schedule.handOver {wake k due : Nat} {b : Backoff} (h : Schedule interval backoff s)
    (phase : s.saver.phase = .retrying wake k b due) (idle : s.saving.job = .idle) :
    Schedule interval backoff s.handOver := by
  obtain ⟨rfl, now, reached, left, ticks⟩ := h.fits.of_retrying phase
  refine ⟨h.pace, h.delays, .retrying phase now reached left ticks, fun time ht => ?_, h.rounds,
    h.failing, h.short, ?_, (nomatch ·),
    fun unstarted => nomatch phase.symm.trans unstarted⟩
  · rcases List.mem_append.mp ht with old | new
    · exact h.starts time old
    · rw [List.mem_singleton.mp new]
      exact now
  · have before := h.attempts
    rw [idle] at before
    rw [SaverTask.handOver, List.length_append, before]
    rfl

theorem Fits.ticks_of_waits {wake : Nat} (h : Fits interval backoff s)
    (waits : s.saver.wakeTime? = some wake) : Quiet s ∨ s.ticks = s.rounds.length + 1 := by
  cases h with
  | waiting _ _ quiet => exact .inl quiet
  | retrying _ _ _ _ ticks => exact .inr ticks
  | unstarted phase | stopped phase => simp [Saver.wakeTime?, phase] at waits

theorem Schedule.stop (h : Schedule interval backoff s) (cancelled : s.saver.cancelled = true) :
    Schedule interval backoff s.stop := by
  cases waits : s.saver.wakeTime? with
  | none =>
    rw [stop_of_waitless waits]
    exact h.frame rfl rfl rfl (Nat.le_refl _) id rfl id fun _ => rfl
  | some wake =>
    rw [stop_of_waits cancelled waits]
    refine ⟨h.pace, h.delays, .stopped rfl cancelled ?_, h.starts, h.rounds, h.failing, h.short,
      h.attempts, h.watched, fun stopped => nomatch stopped⟩
    exact (h.fits.ticks_of_waits waits).imp_left fun quiet =>
      ⟨quiet.idle, quiet.round, quiet.ticks⟩

theorem Schedule.heed (h : Schedule interval backoff s) : Schedule interval backoff s.heed := by
  have heeded := s.heed_heeded
  generalize s.heed = t at heeded
  cases heeded with
  | passed before => exact h
  | free uncancelled =>
    refine h.frame rfl rfl rfl (Nat.le_refl _) id rfl id fun unstarted => ?_
    rw [h.asleep unstarted]
  | ended left cancelled => exact h.stop cancelled

theorem complete_snoc {retries left : Nat} {results : List (Except Error Unit)}
    {result : Except Error Unit} (failing : Failing results)
    (count : left + results.length = retries)
    (last : result = .ok () ∨ ∃ e, result = .error e ∧ left = 0) :
    Complete retries (results ++ [result]) := by
  rcases last with rfl | ⟨e, rfl, rfl⟩
  · exact .success failing (by omega)
  · apply Complete.exhausted (failing.snoc ⟨e, rfl⟩)
    rw [List.length_append, List.length_singleton]
    omega

theorem Schedule.take {wake k due : Nat} {b : Backoff} {result : Except Error Unit}
    (h : Schedule interval backoff s) (phase : s.saver.phase = .retrying wake k b due)
    (done : s.saving.job = .finished result) : Schedule interval backoff (s.take result) := by
  obtain ⟨rfl, now, reached, left, ticks⟩ := h.fits.of_retrying phase
  have attempts := h.attempts
  rw [done] at attempts
  have longer : (s.round ++ [result]).length = s.round.length + 1 := by
    rw [List.length_append, List.length_singleton]
  obtain ⟨logs, ⟨e, delay, rest, failed, less, taken⟩ | ⟨last, taken⟩⟩ := take_cases phase result
  · rw [taken]
    refine ⟨h.pace, h.delays, ?_, h.starts, h.rounds, h.failing.snoc ⟨e, failed⟩, ?_, ?_,
      fun _ => rfl, fun retries => nomatch retries⟩
    · apply Fits.retrying
      case phase =>
        show Phase.retrying _ (s.round.length + 1 + 1) _ _ = .retrying _ (_ + 1) _ _
        rw [longer]
      case now => exact now
      case reached => exact reached
      case left =>
        show rest.remaining + (s.round ++ [result]).length = _
        omega
      case ticks => exact ticks
    · show (s.round ++ [result]).length ≤ _
      omega
    · show s.starts.length = s.rounds.flatten.length + (s.round ++ [result]).length + 0
      rw [attempts, longer]
      rfl
  · rw [taken]
    refine ⟨h.pace, h.delays, .waiting rfl reached ⟨rfl, rfl, ?_⟩, h.starts, ?_, ?_, ?_, ?_,
      fun _ => rfl, fun waits => nomatch waits⟩
    · show s.ticks = (s.rounds ++ [s.round ++ [result]]).length
      rw [ticks, List.length_append, List.length_singleton]
    · intro round hr
      rcases List.mem_append.mp hr with old | new
      · exact h.rounds round old
      · rw [List.mem_singleton.mp new]
        exact complete_snoc h.failing left last
    · exact fun r hr => nomatch hr
    · exact Nat.zero_le _
    · show s.starts.length = (s.rounds ++ [s.round ++ [result]]).flatten.length + 0 + 0
      rw [attempts, List.flatten_append, List.length_append, List.flatten_singleton, longer]
      rfl

theorem Schedule.look (h : Schedule interval backoff s) (seen : Bool) :
    Schedule interval backoff (s.look seen) := by
  have looked := s.look_looked seen
  generalize s.look seen = t at looked
  cases looked with
  | overlooked =>
    refine h.frame rfl rfl rfl (Nat.le_refl _) id rfl (fun _ => rfl) fun unstarted => ?_
    rw [h.asleep unstarted]
  | fired left phase come => exact h.fire phase come
  | launched left phase idle come => exact h.handOver phase idle
  | heard left phase done => exact h.take phase done

theorem step_preserves_schedule (h : Schedule interval backoff s) (positive : 0 < interval)
    (e : Event) : Schedule interval backoff (s.next e) := by
  cases e with
  | call c => exact h.frame rfl rfl rfl (Nat.le_refl _) id rfl id h.asleep
  | elapse span => exact h.frame rfl rfl rfl (Nat.le_add_right _ span) id rfl id h.asleep
  | cancel => exact h.frame rfl rfl rfl (Nat.le_refl _) (fun _ => rfl) rfl id h.asleep
  | work fault written =>
    obtain ⟨job, files, saves, worked, same, -⟩ := s.saving.work_frame fault written
    exact h.frame rfl rfl rfl (Nat.le_refl _) id
      ((congrArg (·.job.pending) worked).trans same) id h.asleep
  | pass => exact h.pass positive
  | heed => exact h.heed
  | look seen => exact h.look seen

theorem run_preserves_schedule (h : Schedule interval backoff s) (positive : 0 < interval)
    (events : List Event) : Schedule interval backoff (s.run events) :=
  run_preserves (P := Schedule interval backoff) (fun _ e h => step_preserves_schedule h positive e)
    h events

/-! ### Going on -/

/-- How much of a tick has been seen. -/
def credit (s : SaverTask) : Nat :=
  match s.saver.phase with
  | .unstarted => 0
  | _ => s.round.length + 1

def Advances (s t : SaverTask) : Prop :=
  s.rounds.length < t.rounds.length ∨ t.rounds = s.rounds ∧ t.credit = s.credit + 1

theorem credit_of_started (started : s.saver.phase ≠ .unstarted) :
    s.credit = s.round.length + 1 := by
  unfold credit
  split
  · contradiction
  · rfl

theorem take_advances {wake k due : Nat} {b : Backoff} (started : s.saver.phase ≠ .unstarted)
    (waits : t.saver.phase = .retrying wake k b due) (rounds : t.rounds = s.rounds)
    (round : t.round = s.round) (result : Except Error Unit) : Advances s (t.take result) := by
  obtain ⟨logs, ⟨e, delay, rest, -, -, taken⟩ | ⟨-, taken⟩⟩ := take_cases waits result
  · right
    rw [taken]
    refine ⟨rounds, ?_⟩
    rw [credit_of_started started, ← round]
    exact congrArg (· + 1) List.length_append
  · left
    rw [taken, ← rounds]
    simp

theorem serve_due_advances {wake : Nat} (free : s.saver.cancelled = false)
    (idle : s.saving.job = .idle) (wakes : s.saver.wakeTime? = some wake)
    (fault : Option AtomicWrite.Step) (written : Nat) : Advances s (s.serve fault written) := by
  obtain ⟨saver, ticks, starts, saving, looks, fresh, result, served, -, ⟨w, k, b, d, waits⟩, -⟩ :=
    serve_due free idle wakes fault written
  have started : s.saver.phase ≠ .unstarted := by
    intro phase
    rw [Saver.wakeTime?, phase] at wakes
    cases wakes
  rw [served]
  apply take_advances started
  case waits => exact waits
  case rounds => rfl
  case round => rfl

theorem serve_unstarted_advances (h : Schedule interval backoff s) (positive : 0 < interval)
    (free : s.saver.cancelled = false) (phase : s.saver.phase = .unstarted)
    (fault : Option AtomicWrite.Step) (written : Nat) : Advances s (s.serve fault written) := by
  have quiet := (h.fits.of_unstarted phase).2
  have lasts : 0 < s.saver.interval := by
    rw [h.pace]
    exact positive
  obtain ⟨looks, served⟩ := serve_unstarted free phase lasts quiet.idle fault written
  have begins := begin_unstarted (s := s.next (.elapse s.wait)) phase (Nat.ne_of_gt lasts)
  have none_seen : s.credit = 0 := by rw [credit, phase]
  right
  rw [served, begins, none_seen]
  refine ⟨rfl, ?_⟩
  show s.round.length + 1 = 0 + 1
  rw [quiet.round]
  rfl

theorem serve_advances (h : Schedule interval backoff s) (positive : 0 < interval)
    (free : s.saver.cancelled = false) (fault : Option AtomicWrite.Step) (written : Nat) :
    Advances s (s.serve fault written) := by
  cases h.fits with
  | stopped _ cancelled =>
    rw [free] at cancelled
    cases cancelled
  | unstarted phase => exact serve_unstarted_advances h positive free phase fault written
  | waiting phase reached quiet =>
    exact serve_due_advances free quiet.idle (by rw [Saver.wakeTime?, phase]) fault written
  | retrying phase =>
    by_cases idle : s.saving.job = .idle
    · exact serve_due_advances free idle (by rw [Saver.wakeTime?, phase]) fault written
    · obtain ⟨saving, looks, fresh, result, served⟩ :=
        serve_busy free phase (Job.pending_eq_one.mpr idle) fault written
      rw [served]
      apply take_advances (by simp [phase])
      case waits => exact phase
      case rounds => rfl
      case round => rfl

/-- Writes that come one after the other, each at the time when the task makes it. -/
def serves (s : SaverTask) (writes : List (Option AtomicWrite.Step × Nat)) : SaverTask :=
  writes.foldl (fun s w => s.serve w.1 w.2) s

theorem serves_advances (h : Schedule interval backoff s) (positive : 0 < interval)
    (free : s.saver.cancelled = false) (writes : List (Option AtomicWrite.Step × Nat)) :
    Schedule interval backoff (s.serves writes) ∧
      (s.rounds.length < (s.serves writes).rounds.length ∨
        (s.serves writes).rounds = s.rounds ∧
          (s.serves writes).credit = s.credit + writes.length) := by
  induction writes generalizing s with
  | nil => exact ⟨h, .inr ⟨rfl, rfl⟩⟩
  | cons w writes ih =>
    have first := serve_advances h positive free w.1 w.2
    obtain ⟨schedule, rest⟩ := ih (s := s.serve w.1 w.2) (run_preserves_schedule h positive _)
      ((cancelled_run (unordered_service s w.1 w.2)).trans free)
    refine ⟨schedule, ?_⟩
    show _ < ((s.serve w.1 w.2).serves writes).rounds.length ∨
      ((s.serve w.1 w.2).serves writes).rounds = _ ∧ ((s.serve w.1 w.2).serves writes).credit = _
    rcases first with more | ⟨same, credit⟩
    · left
      rcases rest with more' | ⟨same', -⟩
      · exact Nat.lt_trans more more'
      · rw [same']
        exact more
    · rw [same, credit] at rest
      refine rest.imp_right fun ⟨same', credit'⟩ => ⟨same', ?_⟩
      rw [credit', List.length_cons]
      omega

/-- A tick is done with after as many attempts as it can have, wherever the task was before. -/
theorem serves_complete (h : Schedule interval backoff s) (positive : 0 < interval)
    (free : s.saver.cancelled = false) {writes : List (Option AtomicWrite.Step × Nat)}
    (enough : writes.length = backoff.remaining + 2) :
    s.rounds.length < (s.serves writes).rounds.length := by
  obtain ⟨schedule, more | ⟨-, credit⟩⟩ := serves_advances h positive free writes
  · exact more
  · have bound : (s.serves writes).credit ≤ backoff.remaining + 1 := by
      unfold SaverTask.credit
      split
      · exact Nat.zero_le _
      · exact Nat.succ_le_succ schedule.short
    omega

end SaverTask

end Telemetry.Server
