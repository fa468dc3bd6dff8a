import Telemetry.Proofs.Server.SaverSchedule
/-!
What the order to stop does to a task that saves at intervals. The task stops at the next look at the
order, which it takes in every pass before it rests. How many attempts it can still begin depends on
what it has looked at when the order comes, and on the saves that are done before it looks at them.
-/

namespace Telemetry.Server

open Storage

theorem Looks.eq_rest {looks : Looks} (order : looks.order = false) (work : looks.work = false) :
    looks = ⟨false, false⟩ := by
  cases looks
  subst order work
  rfl

/-- How many looks at its work a task takes that waits for the save, when nothing else happens. -/
def Job.toDo : Job → Nat
  | idle => 2
  | finished _ => 4
  | _ => 1

theorem Job.toDo_le (job : Job) : job.toDo ≤ 4 := by
  cases job with
  | finished => exact Nat.le_refl 4
  | idle => exact Nat.le_add_left 2 2
  | _ => exact Nat.le_add_left 1 3

/-- How many attempts can begin before the task looks at an order that has been given, but for those
that follow an attempt found done at once: one in this pass while its work is still to be looked at,
and one in the next pass unless the order is still to be looked at in this one. -/
def Looks.allowance (looks : Looks) (fresh : Bool) : Nat :=
  (!looks.order).toNat + (looks.work && !fresh).toNat

namespace SaverTask

variable {s t : SaverTask} {interval : Nat} {backoff : Backoff}

/-! ### A task that has stopped -/

theorem pass_stopped (stopped : s.saver.phase = .stopped) : ∃ looks,
    s.pass = { s with looks := looks } := by
  obtain ⟨still, -⟩ | ⟨-, begun⟩ := s.pass_cases
  · exact ⟨s.looks, still⟩
  · rw [begun, begin_of_started (by rw [stopped]; exact Phase.noConfusion)]
    exact ⟨⟨true, true⟩, rfl⟩

theorem heed_stopped (stopped : s.saver.phase = .stopped) : ∃ looks,
    s.heed = { s with looks := looks } := by
  have heeded := s.heed_heeded
  generalize s.heed = t at heeded
  cases heeded with
  | passed before => exact ⟨s.looks, rfl⟩
  | free uncancelled => exact ⟨_, rfl⟩
  | ended left cancelled => exact ⟨_, stop_of_waitless (by rw [Saver.wakeTime?, stopped])⟩

theorem look_stopped (stopped : s.saver.phase = .stopped) (seen : Bool) :
    s.look seen = s.overlook := by
  have looked := s.look_looked seen
  generalize s.look seen = t at looked
  cases looked with
  | overlooked => rfl
  | fired left phase | launched left phase | heard left phase => simp [stopped] at phase

theorem step_stopped (stopped : s.saver.phase = .stopped) (e : Event) :
    (s.next e).saver.phase = .stopped ∧ (s.next e).starts = s.starts := by
  cases e with
  | call | elapse | work | cancel => exact ⟨stopped, rfl⟩
  | pass =>
    obtain ⟨looks, passed⟩ := pass_stopped stopped
    rw [next, passed]
    exact ⟨stopped, rfl⟩
  | heed =>
    obtain ⟨looks, heeded⟩ := heed_stopped stopped
    rw [next, heeded]
    exact ⟨stopped, rfl⟩
  | look seen =>
    rw [next, look_stopped stopped]
    exact ⟨stopped, rfl⟩

theorem run_stopped (stopped : s.saver.phase = .stopped) (events : List Event) :
    (s.run events).saver.phase = .stopped ∧ (s.run events).starts = s.starts := by
  apply run_preserves (P := fun t => t.saver.phase = .stopped ∧ t.starts = s.starts)
  · intro t e h
    obtain ⟨phase, starts⟩ := step_stopped h.1 e
    exact ⟨phase, starts.trans h.2⟩
  · exact ⟨stopped, rfl⟩

/-! ### How many attempts can still begin -/

def allowance (s : SaverTask) : Nat :=
  if s.saver.phase = .stopped then 0 else s.looks.allowance s.fresh

theorem allowance_of_stopped (stopped : s.saver.phase = .stopped) : s.allowance = 0 :=
  if_pos stopped

theorem allowance_le_looks (s : SaverTask) : s.allowance ≤ s.looks.allowance s.fresh := by
  rw [allowance]
  by_cases stopped : s.saver.phase = .stopped
  · rw [if_pos stopped]
    exact Nat.zero_le _
  · rw [if_neg stopped]

/-- Only a task that has looked at the order and not yet at its work can begin two. -/
theorem allowance_le (s : SaverTask) :
    s.allowance ≤ if s.looks = ⟨false, true⟩ ∧ s.fresh = false then 2 else 1 := by
  have bound (looks : Looks) (fresh : Bool) :
      looks.allowance fresh ≤ if looks = ⟨false, true⟩ ∧ fresh = false then 2 else 1 := by
    obtain ⟨order, work⟩ := looks
    revert order work fresh
    decide
  exact s.allowance_le_looks.trans (bound s.looks s.fresh)

theorem allowance_of_going (going : s.saver.phase ≠ .stopped) :
    s.allowance = s.looks.allowance s.fresh :=
  if_neg going

theorem stopped_stop (h : Schedule interval backoff s) (cancelled : s.saver.cancelled = true)
    (started : s.saver.phase ≠ .unstarted) : s.stop.saver.phase = .stopped := by
  have waits (wake : Nat) (waits : s.saver.wakeTime? = some wake) :
      s.stop.saver.phase = .stopped := by
    rw [stop_of_waits cancelled waits]
  cases h.fits with
  | unstarted phase => exact absurd phase started
  | @waiting due phase => exact waits due (by rw [Saver.wakeTime?, phase])
  | @retrying wake _ _ phase => exact waits wake (by rw [Saver.wakeTime?, phase])
  | stopped phase =>
    rw [stop_of_waitless (by rw [Saver.wakeTime?, phase])]
    exact phase

theorem Schedule.started_of_order (h : Schedule interval backoff s) (left : s.looks.order = true) :
    s.saver.phase ≠ .unstarted := by
  intro unstarted
  rw [h.asleep unstarted] at left
  cases left

/-- A task that was told to stop in the state `s` and is in the state `t`: attempts that begin use up
what is allowed, and one that is found done at once allows another. -/
structure Ending (s t : SaverTask) : Prop where
  cancelled : t.saver.cancelled = true
  bounded : t.starts.length + t.allowance + s.prompt ≤ s.starts.length + s.allowance + t.prompt

theorem ending_cancel (s : SaverTask) : Ending s (s.next .cancel) := ⟨rfl, Nat.le_refl _⟩

theorem Ending.less {u : SaverTask} (h : Ending s t) (frames : Frames t u)
    (starts : u.starts = t.starts) (prompt : u.prompt = t.prompt)
    (less : u.allowance ≤ t.allowance) : Ending s u := by
  refine ⟨frames.cancelled.trans h.cancelled, ?_⟩
  have bounded := h.bounded
  rw [starts, prompt]
  omega

theorem Ending.pass (h : Ending s t) : Ending s t.pass := by
  obtain ⟨still, -⟩ | ⟨rests, begun⟩ := t.pass_cases
  · rw [still]
    exact h
  refine h.less t.frames_pass (by rw [begun]; rfl) (by rw [begun]; rfl) ?_
  by_cases stopped : t.saver.phase = .stopped
  · obtain ⟨looks, same⟩ := pass_stopped stopped
    rw [same, allowance_of_stopped (by exact stopped)]
    exact Nat.zero_le _
  · -- Whatever the task looks at first, it looks at the order in this pass.
    rw [allowance_of_going stopped, rests, begun]
    exact allowance_le _

theorem Ending.heed (schedule : Schedule interval backoff t) (h : Ending s t) :
    Ending s t.heed := by
  have frames := t.frames_heed
  have heeded := t.heed_heeded
  generalize t.heed = u at frames heeded
  cases heeded with
  | passed before => exact h
  | free uncancelled =>
    rw [h.cancelled] at uncancelled
    cases uncancelled
  | ended left cancelled =>
    have stopped := stopped_stop schedule cancelled (schedule.started_of_order left)
    refine h.less frames rfl rfl ?_
    rw [allowance_of_stopped stopped]
    exact Nat.zero_le _

theorem allowance_overlook (s : SaverTask) : s.overlook.allowance ≤ s.allowance := by
  by_cases stopped : s.saver.phase = .stopped
  · rw [allowance_of_stopped (s := s.overlook) stopped]
    exact Nat.zero_le _
  · rw [allowance_of_going (s := s.overlook) stopped, allowance_of_going stopped]
    exact Nat.le_add_right _ _

theorem Ending.fire {due : Nat} (schedule : Schedule interval backoff t) (h : Ending s t)
    (left : t.looks.work = true) (phase : t.saver.phase = .waiting due) : Ending s (t.fire due) := by
  refine h.less ⟨rfl, rfl⟩ rfl rfl ?_
  have one : (t.fire due).allowance ≤ 1 := allowance_le _
  have stale := schedule.watched (schedule.fits.of_waiting phase).2.idle
  rw [allowance_of_going (s := t) (by simp [phase]), Looks.allowance, left, stale]
  exact one.trans (Nat.le_add_left 1 _)

variable {wake k due : Nat} {b : Backoff}

theorem Ending.handOver (schedule : Schedule interval backoff t) (h : Ending s t)
    (left : t.looks.work = true) (phase : t.saver.phase = .retrying wake k b due)
    (idle : t.saving.job = .idle) : Ending s t.handOver := by
  have going : t.saver.phase ≠ .stopped := by simp [phase]
  have used : t.looks.allowance t.fresh = t.looks.allowance true + 1 := by
    simp [Looks.allowance, left, schedule.watched idle]
  have bounded := h.bounded
  rw [allowance_of_going going, used] at bounded
  refine ⟨h.cancelled, ?_⟩
  rw [allowance_of_going (s := t.handOver) going]
  show (t.starts ++ [t.saver.now]).length + t.looks.allowance true + s.prompt ≤ _ + t.prompt
  rw [List.length_append, List.length_singleton]
  omega

/-- An attempt that is found done at once allows another. -/
theorem Ending.take (h : Ending s t) (left : t.looks.work = true)
    (phase : t.saver.phase = .retrying wake k b due) (result : Except Error Unit) :
    Ending s (t.take result) := by
  have renewed : t.looks.allowance false = t.looks.allowance t.fresh + t.fresh.toNat := by
    cases t.fresh <;> simp [Looks.allowance, left]
  have promptly : (if t.fresh then t.prompt + 1 else t.prompt) = t.prompt + t.fresh.toNat := by
    cases t.fresh <;> rfl
  obtain ⟨looks, rounds, round, looked, taken⟩ := t.take_eq result
  have less : looks.allowance false ≤ t.looks.allowance false := by
    rcases looked with rfl | rfl
    · exact Nat.le_refl _
    · simp [Looks.allowance, left]
  have fewer := (t.take result).allowance_le_looks
  have bounded := h.bounded
  refine ⟨(t.frames_take result).cancelled.trans h.cancelled, ?_⟩
  rw [allowance_of_going (s := t) (by simp [phase])] at bounded
  rw [taken] at fewer ⊢
  dsimp only at fewer ⊢
  omega

theorem Ending.look (schedule : Schedule interval backoff t) (h : Ending s t) (seen : Bool) :
    Ending s (t.look seen) := by
  have looked := t.look_looked seen
  generalize t.look seen = u at looked
  cases looked with
  | overlooked => exact h.less ⟨rfl, rfl⟩ rfl rfl t.allowance_overlook
  | fired left phase => exact h.fire schedule left phase
  | launched left phase idle => exact h.handOver schedule left phase idle
  | @heard _ _ _ _ result left phase => exact h.take left phase result

theorem step_preserves_ending (schedule : Schedule interval backoff t) (h : Ending s t)
    (e : Event) : Ending s (t.next e) := by
  cases e with
  | call | elapse | work => exact ⟨h.cancelled, h.bounded⟩
  | cancel => exact ⟨rfl, h.bounded⟩
  | pass => exact h.pass
  | heed => exact h.heed schedule
  | look seen => exact h.look schedule seen

theorem run_preserves_ending (schedule : Schedule interval backoff t) (positive : 0 < interval)
    (h : Ending s t) (events : List Event) : Ending s (t.run events) := by
  have both := run_preserves (P := fun t => Schedule interval backoff t ∧ Ending s t)
    (fun _ e h => ⟨step_preserves_schedule h.1 positive e, step_preserves_ending h.1 h.2 e⟩)
    ⟨schedule, h⟩ events
  exact both.2

/-! ### The last pass -/

/-- The task has stopped, or the order is still to be looked at before it rests. -/
def Facing (s : SaverTask) : Prop := s.saver.phase = .stopped ∨ s.looks.order = true

theorem facing_pass (rests : s.looks = ⟨false, false⟩) : Facing s.pass := by
  right
  rw [pass, if_pos rests]

theorem Facing.heed (schedule : Schedule interval backoff s) (cancelled : s.saver.cancelled = true)
    (h : Facing s) : s.heed.saver.phase = .stopped := by
  rcases h with stopped | left
  · obtain ⟨looks, same⟩ := heed_stopped stopped
    rw [same]
    exact stopped
  · have ends : s.heed = s.stop := by simp [SaverTask.heed, left, cancelled]
    rw [ends]
    exact stopped_stop schedule cancelled (schedule.started_of_order left)

theorem Facing.look (h : Facing s) (seen : Bool) : Facing (s.look seen) := by
  rcases h with stopped | left
  · left
    rw [look_stopped stopped]
    exact stopped
  · right
    have looked := s.look_looked seen
    generalize s.look seen = t at looked
    cases looked with
    | overlooked | launched => exact left
    | fired => rfl
    | @heard _ _ _ _ result =>
      obtain ⟨looks, rounds, round, looked, taken⟩ := s.take_eq result
      rw [taken]
      rcases looked with rfl | rfl
      · exact left
      · rfl

theorem step_preserves_facing (schedule : Schedule interval backoff s)
    (cancelled : s.saver.cancelled = true) (h : Facing s) (e : Event) : Facing (s.next e) := by
  cases e with
  | call | elapse | work | cancel => exact h
  | pass =>
    obtain ⟨still, -⟩ | ⟨rests, -⟩ := s.pass_cases
    · rw [next, still]
      exact h
    · exact facing_pass rests
  | heed => exact .inl (h.heed schedule cancelled)
  | look seen => exact h.look seen

theorem run_preserves_facing (schedule : Schedule interval backoff t) (positive : 0 < interval)
    (h : Ending s t) (facing : Facing t) (events : List Event) : Facing (t.run events) := by
  have all := run_preserves
    (P := fun t => Schedule interval backoff t ∧ Ending s t ∧ Facing t)
    (fun _ e h => ⟨step_preserves_schedule h.1 positive e, step_preserves_ending h.1 h.2.1 e,
      step_preserves_facing h.1 h.2.1.cancelled h.2.2 e⟩)
    ⟨schedule, h, facing⟩ events
  exact all.2.2

/-- How many looks it takes at most until no work is left to look at, when nothing else happens. -/
def toDo (s : SaverTask) : Nat :=
  if !s.looks.work then 0
  else
    match s.saver.phase with
    | .waiting _ => 3
    | .retrying _ _ _ _ => s.saving.job.toDo
    | _ => 1

theorem toDo_waiting {due : Nat} (left : s.looks.work = true)
    (phase : s.saver.phase = .waiting due) : s.toDo = 3 := by
  rw [toDo, left, phase]
  rfl

theorem toDo_retrying {wake k due : Nat} {b : Backoff} (left : s.looks.work = true)
    (phase : s.saver.phase = .retrying wake k b due) : s.toDo = s.saving.job.toDo := by
  rw [toDo, left, phase]
  rfl

theorem toDo_le (s : SaverTask) : s.toDo ≤ 4 := by
  unfold toDo
  split
  · exact Nat.zero_le 4
  · split
    · decide
    · exact s.saving.job.toDo_le
    · decide

theorem work_of_toDo (none : s.toDo = 0) : s.looks.work = false := by
  by_contra left
  rw [toDo, eq_true_of_ne_false left] at none
  cases phase : s.saver.phase with
  | retrying => cases job : s.saving.job <;> simp [phase, job, Job.toDo] at none
  | _ => simp [phase] at none

theorem toDo_look (h : Schedule interval backoff s) (seen : Bool) :
    (s.look seen).toDo ≤ s.toDo - 1 := by
  have looked := s.look_looked seen
  generalize s.look seen = t at looked
  cases looked with
  | overlooked => exact Nat.zero_le _
  | @fired due left phase come =>
    have idle : (s.fire due).saving.job = .idle := (h.fits.of_waiting phase).2.idle
    rw [toDo_waiting left phase, toDo_retrying rfl rfl, idle]
    exact Nat.le_refl 2
  | launched left phase idle come =>
    rw [toDo_retrying left phase, idle, toDo_retrying (s := s.handOver) left phase]
    exact Nat.le_refl 1
  | @heard _ _ _ _ result left phase done =>
    rw [toDo_retrying left phase, done]
    obtain ⟨logs, ⟨e, delay, rest, -, -, taken⟩ | ⟨-, taken⟩⟩ := take_cases phase result
    · have idle : (s.take result).toDo = 2 := by
        rw [taken]
        exact toDo_retrying left rfl
      rw [idle]
      exact Nat.le_succ 2
    · have waits : (s.take result).toDo = 3 := by
        rw [taken]
        exact toDo_waiting rfl rfl
      rw [waits]
      exact Nat.le_refl 3

theorem run_looks (h : Schedule interval backoff s) (seen : List Bool) :
    Frames s (s.run (seen.map .look)) ∧
      (s.run (seen.map .look)).toDo ≤ s.toDo - seen.length := by
  induction seen generalizing s with
  | nil => exact ⟨⟨rfl, rfl⟩, Nat.le_refl _⟩
  | cons first seen ih =>
    obtain ⟨frames, fewer⟩ := ih (h.look first)
    have one := toDo_look h first
    refine ⟨(s.frames_look first).trans frames, fewer.trans ?_⟩
    rw [List.length_cons]
    omega

theorem rests_heed (cancelled : s.saver.cancelled = true) (done : s.looks.work = false) :
    s.heed.looks = ⟨false, false⟩ := by
  have heeded := s.heed_heeded
  generalize s.heed = t at heeded
  cases heeded with
  | passed before => exact Looks.eq_rest before done
  | free uncancelled =>
    rw [cancelled] at uncancelled
    cases uncancelled
  | ended => rfl

/-- The task looks at its work until there is none left, and at the order last. In the next pass too
it looks at its work before it looks at the order. -/
def undisturbed (first second : List Bool) : List Event :=
  first.map .look ++ (.heed :: .pass :: second.map .look ++ [.heed])

/-- When nothing else happens, a task that was told to stop stops in its next pass, without delay. -/
theorem run_undisturbed (schedule : Schedule interval backoff t) (positive : 0 < interval)
    (h : Ending s t) {first : List Bool} (enough : 4 ≤ first.length) (second : List Bool) :
    (t.run (undisturbed first second)).saver.phase = .stopped ∧
      (t.run (undisturbed first second)).saver.now = t.saver.now := by
  let u := t.run (first.map .look)
  let v := u.heed.pass
  let w := v.run (second.map .look)
  have same : t.run (undisturbed first second) = w.heed := by
    rw [undisturbed, run_append]
    show v.run (second.map .look ++ [.heed]) = w.heed
    rw [run_append]
    rfl
  have u_schedule : Schedule interval backoff u := run_preserves_schedule schedule positive _
  have u_ending : Ending s u := run_preserves_ending schedule positive h _
  obtain ⟨frames, fewer⟩ := run_looks schedule first
  have rests : u.heed.looks = ⟨false, false⟩ := by
    have none : u.toDo = 0 := by
      have most := t.toDo_le
      have left : u.toDo ≤ t.toDo - first.length := fewer
      omega
    exact rests_heed u_ending.cancelled (work_of_toDo none)
  have v_schedule : Schedule interval backoff v := u_schedule.heed.pass positive
  have v_ending : Ending s v := (u_ending.heed u_schedule).pass
  have w_schedule : Schedule interval backoff w := run_preserves_schedule v_schedule positive _
  have w_ending : Ending s w := run_preserves_ending v_schedule positive v_ending _
  have w_facing : Facing w :=
    run_preserves_facing v_schedule positive v_ending (facing_pass rests) _
  rw [same]
  refine ⟨w_facing.heed w_schedule w_ending.cancelled, ?_⟩
  calc w.heed.saver.now
      = w.saver.now := w.frames_heed.now
    _ = v.saver.now := (run_looks v_schedule second).1.now
    _ = u.heed.saver.now := u.heed.frames_pass.now
    _ = u.saver.now := u.frames_heed.now
    _ = t.saver.now := frames.now

end SaverTask

end Telemetry.Server
