import Telemetry.Proofs.Server.SaverTask
/-!
A task whose saves are written as it hands them over. A save takes a few steps only, so that a task
that was not told to stop makes an attempt whenever something is due. Without calls, and with saves
that take no time, the task does what the saver does by itself.
-/

namespace Telemetry.Server

open Storage

namespace SaverTask

variable {s t : SaverTask}

/-- A save that was handed over is done after a few steps. -/
theorem run_work {n : Nat} (s : SaverTask) (fault : Option AtomicWrite.Step) (written : Nat)
    (busy : s.saving.job.pending = 1) (enough : s.saving.job.left ≤ n) : ∃ saving result,
      s.run (List.replicate n (.work fault written)) = { s with saving := saving } ∧
      saving.job = .finished result ∧ saving.memory = s.saving.memory ∧
      (fault = none → written = 0 → s.saving.outcome? = some (result, saving.files)) := by
  induction n generalizing s with
  | zero =>
    have done : s.saving.job.left = 0 := by omega
    cases hj : s.saving.job with
    | idle =>
      rw [hj] at busy
      cases busy
    | handed | captured | writing =>
      rw [hj] at done
      cases done
    | finished result =>
      refine ⟨s.saving, result, rfl, hj, rfl, fun _ _ => ?_⟩
      rw [Saving.outcome?, hj]
  | succ n ih =>
    obtain ⟨job, files, saves, worked, still, nearer⟩ := s.saving.work_frame fault written
    have step : s.next (.work fault written) =
        { s with saving := s.saving.work fault written } := rfl
    obtain ⟨saving, result, run, done, kept, outcome⟩ := ih (s.next (.work fault written))
      (by rw [step, worked]; exact still.trans busy) (by rw [step, worked]; dsimp only; omega)
    refine ⟨saving, result, run, done, ?_, fun sound whole => ?_⟩
    · rw [kept, step, worked]
    · subst sound whole
      rw [← outcome rfl rfl, step]
      exact s.saving.outcome?_work.symm

theorem run_work_idle (n : Nat) (idle : s.saving.job = .idle) (fault : Option AtomicWrite.Step)
    (written : Nat) : s.run (List.replicate n (.work fault written)) = s := by
  induction n with
  | zero => rfl
  | succ n ih =>
    have still : s.saving.work fault written = s.saving := by rw [Saving.work, idle]
    show ({ s with saving := s.saving.work fault written }).run _ = s
    rw [still]
    exact ih

/-! ### Passes -/

theorem heed_free (free : s.saver.cancelled = false) :
    s.heed = { s with looks := ⟨false, s.looks.work⟩ } := by
  cases left : s.looks.order with
  | true => simp [heed, left, free]
  | false =>
    have same : s.looks = ⟨false, s.looks.work⟩ := by rw [← left]
    rw [heed, left, ← same]
    rfl

theorem run_rest (free : s.saver.cancelled = false) :
    s.run [.look false, .heed] = { s with looks := ⟨false, false⟩, fresh := false } := by
  have unseen : s.look false = s.overlook := by simp [look]
  show (s.look false).heed = _
  rw [unseen, heed_free (s := s.overlook) free]
  rfl

theorem pass_of_rest (rests : s.looks = ⟨false, false⟩) (started : s.saver.phase ≠ .unstarted) :
    s.pass = { s with looks := ⟨true, true⟩ } := by
  rw [pass, if_pos rests, begin_of_started started]

theorem look_fires {due : Nat} (left : s.looks.work = true) (phase : s.saver.phase = .waiting due)
    (come : due ≤ s.saver.now) : s.look true = s.fire due := by
  rw [look, left, phase]
  exact if_pos come

theorem look_early {due : Nat} (left : s.looks.work = true) (phase : s.saver.phase = .waiting due)
    (early : s.saver.now < due) : s.look true = s.overlook := by
  rw [look, left, phase]
  exact if_neg (Nat.not_le.mpr early)

variable {wake k due : Nat} {b : Backoff}

theorem look_launches (left : s.looks.work = true) (phase : s.saver.phase = .retrying wake k b due)
    (idle : s.saving.job = .idle) (come : wake ≤ s.saver.now) : s.look true = s.handOver := by
  rw [look, left, phase, idle]
  exact if_pos come

theorem look_handed (left : s.looks.work = true) (phase : s.saver.phase = .retrying wake k b due)
    (handed : s.saving.job = .handed) : s.look true = s.overlook := by
  rw [look, left, phase, handed]
  rfl

theorem look_hears {result : Except Error Unit} (left : s.looks.work = true)
    (phase : s.saver.phase = .retrying wake k b due) (done : s.saving.job = .finished result) :
    s.look true = s.take result := by
  rw [look, left, phase, done]
  rfl

/-- A task that waits for a save that is done takes its result in the pass it is in, or in the next. -/
theorem run_hear {result : Except Error Unit} (free : s.saver.cancelled = false)
    (phase : s.saver.phase = .retrying wake k b due) (done : s.saving.job = .finished result) :
    ∃ looks,
      s.run [.heed, .pass, .look true] = { s with looks := looks }.take result := by
  have started : s.saver.phase ≠ .unstarted := by
    rw [phase]
    exact Phase.noConfusion
  show ∃ looks, (s.heed.pass.look true) = _
  rw [heed_free free]
  cases left : s.looks.work with
  | true =>
    let u : SaverTask := { s with looks := ⟨false, true⟩ }
    have busy : u.pass = u := if_neg (by simp [u])
    have heard := look_hears (s := u) rfl phase done
    exact ⟨⟨false, true⟩, (congrArg (look · true) busy).trans heard⟩
  | false =>
    let u : SaverTask := { s with looks := ⟨true, true⟩ }
    have woken := pass_of_rest (s := { s with looks := ⟨false, false⟩ }) rfl started
    have heard := look_hears (s := u) rfl phase done
    exact ⟨⟨true, true⟩, (congrArg (look · true) woken).trans heard⟩

def wait (s : SaverTask) : Nat := s.saver.wakeTime?.getD s.saver.now - s.saver.now

/-- The task comes to rest. If it has handed over no save it waits until something is due, and is
woken. What was handed over is written before it looks again. -/
def service (s : SaverTask) (fault : Option AtomicWrite.Step) (written : Nat) : List Event :=
  let passes := match s.saving.job with
    | .idle => [.elapse s.wait, .pass, .look true, .look true]
    | _ => []
  [.look false, .heed] ++ (passes ++
    (List.replicate (s.saving.job.left + 7) (.work fault written) ++ [.heed, .pass, .look true]))

def serve (s : SaverTask) (fault : Option AtomicWrite.Step) (written : Nat) : SaverTask :=
  s.run (s.service fault written)

theorem unordered_service (s : SaverTask) (fault : Option AtomicWrite.Step) (written : Nat) :
    Event.cancel ∉ s.service fault written := by
  rw [service]
  cases s.saving.job <;> simp

theorem serve_of_idle (free : s.saver.cancelled = false) (idle : s.saving.job = .idle)
    (fault : Option AtomicWrite.Step) (written : Nat) :
    let u := { s with
      saver := { s.saver with now := s.saver.now + s.wait }
      looks := ⟨false, false⟩, fresh := false }
    s.serve fault written = (((u.pass.look true).look true).run
      (List.replicate 7 (.work fault written))).run [.heed, .pass, .look true] := by
  intro u
  rw [serve, service, idle, run_append, run_rest free, run_append, run_append]
  rfl

theorem pass_due {wake : Nat} (free : s.saver.cancelled = false) (idle : s.saving.job = .idle)
    (rests : s.looks = ⟨false, false⟩) (wakes : s.saver.wakeTime? = some wake)
    (come : wake ≤ s.saver.now) : ∃ saver ticks looks fresh,
      (s.pass.look true).look true = { { s with saver := saver, ticks := ticks }.handOver with
        looks := looks, fresh := fresh } ∧
      saver.cancelled = false ∧ saver.attempt = s.saver.attempt ∧
        ∃ w k b d, saver.phase = .retrying w k b d := by
  have started : s.saver.phase ≠ .unstarted := by
    intro unstarted
    rw [Saver.wakeTime?, unstarted] at wakes
    cases wakes
  rw [pass_of_rest rests started]
  cases phase : s.saver.phase with
  | waiting due =>
    obtain rfl : due = wake := by simpa [Saver.wakeTime?, phase] using wakes
    let u : SaverTask := { s with looks := ⟨true, true⟩ }
    have fires : u.look true = u.fire due := look_fires (s := u) rfl phase come
    have launches : (u.fire due).look true = (u.fire due).handOver :=
      look_launches rfl rfl idle (Nat.le_refl s.saver.now)
    refine ⟨(u.fire due).saver, s.ticks + 1, ⟨true, true⟩, true, ?_, free, attempt_fire phase, _, _, _,
      _, rfl⟩
    rw [fires, launches]
    rfl
  | retrying wake' k b due =>
    obtain rfl : wake' = wake := by simpa [Saver.wakeTime?, phase] using wakes
    let u : SaverTask := { s with looks := ⟨true, true⟩ }
    have launches : u.look true = u.handOver := look_launches (s := u) rfl phase idle come
    have waits : u.handOver.look true = u.handOver.overlook := look_handed (s := u.handOver) rfl phase rfl
    refine ⟨s.saver, s.ticks, ⟨true, false⟩, false, ?_, free, rfl, wake', k, b, due, phase⟩
    rw [launches, waits]
    rfl
  | unstarted | stopped | panicked =>
    rw [Saver.wakeTime?, phase] at wakes
    cases wakes

theorem serve_due {wake : Nat} (free : s.saver.cancelled = false) (idle : s.saving.job = .idle)
    (wakes : s.saver.wakeTime? = some wake) (fault : Option AtomicWrite.Step) (written : Nat) :
    ∃ saver ticks starts saving looks fresh result,
      s.serve fault written = { s with
        saver := saver, saving := saving, ticks := ticks, starts := starts
        looks := looks, fresh := fresh }.take result ∧
      saver.attempt = ({ s.saver with now := max s.saver.now wake }).attempt ∧
      (∃ w k b d, saver.phase = .retrying w k b d) ∧ saving.memory = s.saving.memory ∧
      (fault = none → written = 0 →
        s.saving.memory.save s.saving.files = (result, saving.files)) := by
  have now : s.saver.now + s.wait = max s.saver.now wake := by
    rw [wait, wakes, Option.getD_some]
    omega
  have served := serve_of_idle free idle fault written
  let u := { s with
    saver := { s.saver with now := s.saver.now + s.wait }, looks := ⟨false, false⟩, fresh := false }
  have come : wake ≤ u.saver.now := by
    show wake ≤ s.saver.now + s.wait
    omega
  obtain ⟨saver, ticks, looks, fresh, passed, free', attempts, w, k, b, d, phase⟩ :=
    pass_due (s := u) free idle rfl wakes come
  let v := { { u with saver := saver, ticks := ticks }.handOver with looks := looks, fresh := fresh }
  obtain ⟨saving, result, worked, done, kept, outcome⟩ := run_work v fault written rfl (Nat.le_refl 7)
  obtain ⟨looks', heard⟩ :=
    run_hear (s := { v with saving := saving }) free' phase done
  refine ⟨saver, ticks, s.starts ++ [saver.now], saving, looks', fresh, result, ?_, ?_,
    ⟨w, k, b, d, phase⟩, kept, fun sound whole => Option.some.inj (outcome sound whole)⟩
  · rw [served, passed, worked]
    exact heard
  · rw [attempts, ← now]

theorem serve_busy (free : s.saver.cancelled = false)
    (phase : s.saver.phase = .retrying wake k b due) (busy : s.saving.job.pending = 1)
    (fault : Option AtomicWrite.Step) (written : Nat) : ∃ saving looks fresh result,
      s.serve fault written =
        { s with saving := saving, looks := looks, fresh := fresh }.take result := by
  let u := { s with looks := ⟨false, false⟩, fresh := false }
  have served : s.serve fault written = (u.run (List.replicate (s.saving.job.left + 7)
      (.work fault written))).run [.heed, .pass, .look true] := by
    have nothing : (match s.saving.job with
        | .idle => [.elapse s.wait, .pass, .look true, .look true]
        | _ => ([] : List Event)) = [] := by
      cases hj : s.saving.job with
      | idle =>
        rw [hj] at busy
        cases busy
      | _ => rfl
    rw [serve, service, run_append, run_rest free, nothing, List.nil_append, run_append]
  obtain ⟨saving, result, worked, done, -⟩ :=
    run_work u fault written busy (Nat.le_add_right s.saving.job.left 7)
  obtain ⟨looks, heard⟩ := run_hear (s := { u with saving := saving }) free phase done
  refine ⟨saving, looks, false, result, ?_⟩
  rw [served, worked]
  exact heard

theorem serve_unstarted (free : s.saver.cancelled = false) (h : s.saver.phase = .unstarted)
    (positive : 0 < s.saver.interval) (idle : s.saving.job = .idle)
    (fault : Option AtomicWrite.Step) (written : Nat) : ∃ looks,
      s.serve fault written =
        { (s.next (.elapse s.wait)).begin with looks := looks, fresh := false } := by
  let u := { s with
    saver := { s.saver with now := s.saver.now + s.wait }, looks := ⟨false, false⟩, fresh := false }
  have filled : u.saver.interval ≠ 0 := Nat.ne_of_gt positive
  have begun := begin_unstarted (s := u) h filled
  have phase : u.begin.saver.phase = .waiting (u.saver.now + u.saver.interval) := by rw [begun]
  have now : u.begin.saver.now = u.saver.now := by rw [begun]
  have started : u.begin.saver.phase ≠ .unstarted := by
    rw [phase]
    exact Phase.noConfusion
  have unheeded : u.begin.saver.cancelled = false := by
    rw [begun]
    exact free
  -- The first tick is still to come.
  have early : u.begin.saver.now < u.saver.now + u.saver.interval := by
    rw [now]
    exact Nat.lt_add_of_pos_right positive
  let v (looks : Looks) : SaverTask := { u.begin with looks := looks, fresh := false }
  have look (looks : Looks) : (v looks).look true = v ⟨looks.order, false⟩ := by
    cases left : looks.work with
    | false => simp [v, SaverTask.look, left, overlook]
    | true => exact look_early (s := v looks) left phase early
  refine ⟨⟨true, false⟩, ?_⟩
  have woken : u.pass = v ⟨true, true⟩ := by
    rw [pass, if_pos rfl]
    rfl
  have unwritten := run_work_idle (s := v ⟨true, false⟩) 7 idle fault written
  have rested : (v ⟨true, false⟩).heed = v ⟨false, false⟩ := heed_free unheeded
  have again : (v ⟨false, false⟩).pass = v ⟨true, true⟩ := pass_of_rest rfl started
  calc s.serve fault written
      = (((u.pass.look true).look true).run (List.replicate 7 (.work fault written))).run
          [.heed, .pass, .look true] := serve_of_idle free idle fault written
    _ = (v ⟨true, false⟩).run [.heed, .pass, .look true] := by
        rw [woken, look, look, unwritten]
    _ = ((v ⟨true, false⟩).heed.pass).look true := rfl
    _ = v ⟨true, false⟩ := by rw [rested, again, look]

/-! ### The task alone -/

/-- A task that does what the saver does by itself, with the memory as it is: its state in the end,
the files, and what it reports. -/
structure Shows (s t : SaverTask) (o : Saver × FileTree × List Log.Event) : Prop where
  saver : t.saver = o.1
  files : t.saving.files = o.2.1
  logs : t.logs = s.logs ++ o.2.2
  memory : t.saving.memory = s.saving.memory
  idle : t.saving.job = .idle
  rests : t.looks = ⟨false, false⟩

theorem Shows.refl (idle : s.saving.job = .idle) (rests : s.looks = ⟨false, false⟩) :
    Shows s s (s.saver, s.saving.files, []) :=
  ⟨rfl, rfl, (List.append_nil _).symm, rfl, idle, rests⟩

theorem Shows.trans {u : SaverTask} {o r : Saver × FileTree × List Log.Event} (h : Shows s t o)
    (k : Shows t u r) : Shows s u (r.1, r.2.1, o.2.2 ++ r.2.2) where
  saver := k.saver
  files := k.files
  logs := by rw [k.logs, h.logs, List.append_assoc]
  memory := k.memory.trans h.memory
  idle := k.idle
  rests := k.rests

theorem Shows.elapse {o : Saver × FileTree × List Log.Event} {time : Nat} (h : Shows s t o)
    (early : o.1.now ≤ time) :
    Shows s (t.next (.elapse (time - t.saver.now))) ({ o.1 with now := time }, o.2) := by
  have late : t.saver.now + (time - t.saver.now) = time := by
    rw [h.saver]
    omega
  constructor
  case saver =>
    show { t.saver with now := t.saver.now + (time - t.saver.now) } = _
    rw [late, h.saver]
  case files => exact h.files
  case logs => exact h.logs
  case memory => exact h.memory
  case idle => exact h.idle
  case rests => exact h.rests

theorem shows_settle (idle : s.saving.job = .idle) (rests : s.looks = ⟨false, false⟩) :
    Shows s (s.run [.pass, .look false, .heed])
      (s.saver.settle.1, s.saving.files, s.saver.settle.2) := by
  let u : SaverTask := { s.begin with looks := ⟨true, false⟩, fresh := false }
  have passed : s.run [.pass, .look false, .heed] = u.heed := by
    show (s.pass.look false).heed = u.heed
    rw [pass, if_pos rests]
    rfl
  rw [passed]
  have heeded := u.heed_heeded
  generalize u.heed = t at heeded
  cases heeded with
  | passed before => cases before
  | free uncancelled =>
    have kept : s.saver.begin.1.stop = (s.saver.begin.1, []) := by
      rw [Saver.stop]
      have uncancelled : s.saver.begin.1.cancelled = false := uncancelled
      rw [uncancelled]
      rfl
    have settled : s.saver.settle = (s.saver.begin.1, s.saver.begin.2) := by
      show (s.saver.begin.1.stop.1, s.saver.begin.2 ++ s.saver.begin.1.stop.2) = _
      rw [kept, List.append_nil]
    rw [settled]
    exact ⟨rfl, rfl, rfl, rfl, idle, rfl⟩
  | ended left cancelled => exact ⟨rfl, rfl, List.append_assoc _ _ _, rfl, idle, rfl⟩

theorem shows_serve {wake : Nat} (free : s.saver.cancelled = false) (idle : s.saving.job = .idle)
    (wakes : s.saver.wakeTime? = some wake) :
    let o := s.saving.memory.save s.saving.files
    let r := ({ s.saver with now := max s.saver.now wake }).attempt o.1
    Shows s ((s.serve none 0).run [.look false, .heed]) (r.1, o.2, r.2) := by
  intro o r
  obtain ⟨saver, ticks, starts, saving, looks, fresh, result, served, attempts, -, kept, outcome⟩ :=
    serve_due free idle wakes none 0
  let u := { s with
    saver := saver, saving := saving, ticks := ticks, starts := starts, looks := looks, fresh := fresh }
  obtain ⟨looks', rounds, round, -, taken⟩ := u.take_eq result
  have saved : o = (result, saving.files) := outcome rfl rfl
  have attempted : r = saver.attempt result := by
    rw [attempts]
    exact congrArg (Saver.attempt _) (congrArg Prod.fst saved)
  have uncancelled : (s.serve none 0).saver.cancelled = false :=
    (cancelled_run (unordered_service s none 0)).trans free
  rw [run_rest uncancelled, served, taken]
  constructor
  case saver => exact congrArg Prod.fst attempted.symm
  case files => exact congrArg Prod.snd saved.symm
  case logs => exact congrArg (s.logs ++ ·.2) attempted.symm
  case memory => exact kept
  case idle => rfl
  case rests => rfl

theorem shows_runUntil (time fuel : Nat) (s : SaverTask)
    (free : s.saver.cancelled = true → s.saver.wakeTime? = none) (idle : s.saving.job = .idle)
    (rests : s.looks = ⟨false, false⟩) :
    ∃ events, Shows s (s.run events)
      (Saver.runUntil s.saving.memory time fuel s.saver s.saving.files) := by
  induction fuel generalizing s with
  | zero => exact ⟨[], .refl idle rests⟩
  | succ fuel ih =>
    rw [Saver.runUntil]
    cases wakes : s.saver.wakeTime? with
    | none => exact ⟨[], .refl idle rests⟩
    | some wake =>
      dsimp only
      by_cases early : time < wake
      · rw [if_pos early]
        exact ⟨[], .refl idle rests⟩
      rw [if_neg early]
      have uncancelled : s.saver.cancelled = false := by
        by_contra cancelled
        rw [free (eq_true_of_ne_false cancelled)] at wakes
        cases wakes
      have first := shows_serve uncancelled idle wakes
      obtain ⟨phase, moved⟩ := Saver.attempt_frame { s.saver with now := max s.saver.now wake }
        (s.saving.memory.save s.saving.files).1
      let t := (s.serve none 0).run [.look false, .heed]
      have free' : t.saver.cancelled ≠ true := by
        rw [first.saver, moved]
        exact ne_true_of_eq_false uncancelled
      obtain ⟨events, rest⟩ :=
        ih t (fun cancelled => absurd cancelled free') first.idle first.rests
      refine ⟨s.service none 0 ++ ([.look false, .heed] ++ events), ?_⟩
      rw [first.saver, first.files, first.memory] at rest
      rw [run_append, run_append]
      exact first.trans rest

theorem runUntil_now (memory : Memory) {time : Nat} (fuel : Nat) (s : Saver) (files : FileTree)
    (early : s.now ≤ time) : (Saver.runUntil memory time fuel s files).1.now ≤ time := by
  induction fuel generalizing s files with
  | zero => exact early
  | succ fuel ih =>
    rw [Saver.runUntil]
    cases s.wakeTime? with
    | none => exact early
    | some wake =>
      dsimp only
      by_cases later : time < wake
      · rw [if_pos later]
        exact early
      rw [if_neg later]
      obtain ⟨phase, moved⟩ :=
        Saver.attempt_frame { s with now := max s.now wake } (memory.save files).1
      apply ih
      rw [moved]
      exact Nat.max_le.mpr ⟨early, Nat.le_of_not_lt later⟩

/-- The task can do all that the saver does by itself while some time passes. -/
theorem shows_sleep (idle : s.saving.job = .idle) (rests : s.looks = ⟨false, false⟩) (span : Nat) :
    ∃ events, Shows s (s.run events) (s.saver.sleep s.saving.memory s.saving.files span) := by
  have settled := shows_settle idle rests
  let t := s.run [.pass, .look false, .heed]
  let saver := s.saver.settle.1
  let time := saver.now + span
  let fuel := saver.attemptBound span
  have free : t.saver.cancelled = true → t.saver.wakeTime? = none := by
    rw [settled.saver]
    intro cancelled
    apply Saver.wakeTime?_stop
    obtain ⟨phase, moved⟩ := s.saver.begin.1.stop_frame
    exact (congrArg Saver.cancelled moved).symm.trans cancelled
  obtain ⟨more, worked⟩ := shows_runUntil time fuel t free settled.idle settled.rests
  rw [settled.saver, settled.files, settled.memory] at worked
  have inTime := runUntil_now s.saving.memory fuel saver s.saving.files
    (Nat.le_add_right saver.now span)
  have slept := (settled.trans worked).elapse inTime
  refine ⟨[.pass, .look false, .heed] ++ (more ++ [.elapse (time - (t.run more).saver.now)]), ?_⟩
  rw [run_append, run_append]
  exact slept

end SaverTask

end Telemetry.Server
