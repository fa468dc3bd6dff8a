import Telemetry.Proofs.Server.SaverFile
import Telemetry.Proofs.Server.SaverStopping
/-!
Saving at intervals, whatever calls come in between, whichever writes fail and whenever the task is
told to stop: its attempts and its end, and what the file holds at every moment.
-/

namespace Telemetry.Server

open Storage FileTree

namespace SaverTask

variable {s : SaverTask} {interval : Nat} {backoff : Backoff}

def successes (results : List (Except Error Unit)) : Nat := results.countP Except.isOk

/-! Only a look at the work touches the save that was handed over, or the results. -/

theorem pass_frame (s : SaverTask) : s.pass.saving = s.saving ∧ s.pass.rounds = s.rounds ∧
    s.pass.round = s.round := by
  obtain ⟨still, -⟩ | ⟨-, begun⟩ := s.pass_cases
  · rw [still]
    exact ⟨rfl, rfl, rfl⟩
  · rw [begun]
    exact ⟨rfl, rfl, rfl⟩

theorem heed_frame (s : SaverTask) : s.heed.saving = s.saving ∧ s.heed.rounds = s.rounds ∧
    s.heed.round = s.round := by
  have heeded := s.heed_heeded
  generalize s.heed = t at heeded
  cases heeded with
  | passed | free | ended => exact ⟨rfl, rfl, rfl⟩

theorem step_preserves_stored {content : Snapshot} {files : FileTree} {p : Path}
    (h : s.saving.Stored content files p) (e : Event) :
    (s.next e).saving.Stored content files p := by
  cases e with
  | call c => exact h.call c
  | elapse | cancel => exact h
  | work fault written => exact h.work fault written
  | pass =>
    rw [next, s.pass_frame.1]
    exact h
  | heed =>
    rw [next, s.heed_frame.1]
    exact h
  | look seen =>
    rw [next]
    have looked := s.look_looked seen
    generalize s.look seen = t at looked
    cases looked with
    | overlooked | fired => exact h
    | launched => exact h.enter trivial
    | @heard _ _ _ _ result =>
      obtain ⟨looks, rounds, round, -, taken⟩ := s.take_eq result
      rw [taken]
      exact h.enter trivial

/-- The attempts that succeeded are those whose contents were saved. -/
def Accounted (s : SaverTask) : Prop :=
  s.saving.saves.length = successes (s.rounds.flatten ++ s.round) + s.saving.job.succeeded

theorem Accounted.take {wake k due : Nat} {b : Backoff} {result : Except Error Unit}
    (h : Accounted s) (phase : s.saver.phase = .retrying wake k b due)
    (done : s.saving.job = .finished result) : Accounted (s.take result) := by
  have noted (results : List (Except Error Unit)) :
      successes (results ++ [result]) = successes results + (Job.finished result).succeeded := by
    rw [successes, List.countP_append]
    cases result with
    | ok _ => rfl
    | error e => rfl
  rw [Accounted, done, ← noted] at h
  obtain ⟨logs, ⟨e, delay, rest, -, -, taken⟩ | ⟨-, taken⟩⟩ := take_cases phase result
  · rw [taken]
    show s.saving.saves.length = successes (s.rounds.flatten ++ (s.round ++ [result])) + 0
    rw [← List.append_assoc]
    exact h
  · rw [taken]
    show s.saving.saves.length = successes ((s.rounds ++ [s.round ++ [result]]).flatten ++ []) + 0
    rw [List.append_nil, List.flatten_append, List.flatten_singleton, ← List.append_assoc]
    exact h

theorem step_preserves_accounted (h : Accounted s) (e : Event) : Accounted (s.next e) := by
  cases e with
  | call | elapse | cancel => exact h
  | work fault written =>
    have counted := s.saving.succeeded_work fault written
    rw [Accounted] at h
    rw [next, Accounted]
    dsimp only
    omega
  | pass =>
    obtain ⟨saving, rounds, round⟩ := s.pass_frame
    rw [next, Accounted, saving, rounds, round]
    exact h
  | heed =>
    obtain ⟨saving, rounds, round⟩ := s.heed_frame
    rw [next, Accounted, saving, rounds, round]
    exact h
  | look seen =>
    rw [next]
    have looked := s.look_looked seen
    generalize s.look seen = t at looked
    cases looked with
    | overlooked | fired => exact h
    | launched left phase idle =>
      rw [Accounted, idle] at h
      exact h
    | heard left phase done => exact h.take phase done

/-- What holds of a task at every moment, whatever happened so far. -/
structure Regular (content : Snapshot) (path : Option String) (files : FileTree) (interval : Nat)
    (backoff : Backoff) (s : SaverTask) : Prop where
  starts : ∀ time ∈ s.starts, Reached interval s time
  rounds : ∀ round ∈ s.rounds, Complete backoff.remaining round
  round : Failing s.round ∧ s.round.length ≤ backoff.remaining
  attempts : s.starts.length =
    s.rounds.flatten.length + s.round.length + s.saving.job.pending
  -- Every tick is done with, but the last one may be under way or cut short.
  ticks : Quiet s ∨ s.ticks = s.rounds.length + 1 ∧
    ((∃ wake k b due, s.saver.phase = .retrying wake k b due) ∨ s.saver.phase = .stopped)
  lasting : s.saver.phase ≠ .panicked ∧ (s.saver.phase = .stopped → s.saver.cancelled = true)
  advancing : s.saver.cancelled = false → ∀ writes : List (Option AtomicWrite.Step × Nat),
    writes.length = backoff.remaining + 2 → s.rounds.length < (s.serves writes).rounds.length
  replayed : s.saving.memory.content = content.replay s.saving.applied
  successes : s.saving.saves.length =
    successes (s.rounds.flatten ++ s.round) + s.saving.job.succeeded
  file : ∀ text, path = some text →
    s.saving.Latest content files (Path.ofText files.base text)

/-- What holds of a task that was told to stop in the state `s` and goes on in the state `t`. -/
structure Ends (s t : SaverTask) : Prop where
  -- An attempt that was found done when it was looked at for the first time brings another.
  starts : t.starts.length + s.prompt ≤
    s.starts.length + (if s.looks = ⟨false, true⟩ ∧ s.fresh = false then 2 else 1) + t.prompt
  last : t.looks = ⟨false, false⟩ → ∀ more, Facing ((t.next .pass).run more)
  stops : ∀ first second : List Bool, 4 ≤ first.length →
    (t.run (undisturbed first second)).saver.phase = .stopped ∧
      (t.run (undisturbed first second)).saver.now = t.saver.now
  ended : t.saver.phase = .stopped → ∀ more,
    (t.run more).saver.phase = .stopped ∧ (t.run more).starts = t.starts

theorem regular_of_invariants {content : Snapshot} {path : Option String} {files : FileTree}
    (positive : 0 < interval) (schedule : Schedule interval backoff s)
    (stored : s.saving.Stored content files (.ofText files.base (path.getD "")))
    (accounted : Accounted s) : Regular content path files interval backoff s where
  starts := schedule.starts
  rounds := schedule.rounds
  round := ⟨schedule.failing, schedule.short⟩
  attempts := schedule.attempts
  ticks := by
    cases schedule.fits with
    | unstarted _ _ quiet | waiting _ _ quiet => exact .inl quiet
    | retrying phase _ _ _ ticks => exact .inr ⟨ticks, .inl ⟨_, _, _, _, phase⟩⟩
    | stopped phase _ ticks => exact ticks.imp_right fun ticks => ⟨ticks, .inr phase⟩
  lasting := ⟨schedule.fits.not_panicked, schedule.fits.of_stopped⟩
  advancing free _ enough := serves_complete schedule positive free enough
  replayed := stored.replayed
  successes := accounted
  file text h := by
    have latest := stored.latest
    rw [h] at latest
    exact latest

theorem start_stored (content : Snapshot) (path : Option String) (mode : Duration)
    (files : FileTree) (interval : Nat) (backoff : Backoff) :
    (start content path mode files interval backoff).saving.Stored content files
      (.ofText files.base (path.getD "")) where
  path text h := by
    obtain rfl : path = some text := h
    rfl
  periodic := ⟨mode, rfl⟩
  replayed := rfl
  base := rfl
  latest := ⟨fun _ => .refl _ files, fun _ h => nomatch h⟩
  safe := trivial

/-- Whatever calls come in between, whichever writes fail and whenever it is told to stop: the task
saves at intervals, and ends as soon as it is told to. -/
theorem periodic_saving (content : Snapshot) (path : Option String) (mode : Duration)
    (files : FileTree) {interval : Nat} (positive : 0 < interval) (backoff : Backoff)
    (events more : List Event) :
    let s := (start content path mode files interval backoff).run events
    Regular content path files interval backoff s ∧ Ends s ((s.next .cancel).run more) := by
  intro s
  have schedule : Schedule interval backoff s :=
    run_preserves_schedule (start_schedule content path mode files interval backoff) positive events
  have stored : s.saving.Stored content files (.ofText files.base (path.getD "")) :=
    run_preserves (P := fun s => s.saving.Stored content files (.ofText files.base (path.getD "")))
      (fun _ e h => step_preserves_stored h e)
      (start_stored content path mode files interval backoff) events
  have fresh : Accounted (start content path mode files interval backoff) := rfl
  have accounted : Accounted s :=
    run_preserves (P := Accounted) (fun _ e h => step_preserves_accounted h e) fresh events
  refine ⟨regular_of_invariants positive schedule stored accounted, ?_⟩
  have told := step_preserves_schedule schedule positive .cancel
  have later := run_preserves_schedule told positive more
  have ending := run_preserves_ending told positive s.ending_cancel more
  constructor
  case starts =>
    have bounded := ending.bounded
    have allowed := s.allowance_le
    omega
  case last =>
    intro rests events
    exact run_preserves_facing (later.pass positive) positive ending.pass (facing_pass rests) events
  case stops =>
    intro first second enough
    exact run_undisturbed later positive ending enough second
  case ended =>
    intro stopped rest
    exact run_stopped stopped rest

def oneRetry : Backoff := ⟨.ofMillis 5, .ofMillis 10, .ofMillis 10, 1⟩

def lookAround : List Event := .pass :: List.replicate 4 (.look true) ++ [.heed]

def save (fault : Option AtomicWrite.Step) : List Event := List.replicate 7 (.work fault 1)

/-- A write that does not reach the disk, and a second one that does, with a call in between. -/
def failureAndSuccess : List Event :=
  lookAround ++ [.call (.putCounter "PollCount" .one), .elapse 20000000] ++ lookAround ++
    save (some .sync) ++ lookAround ++ [.call (.putCounter "PollCount" .one), .elapse 5000000] ++
    lookAround ++ save none ++ lookAround

/-- The second attempt saves both calls. After the order to stop another attempt begins, in the pass
that ends the task. -/
theorem saves_at_second_attempt :
    let s := (start .empty (some "metrics.json") (.ofMillis 20) (.empty "/work") 20000000 oneRetry).run
      failureAndSuccess
    let t := (s.next .cancel).run (.elapse 20000000 :: lookAround)
    0 < 20000000 ∧ Regular .empty (some "metrics.json") (.empty "/work") 20000000 oneRetry s ∧
      Ends s t ∧ s.starts = [20000000, 25000000] ∧ s.rounds.map List.length = [2] ∧
      s.saving.saves = [2] ∧ t.starts = [20000000, 25000000, 45000000] ∧
      t.saver.phase = .stopped := by
  intro s t
  have positive : 0 < 20000000 := by decide
  obtain ⟨regular, ends⟩ := periodic_saving .empty (some "metrics.json") (.ofMillis 20)
    (.empty "/work") positive oneRetry failureAndSuccess (.elapse 20000000 :: lookAround)
  refine ⟨positive, regular, ends, ?_⟩
  decide +kernel

/-- Two attempts begin after the order to stop if the first is done before the task looks at it, and
also if the order comes when the task has looked for it, but not yet at its work. And "a/b/../b" leads
nowhere at first, and to the directory "a/b" when a save has made it on its way and failed. -/
theorem two_attempts_after_order :
    let hurried := (start .empty (some "metrics.json") (.ofMillis 1) (.empty "/work") 1000000
      oneRetry).run lookAround
    let overtaken := (start .empty (some "metrics.json") (.ofMillis 20) (.empty "/work") 20000000
      oneRetry).run (lookAround ++ [.elapse 20000000] ++ lookAround ++ save (some .sync) ++
        lookAround ++ [.elapse 5000000, .pass, .heed])
    let astray := (start .empty (some "a/b/../b") (.ofMillis 20) (.empty "/work") 20000000
      oneRetry).run (lookAround ++ [.elapse 20000000] ++ lookAround ++ save none)
    (hurried.starts.length = 0 ∧
      ((hurried.next .cancel).run ([.elapse 2000000, .pass, .look true, .look true] ++ save none ++
        List.replicate 3 (.look true))).starts.length = 2) ∧
    (overtaken.starts.length = 1 ∧
      let ending := (overtaken.next .cancel).run ([.look true, .look true] ++ save none ++
        [.elapse 20000000, .pass, .look true, .look true, .look true])
      ending.starts.length = 3 ∧ ending.prompt = 0) ∧
    astray.saving.saves = [] ∧
      (FileTree.empty "/work").find? (.ofText "/work" "a/b/../b") = none ∧
      astray.saving.files.find? (.ofText "/work" "a/b/../b") = some .directory := by
  refine ⟨?_, ?_, ?_⟩
  · decide +kernel
  · decide +kernel
  · exact ⟨rfl, rfl, rfl⟩

end SaverTask

end Telemetry.Server
