import Telemetry.Retry
import Telemetry.Storage.Memory
/-!
The task that writes the snapshot at intervals.

Time counts in nanoseconds. The first save comes one interval after the start; a save that fails is
tried again after growing delays. A tick that comes late because of that fires at once, and the next
one is a full interval later. When the task is told to stop it gives up a save that waits between two
attempts, but never a write that has begun.
-/

namespace Telemetry.Server

inductive Phase where
  | unstarted
  | waiting (due : Nat)
  | retrying (wake attempt : Nat) (backoff : Backoff) (due : Nat)
  | stopped
  | panicked
  deriving DecidableEq

structure Saver where
  interval : Nat
  backoff : Backoff
  now : Nat
  cancelled : Bool
  phase : Phase

namespace Saver

open Log Storage

def new (interval : Nat) (backoff : Backoff) : Saver := ⟨interval, backoff, 0, false, .unstarted⟩

/-- How late a tick may be and still keep the rhythm. -/
def tolerance : Nat := 5 * nanosPerMilli

/-- When the next tick is due after one that was due at `due` fired now. -/
def nextDue (s : Saver) (due : Nat) : Nat :=
  if s.now ≤ due + tolerance then due + s.interval else s.now + s.interval

def stoppedEvent : Event := ⟨.info, "Snapshot saver stopped", []⟩

/-- Starts the task, or stops it if it was told to; what else may be due is left alone. An interval
of nothing is no interval. -/
def begin (s : Saver) : Saver × List Event :=
  match s.phase with
  | .unstarted =>
    if s.interval = 0 then ({ s with phase := .panicked }, [])
    else ({ s with phase := .waiting (s.now + s.interval) },
      [⟨.info, "Snapshot saver started", [("interval_secs", toString (s.interval / nanosPerSecond))]⟩])
  | _ => (s, [])

def stop (s : Saver) : Saver × List Event :=
  if !s.cancelled then (s, [])
  else
    match s.phase with
    | .waiting _ => ({ s with phase := .stopped }, [stoppedEvent])
    | .retrying _ _ _ _ => ({ s with phase := .stopped },
        [⟨.warn, "Snapshot save abandoned on shutdown", []⟩, stoppedEvent])
    | _ => (s, [])

def settle (s : Saver) : Saver × List Event :=
  let (s, started) := s.begin
  let (s, stopped) := s.stop
  (s, started ++ stopped)

def wakeTime? (s : Saver) : Option Nat :=
  match s.phase with
  | .waiting due => some due
  | .retrying wake _ _ _ => some wake
  | _ => none

def afterAttempt (s : Saver) (attempt : Nat) (b : Backoff) (due : Nat) (result : Except Error Unit) :
    Saver × List Event :=
  match result with
  | .ok _ => ({ s with phase := .waiting due }, [⟨.debug, "Snapshot saved", []⟩])
  | .error e =>
    match b.step? with
    | some (delay, rest) =>
      ({ s with phase := .retrying (s.now + delay.nanos) (attempt + 1) rest due },
        [Retry.warning "snapshot save" attempt e.message delay])
    | none => ({ s with phase := .waiting due },
        [⟨.error, "Snapshot save failed", [("error", e.message)]⟩])

def attempt (s : Saver) (result : Except Error Unit) : Saver × List Event :=
  match s.phase with
  | .waiting due => s.afterAttempt 1 s.backoff (s.nextDue due) result
  | .retrying _ attempt b due => s.afterAttempt attempt b due result
  | _ => (s, [])

/-- Works off what is due up to a time, in at most `fuel` attempts. -/
def runUntil (m : Memory) (time : Nat) : Nat → Saver → FileTree → Saver × FileTree × List Event
  | 0, s, files => (s, files, [])
  | fuel + 1, s, files =>
    match s.wakeTime? with
    | none => (s, files, [])
    | some wake =>
      if time < wake then (s, files, [])
      else
        let (result, files) := m.save files
        let (s, logs) := { s with now := max s.now wake }.attempt result
        let (s, files, more) := runUntil m time fuel s files
        (s, files, logs ++ more)

/-- Every tick comes later than the one before, and has a bounded number of attempts. -/
def attemptBound (s : Saver) (span : Nat) : Nat := (span + 2) * (s.backoff.remaining + 2)

def sleep (s : Saver) (m : Memory) (files : FileTree) (span : Nat) :
    Saver × FileTree × List Event :=
  let (s, logs) := s.settle
  let time := s.now + span
  let (s, files, more) := runUntil m time (s.attemptBound span) s files
  ({ s with now := time }, files, logs ++ more)

def cancel (s : Saver) : Saver := { s with cancelled := true }

def isFinished (s : Saver) : Bool := s.phase = .stopped || s.phase = .panicked

end Saver

end Telemetry.Server
