import Telemetry.Backoff
import Telemetry.Log
/-!
Repeating an operation until it succeeds or its delays are used up.

The loop is written for operations of any kind; `Retry.run` is it for an operation on a state, where
the calls and the delays are counted.
-/

namespace Telemetry

namespace Retry

/-- Repeats `op`. After the failed attempt `n` with the error `e` and before the next one comes
`pause n e delay`. -/
def loop {m : Type → Type} [Monad m] {ε α : Type} (pause : Nat → ε → Duration → m Unit)
    (op : m (Except ε α)) (attempt : Nat) (b : Backoff) : m (Except ε α) := do
  match ← op with
  | .ok a => return .ok a
  | .error e =>
    match h : b.step? with
    | none => return .error e
    | some (delay, rest) =>
      pause attempt e delay
      loop pause op (attempt + 1) rest
termination_by b.remaining
decreasing_by exact Backoff.step?_remaining h

def warning (operation : String) (attempt : Nat) (error : String) (delay : Duration) : Log.Event :=
  ⟨.warn, "Attempt failed, retrying",
    [("operation", operation), ("attempt", toString attempt), ("error", error),
      ("retry_in_ms", toString (delay.millis % wordCount))]⟩

end Retry

/-- What came of an operation that was repeated: the last answer, the number of calls, the delays
between them and what was reported. -/
structure Attempts (σ ε α : Type) where
  result : Except ε α
  state : σ
  calls : Nat
  delays : List Duration
  logs : List Log.Event

/-- No wait takes longer than thirty years, in milliseconds. -/
def longestWait : Nat := 30 * 365 * 86400 * 1000

def Attempts.elapsed {σ ε α : Type} (r : Attempts σ ε α) : Nat :=
  r.delays.foldl (fun time delay => time + min delay.millis longestWait) 0

namespace Retry

/-- The state of an operation with what has been noted so far; delays and reports last first. -/
structure Record (σ : Type) where
  state : σ
  calls : Nat
  delays : List Duration
  logs : List Log.Event

variable {σ ε α : Type}

def Record.call (op : σ → Except ε α × σ) : StateM (Record σ) (Except ε α) := fun r =>
  let (result, state) := op r.state
  (result, { r with state, calls := r.calls + 1 })

def Record.pause (delay : Duration) (events : List Log.Event) : StateM (Record σ) Unit := fun r =>
  ((), { r with delays := delay :: r.delays, logs := events.reverse ++ r.logs })

/-- Repeats `op`; `report attempt error delay` is what a failed attempt adds to the log. -/
def run (report : Nat → ε → Duration → List Log.Event) (op : σ → Except ε α × σ) (b : Backoff)
    (s : σ) : Attempts σ ε α :=
  let pause (attempt : Nat) (e : ε) (delay : Duration) := Record.pause delay (report attempt e delay)
  let (result, r) := (loop pause (Record.call op) 1 b).run ⟨s, 0, [], []⟩
  ⟨result, r.state, r.calls, r.delays.reverse, r.logs.reverse⟩

def withWarnings (operation : String) (describe : ε → String) (op : σ → Except ε α × σ)
    (b : Backoff) (s : σ) : Attempts σ ε α :=
  run (fun attempt e delay => [warning operation attempt (describe e) delay]) op b s

def silently (op : σ → Except ε α × σ) (b : Backoff) (s : σ) : Attempts σ ε α :=
  run (fun _ _ _ => []) op b s

end Retry

end Telemetry
