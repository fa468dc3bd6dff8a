import Telemetry.Count
/-!
Delays between attempts that grow like the Fibonacci numbers, up to a cap.
-/

namespace Telemetry

def nanosPerSecond : Nat := 1000000000
def nanosPerMilli : Nat := 1000000

/-- The longest duration, in nanoseconds: its seconds fit in a word. -/
def Duration.limit : Nat := wordCount * nanosPerSecond - 1

structure Duration where
  nanos : Nat
  bound : nanos ≤ Duration.limit
  deriving DecidableEq

namespace Duration

/-- A length of time; what is too long is cut to the longest. -/
def ofNanos (n : Nat) : Duration := ⟨min n limit, Nat.min_le_right n limit⟩

def ofNanos? (n : Nat) : Option Duration := if h : n ≤ limit then some ⟨n, h⟩ else none
def ofMillis (n : Nat) : Duration := ofNanos (n * nanosPerMilli)
def ofSeconds (n : Nat) : Duration := ofNanos (n * nanosPerSecond)

def zero : Duration := ofNanos 0

def seconds (d : Duration) : Nat := d.nanos / nanosPerSecond
def millis (d : Duration) : Nat := d.nanos / nanosPerMilli

def add (a b : Duration) : Duration := ofNanos (a.nanos + b.nanos)

def min (a b : Duration) : Duration := if a.nanos ≤ b.nanos then a else b

end Duration

/-- The two newest numbers of the sequence, the cap, and how many delays are left. -/
structure Backoff where
  current : Duration
  next : Duration
  cap : Duration
  remaining : Nat
  deriving DecidableEq

namespace Backoff

/-- Defined only where the doubled start is still a duration. -/
def fibonacci? (start cap : Duration) (retries : Nat) : Option Backoff :=
  (Duration.ofNanos? (2 * start.nanos)).map fun next => ⟨start, next, cap, retries⟩

/-- No delay at all: one attempt. -/
def none : Backoff := ⟨.zero, .zero, .zero, 0⟩

def standard : Backoff := ⟨.ofSeconds 1, .ofSeconds 2, .ofSeconds 2, 4⟩

def overflowMessage : String := "overflow when multiplying duration by scalar"

def step? (b : Backoff) : Option (Duration × Backoff) :=
  if b.remaining = 0 then .none
  else some (b.current.min b.cap, ⟨b.next, b.current.add b.next, b.cap, b.remaining - 1⟩)

def take : Nat → Backoff → List Duration
  | 0, _ => []
  | count + 1, b =>
    match b.step? with
    | some (delay, rest) => delay :: take count rest
    | .none => []

theorem step?_remaining {b rest : Backoff} {delay : Duration} (h : b.step? = some (delay, rest)) :
    rest.remaining < b.remaining := by
  unfold step? at h
  split at h
  · exact absurd h (by simp)
  · have := (Prod.mk.inj (Option.some.inj h)).2
    subst this
    show b.remaining - 1 < b.remaining
    omega

end Backoff

end Telemetry
