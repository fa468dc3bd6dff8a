import Mathlib.Data.Nat.Fib.Basic
import Telemetry.Backoff
/-!
The delays of a backoff. However often it is asked, it gives the multiples of its start by the Fibonacci
numbers, each cut to the cap, and after as many as there are retries it gives nothing any more. The
numbers it keeps are cut to the longest duration, which no delay can tell from exact ones.
-/

namespace Telemetry

namespace Duration

theorem nanos_add (a b : Duration) : (a.add b).nanos = Min.min (a.nanos + b.nanos) limit := rfl

theorem nanos_min (a b : Duration) : (a.min b).nanos = Min.min a.nanos b.nanos := by
  unfold Duration.min
  by_cases h : a.nanos ≤ b.nanos
  · rw [if_pos h]
    exact (Nat.min_eq_left h).symm
  · rw [if_neg h]
    exact (Nat.min_eq_right (Nat.le_of_not_le h)).symm

end Duration

namespace Backoff

variable {start cap delay : Duration} {retries i : Nat} {b rest : Backoff}

theorem step?_cases (b : Backoff) : (b.step? = .none ∧ b.remaining = 0) ∨
    ∃ delay rest, b.step? = some (delay, rest) ∧ b.remaining = rest.remaining + 1 := by
  rw [step?]
  by_cases used : b.remaining = 0
  · rw [if_pos used]
    exact .inl ⟨rfl, used⟩
  · rw [if_neg used]
    refine .inr ⟨_, _, rfl, ?_⟩
    show b.remaining = b.remaining - 1 + 1
    omega

/-- What is left when a backoff has been asked for a delay. One that has none is left as it is. -/
def asked (b : Backoff) : Backoff := (b.step?.map Prod.snd).getD b

def delay? (b : Backoff) (i : Nat) : Option Duration := (asked^[i] b).step?.map Prod.fst

theorem delay?_zero (h : b.step? = some (delay, rest)) : b.delay? 0 = some delay := by
  rw [delay?, Function.iterate_zero, id, h, Option.map_some]

theorem delay?_succ (h : b.step? = some (delay, rest)) (i : Nat) : b.delay? (i + 1) = rest.delay? i := by
  have next : b.asked = rest := by rw [asked, h, Option.map_some, Option.getD_some]
  rw [delay?, Function.iterate_succ_apply, next, delay?]

theorem delay?_of_used (h : b.remaining = 0) (i : Nat) : b.delay? i = .none := by
  have used : b.step? = .none := if_pos h
  have same : b.asked = b := by rw [asked, used, Option.map_none, Option.getD_none]
  rw [delay?, Function.iterate_fixed same, used, Option.map_none]

/-- The state of a backoff that has been asked `i` times, while it has delays: the two numbers it keeps
are the exact multiples of the start as far as they are durations. -/
structure Reached (start cap : Duration) (retries i : Nat) (b : Backoff) : Prop where
  current : b.current.nanos = min (Nat.fib (i + 2) * start.nanos) Duration.limit
  next : b.next.nanos = min (Nat.fib (i + 3) * start.nanos) Duration.limit
  cap : b.cap = cap
  remaining : b.remaining + i = retries

theorem exists_reached (cap : Duration) (retries : Nat) (fits : 2 * start.nanos ≤ Duration.limit) :
    ∃ b, fibonacci? start cap retries = some b ∧ Reached start cap retries 0 b := by
  have double : Duration.ofNanos? (2 * start.nanos) = some ⟨2 * start.nanos, fits⟩ := dif_pos fits
  refine ⟨⟨start, ⟨2 * start.nanos, fits⟩, cap, retries⟩, ?_, ?_⟩
  · rw [fibonacci?, double, Option.map_some]
  · constructor
    case current =>
      show start.nanos = min (1 * start.nanos) Duration.limit
      rw [Nat.one_mul]
      exact (Nat.min_eq_left start.bound).symm
    case next => exact (Nat.min_eq_left fits).symm
    case cap => rfl
    case remaining => rfl

/-- A delay is exact, for a duration that is cut is over every cap. -/
theorem Reached.step (h : Reached start cap retries i b) (more : i < retries) :
    ∃ delay rest, b.step? = some (delay, rest) ∧
      delay.nanos = min cap.nanos (Nat.fib (i + 2) * start.nanos) ∧
      Reached start cap retries (i + 1) rest := by
  have left := h.remaining
  refine ⟨_, _, if_neg (by omega), ?_, ?_⟩
  · have within := cap.bound
    rw [Duration.nanos_min, h.current, h.cap]
    omega
  · constructor
    case current => exact h.next
    case next =>
      show (b.current.add b.next).nanos = min (Nat.fib (i + 4) * start.nanos) Duration.limit
      have sum : Nat.fib (i + 4) * start.nanos =
          Nat.fib (i + 2) * start.nanos + Nat.fib (i + 3) * start.nanos := by
        rw [Nat.fib_add_two, Nat.add_mul]
      rw [Duration.nanos_add, h.current, h.next]
      omega
    case cap => exact h.cap
    case remaining =>
      show b.remaining - 1 + (i + 1) = retries
      omega

theorem Reached.delay?_eq (h : Reached start cap retries i b) (j : Nat) :
    (b.delay? j).map Duration.nanos = if i + j < retries then
      some (min cap.nanos (Nat.fib (i + j + 2) * start.nanos)) else .none := by
  have left := h.remaining
  induction j generalizing i b with
  | zero =>
    rw [Nat.add_zero]
    by_cases more : i < retries
    · obtain ⟨delay, rest, step, length, -⟩ := h.step more
      rw [delay?_zero step, Option.map_some, length, if_pos more]
    · rw [delay?_of_used (by omega), Option.map_none, if_neg more]
  | succ j ih =>
    by_cases more : i < retries
    · obtain ⟨delay, rest, step, -, reached⟩ := h.step more
      rw [delay?_succ step, ih reached reached.remaining, Nat.add_right_comm i 1 j, Nat.add_assoc i j 1]
    · rw [delay?_of_used (by omega), Option.map_none, if_neg (by omega)]

theorem Reached.take_eq (h : Reached start cap retries i b) (count : Nat) :
    (b.take count).map Duration.nanos = (List.range' i (min count (retries - i))).map
      fun j => min cap.nanos (Nat.fib (j + 2) * start.nanos) := by
  induction count generalizing i b with
  | zero => simp [take]
  | succ count ih =>
    have left := h.remaining
    by_cases more : i < retries
    · obtain ⟨delay, rest, step, length, reached⟩ := h.step more
      have count' : min (count + 1) (retries - i) = min count (retries - (i + 1)) + 1 := by omega
      rw [take, step, count', List.range'_succ]
      dsimp only
      rw [List.map_cons, List.map_cons, length, ih reached]
    · have used : b.step? = .none := if_pos (by omega)
      have none' : min (count + 1) (retries - i) = 0 := by omega
      rw [take, used, none']
      rfl

/-- A backoff whose start can be doubled gives as many delays as there are retries, and nothing when it
is asked again. Each is the multiple of the start by its Fibonacci number, cut to the cap, even where
that number of starts is longer than any duration. So no delay is shorter than one before it. -/
theorem delays_of_fibonacci (start cap : Duration) (retries : Nat)
    (fits : 2 * start.nanos ≤ Duration.limit) : ∃ b, fibonacci? start cap retries = some b ∧
      (∀ i, (b.delay? i).map Duration.nanos =
        if i < retries then some (min cap.nanos (Nat.fib (i + 2) * start.nanos)) else .none) ∧
      (∀ count, (b.take count).map Duration.nanos = (List.range (min count retries)).map
        fun i => min cap.nanos (Nat.fib (i + 2) * start.nanos)) ∧
      ∀ i j early late, i ≤ j → b.delay? i = some early → b.delay? j = some late →
        early.nanos ≤ late.nanos ∧ late.nanos ≤ cap.nanos := by
  obtain ⟨b, made, reached⟩ := exists_reached cap retries fits
  have answers (i : Nat) := reached.delay?_eq i
  simp only [Nat.zero_add] at answers
  have value {i : Nat} {delay : Duration} (h : b.delay? i = some delay) :
      delay.nanos = min cap.nanos (Nat.fib (i + 2) * start.nanos) := by
    have known := answers i
    rw [h, Option.map_some] at known
    split at known
    · exact Option.some.inj known
    · cases known
  refine ⟨b, made, answers, fun count => ?_, fun i j early late le first second => ?_⟩
  · rw [reached.take_eq, List.range_eq_range', Nat.sub_zero]
  have grows : Nat.fib (i + 2) * start.nanos ≤ Nat.fib (j + 2) * start.nanos :=
    Nat.mul_le_mul_right _ (Nat.fib_mono (by omega))
  rw [value first, value second]
  omega

example : (standard.take 9).map Duration.seconds = [1, 2, 2, 2] := by decide

/-- The longest start that can be doubled. Its third multiple is no duration. -/
def longestStart : Duration := ⟨Duration.limit / 2, Nat.div_le_self _ _⟩

theorem longestStart_delays : 2 * longestStart.nanos ≤ Duration.limit ∧
    Duration.limit < Nat.fib 4 * longestStart.nanos ∧
    ∃ b, fibonacci? longestStart (.ofNanos Duration.limit) 3 = some b ∧
      (b.take 9).map Duration.nanos = [Duration.limit / 2, Duration.limit - 1, Duration.limit] ∧
      b.delay? 3 = .none := by
  have fits : 2 * longestStart.nanos ≤ Duration.limit := by decide
  obtain ⟨b, made, answers, list, -⟩ := delays_of_fibonacci longestStart (.ofNanos Duration.limit) 3 fits
  refine ⟨fits, by decide, b, made, (list 9).trans (by decide), ?_⟩
  exact Option.map_eq_none_iff.mp (answers 3)

end Backoff

end Telemetry
