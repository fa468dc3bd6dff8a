import Telemetry.Proofs.Backoff
import Telemetry.Retry
/-!
Operations that are repeated. Whatever the attempts answer, they are made up to the first that succeeds,
and at most one more than there are delays; before each but the first comes the next delay, and its
report where failures are reported. The last answer is that of the last attempt.
-/

namespace Telemetry.Retry

variable {σ ε α : Type} {op : σ → Except ε α × σ} {report : Nat → ε → Duration → List Log.Event}
  {b rest : Backoff} {s t u : σ} {paused : List (ε × Duration)} {result : Except ε α}

/-- The answer of the attempt `k` if so many are made; attempts count from one. -/
def attempt (op : σ → Except ε α × σ) (s : σ) (k : Nat) : Except ε α :=
  (op ((fun s => (op s).2)^[k - 1] s)).1

structure FirstSuccess (op : σ → Except ε α × σ) (s : σ) (k : Nat) : Prop where
  counted : 1 ≤ k
  succeeds : ∃ a, attempt op s k = .ok a
  failed : ∀ i, 1 ≤ i → i < k → ∃ e, attempt op s i = .error e

/-- How repeating an operation goes: the errors of the attempts that are repeated with the delays behind
them, the last answer, and the state it leaves. -/
inductive Course (op : σ → Except ε α × σ) :
    Backoff → σ → List (ε × Duration) → Except ε α → σ → Prop
  | succeeded {b : Backoff} {s t : σ} {a : α} (call : op s = (.ok a, t)) : Course op b s [] (.ok a) t
  | exhausted {b : Backoff} {s t : σ} {e : ε} (call : op s = (.error e, t))
      (used : b.step? = none) : Course op b s [] (.error e) t
  | again {b rest : Backoff} {s t u : σ} {e : ε} {delay : Duration} {paused : List (ε × Duration)}
      {result : Except ε α} (call : op s = (.error e, t)) (more : b.step? = some (delay, rest))
      (later : Course op rest t paused result u) : Course op b s ((e, delay) :: paused) result u

theorem exists_course (op : σ → Except ε α × σ) (b : Backoff) (s : σ) :
    ∃ paused result t, Course op b s paused result t := by
  generalize left : b.remaining = n
  induction n generalizing b s with
  | zero =>
    cases call : op s with
    | mk answer t =>
      cases answer with
      | ok a => exact ⟨_, _, _, .succeeded call⟩
      | error e => exact ⟨_, _, _, .exhausted call (if_pos left)⟩
  | succ n ih =>
    cases call : op s with
    | mk answer t =>
      cases answer with
      | ok a => exact ⟨_, _, _, .succeeded call⟩
      | error e =>
        rcases b.step?_cases with ⟨-, used⟩ | ⟨delay, rest, more, fewer⟩
        · omega
        · obtain ⟨paused, result, u, later⟩ := ih rest t (by omega)
          exact ⟨_, _, _, .again call more later⟩

/-! ### The loop -/

theorem loop_eq {m : Type → Type} [Monad m] (pause : Nat → ε → Duration → m Unit)
    (op : m (Except ε α)) (n : Nat) (b : Backoff) : loop pause op n b = (do
      match ← op with
      | .ok a => return .ok a
      | .error e =>
        match b.step? with
        | none => return .error e
        | some (delay, rest) =>
          pause n e delay
          loop pause op (n + 1) rest) := by
  rw [loop]
  congr
  funext r
  cases r with
  | ok a => rfl
  | error e =>
    dsimp only
    split <;> simp only [*]

theorem run_bind {β γ : Type} (x : StateM (Record σ) β) (f : β → StateM (Record σ) γ)
    (r : Record σ) : (x >>= f) r = f (x r).1 (x r).2 := rfl

def reports (report : Nat → ε → Duration → List Log.Event) : Nat → List (ε × Duration) → List Log.Event
  | _, [] => []
  | n, (e, delay) :: paused => report n e delay ++ reports report (n + 1) paused

theorem loop_of_course (h : Course op b s paused result t)
    (report : Nat → ε → Duration → List Log.Event) (n calls : Nat) (delays : List Duration)
    (logs : List Log.Event) :
    loop (fun n e delay => Record.pause delay (report n e delay)) (Record.call op) n b
        ⟨s, calls, delays, logs⟩ =
      (result, ⟨t, calls + (paused.length + 1), (paused.map Prod.snd).reverse ++ delays,
        (reports report n paused).reverse ++ logs⟩) := by
  induction h generalizing n calls delays logs with
  | succeeded call =>
    rw [loop_eq, run_bind, Record.call, call]
    rfl
  | exhausted call used =>
    rw [loop_eq, run_bind, Record.call, call, used]
    rfl
  | @again b rest s t u e delay paused result call more later ih =>
    rw [loop_eq, run_bind, Record.call, call, more]
    refine (ih (n + 1) (calls + 1) (delay :: delays) ((report n e delay).reverse ++ logs)).trans ?_
    simp only [reports, List.length_cons, List.map_cons, List.reverse_cons, List.reverse_append,
      List.append_assoc, List.singleton_append, Nat.add_assoc, Nat.add_comm 1]

theorem run_of_course (h : Course op b s paused result t)
    (report : Nat → ε → Duration → List Log.Event) : Retry.run report op b s =
      ⟨result, t, paused.length + 1, paused.map Prod.snd, reports report 1 paused⟩ := by
  have run := loop_of_course h report 1 0 [] []
  simp only [Retry.run, StateT.run, run, List.append_nil, List.reverse_reverse, Nat.zero_add]

/-! ### What a course says of the attempts -/

theorem attempt_succ {answer : Except ε α} (call : op s = (answer, t)) (k : Nat) :
    attempt op s (k + 2) = attempt op t (k + 1) := by
  show (op ((fun s => (op s).2)^[k + 1] s)).1 = (op ((fun s => (op s).2)^[k] t)).1
  rw [Function.iterate_succ_apply, call]

namespace Course

theorem result_eq (h : Course op b s paused result t) : result = attempt op s (paused.length + 1) := by
  induction h with
  | succeeded call => exact (congrArg Prod.fst call).symm
  | exhausted call => exact (congrArg Prod.fst call).symm
  | again call more later ih => rw [ih, List.length_cons, attempt_succ call]

theorem state_eq (h : Course op b s paused result t) :
    t = (fun s => (op s).2)^[paused.length + 1] s := by
  induction h with
  | succeeded call => exact (congrArg Prod.snd call).symm
  | exhausted call => exact (congrArg Prod.snd call).symm
  | again call more later ih => rw [ih, List.length_cons, Function.iterate_succ_apply _ (_ + 1), call]

theorem failed (h : Course op b s paused result t) {i : Nat} {e : ε} {delay : Duration}
    (there : paused[i]? = some (e, delay)) : attempt op s (i + 1) = .error e := by
  induction h generalizing i with
  | succeeded => cases there
  | exhausted => cases there
  | again call more later ih =>
    cases i with
    | zero =>
      obtain ⟨rfl, rfl⟩ := Prod.mk.inj (Option.some.inj there)
      exact congrArg Prod.fst call
    | succ i =>
      rw [attempt_succ call]
      exact ih there

theorem delays_eq (h : Course op b s paused result t) :
    paused.map Prod.snd = b.take paused.length := by
  induction h with
  | succeeded => rfl
  | exhausted => rfl
  | again call more later ih => rw [List.map_cons, List.length_cons, Backoff.take, more, ih]

theorem length_le (h : Course op b s paused result t) : paused.length ≤ b.remaining := by
  induction h with
  | succeeded => exact Nat.zero_le _
  | exhausted => exact Nat.zero_le _
  | again call more later ih =>
    have fewer := Backoff.step?_remaining more
    rw [List.length_cons]
    omega

theorem last (h : Course op b s paused result t) :
    (∃ a, result = .ok a) ∨ (∃ e, result = .error e) ∧ paused.length = b.remaining := by
  induction h with
  | succeeded => exact .inl ⟨_, rfl⟩
  | @exhausted b s t e call used =>
    rcases b.step?_cases with ⟨-, zero⟩ | ⟨delay, rest, more, -⟩
    · exact .inr ⟨⟨e, rfl⟩, zero.symm⟩
    · cases used.symm.trans more
  | @again b rest s t u e delay paused result call more later ih =>
    refine ih.imp_right fun ⟨error, all⟩ => ⟨error, ?_⟩
    rcases b.step?_cases with ⟨used, -⟩ | ⟨_, other, more', fewer⟩
    · cases used.symm.trans more
    · obtain ⟨-, rfl⟩ := Prod.mk.inj (Option.some.inj (more'.symm.trans more))
      rw [List.length_cons, all, fewer]

end Course

/-! ### What comes of it -/

/-- What has come of an operation that was repeated: it was called up to its first success, or once
more than there are delays; before every call but the first came the next delay. -/
structure Repeated (op : σ → Except ε α × σ) (b : Backoff) (s : σ) (r : Attempts σ ε α) : Prop where
  success : ∀ k, FirstSuccess op s k → k ≤ b.remaining + 1 →
    r.calls = k ∧ r.result = attempt op s k
  failure : (∀ k, FirstSuccess op s k → b.remaining + 1 < k) → r.calls = b.remaining + 1 ∧
    ∃ e, attempt op s (b.remaining + 1) = .error e ∧ r.result = .error e
  state : r.state = (fun s => (op s).2)^[r.calls] s
  delays : r.delays = b.take (r.calls - 1)
  pauses : r.delays.length = r.calls - 1

theorem Course.repeated (h : Course op b s paused result t) (logs : List Log.Event) :
    Repeated op b s ⟨result, t, paused.length + 1, paused.map Prod.snd, logs⟩ := by
  have few := h.length_le
  have earlier (i : Nat) (first : 1 ≤ i) (before : i < paused.length + 1) :
      ∃ e, attempt op s i = .error e := by
    obtain ⟨i, rfl⟩ := Nat.exists_eq_add_of_le' first
    exact ⟨_, h.failed (List.getElem?_eq_getElem (by omega : i < paused.length))⟩
  constructor
  case success =>
    intro k hk within
    have reached : k ≤ paused.length + 1 := by
      by_contra beyond
      obtain ⟨e, error⟩ := hk.failed (paused.length + 1) (by omega) (by omega)
      rcases h.last with ⟨a, ok⟩ | ⟨-, all⟩
      · cases ok.symm.trans (h.result_eq.trans error)
      · omega
    have same : paused.length + 1 = k := by
      by_contra other
      obtain ⟨a, ok⟩ := hk.succeeds
      obtain ⟨e, error⟩ := earlier k hk.counted (by omega)
      cases ok.symm.trans error
    exact ⟨same, same ▸ h.result_eq⟩
  case failure =>
    intro never
    rcases h.last with ⟨a, ok⟩ | ⟨⟨e, error⟩, all⟩
    · have first : FirstSuccess op s (paused.length + 1) :=
        ⟨by omega, ⟨a, h.result_eq.symm.trans ok⟩, earlier⟩
      have := never _ first
      omega
    · rw [← all]
      exact ⟨rfl, e, h.result_eq.symm.trans error, error⟩
  case state => exact h.state_eq
  case delays => exact h.delays_eq
  case pauses => exact List.length_map _

theorem reports_single (note : Nat → ε → Duration → Log.Event) (n : Nat)
    (paused : List (ε × Duration)) : reports (fun k e delay => [note k e delay]) n paused =
      paused.mapIdx fun i x => note (n + i) x.1 x.2 := by
  induction paused generalizing n with
  | nil => rfl
  | cons x paused ih =>
    have shifted (i : Nat) : n + 1 + i = n + (i + 1) := by omega
    show note n x.1 x.2 :: reports _ (n + 1) paused = _
    rw [ih, List.mapIdx_cons]
    simp only [shifted, Nat.add_zero]

theorem reports_silent (n : Nat) (paused : List (ε × Duration)) :
    reports (fun _ _ _ => []) n paused = [] := by
  induction paused generalizing n with
  | nil => rfl
  | cons x paused ih => exact ih (n + 1)

/-- Repeating an operation calls it up to its first success and at most once more than there are
delays, and ends with the answer of the last call. Between two calls comes the next delay, and one
warning with the number of the failed attempt, its error and the delay in milliseconds, as a word of 64
bits. Without reports all is the same but for these warnings. -/
theorem repeats_until_success (operation : String) (describe : ε → String)
    (op : σ → Except ε α × σ) (b : Backoff) (s : σ) :
    let reported := withWarnings operation describe op b s
    let silent := silently op b s
    Repeated op b s reported ∧
    reported.logs.length = reported.delays.length ∧
    (∀ i delay, reported.delays[i]? = some delay → ∃ e, attempt op s (i + 1) = .error e ∧
      reported.logs[i]? = some ⟨.warn, "Attempt failed, retrying", [("operation", operation),
        ("attempt", toString (i + 1)), ("error", describe e),
        ("retry_in_ms", toString (delay.millis % wordCount))]⟩) ∧
    silent = { reported with logs := [] } := by
  intro reported silent
  obtain ⟨paused, result, t, course⟩ := exists_course op b s
  have loud : reported = ⟨result, t, paused.length + 1, paused.map Prod.snd,
      reports (fun k e delay => [warning operation k (describe e) delay]) 1 paused⟩ :=
    run_of_course course _
  have quiet : silent = ⟨result, t, paused.length + 1, paused.map Prod.snd, []⟩ := by
    rw [← reports_silent 1 paused]
    exact run_of_course course _
  rw [loud, quiet, reports_single]
  refine ⟨course.repeated _, ?_, fun i delay there => ?_, rfl⟩
  · rw [List.length_mapIdx, List.length_map]
  · obtain ⟨⟨e, _⟩, found, rfl⟩ := Option.map_eq_some_iff.mp (List.getElem?_map.symm.trans there)
    refine ⟨e, course.failed found, ?_⟩
    rw [List.getElem?_mapIdx, found, Option.map_some, Nat.add_comm 1 i]
    rfl

end Telemetry.Retry
