import Telemetry.Proofs.Storage.SavingThreads
import Telemetry.Proofs.Storage.WriteTraces
/-!
What the file of a memory holds while threads change and save the memory. A content is captured by
the one that has the lock of the savers, so it is never older than the content that was written
before; and a thread whose save succeeded captured the content after its own change.
-/

namespace Telemetry

open Storage FileTree

def Snapshot.replay (s : Snapshot) (calls : List Call) : Snapshot :=
  calls.foldl (fun s c => (s.revise? c).getD s) s

theorem Snapshot.replay_snoc (s : Snapshot) (calls : List Call) (c : Call) :
    s.replay (calls ++ [c]) = ((s.replay calls).revise? c).getD (s.replay calls) := by
  rw [replay, List.foldl_append]
  rfl

namespace Threads

variable {ι : Type} {s t : Threads ι} {origin : Threads ι}

def after (origin s : Threads ι) (n : Nat) : Snapshot := origin.content.replay (s.applied.take n)

/-- What came of a state: more changes, of which the file holds as many as before or more. -/
structure Later (s t : Threads ι) : Prop where
  applied : s.applied <+: t.applied
  saved : ∀ n, s.saved = some n → ∃ m, t.saved = some m ∧ n ≤ m

theorem Later.of_eq (applied : t.applied = s.applied) (saved : t.saved = s.saved) : Later s t :=
  ⟨applied ▸ List.prefix_rfl, fun n h => ⟨n, saved.trans h, le_refl n⟩⟩

theorem Later.refl (s : Threads ι) : Later s s := .of_eq rfl rfl

theorem Later.trans {u : Threads ι} (h : Later s t) (k : Later t u) : Later s u := by
  refine ⟨h.applied.trans k.applied, fun n hn => ?_⟩
  obtain ⟨m, hm, le⟩ := h.saved n hn
  obtain ⟨l, hl, le'⟩ := k.saved m hm
  exact ⟨l, hl, le.trans le'⟩

theorem Later.after (h : Later s t) {n : Nat} (hn : n ≤ s.applied.length) :
    after origin t n = after origin s n := by
  obtain ⟨rest, split⟩ := h.applied
  rw [Threads.after, Threads.after, ← split, List.take_append_of_le_length hn]

/-- The changes were made one after the other, and the content is that after all of them. -/
structure Recorded (origin s : Threads ι) : Prop where
  content : s.content = after origin s s.applied.length
  accepted : ∀ n c, s.applied[n]? = some c →
    (after origin s n).revise? c = some (after origin s (n + 1))

def Made (s : Threads ι) (x : Change) : Prop := s.applied[x.position]? = some x.call

/-- The file is as it was, or holds the content after the changes that count as saved. -/
structure OnDisk (origin s : Threads ι) (p : Path) : Prop where
  base : s.files.base = origin.files.base
  unsaved : s.saved = none → Keeps p origin.files s.files
  saved : ∀ n, s.saved = some n → n ≤ s.applied.length ∧ s.files.Ready p ∧
    s.files.read? p = some (after origin s n).encode

/-- A content that was captured: no older than what the file holds, and after the change for the sake
of which it is written. -/
structure Captured (s : Threads ι) (change : Option Change) (count : Nat) : Prop where
  made : ∀ x, change = some x → Made s x
  covers : ∀ x, change = some x → x.position < count
  bound : count ≤ s.applied.length
  newest : ∀ n, s.saved = some n → n ≤ count

/-- A change that was answered without an error is in the file. -/
def Kept (s : Threads ι) (r : Return) : Prop :=
  ∀ x, r.change = some x → Made s x ∧ (r.result = .ok () → ∃ n, s.saved = some n ∧ x.position < n)

def Safe (origin s : Threads ι) (p : Path) : Stage → Prop
  | .idle => True
  | .waiting change | .locked change => ∀ x, change = some x → Made s x
  | .captured change count bytes => Captured s change count ∧ bytes = (after origin s count).encode
  | .writing change count trees result => Captured s change count ∧
    (AtomicWrite.Replaces p (after origin s count).encode s.files ⟨trees, result⟩ ∨
      trees = [] ∧ s.saved = some count)
  | .leaving change result => Kept s ⟨change, result⟩

theorem Made.later {x : Change} (h : Made s x) (later : Later s t) : Made t x := by
  obtain ⟨rest, split⟩ := later.applied
  obtain ⟨inside, -⟩ := List.getElem?_eq_some_iff.mp h
  rw [Made, ← split, List.getElem?_append_left inside]
  exact h

theorem Kept.later {r : Return} (h : Kept s r) (later : Later s t) : Kept t r := by
  intro x hx
  obtain ⟨made, saved⟩ := h x hx
  refine ⟨made.later later, fun ok => ?_⟩
  obtain ⟨n, hn, lt⟩ := saved ok
  obtain ⟨m, hm, le⟩ := later.saved n hn
  exact ⟨m, hm, lt.trans_le le⟩

theorem Captured.later {change : Option Change} {count : Nat} (h : Captured s change count)
    (later : Later s t) (saved : t.saved = s.saved) : Captured t change count where
  made x hx := (h.made x hx).later later
  covers := h.covers
  bound := h.bound.trans later.applied.length_le
  newest n hn := h.newest n (saved ▸ hn)

/-- Other threads may change the content at any time; what a thread with the lock relies on, nobody
else changes. -/
theorem Safe.later {p : Path} {stage : Stage} (h : Safe origin s p stage) (later : Later s t)
    (locked : stage.holds = true → t.files = s.files ∧ t.saved = s.saved) : Safe origin t p stage := by
  cases stage with
  | idle => trivial
  | waiting change => exact fun x hx => (h x hx).later later
  | locked change => exact fun x hx => (h x hx).later later
  | captured change count bytes =>
    obtain ⟨-, saved⟩ := locked rfl
    obtain ⟨captured, hbytes⟩ := h
    exact ⟨captured.later later saved, hbytes.trans (by rw [later.after captured.bound])⟩
  | writing change count trees result =>
    obtain ⟨files, saved⟩ := locked rfl
    obtain ⟨captured, writes⟩ := h
    refine ⟨captured.later later saved, ?_⟩
    rw [later.after captured.bound, files, saved]
    exact writes
  | leaving change result => exact Kept.later h later

structure Invariant (origin s : Threads ι) (p : Path) : Prop where
  path : s.path = origin.path
  recorded : Recorded origin s
  disk : OnDisk origin s p
  holder : ∀ i, (s.stage i).holds = true → s.holder = some i
  safe : ∀ i, Safe origin s p (s.stage i)
  kept : ∀ r ∈ s.returned, Kept s r

variable {p : Path} {i : ι}

theorem Invariant.alone (h : Invariant origin s p) (hi : (s.stage i).holds = true) {j : ι}
    (hj : (s.stage j).holds = true) : j = i :=
  Option.some.inj ((h.holder j hj).symm.trans (h.holder i hi))

theorem start_invariant (content : Snapshot) (path : String) (files : FileTree) :
    Invariant (start content path files : Threads ι) (start content path files)
      (.ofText files.base path) where
  path := rfl
  recorded := ⟨rfl, fun _ _ hc => nomatch hc⟩
  disk := ⟨rfl, fun _ => .refl _ files, fun _ hn => nomatch hn⟩
  holder _ hi := nomatch hi
  safe _ := trivial
  kept _ hr := nomatch hr

theorem Recorded.call (h : Recorded origin s) {c : Call} {u : Snapshot}
    (hu : s.content.revise? c = some u) (applied : t.applied = s.applied ++ [c])
    (content : t.content = u) : Recorded origin t := by
  have first {n : Nat} (hn : n ≤ s.applied.length) : after origin t n = after origin s n := by
    rw [after, applied, List.take_append_of_le_length hn, after]
  have last : after origin t (s.applied.length + 1) = u := by
    have whole := h.content
    rw [after, List.take_length] at whole
    rw [after, applied, List.take_of_length_le (by simp), Snapshot.replay_snoc, ← whole, hu]
    rfl
  constructor
  case content => rw [content, applied, List.length_append, List.length_singleton, last]
  case accepted =>
    intro n d hd
    rw [applied] at hd
    by_cases hn : n < s.applied.length
    · rw [List.getElem?_append_left hn] at hd
      rw [first (by omega), first (by omega)]
      exact h.accepted n d hd
    · -- The new change is the last one.
      obtain ⟨inside, -⟩ := List.getElem?_eq_some_iff.mp hd
      obtain rfl : n = s.applied.length := by
        rw [List.length_append, List.length_singleton] at inside
        omega
      obtain rfl : c = d := by simpa using hd
      rw [first (le_refl _), last, ← h.content]
      exact hu

variable [DecidableEq ι]

theorem Invariant.frame (h : Invariant origin s p) {stage : Stage} (later : Later s t)
    (path : t.path = s.path) (entered : t.stage = (s.enter i stage).stage)
    (recorded : Recorded origin t) (disk : OnDisk origin t p)
    (locked : ∀ j, j ≠ i → (s.stage j).holds = true →
      t.holder = s.holder ∧ t.files = s.files ∧ t.saved = s.saved)
    (holder : stage.holds = true → t.holder = some i) (safe : Safe origin t p stage)
    (kept : ∀ r ∈ t.returned, r ∈ s.returned ∨ Kept t r) : Invariant origin t p := by
  refine ⟨path.trans h.path, recorded, disk, fun j hj => ?_, fun j => ?_, fun r hr => ?_⟩
  · rw [entered] at hj
    by_cases same : j = i
    · subst same
      rw [stage_enter_self] at hj
      exact holder hj
    · rw [stage_enter_of_ne same] at hj
      rw [(locked j same hj).1]
      exact h.holder j hj
  · rw [entered]
    by_cases same : j = i
    · subst same
      rw [stage_enter_self]
      exact safe
    · rw [stage_enter_of_ne same]
      exact (h.safe j).later later fun hj => (locked j same hj).2
  · rcases kept r hr with old | new
    · exact (h.kept r old).later later
    · exact new

theorem Invariant.quiet (h : Invariant origin s p) {stage : Stage} {holder : Option ι}
    {returned : List Return}
    (others : ∀ j, j ≠ i → (s.stage j).holds = true → holder = s.holder)
    (self : stage.holds = true → holder = some i) (safe : Safe origin s p stage)
    (kept : ∀ r ∈ returned, r ∈ s.returned ∨ Kept s r) :
    Invariant origin { s.enter i stage with holder := holder, returned := returned } p := by
  have later : Later s { s.enter i stage with holder := holder, returned := returned } :=
    .of_eq rfl rfl
  apply h.frame later rfl (i := i) rfl
  · exact ⟨h.recorded.content, h.recorded.accepted⟩
  · exact ⟨h.disk.base, h.disk.unsaved, h.disk.saved⟩
  · exact fun j hj held => ⟨others j hj held, rfl, rfl⟩
  · exact self
  · exact safe.later later fun _ => ⟨rfl, rfl⟩
  · exact fun r hr => (kept r hr).imp_right fun k => k.later later

theorem later_call (s : Threads ι) (i : ι) (c : Call) : Later s (s.call i c) := by
  unfold Threads.call
  cases s.content.revise? c with
  | none => exact .refl s
  | some u => exact ⟨List.prefix_append _ _, fun n hn => ⟨n, hn, le_refl n⟩⟩

theorem later_install {change : Option Change} {count : Nat} (h : Captured s change count) (i : ι)
    (tree : FileTree) (trees : List FileTree) (result : Except Error Unit) :
    Later s (s.install i change count tree trees result) := by
  refine ⟨List.prefix_rfl, fun n hn => ?_⟩
  unfold Threads.install
  split
  · exact ⟨count, rfl, h.newest n hn⟩
  · exact ⟨n, hn, le_refl n⟩

theorem Invariant.call (h : Invariant origin s p) (i : ι) (c : Call) :
    Invariant origin (s.call i c) p := by
  have later := later_call s i c
  unfold Threads.call at later ⊢
  cases hu : s.content.revise? c with
  | none => exact h
  | some u =>
    rw [hu] at later
    dsimp only at later ⊢
    apply h.frame later rfl (i := i) rfl
    · exact h.recorded.call hu rfl rfl
    · refine ⟨h.disk.base, h.disk.unsaved, fun n hn => ?_⟩
      obtain ⟨bound, ready, read⟩ := h.disk.saved n hn
      refine ⟨bound.trans later.applied.length_le, ready, ?_⟩
      rw [later.after bound]
      exact read
    · exact fun _ _ _ => ⟨rfl, rfl, rfl⟩
    · exact fun held => nomatch held
    · intro x hx
      obtain rfl := Option.some.inj hx
      exact List.getElem?_concat_length
    · exact fun r hr => .inl hr

theorem Invariant.install (h : Invariant origin s p) {change : Option Change} {count : Nat}
    {tree : FileTree} {trees : List FileTree} {result : Except Error Unit}
    (hs : s.stage i = .writing change count (tree :: trees) result) :
    Invariant origin (s.install i change count tree trees result) p := by
  have held : (s.stage i).holds = true := by rw [hs]; rfl
  have safe := h.safe i
  rw [hs] at safe
  obtain ⟨captured, writes⟩ := safe
  have later := later_install captured i tree trees result
  suffices written : OnDisk origin (s.install i change count tree trees result) p ∧
      Safe origin (s.install i change count tree trees result) p
        (.writing change count trees result) by
    apply h.frame later rfl (i := i) rfl
    · exact ⟨h.recorded.content, h.recorded.accepted⟩
    · exact written.1
    · exact fun j other held' => absurd (h.alone held held') other
    · exact fun _ => h.holder i held
    · exact written.2
    · exact fun r hr => .inl hr
  rcases (writes.resolve_right (by simp)).step with ⟨kept, rest⟩ | ⟨rfl, rfl, base, ready, read⟩
  · have same : (s.install i change count tree trees result).saved = s.saved := by
      cases trees with
      | cons u trees => rfl
      | nil =>
        cases result with
        | error e => rfl
        | ok _ => exact absurd rest AtomicWrite.not_replaces_nil
    refine ⟨⟨kept.base.trans h.disk.base, fun hn => ?_, fun n hn => ?_⟩, ?_⟩
    · exact (h.disk.unsaved (same.symm.trans hn)).trans kept
    · obtain ⟨bound, ready, read⟩ := h.disk.saved n (same.symm.trans hn)
      exact ⟨bound, kept.ready ready, (kept.read? ready).trans read⟩
    · exact ⟨captured.later later same, .inl rest⟩
  · refine ⟨⟨base.trans h.disk.base, (fun hn => nomatch hn), fun n hn => ?_⟩, ?_, .inr ⟨rfl, rfl⟩⟩
    · obtain rfl := Option.some.inj hn
      exact ⟨captured.bound, ready, read⟩
    · exact ⟨captured.made, captured.covers, captured.bound, fun n hn => (Option.some.inj hn).ge⟩

theorem Invariant.proceed (h : Invariant origin s (.ofText origin.files.base origin.path))
    (fault : Option AtomicWrite.Step) (written : Nat) :
    Invariant origin (s.proceed i fault written) (.ofText origin.files.base origin.path) := by
  have safe := h.safe i
  unfold Threads.proceed
  cases hs : s.stage i with
  | idle => exact h
  | waiting change =>
    rw [hs] at safe
    dsimp only
    cases hh : s.holder with
    | some j => exact h
    | none =>
      refine h.quiet (fun j _ held => ?_) (fun _ => rfl) safe fun r hr => .inl hr
      rw [h.holder j held] at hh
      cases hh
  | locked change =>
    rw [hs] at safe
    -- All changes so far are in the content, its own and those that were saved among them.
    have captured : Captured s change s.applied.length :=
      ⟨safe, fun x hx => (List.getElem?_eq_some_iff.mp (safe x hx)).1, le_refl _,
        fun n hn => (h.disk.saved n hn).1⟩
    refine h.quiet (fun _ _ _ => rfl) (fun _ => h.holder i (by rw [hs]; rfl)) ?_ fun r hr => .inl hr
    exact ⟨captured, congrArg Snapshot.encode h.recorded.content⟩
  | captured change count bytes =>
    rw [hs] at safe
    obtain ⟨captured, rfl⟩ := safe
    refine h.quiet (fun _ _ _ => rfl) (fun _ => h.holder i (by rw [hs]; rfl)) ?_ fun r hr => .inl hr
    have replaces := AtomicWrite.attempt_replaces fault written s.files s.path
      (Threads.after origin s count).encode
    rw [h.path, h.disk.base] at replaces
    rw [h.path]
    exact ⟨captured, .inl replaces⟩
  | writing change count trees result =>
    cases trees with
    | cons tree trees => exact h.install hs
    | nil =>
      rw [hs] at safe
      obtain ⟨captured, writes⟩ := safe
      have held : (s.stage i).holds = true := by rw [hs]; rfl
      refine h.quiet (fun j other held' => absurd (h.alone held held') other) (fun no => nomatch no)
        ?_ fun r hr => .inl hr
      intro x hx
      refine ⟨captured.made x hx, fun ok => ?_⟩
      obtain rfl : result = .ok () := ok
      rcases writes with writes | ⟨-, saved⟩
      · exact absurd writes AtomicWrite.not_replaces_nil
      · exact ⟨count, saved, captured.covers x hx⟩
  | leaving change result =>
    -- What is returned held when the lock was let go, and holds still.
    rw [hs] at safe
    refine h.quiet (fun _ _ _ => rfl) (fun no => nomatch no) trivial fun r hr => ?_
    rcases List.mem_append.mp hr with hr | hr
    · exact .inl hr
    · obtain rfl := List.mem_singleton.mp hr
      exact .inr safe

theorem Invariant.later_proceed (h : Invariant origin s p) (i : ι)
    (fault : Option AtomicWrite.Step) (written : Nat) : Later s (s.proceed i fault written) := by
  have safe := h.safe i
  unfold Threads.proceed
  cases hs : s.stage i with
  | idle => exact .refl s
  | waiting change =>
    dsimp only
    cases s.holder with
    | none => exact .of_eq rfl rfl
    | some j => exact .refl s
  | locked change => exact .of_eq rfl rfl
  | captured change count bytes => exact .of_eq rfl rfl
  | writing change count trees result =>
    rw [hs] at safe
    cases trees with
    | nil => exact .of_eq rfl rfl
    | cons tree trees => exact later_install safe.1 i tree trees result
  | leaving change result => exact .of_eq rfl rfl

theorem step_preserves_invariant (h : Invariant origin s (.ofText origin.files.base origin.path))
    (e : Event ι) :
    Invariant origin (s.next e) (.ofText origin.files.base origin.path) ∧ Later s (s.next e) := by
  cases e with
  | call i c =>
    rw [next]
    split
    · exact ⟨h.call i c, later_call s i c⟩
    · exact ⟨h, .refl s⟩
  | save i =>
    rw [next]
    split
    · refine ⟨h.quiet (fun _ _ _ => rfl) ?_ ?_ fun r hr => .inl hr, .of_eq rfl rfl⟩
      · intro no
        cases no
      · intro x hx
        cases hx
    · exact ⟨h, .refl s⟩
  | proceed i fault written => exact ⟨h.proceed fault written, h.later_proceed i fault written⟩

theorem run_preserves_invariant (h : Invariant origin s (.ofText origin.files.base origin.path))
    (events : List (Event ι)) :
    Invariant origin (s.run events) (.ofText origin.files.base origin.path) ∧
      Later s (s.run events) := by
  induction events generalizing s with
  | nil => exact ⟨h, .refl s⟩
  | cons e events ih =>
    obtain ⟨hnext, later⟩ := step_preserves_invariant h e
    obtain ⟨hrun, later'⟩ := ih hnext
    exact ⟨hrun, later.trans later'⟩

/-- After every run the file is as it was at first, or holds the content after some number of the
changes; that number never gets less, and it takes in every change that was answered without an
error. -/
theorem answered_changes_stay (content : Snapshot) (path : String) (files : FileTree)
    (events more : List (Event ι)) :
    let origin : Threads ι := start content path files
    let s := origin.run events
    Recorded origin s ∧ OnDisk origin s (.ofText files.base path) ∧ (∀ r ∈ s.returned, Kept s r) ∧
      Later s (s.run more) := by
  obtain ⟨h, -⟩ := run_preserves_invariant (start_invariant (ι := ι) content path files) events
  obtain ⟨-, later⟩ := run_preserves_invariant h more
  exact ⟨h.recorded, h.disk, h.kept, later⟩

/-- The second of two threads saves both changes before the first one saves. -/
example :
    let s := (start .empty "metrics.json" (.empty "/work") : Threads Bool).run
      ([.call false (.putCounter "PollCount" .one), .call true (.putCounter "PollCount" .one)] ++
        List.replicate 9 (.proceed true none 0) ++ List.replicate 9 (.proceed false none 0))
    s.saved = some 2 ∧ s.returned.map Return.result = [.ok (), .ok ()] := by
  decide +kernel

end Threads

end Telemetry
