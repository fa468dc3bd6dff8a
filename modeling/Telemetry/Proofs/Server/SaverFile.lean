import Telemetry.Proofs.Server.SaverTask
import Telemetry.Proofs.Storage.InlineSaving
/-!
What the file of a memory holds that only one save at a time writes, while calls change the memory:
it is as it was at first, or holds the content that was captured last of those that were saved.
-/

namespace Telemetry

open Storage FileTree

theorem Memory.perform_files {m : Memory} {period : Duration} (mode : m.saveMode = .periodic period)
    (files : FileTree) (c : Call) : (m.perform files c).2.2 = files := by
  have kept (change : Except Error Snapshot) : (m.apply files change).2.2 = files := by
    cases change with
    | error e => rfl
    | ok s =>
      have mode' : (m.load s).saveMode = .periodic period := mode
      rw [apply, afterWrite, mode']
  have batch {α : Type} (entries : List α) (change : Except Error Snapshot) :
      (m.applyBatch files entries change).2.2 = files := by
    rw [applyBatch]
    by_cases void : entries.isEmpty = true
    · rw [if_pos void]
    · rw [if_neg void]
      exact kept change
  cases c with
  | putGauge | putCounter => exact kept _
  | putGauges | putCounters => exact batch _ _
  | backend | getGauge | getCounter | getAll | ping => rfl

/-- A batch without entries is no change, whether or not it counts as one. -/
theorem Snapshot.revise?_getD (s : Snapshot) (c : Call) :
    (s.revise? c).getD s = (s.change? c).getD s := by
  rw [revise?]
  by_cases void : c.isVoid = true
  · rw [if_pos void]
    cases c with
    | putGauges batch =>
      rw [Call.isVoid, ← Std.ExtTreeMap.isEmpty_toList] at void
      rw [change?, List.isEmpty_iff.mp void]
      rfl
    | putCounters batch =>
      rw [Call.isVoid, ← Std.ExtTreeMap.isEmpty_toList] at void
      rw [change?, List.isEmpty_iff.mp void]
      rfl
    | _ => cases void
  · rw [if_neg void]

namespace Server

namespace Saving

variable {s : Saving} {content : Snapshot} {files : FileTree} {p : Path}

/-- What the file is when only this memory writes it: as it was at first, or the content that was
captured last of those that were saved, which is the content after some number of the calls. -/
structure Latest (content : Snapshot) (files : FileTree) (p : Path) (s : Saving) : Prop where
  unsaved : s.saves = [] → Keeps p files s.files
  saved : ∀ n, s.saves.getLast? = some n → n ≤ s.applied.length ∧ s.files.Ready p ∧
    s.files.read? p = some (content.replay (s.applied.take n)).encode

/-- What a save has captured, and what it does to the file. -/
def Safe (content : Snapshot) (p : Path) (s : Saving) : Job → Prop
  | .captured path count bytes => Path.ofText s.files.base path = p ∧ count ≤ s.applied.length ∧
    bytes = (content.replay (s.applied.take count)).encode
  | .writing count trees result => count ≤ s.applied.length ∧
    (AtomicWrite.Replaces p (content.replay (s.applied.take count)).encode s.files ⟨trees, result⟩ ∨
      trees = [])
  | .idle | .handed | .finished _ => True

structure Stored (content : Snapshot) (files : FileTree) (p : Path) (s : Saving) : Prop where
  path : ∀ path, s.memory.snapshotPath = some path → Path.ofText files.base path = p
  periodic : ∃ period, s.memory.saveMode = .periodic period
  replayed : s.memory.content = content.replay s.applied
  base : s.files.base = files.base
  latest : Latest content files p s
  safe : Safe content p s s.job

theorem Stored.enter (h : Stored content files p s) {job : Job} (safe : Safe content p s job) :
    Stored content files p { s with job := job } :=
  ⟨h.path, h.periodic, h.replayed, h.base, ⟨h.latest.unsaved, h.latest.saved⟩, safe⟩

theorem Stored.call (h : Stored content files p s) (c : Call) :
    Stored content files p (s.call c) := by
  obtain ⟨period, mode⟩ := h.periodic
  have memory := s.memory.perform_memory s.files c
  have same := Memory.perform_files mode s.files c
  have first {n : Nat} (hn : n ≤ s.applied.length) : (s.applied ++ [c]).take n = s.applied.take n :=
    List.take_append_of_le_length hn
  have longer : s.applied.length ≤ (s.applied ++ [c]).length := by simp
  have called : s.call c = { s with
      memory := s.memory.load ((s.memory.content.change? c).getD s.memory.content)
      applied := s.applied ++ [c] } := by
    rw [Saving.call, memory, same]
  rw [called]
  constructor
  case path => exact h.path
  case periodic => exact ⟨period, mode⟩
  case replayed =>
    show (s.memory.content.change? c).getD s.memory.content = content.replay (s.applied ++ [c])
    rw [Snapshot.replay_snoc, ← h.replayed, Snapshot.revise?_getD]
  case base => exact h.base
  case latest =>
    refine ⟨h.latest.unsaved, fun n hn => ?_⟩
    obtain ⟨bound, ready, read⟩ := h.latest.saved n hn
    refine ⟨bound.trans longer, ready, ?_⟩
    rw [first bound]
    exact read
  case safe =>
    have safe := h.safe
    show Safe content p _ s.job
    cases hj : s.job with
    | idle | handed | finished => trivial
    | captured path count bytes =>
      rw [hj] at safe
      obtain ⟨target, bound, hbytes⟩ := safe
      refine ⟨target, bound.trans longer, ?_⟩
      rw [first bound]
      exact hbytes
    | writing count trees result =>
      rw [hj] at safe
      obtain ⟨bound, writes⟩ := safe
      refine ⟨bound.trans longer, ?_⟩
      rw [first bound]
      exact writes

theorem Stored.install (h : Stored content files p s) {count : Nat} {tree : FileTree}
    {trees : List FileTree} {result : Except Error Unit}
    (hj : s.job = .writing count (tree :: trees) result) :
    Stored content files p (s.install count tree trees result) := by
  have safe := h.safe
  rw [hj] at safe
  obtain ⟨bound, writes⟩ := safe
  rcases (writes.resolve_right (by simp)).step with ⟨kept, rest⟩ | ⟨rfl, rfl, base, ready, read⟩
  · have same : (s.install count tree trees result).saves = s.saves := by
      cases trees with
      | cons u trees => rfl
      | nil =>
        cases result with
        | error e => rfl
        | ok _ => exact absurd rest AtomicWrite.not_replaces_nil
    refine ⟨h.path, h.periodic, h.replayed, kept.base.trans h.base,
      ⟨fun none => ?_, fun n hn => ?_⟩, bound, .inl rest⟩
    · exact (h.latest.unsaved (same.symm.trans none)).trans kept
    · rw [same] at hn
      obtain ⟨within, ready, read⟩ := h.latest.saved n hn
      exact ⟨within, kept.ready ready, (kept.read? ready).trans read⟩
  · have last : (s.install count tree [] (.ok ())).saves = s.saves ++ [count] := rfl
    refine ⟨h.path, h.periodic, h.replayed, base.trans h.base, ⟨fun none => ?_, fun n hn => ?_⟩,
      bound, .inr rfl⟩
    · rw [last] at none
      exact absurd none (by simp)
    · rw [last, List.getLast?_concat] at hn
      obtain rfl := Option.some.inj hn
      exact ⟨bound, ready, read⟩

theorem Stored.work (h : Stored content files p s) (fault : Option AtomicWrite.Step)
    (written : Nat) : Stored content files p (s.work fault written) := by
  have safe := h.safe
  unfold Saving.work
  cases hj : s.job with
  | idle | finished => exact h
  | handed =>
    dsimp only
    cases hp : s.memory.snapshotPath with
    | none => exact h.enter trivial
    | some path =>
      have target := h.path path hp
      rw [← h.base] at target
      refine h.enter ⟨target, le_refl _, ?_⟩
      rw [List.take_length, h.replayed]
  | captured path count bytes =>
    rw [hj] at safe
    obtain ⟨target, bound, rfl⟩ := safe
    have replaces := AtomicWrite.attempt_replaces fault written s.files path
      (content.replay (s.applied.take count)).encode
    rw [target] at replaces
    exact h.enter ⟨bound, .inl replaces⟩
  | writing count trees result =>
    cases trees with
    | cons tree trees => exact h.install hj
    | nil => exact h.enter trivial

end Saving

/-- Writes that succeeded and that the task has not heard of. -/
def Job.succeeded : Job → Nat
  | writing _ [] (.ok _) | finished (.ok _) => 1
  | _ => 0

theorem Saving.succeeded_work (s : Saving) (fault : Option AtomicWrite.Step) (written : Nat) :
    (s.work fault written).saves.length + s.job.succeeded =
      s.saves.length + (s.work fault written).job.succeeded := by
  obtain ⟨job, ⟨content, path, mode⟩, files, applied, saves⟩ := s
  cases job with
  | idle | finished => rfl
  | handed =>
    cases path with
    | none => rfl
    | some path => rfl
  | captured path count bytes =>
    have course := AtomicWrite.attempt_course fault written files path bytes
    show saves.length + 0 = saves.length + (Job.writing count _ _).succeeded
    generalize AtomicWrite.attempt fault written files path bytes = o at course ⊢
    cases course with
    | refused | unpaved | uncreated | unwritten | renamed => rfl
  | writing count trees result =>
    cases trees with
    | nil =>
      cases result with
      | ok _ => rfl
      | error e => rfl
    | cons tree trees =>
      cases trees with
      | cons tree' trees => rfl
      | nil =>
        cases result with
        | ok _ => exact List.length_append
        | error e => rfl

end Server

end Telemetry
