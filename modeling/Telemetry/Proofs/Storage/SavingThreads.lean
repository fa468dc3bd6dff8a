import Mathlib.Logic.Function.Basic
import Telemetry.Proofs.Storage.Changes
/-!
Threads that change one memory with a file, each change followed by a save, and save it besides.
A change takes effect in one step; then its thread waits for the lock of the savers, captures the
content as it is by then, writes it tree after tree, lets the lock go and returns. The other threads
may take their steps in between. The changes that were made, and how many of them the file holds,
are noted beside the state.
-/

namespace Telemetry

open Storage

def Call.isVoid : Call → Bool
  | .putGauges batch => batch.isEmpty
  | .putCounters batch => batch.isEmpty
  | _ => false

/-- The content after a call that changes it and has to be saved. -/
def Snapshot.revise? (s : Snapshot) (c : Call) : Option Snapshot :=
  if c.isVoid then none else s.change? c

/-- A change that was made, and how many were made before it. -/
structure Change where
  call : Call
  position : Nat

/-- Where a thread is. It saves for the sake of a change that it made, or without one. A captured
content is that after `count` changes. -/
inductive Stage where
  | idle
  | waiting (change : Option Change)
  | locked (change : Option Change)
  | captured (change : Option Change) (count : Nat) (bytes : Bytes)
  | writing (change : Option Change) (count : Nat) (trees : List FileTree) (result : Except Error Unit)
  | leaving (change : Option Change) (result : Except Error Unit)

def Stage.holds : Stage → Bool
  | .locked _ | .captured _ _ _ | .writing _ _ _ _ => true
  | _ => false

structure Return where
  change : Option Change
  result : Except Error Unit

structure Threads (ι : Type) where
  content : Snapshot
  path : String
  files : FileTree
  holder : Option ι
  stage : ι → Stage
  applied : List Call
  saved : Option Nat
  returned : List Return

namespace Threads

/-- A thread without work begins some, or a thread takes its next step; a write that it begins may
fail at any step of its own. -/
inductive Event (ι : Type) where
  | call (thread : ι) (c : Call)
  | save (thread : ι)
  | proceed (thread : ι) (fault : Option AtomicWrite.Step) (written : Nat)

variable {ι : Type}

def start (content : Snapshot) (path : String) (files : FileTree) : Threads ι :=
  ⟨content, path, files, none, fun _ => .idle, [], none, []⟩

variable [DecidableEq ι]

def enter (s : Threads ι) (i : ι) (stage : Stage) : Threads ι :=
  { s with stage := Function.update s.stage i stage }

def call (s : Threads ι) (i : ι) (c : Call) : Threads ι :=
  match s.content.revise? c with
  | none => s
  | some u =>
    { s.enter i (.waiting (some ⟨c, s.applied.length⟩)) with
      content := u
      applied := s.applied ++ [c] }

/-- The last tree of a write that succeeds has the file in it. -/
def install (s : Threads ι) (i : ι) (change : Option Change) (count : Nat) (tree : FileTree)
    (trees : List FileTree) (result : Except Error Unit) : Threads ι :=
  { s.enter i (.writing change count trees result) with
    files := tree
    saved := match trees, result with
      | [], .ok _ => some count
      | _, _ => s.saved }

def proceed (s : Threads ι) (i : ι) (fault : Option AtomicWrite.Step) (written : Nat) : Threads ι :=
  match s.stage i with
  | .idle => s
  | .waiting change =>
    match s.holder with
    | none => { s.enter i (.locked change) with holder := some i }
    | some _ => s
  -- The content as it is now, with the changes that others made in the meantime.
  | .locked change => s.enter i (.captured change s.applied.length s.content.encode)
  | .captured change count bytes =>
    let o := AtomicWrite.attempt fault written s.files s.path bytes
    s.enter i (.writing change count o.trace o.result)
  | .writing change count (tree :: trees) result => s.install i change count tree trees result
  | .writing change _ [] result => { s.enter i (.leaving change result) with holder := none }
  | .leaving change result =>
    { s.enter i .idle with returned := s.returned ++ [⟨change, result⟩] }

def next (s : Threads ι) : Event ι → Threads ι
  | .call i c =>
    match s.stage i with
    | .idle => s.call i c
    | _ => s
  | .save i =>
    match s.stage i with
    | .idle => s.enter i (.waiting none)
    | _ => s
  | .proceed i fault written => s.proceed i fault written

def run (s : Threads ι) (events : List (Event ι)) : Threads ι := events.foldl next s

variable {s : Threads ι} {i : ι}

theorem stage_enter_self (stage : Stage) : (s.enter i stage).stage i = stage := by
  simp [enter]

theorem stage_enter_of_ne {j : ι} (h : j ≠ i) (stage : Stage) :
    (s.enter i stage).stage j = s.stage j := by
  simp [enter, h]

theorem run_append (s : Threads ι) (events more : List (Event ι)) :
    s.run (events ++ more) = (s.run events).run more := List.foldl_append

/-! ### A thread alone -/

def memory (s : Threads ι) : Memory := ⟨s.content, some s.path, .inline⟩

theorem perform_revise {m : Memory} {c : Call} {u : Snapshot} (h : m.content.revise? c = some u)
    (files : FileTree) : HEq (m.perform files c).1 (m.apply files (.ok u)).1 ∧
      (m.perform files c).2 = (m.apply files (.ok u)).2 := by
  obtain ⟨filled, change⟩ : c.isVoid = false ∧ m.content.change? c = some u := by
    simpa [Snapshot.revise?] using h
  cases c with
  | putGauge name x =>
    rw [Memory.perform, Snapshot.toOption_eq_some.mp change]
    exact ⟨.rfl, rfl⟩
  | putCounter name delta =>
    rw [Memory.perform, Snapshot.toOption_eq_some.mp change]
    exact ⟨.rfl, rfl⟩
  | putGauges batch =>
    have entries : batch.toList.isEmpty = false := by
      rw [Std.ExtTreeMap.isEmpty_toList]
      exact filled
    rw [Memory.perform, Memory.applyBatch, Snapshot.toOption_eq_some.mp change, entries]
    exact ⟨.rfl, rfl⟩
  | putCounters batch =>
    have entries : batch.toList.isEmpty = false := by
      rw [Std.ExtTreeMap.isEmpty_toList]
      exact filled
    rw [Memory.perform, Memory.applyBatch, Snapshot.toOption_eq_some.mp change, entries]
    exact ⟨.rfl, rfl⟩
  | backend => cases change
  | getGauge => cases change
  | getCounter => cases change
  | getAll => cases change
  | ping => cases change

theorem perform_of_revise_none {m : Memory} {c : Call} (h : m.content.revise? c = none)
    (files : FileTree) : (m.perform files c).2 = (m, files) := by
  have refused {change : Except Error Snapshot} (hn : change.toOption = none) :
      (m.apply files change).2 = (m, files) := by
    cases change with
    | error e => rfl
    | ok u => cases hn
  have unchanged {α : Type} {batch : NameMap α} {change : Except Error Snapshot}
      (hn : (if batch.isEmpty then none else change.toOption) = none) :
      (m.applyBatch files batch.toList change).2 = (m, files) := by
    rw [Memory.applyBatch, Std.ExtTreeMap.isEmpty_toList]
    split
    · rfl
    · rw [if_neg ‹_›] at hn
      exact refused hn
  cases c with
  | putGauge name x => exact refused h
  | putCounter name delta => exact refused h
  | putGauges batch => exact unchanged h
  | putCounters batch => exact unchanged h
  | backend => rfl
  | getGauge name => rfl
  | getCounter name => rfl
  | getAll => rfl
  | ping => rfl

theorem run_writing {change : Option Change} {count : Nat} {trees : List FileTree}
    {result : Except Error Unit} (hs : s.stage i = .writing change count trees result) :
    let t := s.run (List.replicate trees.length (.proceed i none 0))
    t.stage i = .writing change count [] result ∧ t.files = trees.getLastD s.files ∧
      t.memory = s.memory ∧ t.returned = s.returned := by
  induction trees generalizing s with
  | nil => exact ⟨hs, rfl, rfl, rfl⟩
  | cons tree trees ih =>
    have step : s.next (.proceed i none 0) = s.install i change count tree trees result := by
      rw [next, proceed, hs]
    have rest := ih (s := s.install i change count tree trees result) (stage_enter_self _)
    rw [List.length_cons, List.replicate_succ, run, List.foldl_cons, step, List.getLastD_cons]
    exact rest

/-- Without others a thread that has to save does what the memory does by itself. -/
theorem run_waiting {change : Option Change} (waits : s.stage i = .waiting change)
    (free : s.holder = none) : ∃ n, let t := s.run (List.replicate n (.proceed i none 0))
      t.memory = s.memory ∧ t.files = (s.memory.save s.files).2 ∧ t.stage i = .idle ∧
        t.returned = s.returned ++ [⟨change, (s.memory.save s.files).1⟩] := by
  let o := AtomicWrite.attempt none 0 s.files s.path s.content.encode
  refine ⟨3 + (o.trace.length + 2), ?_⟩
  have split : List.replicate (3 + (o.trace.length + 2)) (Event.proceed i none 0) =
      [.proceed i none 0, .proceed i none 0, .proceed i none 0] ++
        (List.replicate o.trace.length (.proceed i none 0) ++ [.proceed i none 0, .proceed i none 0]) := by
    rw [List.replicate_add, List.replicate_add]
    rfl
  obtain ⟨v, begun, stage, files, loaded, returned⟩ : ∃ v,
      s.run [.proceed i none 0, .proceed i none 0, .proceed i none 0] = v ∧
        v.stage i = .writing change s.applied.length o.trace o.result ∧ v.files = s.files ∧
          v.memory = s.memory ∧ v.returned = s.returned := by
    refine ⟨_, rfl, ?_⟩
    simp [run, next, proceed, waits, enter, free, memory, o]
  obtain ⟨stage', files', loaded', returned'⟩ := run_writing stage
  rw [split, run_append, begun, run_append]
  generalize v.run (List.replicate o.trace.length (.proceed i none 0)) = w at *
  obtain ⟨x, ended, idle, files'', loaded'', returned''⟩ : ∃ x,
      w.run [.proceed i none 0, .proceed i none 0] = x ∧ x.stage i = .idle ∧ x.files = w.files ∧
        x.memory = w.memory ∧ x.returned = w.returned ++ [⟨change, o.result⟩] := by
    refine ⟨_, rfl, ?_⟩
    simp [run, next, proceed, stage', enter, memory]
  rw [ended]
  refine ⟨?_, ?_, idle, ?_⟩
  · rw [loaded'', loaded', loaded]
  · rw [files'', files', files]
    rfl
  · rw [returned'', returned', returned]
    rfl

/-- Without others a call is answered as by the memory, and leaves what the memory leaves. -/
theorem run_call {c : Call} {u : Snapshot} (idle : s.stage i = .idle) (free : s.holder = none)
    (hu : s.content.revise? c = some u) : ∃ n result,
      let t := s.run (.call i c :: List.replicate n (.proceed i none 0))
      (t.memory, t.files) = (s.memory.perform s.files c).2 ∧ t.stage i = .idle ∧
        HEq (s.memory.perform s.files c).1 result ∧
        t.returned = s.returned ++ [⟨some ⟨c, s.applied.length⟩, result⟩] := by
  obtain ⟨reply, rest⟩ := perform_revise (m := s.memory) hu s.files
  have applied : s.next (.call i c) = { s.enter i (.waiting (some ⟨c, s.applied.length⟩)) with
      content := u, applied := s.applied ++ [c] } := by
    simp only [next, idle, call, hu]
  have waits : (s.next (.call i c)).stage i = .waiting (some ⟨c, s.applied.length⟩) := by
    rw [applied]
    exact stage_enter_self _
  have unlocked : (s.next (.call i c)).holder = none := by
    rw [applied]
    exact free
  obtain ⟨n, loaded, files, idle', returned⟩ := run_waiting waits unlocked
  refine ⟨n, _, ?_, idle', reply, ?_⟩
  · rw [rest]
    refine Prod.ext (loaded.trans ?_) (files.trans ?_)
    all_goals rw [applied]; rfl
  · refine returned.trans ?_
    rw [applied]
    rfl

end Threads

end Telemetry
