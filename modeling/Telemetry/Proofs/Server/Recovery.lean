import Telemetry.Proofs.Storage.Restarts
import Telemetry.Proofs.Storage.SavingThreads
import Telemetry.Server.Startup
/-!
A server that keeps its metrics in memory, saves every change and is started again. Each save may
fail at any of its steps. What was put is there after the restart if the last change was answered
without an error: saves that failed before it do not matter, and what was refused after it neither.
-/

namespace Telemetry

open Storage FileTree

namespace AtomicWrite

theorem attempt_none (written : Nat) (t : FileTree) (path : String) (bytes : Bytes) :
    attempt none written t path bytes = attempt none 0 t path bytes := by
  simp [attempt]

theorem read?_final {fault : Option Step} {written : Nat} {t : FileTree} {path : String}
    {bytes : Bytes} (ok : (attempt fault written t path bytes).result = .ok ()) :
    ((attempt fault written t path bytes).final t).read? (.ofText
      ((attempt fault written t path bytes).final t).base path) = some bytes := by
  obtain ⟨before, last, trace, -, base, -, read⟩ :=
    (attempt_replaces fault written t path bytes).written ok
  rw [Outcome.final, trace, List.getLastD_concat, base]
  exact read

end AtomicWrite

namespace Memory

def afterWriteUnder (fault : Option AtomicWrite.Step) (written : Nat) (m : Memory)
    (files : FileTree) : Except Error Unit × FileTree :=
  match m.saveMode, m.snapshotPath with
  | .inline, some path =>
    let o := AtomicWrite.attempt fault written files path m.content.encode
    (o.result, o.final files)
  | _, _ => (.ok (), files)

theorem afterWriteUnder_none (written : Nat) (m : Memory) (files : FileTree) :
    m.afterWriteUnder none written files = m.afterWrite files := by
  unfold afterWriteUnder afterWrite
  simp only [AtomicWrite.attempt_none]
  rfl

end Memory

namespace Server

/-- A call, and the step at which the save that follows it fails. -/
structure Put where
  call : Call
  fault : Option AtomicWrite.Step
  written : Nat

/-- A server that was started: its memory and its files, and the answer to the last put that was a
change: neither refused nor a batch without entries. -/
structure Uptime where
  memory : Memory
  files : FileTree
  answer : Option (Except Error Unit)

namespace Uptime

def next (s : Uptime) (p : Put) : Uptime :=
  match s.memory.content.revise? p.call with
  | none => s
  | some u =>
    let m := s.memory.load u
    let (result, files) := m.afterWriteUnder p.fault p.written s.files
    ⟨m, files, some result⟩

def run (s : Uptime) (puts : List Put) : Uptime := puts.foldl next s

variable {s : Uptime} {path : String}

/-- Where no save is made to fail this is what the memory itself does. -/
theorem next_eq_perform (s : Uptime) (c : Call) (written : Nat) :
    let t := s.next ⟨c, none, written⟩
    (t.memory, t.files) = (s.memory.perform s.files c).2 ∧
      (s.memory.content.revise? c = none → t.answer = s.answer) ∧
      ∀ u, s.memory.content.revise? c = some u →
        ∃ result, t.answer = some result ∧ HEq (s.memory.perform s.files c).1 result := by
  cases hu : s.memory.content.revise? c with
  | none =>
    rw [next, hu]
    refine ⟨(Threads.perform_of_revise_none hu s.files).symm, fun _ => rfl, fun u no => ?_⟩
    cases no
  | some u =>
    obtain ⟨reply, rest⟩ := Threads.perform_revise hu s.files
    rw [next, hu]
    dsimp only
    rw [Memory.afterWriteUnder_none]
    refine ⟨rest.symm, (fun no => nomatch no), fun v hv => ⟨_, rfl, reply⟩⟩

/-- The memory saves every change to the file, can be saved, and is in the file after an answer
without an error. -/
structure Invariant (path : String) (s : Uptime) : Prop where
  inline : s.memory.saveMode = .inline
  snapshot : s.memory.snapshotPath = some path
  finite : s.memory.content.Finite
  saved : s.answer = some (.ok ()) →
    s.files.read? (.ofText s.files.base path) = some s.memory.content.encode

theorem step_preserves_invariant (h : Invariant path s) (p : Put) : Invariant path (s.next p) := by
  unfold next
  cases hu : s.memory.content.revise? p.call with
  | none => exact h
  | some u =>
    obtain ⟨-, change⟩ : p.call.isVoid = false ∧ s.memory.content.change? p.call = some u := by
      simpa [Snapshot.revise?] using hu
    constructor
    case inline => exact h.inline
    case snapshot => exact h.snapshot
    case finite => exact Host.finite_change h.finite change
    case saved =>
      intro answered
      simp only [Memory.afterWriteUnder, Memory.load, h.inline, h.snapshot] at answered ⊢
      exact AtomicWrite.read?_final (Option.some.inj answered)

theorem run_preserves_invariant (h : Invariant path s) (puts : List Put) :
    Invariant path (s.run puts) := by
  induction puts generalizing s with
  | nil => exact h
  | cons p puts ih => exact ih (step_preserves_invariant h p)

end Uptime

namespace Startup

variable {files : FileTree} {path : String} {bytes : Bytes}

def savingConfig (path : String) : StorageConfig := ⟨0, some path, true, none⟩

/-- No file is at a path that ends in a slash or in a dot. -/
theorem read?_of_closed {p : Path} (h : p.closed = true) : files.read? p = none := by
  rw [FileTree.read?, FileTree.find?, h]
  cases files.locate p with
  | none => rfl
  | some place =>
    rw [Option.bind_eq_bind, Option.bind_some]
    cases files.node? place with
    | none => rfl
    | some node => cases node <;> rfl

theorem closed_empty (base : String) : (Path.ofText base "").closed = true := by
  unfold Path.ofText
  cases base.toList <;> rfl

theorem pathExists_of_read? (h : files.read? (.ofText files.base path) = some bytes) :
    pathExists files path = true := by
  have named : path ≠ "" := by
    rintro rfl
    rw [read?_of_closed (closed_empty _)] at h
    cases h
  have found : (files.find? (.ofText files.base path)).isSome = true := by
    cases hf : files.find? (.ofText files.base path) with
    | some node => rfl
    | none =>
      rw [FileTree.read?, hf] at h
      cases h
  simp [pathExists, named, found]

theorem ofInterval_zero : SaveMode.ofInterval (.ofSeconds 0) = .inline := if_pos (by decide)

theorem start_saving (files : FileTree) (path : String) :
    let (m, reports) := restoreInto (.new (some path) .inline) files
    start (savingConfig path) files =
      ⟨.ok (.memory m), files, reports ++ [ready Memory.backend [("save_mode", "Inline")]]⟩ := by
  show startMemory (savingConfig path) files [] = _
  rw [startMemory, savingConfig, ofInterval_zero, if_pos rfl]
  rfl

theorem restoreInto_load {m : Memory} (hm : m.content.Finite) (files : FileTree) :
    ∃ content, content.Finite ∧ (restoreInto m files).1 = m.load content := by
  unfold restoreInto
  split
  · exact ⟨m.content, hm, rfl⟩
  · rename_i path _
    split
    · exact ⟨m.content, hm, rfl⟩
    · have finite := @Host.finite_restore m files path hm
      have loaded : (m.restore files path).2 = m.load (m.restore files path).2.content := by
        unfold Memory.restore
        split <;> rfl
      refine ⟨_, finite, ?_⟩
      rw [← loaded]
      split <;> simp [*]

theorem start_memory (files : FileTree) (path : String) : ∃ content logs, content.Finite ∧
    start (savingConfig path) files =
      ⟨.ok (.memory ⟨content, some path, .inline⟩), files, logs⟩ := by
  have fresh : (Memory.new (some path) .inline).content.Finite := by
    intro name x hx
    simp [Memory.new, Snapshot.empty] at hx
  obtain ⟨content, finite, loaded⟩ := restoreInto_load fresh files
  have started := start_saving files path
  simp only [loaded] at started
  exact ⟨content, _, finite, started⟩

def restored (path : String) : List Log.Event :=
  [⟨.info, "Restored metrics snapshot", [("path", path)]⟩,
    ready Memory.backend [("save_mode", "Inline")]]

theorem start_saved {content : Snapshot} (finite : content.Finite)
    (saved : files.read? (.ofText files.base path) = some content.encode) :
    start (savingConfig path) files =
      ⟨.ok (.memory ⟨content.reread, some path, .inline⟩), files, restored path⟩ := by
  have snapshot : Memory.readSnapshot files path = .ok content.reread := by
    rw [Memory.readSnapshot, saved]
    exact Snapshot.decode_encode finite
  have started := start_saving files path
  simp only [restoreInto, Memory.new, pathExists_of_read? saved, Bool.not_true, Memory.restore,
    snapshot] at started
  exact started

/-- Started again after the last change was answered without an error, a server has all names and all
counters as they were, and every gauge as the reader of numbers has the text written for it. -/
theorem restart_recovers (files : FileTree) (path : String) : ∃ content logs,
    start (savingConfig path) files =
      ⟨.ok (.memory ⟨content, some path, .inline⟩), files, logs⟩ ∧
    ∀ puts : List Put, let s := Uptime.run ⟨⟨content, some path, .inline⟩, files, none⟩ puts
      s.answer = some (.ok ()) → ∃ again,
        start (savingConfig path) s.files =
          ⟨.ok (.memory ⟨again, some path, .inline⟩), s.files, restored path⟩ ∧
        again.counters = s.memory.content.counters ∧
        ∀ name : String,
          (again.gauges[name]?.isSome ↔ s.memory.content.gauges[name]?.isSome) ∧
          ∀ x, s.memory.content.gauges[name]? = some x → ∃ y, again.gauges[name]? = some y ∧
            (Json.Value.read? (Json.Value.ofBinary64 x).bytes).bind Json.Value.binary64? =
              some y := by
  obtain ⟨content, logs, finite, started⟩ := start_memory files path
  refine ⟨content, logs, started, ?_⟩
  intro puts s answered
  have before : Uptime.Invariant path ⟨⟨content, some path, .inline⟩, files, none⟩ :=
    ⟨rfl, rfl, finite, fun no => nomatch no⟩
  have h : Uptime.Invariant path s := Uptime.run_preserves_invariant before puts
  refine ⟨s.memory.content.reread, start_saved h.finite (h.saved answered), rfl, fun name => ?_⟩
  have gauge : s.memory.content.reread.gauges[name]? =
      s.memory.content.gauges[name]?.map Binary64.reread := NameMap.getElem?_map ..
  rw [gauge]
  refine ⟨by simp, fun x hx => ⟨x.reread, by rw [hx]; rfl, ?_⟩⟩
  obtain ⟨spelled, read⟩ := Json.binary64?_ofBinary64 (h.finite name x hx)
  rw [Json.Value.read?_bytes spelled]
  exact read

/-- The first save does not reach the disk, the second one does, and the third call is refused. -/
def quotedPuts : List Put :=
  [⟨.putCounter "\"poll\\count\"\n" .one, some .sync, 0⟩,
    ⟨.putGauge "load" ⟨0x3FF8000000000000⟩, none, 0⟩, ⟨.putGauge "load" .nan, none, 0⟩]

theorem quotedPuts_recovered :
    let s := Uptime.run ⟨.new (some "metrics.json") .inline, .empty "/work", none⟩ quotedPuts
    s.answer = some (.ok ()) ∧ ∃ again,
      start (savingConfig "metrics.json") s.files =
        ⟨.ok (.memory ⟨again, some "metrics.json", .inline⟩), s.files, restored "metrics.json"⟩ ∧
      again.total? "\"poll\\count\"\n" = some 1 := by
  obtain ⟨content, logs, started, recovers⟩ := restart_recovers (.empty "/work") "metrics.json"
  have fresh : (start (savingConfig "metrics.json") (.empty "/work")).engine =
      .ok (.memory (.new (some "metrics.json") .inline)) := rfl
  rw [started] at fresh
  obtain rfl : content = .empty := congrArg Memory.content (Engine.memory.inj (Except.ok.inj fresh))
  have answered : (Uptime.run ⟨.new (some "metrics.json") .inline, .empty "/work", none⟩
      quotedPuts).answer = some (.ok ()) := by decide +kernel
  obtain ⟨again, restarted, counters, -⟩ := recovers quotedPuts answered
  refine ⟨answered, again, restarted, ?_⟩
  rw [Snapshot.total?, counters]
  decide +kernel

end Startup

end Server

end Telemetry
