import Telemetry.Backoff
import Telemetry.Storage.AtomicWrite
/-!
Metrics in memory, with a snapshot file beside them. The file is written after every change or by
somebody else at intervals; a change that cannot be saved has happened all the same.
-/

namespace Telemetry

inductive SaveMode where
  | inline
  | periodic (interval : Duration)
  deriving DecidableEq

namespace SaveMode

/-- No interval means that every change is saved. -/
def ofInterval (interval : Duration) : SaveMode :=
  if interval.nanos = 0 then .inline else .periodic interval

def text : SaveMode → String
  | inline => "Inline"
  | periodic interval => "Periodic(" ++ toString interval.seconds ++ "s)"

end SaveMode

structure Memory where
  content : Snapshot
  snapshotPath : Option String
  saveMode : SaveMode

namespace Memory

open Storage

def backend : String := "in-memory"

def new (snapshotPath : Option String) (mode : SaveMode) : Memory := ⟨.empty, snapshotPath, mode⟩

def saveTo (m : Memory) (files : FileTree) (path : String) : Except Error Unit × FileTree :=
  AtomicWrite.run files path m.content.encode

def save (m : Memory) (files : FileTree) : Except Error Unit × FileTree :=
  match m.snapshotPath with
  | some path => m.saveTo files path
  | none => (.error .noSnapshotPath, files)

def afterWrite (m : Memory) (files : FileTree) : Except Error Unit × FileTree :=
  match m.saveMode, m.snapshotPath with
  | .inline, some path => m.saveTo files path
  | _, _ => (.ok (), files)

def load (m : Memory) (s : Snapshot) : Memory := { m with content := s }

def readSnapshot (files : FileTree) (path : String) : Except Error Snapshot :=
  match files.read? (Path.ofText files.base path) with
  | some bytes => Snapshot.decode bytes
  | none => .error (.persistence path)

/-- Takes the content of a file; on an error the memory stays as it is. -/
def restore (m : Memory) (files : FileTree) (path : String) : Except Error Unit × Memory :=
  match readSnapshot files path with
  | .ok s => (.ok (), m.load s)
  | .error e => (.error e, m)

def apply (m : Memory) (files : FileTree) (change : Except Error Snapshot) :
    Except Error Unit × Memory × FileTree :=
  match change with
  | .error e => (.error e, m, files)
  | .ok s =>
    let m := m.load s
    let (result, files) := m.afterWrite files
    (result, m, files)

/-- A batch without entries is no change. -/
def applyBatch {α : Type} (m : Memory) (files : FileTree) (batch : List α)
    (change : Except Error Snapshot) : Except Error Unit × Memory × FileTree :=
  if batch.isEmpty then (.ok (), m, files) else m.apply files change

end Memory

end Telemetry
