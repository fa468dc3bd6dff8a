import Telemetry.Log
import Telemetry.Storage.Store
/-!
Choosing the storage of a server when it starts.

A database that cannot be reached is no reason not to start: the metrics are kept in memory then. A
database that is there but cannot be prepared is one. A snapshot that cannot be read is reported, and
the server starts empty.
-/

namespace Telemetry.Server

structure StorageConfig where
  storeInterval : Nat
  fileStoragePath : Option String
  restore : Bool
  databaseDsn : Option String
  deriving DecidableEq, Repr

namespace Startup

open Log Storage

/-- What has been reported and decided; a failure ends the start. -/
structure Outcome where
  engine : Except Error Engine
  files : FileTree
  logs : List Event

def listText (names : List String) : String :=
  "[" ++ String.intercalate ", " (names.map fun n => "\"" ++ n ++ "\"") ++ "]"

def ready (backend : String) (more : List (String × String)) : Event :=
  ⟨.info, "Storage ready", ("backend", backend) :: more⟩

def pathExists (files : FileTree) (path : String) : Bool :=
  path ≠ "" && (files.find? (Path.ofText files.base path)).isSome

/-- The memory after the attempt to read its snapshot, if there is one to be read. -/
def restoreInto (m : Memory) (files : FileTree) : Memory × List Event :=
  match m.snapshotPath with
  | none => (m, [])
  | some path =>
    if !pathExists files path then (m, [])
    else
      match m.restore files path with
      | (.ok _, m) => (m, [⟨.info, "Restored metrics snapshot", [("path", path)]⟩])
      | (.error e, m) => (m, [⟨.warn, "Failed to restore snapshot, starting empty",
          [("path", path), ("error", e.message)]⟩])

def startMemory (config : StorageConfig) (files : FileTree) (logs : List Event) : Outcome :=
  let mode := SaveMode.ofInterval (.ofSeconds config.storeInterval)
  let fresh := Memory.new config.fileStoragePath mode
  let (m, reports) := if config.restore then restoreInto fresh files else (fresh, [])
  ⟨.ok (.memory m), files,
    logs ++ reports ++ [ready Memory.backend [("save_mode", mode.text)]]⟩

def startRelational (c : Connection) (files : FileTree) : Outcome :=
  match c.initSchema files with
  | (.error e, _, files) => ⟨.error e, files, []⟩
  | (.ok created, c, files) =>
    let reports := if created = [] then []
      else [⟨.info, "Created metric tables", [("tables", listText created)]⟩]
    ⟨.ok (.relational c), files, reports ++ [ready Connection.backend []]⟩

def start (config : StorageConfig) (files : FileTree) : Outcome :=
  match config.databaseDsn with
  | none => startMemory config files []
  | some dsn =>
    match Connection.connect files dsn with
    | (.ok c, files) => startRelational c files
    | (.error e, files) => startMemory config files
        [⟨.warn, "Database not available, falling back to in-memory storage",
          [("error", e.message)]⟩]

end Startup

end Telemetry.Server
