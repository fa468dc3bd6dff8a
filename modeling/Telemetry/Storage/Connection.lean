import Telemetry.Storage.DatabaseFile
import Telemetry.Text.Blank
/-!
Where a database is, and getting hold of it. A data source name is a path, with or without a scheme,
or the word for a database of its own that nobody else sees.
-/

namespace Telemetry

inductive Source where
  | ownMemory
  | file (path : String)
  deriving DecidableEq, Repr

/-- A database that no file holds, or the file it is in. -/
inductive Connection where
  | own (db : Database)
  | file (place : List String)

namespace Source

open Storage

def ofDsn (dsn : String) : Except Error Source :=
  let dsn := trimChars dsn.toList
  let scheme := "sqlite".toList
  let rest := match splitOnce? "://".toList dsn with
    | some (before, rest) => if before = scheme then some rest else none
    | none => some (((scheme ++ [':']).isPrefixOf? dsn).getD dsn)
  match rest with
  | none | some [] => .error (.invalidDsn (String.ofList dsn))
  | some rest => .ok (if rest = ":memory:".toList then .ownMemory else .file (String.ofList rest))

end Source

namespace Connection

open Storage

def backend : String := "relational"

/-- Opens the database. The attempt may leave a file behind, or take one away, even if it fails. -/
def connect (files : FileTree) (dsn : String) : Except Error Connection × FileTree :=
  match Source.ofDsn dsn with
  | .error e => (.error e, files)
  | .ok .ownMemory => (.ok (.own .empty), files)
  | .ok (.file path) =>
    match files.openDatabase (.ofText files.base path) with
    | (.opened place _, files) => (.ok (.file place), files)
    | (.barred, files) => (.ok (.own .barred), files)
    | (.refused, files) => (.error .unreachable, files)

def database (c : Connection) (files : FileTree) : Database :=
  match c with
  | .own db => db
  | .file place =>
    match files.node? place with
    | some (.database db) => db
    | _ => .empty

def setDatabase (c : Connection) (files : FileTree) (db : Database) : Connection × FileTree :=
  match c with
  | .own _ => (.own db, files)
  | .file place => (c, files.put place (.database db))

/-- Commits a change, or leaves everything as it is. -/
def apply (c : Connection) (files : FileTree) (change : Except Error Database) :
    Except Error Unit × Connection × FileTree :=
  match change with
  | .ok db => (.ok (), c.setDatabase files db)
  | .error e => (.error e, c, files)

def initSchema (c : Connection) (files : FileTree) :
    Except Error (List String) × Connection × FileTree :=
  match (c.database files).createTables with
  | .ok (db, created) => (.ok created, c.setDatabase files db)
  | .error e => (.error e, c, files)

end Connection

end Telemetry
