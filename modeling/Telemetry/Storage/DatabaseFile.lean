import Telemetry.Storage.FileTree
/-!
Opening the file of a database, and what becomes of the files beside it.

A file beside a database that is not its own is treated as if it were. A journal that does not begin
with a zero byte is taken for a change that was broken off and removed, even beside a file that is no
database at all. The log and the shared memory are written over and removed when the database is
closed. The tree shows them as they are then: whoever has a database open also has these two.
-/

namespace Telemetry

def SideFile.place (side : SideFile) (place : List String) : List String :=
  place.dropLast ++ [place.getLastD "" ++ side.suffix]

namespace FileTree

/-- The place that steps lead to when ".." only takes back the step before it, whether or not that
one is there. A file on the way still ends it. -/
def takeBack (t : FileTree) (here : List String) : List String → Option (List String)
  | [] => some here
  | step :: rest =>
    if step = ".." then if here = [] then none else t.takeBack here.dropLast rest
    else if isName step && ((t.node? here).isNone || t.isDirectoryAt here) then
      t.takeBack (here ++ [step]) rest
    else none

def longestJournal : Nat := 512

def admitsJournal (t : FileTree) (place : List String) : Bool :=
  (String.intercalate "/" (t.base :: place) ++ SideFile.journal.suffix).utf8ByteSize ≤ longestJournal

/-- The place of a database file that is or could be there. A slash at the end does not count. -/
def databasePlace? (t : FileTree) (p : Path) : Option (List String) :=
  if p.outside then none
  else (t.takeBack [] p.steps).filter fun place =>
    t.isDirectoryAt place.dropLast && !t.isDirectoryAt place && t.admitsJournal place

def admits (t : FileTree) (side : SideFile) (place : List String) : Bool :=
  isName (place.getLastD "" ++ side.suffix) && !t.isDirectoryAt (side.place place)

/-- The bytes of a file, of a database the first ones. -/
def bytesAt (t : FileTree) (place : List String) : Bytes :=
  match t.node? place with
  | some (.data bytes) => bytes
  | some (.database _) => databaseMark
  | _ => []

/-- Whether there is a journal of a change that was broken off. -/
def isHot (t : FileTree) (place : List String) : Bool :=
  match t.bytesAt (SideFile.journal.place place) with
  | [] => false
  | b :: _ => b ≠ 0

/-- Removes a file from its place; what is no file stays. -/
def clear (t : FileTree) (place : List String) : FileTree :=
  match t.node? place with
  | none | some .directory => t
  | some _ => { t with nodes := t.nodes.erase place }

def touch (t : FileTree) (place : List String) : FileTree :=
  match t.node? place with
  | none => t.put place (.data [])
  | some _ => t

/-- Removes the log and the shared memory, as the last one to close a database does. -/
def dropLog (t : FileTree) (place : List String) : FileTree :=
  (t.clear (SideFile.log.place place)).clear (SideFile.memory.place place)

/-- What opening a database leads to. One that is barred was found, but nothing in it can be reached. -/
inductive Opened where
  | refused
  | barred
  | opened (place : List String) (db : Database)

/-- A database that answers. It must share its memory with others. -/
def join (t : FileTree) (place : List String) (db : Database) : Opened × FileTree :=
  if t.isDirectoryAt (SideFile.memory.place place) then
    (.barred, t.put (SideFile.log.place place) (.data []))
  else (.opened place db, t.dropLog place)

/-- Makes a database of a file that is absent or as good as empty. What is beside it cannot be its
own. -/
def makeDatabase (t : FileTree) (place : List String) : Opened × FileTree :=
  let t := if t.bytesAt (SideFile.log.place place) = [] then t else t.clear (SideFile.log.place place)
  if !t.admits .journal place then (.refused, t.touch place)
  else if t.isDirectoryAt (SideFile.log.place place) then
    (.refused, (if t.bytesAt (SideFile.journal.place place) = [] then t
      else t.clear (SideFile.journal.place place)).touch place)
  else ((t.clear (SideFile.journal.place place)).put place (.database .empty)).join place .empty

/-- Looks at what is beside a file before the file itself is read. Tells whether it can be: the log
must be a file, and one with something in it needs the shared memory. -/
def look (t : FileTree) (place : List String) : FileTree × Bool :=
  if t.isDirectoryAt (SideFile.journal.place place) then (t, false)
  else
    let t := if t.isHot place then t.clear (SideFile.journal.place place) else t
    (t, t.admits .log place && (t.bytesAt (SideFile.log.place place) = [] ||
      !t.isDirectoryAt (SideFile.memory.place place)))

def openDatabase (t : FileTree) (p : Path) : Opened × FileTree :=
  match t.databasePlace? p with
  | none => (.refused, t)
  | some place =>
    match t.node? place with
    | none | some (.data []) | some (.data [_]) => t.makeDatabase place
    | some .directory => (.refused, t)
    | some (.database db) =>
      match t.look place with
      | (t, true) => t.join place db
      | (t, false) => (.refused, t)
    | some (.data _) =>
      -- That it is no database shows only after its log was taken into account.
      match t.look place with
      | (t, true) =>
        (.refused, if t.bytesAt (SideFile.log.place place) = [] then t else t.dropLog place)
      | (t, false) => (.refused, t)

end FileTree

end Telemetry
