import Telemetry.Storage.Table
import Telemetry.Text.Split
/-!
The files below a working directory, and paths into them.

A path is followed step by step: every step but the last must lead to a directory, and ".." leads to
the parent of a directory that is there. What lies above the working directory, or elsewhere, cannot
be reached.
-/

namespace Telemetry

/-- What stands at a place. A database includes the journal and the log that are its own; it keeps a
log, as all do that were opened here once. -/
inductive Node where
  | directory
  | data (bytes : Bytes)
  | database (db : Database)

/-- The files beside a database: the journal of a change that is under way, the log of those that were
made, and the memory shared by all that have it open. -/
inductive SideFile where
  | journal
  | log
  | memory
  deriving DecidableEq, Repr

def SideFile.suffix : SideFile → String
  | .journal => "-journal"
  | .log => "-wal"
  | .memory => "-shm"

/-- The nodes by their names from the working directory down; `base` is its absolute name. -/
structure FileTree where
  base : String
  nodes : Std.ExtTreeMap (List String) Node

/-- A path as it is written: whether it begins with a slash, and what stands between its slashes. -/
structure Path where
  outside : Bool
  pieces : List String
  deriving DecidableEq, Repr

namespace Path

/-- Reads a path. What follows the absolute name of the working directory is taken from there; more
slashes than one in front of it do not matter. -/
def ofText (base : String) (text : String) : Path :=
  let chars := match text.toList with
    | '/' :: rest => '/' :: rest.dropWhile (· = '/')
    | chars => chars
  let (outside, chars) := match base.toList.isPrefixOf? chars, chars with
    | some [], _ => (false, [])
    | some ('/' :: rest), _ => (false, rest)
    | _, '/' :: rest => (true, rest)
    | _, chars => (false, chars)
  ⟨outside, (splitChars '/' chars).map String.ofList⟩

def text (p : Path) : String :=
  (if p.outside then "/" else "") ++ String.intercalate "/" p.pieces

def isStep (piece : String) : Bool := piece ≠ "" && piece ≠ "."

def steps (p : Path) : List String := p.pieces.filter isStep

/-- The form of a closed path admits a directory only. -/
def closed (p : Path) : Bool :=
  match p.pieces.getLast? with
  | some piece => !isStep piece
  | none => true

/-- The bytes of a path together with the one that ends it. -/
def longest : Nat := 4096

def isValid (p : Path) : Bool :=
  p.text.utf8ByteSize < longest && !p.text.toList.contains (Char.ofNat 0)

def fileName? (p : Path) : Option String :=
  match p.steps.getLast? with
  | some ".." => none
  | name => name

def trimmed (pieces : List String) : List String := (pieces.reverse.dropWhile fun s => !isStep s).reverse

def parent (p : Path) : Path := ⟨p.outside, trimmed (trimmed p.pieces).dropLast⟩

def child (p : Path) (name : String) : Path := ⟨p.outside, p.pieces ++ [name]⟩

/-- The path beside this one whose name has ".tmp" added. -/
def temporary (p : Path) : Path :=
  match p.fileName? with
  | some name => p.parent.child (name ++ ".tmp")
  | none => p.child ".tmp"

end Path

namespace FileTree

def empty (base : String) : FileTree := ⟨base, ∅⟩

def node? (t : FileTree) (place : List String) : Option Node :=
  if place = [] then some .directory else t.nodes[place]?

def isDirectoryAt (t : FileTree) (place : List String) : Bool :=
  match t.node? place with
  | some .directory => true
  | _ => false

def isName (step : String) : Bool :=
  step.utf8ByteSize ≤ 255 && !step.toList.contains (Char.ofNat 0)

/-- The place that the steps lead to; nothing need be there. -/
def follow (t : FileTree) (here : List String) : List String → Option (List String)
  | [] => some here
  | step :: rest =>
    if !t.isDirectoryAt here then none
    else if step = ".." then if here = [] then none else t.follow here.dropLast rest
    else if isName step then t.follow (here ++ [step]) rest
    else none

def locate (t : FileTree) (p : Path) : Option (List String) :=
  if p.outside || !p.isValid then none else t.follow [] p.steps

def find? (t : FileTree) (p : Path) : Option Node := do
  let node ← t.node? (← t.locate p)
  match node with
  | .directory => some node
  | _ => if p.closed then none else some node

/-- The place of a file that is or could be there. -/
def filePlace? (t : FileTree) (p : Path) : Option (List String) :=
  if p.closed then none
  else (t.locate p).filter fun place => !t.isDirectoryAt place

/-- The first bytes of every database file. -/
def databaseMark : Bytes := Utf8.encode "SQLite format 3" ++ [0]

def read? (t : FileTree) (p : Path) : Option Bytes :=
  match t.find? p with
  | some (.data bytes) => some bytes
  | some (.database _) => some databaseMark
  | _ => none

def put (t : FileTree) (place : List String) (node : Node) : FileTree :=
  { t with nodes := t.nodes.insert place node }

def write? (t : FileTree) (p : Path) (bytes : Bytes) : Option FileTree :=
  (t.filePlace? p).map fun place => t.put place (.data bytes)

/-- Makes the directories on the way that are not there; tells whether all of them are there now. -/
def makeDirectories (t : FileTree) (here : List String) : List String → FileTree × Bool
  | [] => (t, true)
  | step :: rest =>
    if step = ".." then if here = [] then (t, false) else t.makeDirectories here.dropLast rest
    else if !isName step then (t, false)
    else
      let place := here ++ [step]
      match t.node? place with
      | some .directory => t.makeDirectories place rest
      | some _ => (t, false)
      | none => (t.put place .directory).makeDirectories place rest

/-- Makes the directories that lead to a path. One that could not be the path of a directory is
refused as a whole. -/
def makeParents (t : FileTree) (p : Path) : FileTree × Bool :=
  if p.outside || !p.parent.isValid then (t, false) else t.makeDirectories [] p.parent.steps

/-- Removes a file; what is no file stays. -/
def removeFile (t : FileTree) (p : Path) : FileTree :=
  match t.filePlace? p with
  | some place => { t with nodes := t.nodes.erase place }
  | none => t

/-- Removes whatever the path names, with all below it. -/
def removeAll (t : FileTree) (p : Path) : FileTree :=
  match t.locate p with
  | some place => { t with nodes := t.nodes.filter fun q _ => !place.isPrefixOf q }
  | none => t

def rename? (t : FileTree) (source target : Path) : Option FileTree := do
  let a ← t.filePlace? source
  let b ← t.filePlace? target
  let node ← t.node? a
  return { t with nodes := (t.nodes.erase a).insert b node }

/-- Writes a file, making the directories on the way; where that is impossible nothing is written. -/
def plant (t : FileTree) (p : Path) (bytes : Bytes) : FileTree :=
  ((t.makeParents p).1.write? p bytes).getD t

/-- Puts a directory that is not empty in the way of whatever would be written there. -/
def obstruct (t : FileTree) (p : Path) : FileTree :=
  t.plant (p.child "occupied") []

def nodeText (e : List String × Node) : String :=
  String.intercalate "/" e.1 ++ match e.2 with
    | .directory => "/"
    | _ => ""

/-- Files that a database keeps beside itself while it is open. -/
def isSideFile (place : List String) (node : Node) : Bool :=
  match node with
  | .directory => false
  | _ => [SideFile.log, .memory].any fun side => (place.getLastD "").endsWith side.suffix

/-- Every node by its path from the working directory, directories with a slash at the end. The files
beside databases are left out. -/
def names (t : FileTree) : List String :=
  ((t.nodes.toList.filter fun e => !isSideFile e.1 e.2).map nodeText).mergeSort
    fun a b => decide (a ≤ b)

end FileTree

end Telemetry
