import Telemetry.Chunks
import Telemetry.Storage.Content
/-!
Metrics in a database of two tables, one row per name.

What others did to the database is part of its state: a table may be missing, be out of reach or be a
view of things that are no metrics, a row may hold what is no number, and a table may silently skip the
insertion or the change of some rows. A batch is one transaction: it is looked up first, written in statements of at most five
hundred rows, and given up when a statement does not reach all of its rows.
-/

namespace Telemetry

/-- Rows without a value hold what cannot be read as a number. -/
structure Table (α : Type) where
  rows : NameMap (Option α)
  skippedInserts : List String
  skippedUpdates : List String

/-- What goes by the name of a table. -/
inductive Relation (α : Type) where
  | missing
  | barred
  | view
  | table (t : Table α)

structure Database where
  gauges : Relation Binary64
  counters : Relation Count

def Table.empty {α : Type} : Table α := ⟨∅, [], []⟩

namespace Storage

/-- How the values of a column are kept: the name of their table, the form in which a value is
stored, and how an incoming value meets the one before. -/
structure Column (α : Type) where
  table : String
  form : α → α
  combine : String → Option α → α → Except Error α

/-- The column of floating numbers knows no negative zero. -/
def gaugeColumn : Column Binary64 :=
  ⟨"gauge_metrics", Binary64.dropZeroSign, fun _ _ x => .ok x⟩

def counterColumn : Column Count := ⟨"counter_metrics", id, accumulate⟩

def rowsPerStatement : Nat := 500

end Storage

namespace Table

open Storage

variable {α : Type}

def insertRow (col : Column α) (t : Table α) (e : String × α) : Table α :=
  if t.skippedInserts.contains e.1 then t
  else { t with rows := t.rows.insert e.1 (some (col.form e.2)) }

def updateRow (col : Column α) (t : Table α) (e : String × α) : Table α :=
  if t.skippedUpdates.contains e.1 then t
  else { t with rows := t.rows.insert e.1 (some (col.form e.2)) }

/-- Runs one statement over some rows; all of them must be reached. -/
def statement (col : Column α) (skipped : List String)
    (write : Table α → String × α → Table α) (t : Table α) (chunk : List (String × α)) :
    Except Error (Table α) :=
  let affected := (chunk.filter fun e => !skipped.contains e.1).length
  if affected = chunk.length then .ok (chunk.foldl write t)
  else .error (.consistency col.table chunk.length affected)

end Table

namespace Relation

open Storage

variable {α : Type}

def lookup (col : Column α) (r : Relation α) (name : String) : Except Error (Option α) :=
  match r with
  | .missing | .barred => .error (.backend col.table .query)
  | .view => .ok none
  | .table t =>
    match t.rows[name]? with
    | none => .ok none
    | some none => .error (.backend col.table .query)
    | some (some x) => .ok (some x)

def listRow (col : Column α) (row : String × Option α) : Except Error (String × α) :=
  match row.2 with
  | some x => .ok (row.1, x)
  | none => .error (.backend col.table .query)

def list (col : Column α) : Relation α → Except Error (List (String × α))
  | .missing | .barred | .view => .error (.backend col.table .query)
  | .table t => t.rows.toList.mapM (listRow col)

/-- One row: looked up, combined, then inserted or changed. A skipped row is not noticed. -/
def put (col : Column α) (r : Relation α) (name : String) (x : α) : Except Error (Relation α) := do
  checkName name
  let old ← r.lookup col name
  let value ← col.combine name old x
  match r with
  | .table t =>
    return .table (if old.isSome then t.updateRow col (name, value) else t.insertRow col (name, value))
  | _ => .error (.backend col.table .exec)

/-- A row to be written, and whether it is there already. -/
def prepare (col : Column α) (r : Relation α) (e : String × α) :
    Except Error (Bool × String × α) := do
  let old ← r.lookup col e.1
  return (old.isSome, e.1, ← col.combine e.1 old e.2)

def writeAll (col : Column α) (r : Relation α) (inserts updates : List (String × α)) :
    Except Error (Relation α) :=
  match r with
  | .table t => do
    let t ← (chunks rowsPerStatement inserts).foldlM
      (Table.statement col t.skippedInserts (Table.insertRow col)) t
    let t ← (chunks rowsPerStatement updates).foldlM
      (Table.statement col t.skippedUpdates (Table.updateRow col)) t
    return .table t
  | _ => .error (.backend col.table .exec)

/-- The rows of a batch in the order of their names. -/
def putBatch (col : Column α) (r : Relation α) (batch : NameMap α) : Except Error (Relation α) :=
  if batch.isEmpty then .ok r
  else do
    batch.toList.forM fun e => checkName e.1
    let rows ← batch.toList.mapM (r.prepare col)
    r.writeAll col ((rows.filter fun row => !row.1).map Prod.snd)
      ((rows.filter fun row => row.1).map Prod.snd)

/-- The table after the schema was asked for, and whether it had to be made. -/
def create (col : Column α) : Relation α → Except Error (Relation α × Bool)
  | .missing => .ok (.table .empty, true)
  | .barred => .error (.backend "schema" .begin)
  | .view => .error (.backend col.table .exec)
  | .table t => .ok (.table t, false)

end Relation

namespace Database

open Storage

def empty : Database := ⟨.missing, .missing⟩

/-- A database in which nothing can be reached. -/
def barred : Database := ⟨.barred, .barred⟩

def putGauge (db : Database) (name : String) (x : Binary64) : Except Error Database := do
  checkGauge name x
  return { db with gauges := ← db.gauges.put gaugeColumn name x }

def putCounter (db : Database) (name : String) (delta : Count) : Except Error Database := do
  return { db with counters := ← db.counters.put counterColumn name delta }

def putGauges (db : Database) (batch : NameMap Binary64) : Except Error Database := do
  batch.toList.forM fun e => checkGauge e.1 e.2
  return { db with gauges := ← db.gauges.putBatch gaugeColumn batch }

def putCounters (db : Database) (batch : NameMap Count) : Except Error Database := do
  return { db with counters := ← db.counters.putBatch counterColumn batch }

def listing (db : Database) : Except Error Listing := do
  let gauges ← db.gauges.list gaugeColumn
  let counters ← db.counters.list counterColumn
  return ⟨.ofEntries (gauges.map fun e => (e.1, e.2.text)),
    .ofEntries (counters.map fun e => (e.1, e.2.text))⟩

/-- Makes the tables that are missing and names them. One failure undoes all. -/
def createTables (db : Database) : Except Error (Database × List String) := do
  let (gauges, newGauges) ← db.gauges.create gaugeColumn
  let (counters, newCounters) ← db.counters.create counterColumn
  return (⟨gauges, counters⟩, (if newGauges then [gaugeColumn.table] else []) ++
    (if newCounters then [counterColumn.table] else []))

end Database

end Telemetry
