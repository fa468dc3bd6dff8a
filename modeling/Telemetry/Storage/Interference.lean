import Telemetry.Storage.DatabaseFile
/-!
What another connection can do to the tables of a database file.
-/

namespace Telemetry

inductive Interference where
  | makeView
  | makeTable
  | drop
  | delete (name : String)
  | spoil (name : String)
  | skipInsert (name : String)
  | skipUpdate (name : String)
  deriving DecidableEq, Repr

namespace Interference

def alterTable {α : Type} (t : Table α) : Interference → Table α
  | .delete name => { t with rows := t.rows.erase name }
  | .spoil name =>
    if t.skippedInserts.contains name then t else { t with rows := t.rows.insert name none }
  | .skipInsert name => { t with skippedInserts := name :: t.skippedInserts }
  | .skipUpdate name => { t with skippedUpdates := name :: t.skippedUpdates }
  | _ => t

def alter {α : Type} (i : Interference) (r : Relation α) : Relation α :=
  match i, r with
  | .makeView, _ => .view
  | .makeTable, .missing => .table .empty
  | .drop, _ => .missing
  | i, .table t => .table (alterTable t i)
  | _, r => r

/-- Alters the table of that name, in a database that is made if it is not there. -/
def apply (i : Interference) (t : FileTree) (file table : String) : FileTree :=
  match t.openDatabase (.ofText t.base file) with
  | (.refused, t) | (.barred, t) => t
  | (.opened place db, t) =>
    t.put place (.database
      (if table = Storage.gaugeColumn.table then { db with gauges := i.alter db.gauges }
      else if table = Storage.counterColumn.table then { db with counters := i.alter db.counters }
      else db))

end Interference

end Telemetry
