import Telemetry.Proofs.Storage.Batches
import Telemetry.Storage.Store
/-!
Changes through a connection. What is committed can be read back; what fails leaves the database as
it was.
-/

namespace Telemetry

open Storage

namespace FileTree

variable {t : FileTree} {place : List String} {node : Node}

theorem node?_put_self (h : place ≠ []) : (t.put place node).node? place = some node := by
  simp [node?, put, h]

theorem node?_put_of_ne {other : List String} (h : place ≠ other) :
    (t.put place node).node? other = t.node? other := by
  simp [node?, put, Std.ExtTreeMap.getElem?_insert, h]

end FileTree

namespace Connection

variable {c : Connection} {files : FileTree} {db : Database}

theorem database_setDatabase (h : c ≠ .file []) :
    (c.setDatabase files db).1.database (c.setDatabase files db).2 = db := by
  cases c with
  | own old => rfl
  | file place =>
    have hp : place ≠ [] := fun hp => h (congrArg file hp)
    simp only [setDatabase, database, FileTree.node?_put_self hp]

theorem ne_of_database (files : FileTree) (h : c.database files ≠ .empty) : c ≠ .file [] := by
  rintro rfl
  exact h rfl

theorem reply_apply (change : Except Error Database) :
    (c.apply files change).1 = change.map fun _ => () := by
  cases change <;> rfl

theorem database_apply {change : Except Error Database}
    (h : ∀ db, change = .ok db → db = c.database files ∨ c.database files ≠ .empty) :
    (c.apply files change).2.1.database (c.apply files change).2.2 =
      change.toOption.getD (c.database files) := by
  cases hc : change with
  | error e => rfl
  | ok db =>
    by_cases place : c = .file []
    · subst place
      rcases h db hc with rfl | found
      · rfl
      · exact absurd rfl (ne_of_database files found)
    · exact database_setDatabase place

end Connection

/-- A storage that keeps its metrics in this database. -/
def Store.Holds (s : Store) (db : Database) : Prop :=
  ∃ c files, s = ⟨.relational c, files⟩ ∧ Connection.database c files = db

namespace Store

variable {s : Store} {db : Database}

theorem perform_memory (m : Memory) (files : FileTree) (c : Call) :
    perform ⟨.memory m, files⟩ c = ((m.perform files c).1,
      ⟨.memory (m.perform files c).2.1, (m.perform files c).2.2⟩) := rfl

theorem perform_getGauge (h : s.Holds db) (name : String) :
    s.perform (.getGauge name) = (db.gauges.lookup gaugeColumn name, s) := by
  obtain ⟨c, files, rfl, rfl⟩ := h
  rfl

theorem perform_getCounter (h : s.Holds db) (name : String) :
    s.perform (.getCounter name) = (db.counters.lookup counterColumn name, s) := by
  obtain ⟨c, files, rfl, rfl⟩ := h
  rfl

/-- The answer to a change, and what the storage holds then. -/
inductive Changed (s : Store) (change : Except Error Database) : Except Error Unit × Store → Prop where
  | failed {e} (h : change = .error e) : Changed s change (.error e, s)
  | committed {db t} (h : change = .ok db) (ht : Store.Holds t db) : Changed s change (.ok (), t)

theorem changed_apply {c : Connection} {files : FileTree} {change : Except Error Database}
    (h : ∀ db, change = .ok db → c.database files ≠ .empty) :
    Changed ⟨.relational c, files⟩ change
      ((c.apply files change).1, ⟨.relational (c.apply files change).2.1, (c.apply files change).2.2⟩) := by
  cases hc : change with
  | error e => exact .failed rfl
  | ok db => exact .committed rfl ⟨_, _, rfl, Connection.database_setDatabase (Connection.ne_of_database files (h db hc))⟩

theorem perform_putCounters (h : s.Holds db) {batch : NameMap Count} (hb : batch.isEmpty = false) :
    Changed s (db.putCounters batch) (s.perform (.putCounters batch)) := by
  obtain ⟨c, files, rfl, rfl⟩ := h
  refine changed_apply fun db hdb => ?_
  obtain ⟨counters, hc, -⟩ := Database.putCounters_eq_ok_iff.mp hdb
  obtain ⟨-, t, -, ht, -⟩ := (Relation.putBatch_eq_ok_iff hb).mp hc
  intro hempty
  rw [hempty] at ht
  cases ht

theorem perform_putGauges (h : s.Holds db) {batch : NameMap Binary64} (hb : batch.isEmpty = false) :
    Changed s (db.putGauges batch) (s.perform (.putGauges batch)) := by
  obtain ⟨c, files, rfl, rfl⟩ := h
  refine changed_apply fun db hdb => ?_
  obtain ⟨-, gauges, hg, -⟩ := Database.putGauges_eq_ok_iff.mp hdb
  obtain ⟨-, t, -, ht, -⟩ := (Relation.putBatch_eq_ok_iff hb).mp hg
  intro hempty
  rw [hempty] at ht
  cases ht

end Store

end Telemetry
