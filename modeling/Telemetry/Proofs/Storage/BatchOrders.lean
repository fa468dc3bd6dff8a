import Telemetry.Proofs.Storage.MemoryBatches
import Telemetry.Proofs.Storage.Tables
/-!
A batch in memory and in a database, each of which may look at the entries in an order of its own. Both
accept the same batches and hold the same afterwards. A batch that one refuses is refused by the other,
and what each of them tells of is a defect that the batch has.
-/

namespace Telemetry

open Storage

def Storage.Error.nameless : Error → Error
  | .nonFiniteGauge _ => .nonFiniteGauge ""
  | .counterOverflow _ => .counterOverflow ""
  | e => e

namespace Database

/-- The gauges of a batch, checked in this order. -/
def putGaugesIn (db : Database) (batch : NameMap Binary64) (order : List (String × Binary64)) :
    Except Error Database := do
  order.forM fun e => checkGauge e.1 e.2
  return { db with gauges := ← db.gauges.putBatch gaugeColumn batch }

/-- The counters of a batch, their names checked in this order; the sums are formed in the order of the
names. -/
def putCountersIn (db : Database) (batch : NameMap Count) (order : List (String × Count)) :
    Except Error Database := do
  order.forM fun e => checkName e.1
  db.putCounters batch

variable {s u : Snapshot} {e : Error}

theorem putGauges_eq (db : Database) (batch : NameMap Binary64) :
    db.putGauges batch = db.putGaugesIn batch batch.toList := rfl

theorem putCounters_eq (db : Database) (batch : NameMap Count) :
    db.putCounters batch = db.putCountersIn batch batch.toList := by
  unfold putCountersIn
  cases named : batch.toList.forM fun e => checkName e.1 with
  | ok _ => rfl
  | error e =>
    have begun : batch.isEmpty = false := by
      by_contra empty
      have none : batch.toList = [] := by simpa [← Std.ExtTreeMap.isEmpty_toList] using empty
      rw [none] at named
      cases named
    simp only [putCounters, Relation.putBatch, begun, Bool.false_eq_true, if_false, named]
    rfl

end Database

/-- How memory and a database answer a batch that may have such defects. If these are of one kind, both
tell of that kind. -/
structure Alike (Defect : Error → Prop) (memory : Except Error Snapshot)
    (database : Except Error Database) : Prop where
  accepted : ∀ u, memory = .ok u → database = .ok (.holding u)
  refused : ∀ e, memory = .error e → ∃ f, database = .error f ∧ Defect e ∧ Defect f
  sameKind : (∀ e f, Defect e → Defect f → e.nameless = f.nameless) →
    ∀ e f, memory = .error e → database = .error f → e.nameless = f.nameless

namespace Snapshot

variable {s : Snapshot}

theorem alike_of {Defect : Error → Prop} {After : Snapshot → Prop} {Sound : Prop}
    {memory : Except Error Snapshot} {database : Except Error Database}
    (memoryOk : (∃ u, memory = .ok u) ↔ Sound)
    (databaseOk : Sound → ∃ u, After u ∧ database = .ok (.holding u))
    (after : ∀ u, memory = .ok u → After u) (unique : ∀ u v, After u → After v → u = v)
    (memoryDefect : ∀ e, memory = .error e → Defect e)
    (databaseDefect : ¬Sound → ∃ f, database = .error f ∧ Defect f) : Alike Defect memory database := by
  have refused : ∀ e, memory = .error e → ∃ f, database = .error f ∧ Defect e ∧ Defect f := by
    intro e he
    have unsound : ¬Sound := fun sound => by
      obtain ⟨u, hu⟩ := memoryOk.mpr sound
      cases he.symm.trans hu
    obtain ⟨f, hf, told⟩ := databaseDefect unsound
    exact ⟨f, hf, memoryDefect e he, told⟩
  refine ⟨fun u hu => ?_, refused, fun oneKind e f he hf => ?_⟩
  · obtain ⟨v, hv, accepted⟩ := databaseOk (memoryOk.mp ⟨u, hu⟩)
    rw [accepted, unique u v (after u hu) hv]
  · obtain ⟨f', hf', told, told'⟩ := refused e he
    obtain rfl : f' = f := Except.error.inj (hf'.symm.trans hf)
    exact oneKind e f' told told'

theorem not_isOk_iff {α : Type} {r : Except Error α} : (¬∃ x, r = .ok x) ↔ ∃ e, r = .error e := by
  cases r <;> simp

theorem alike_gauges {batch : NameMap Binary64} {first second : List (String × Binary64)}
    (hf : first.Perm batch.toList) (hs : second.Perm batch.toList) :
    Alike (GaugeDefect batch) (s.putGauges first) ((Database.holding s).putGaugesIn batch second) := by
  -- Past the checks the database cannot refuse a gauge.
  have checked (h : (second.forM fun e => checkGauge e.1 e.2) = .ok ()) :
      (Database.holding s).putGaugesIn batch second = (Database.holding s).putGauges batch := by
    have all : (batch.toList.forM fun e => checkGauge e.1 e.2) = .ok () := by
      rw [forM_eq_ok_iff] at h ⊢
      exact fun e he => h e (hs.mem_iff.mpr he)
    rw [Database.putGauges_eq, Database.putGaugesIn, Database.putGaugesIn, h, all]
  refine alike_of (putGauges_isOk_iff hf) (fun sound => ?_) (fun u => replaced_of_putGauges hf)
    (fun _ _ => Replaced.unique) (fun e => defect_of_putGauges hf) fun unsound => ?_
  · obtain ⟨v, hv⟩ := (putGauges_isOk_iff (s := s) hs).mpr sound
    obtain ⟨u, hu⟩ := (putGauges_isOk_iff (s := s) (.refl batch.toList)).mpr sound
    have passed := forM_eq_ok_iff.mpr (putGauges_eq_ok_iff.mp hv).1
    refine ⟨u, replaced_of_putGauges (.refl _) hu, ?_⟩
    rw [checked passed, Database.putGauges_holding, hu]
    rfl
  · obtain ⟨f, put⟩ := not_isOk_iff.mp ((putGauges_isOk_iff (s := s) hs).not.mpr unsound)
    refine ⟨f, ?_, defect_of_putGauges hs put⟩
    rcases bind_eq_error_iff.mp put with failed | ⟨_, -, put⟩
    · rw [Database.putGaugesIn, failed]
      rfl
    · exact absurd put pure_ne_error

theorem alike_counters {batch : NameMap Count} {first second : List (String × Count)}
    (hf : first.Perm batch.toList) (hs : second.Perm batch.toList) :
    Alike (CounterDefect batch s) (s.putCounters first)
      ((Database.holding s).putCountersIn batch second) := by
  refine alike_of (putCounters_isOk_iff hf) (fun sound => ?_) (fun u => added_of_putCounters hf)
    (fun _ _ => Added.unique) (fun e => defect_of_putCounters hf) fun unsound => ?_
  · obtain ⟨v, hv⟩ := (putCounters_isOk_iff (s := s) hs).mpr sound
    obtain ⟨u, hu⟩ := (putCounters_isOk_iff (s := s) (.refl batch.toList)).mpr sound
    have named := forM_eq_ok_iff.mpr (putCounters_eq_ok_iff.mp hv).1
    refine ⟨u, added_of_putCounters (.refl _) hu, ?_⟩
    rw [Database.putCountersIn, named, ok_bind, Database.putCounters_holding, hu]
    rfl
  · cases named : second.forM fun e => checkName e.1 with
    | error f =>
      have put : s.putCounters second = .error f := by
        rw [putCounters, named]
        rfl
      refine ⟨f, ?_, defect_of_putCounters hs put⟩
      rw [Database.putCountersIn, named]
      rfl
    | ok _ =>
      -- The names are sound, so a sum is not.
      obtain ⟨f, put⟩ := not_isOk_iff.mp
        ((putCounters_isOk_iff (s := s) (.refl batch.toList)).not.mpr unsound)
      refine ⟨f, ?_, defect_of_putCounters (.refl _) put⟩
      rw [Database.putCountersIn, named, ok_bind, Database.putCounters_holding, put]
      rfl

end Snapshot

/-- Every batch is answered alike, in whatever orders the two sides look at its entries. -/
structure AlikeInAnyOrder (s : Snapshot) (db : Database) : Prop where
  gauges : ∀ (batch : NameMap Binary64) (first second : List (String × Binary64)),
    first.Perm batch.toList → second.Perm batch.toList →
      Alike (Snapshot.GaugeDefect batch) (s.putGauges first) (db.putGaugesIn batch second)
  counters : ∀ (batch : NameMap Count) (first second : List (String × Count)),
    first.Perm batch.toList → second.Perm batch.toList →
      Alike (Snapshot.CounterDefect batch s) (s.putCounters first) (db.putCountersIn batch second)

theorem Snapshot.alike_in_any_order (s : Snapshot) : AlikeInAnyOrder s (.holding s) :=
  ⟨fun _ _ _ => alike_gauges, fun _ _ _ => alike_counters⟩

end Telemetry
