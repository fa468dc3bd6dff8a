import Telemetry.Proofs.Metric.Aggregation
import Telemetry.Proofs.Storage.Updates
/-!
What the calls of a storage in memory change. An accepted call adds its delta to a counter or gives a
gauge its value, for every name that it mentions; every other call leaves the content alone. A save
that fails after an accepted call makes the answer an error of the snapshot, never a refusal.
-/

namespace Telemetry

open Storage

namespace Call

def delta? (name : String) : Call → Option Int
  | .putCounter n d => if n = name then some d.val else none
  | .putCounters batch => batch[name]?.map Count.val
  | _ => none

def gauge? (name : String) : Call → Option Binary64
  | .putGauge n x => if n = name then some x else none
  | .putGauges batch => batch[name]?
  | _ => none

end Call

namespace Snapshot

def total? (s : Snapshot) (name : String) : Option Int := s.counters[name]?.map Count.val

/-- The content after a call that changes it; a call that is refused or only asks has none. -/
def change? (s : Snapshot) : Call → Option Snapshot
  | .putGauge name x => (s.putGauge name x).toOption
  | .putCounter name delta => (s.putCounter name delta).toOption
  | .putGauges batch => (s.putGauges batch.toList).toOption
  | .putCounters batch => (s.putCounters batch.toList).toOption
  | _ => none

structure Within (s u : Snapshot) : Prop where
  gauges : ∀ name : String, s.gauges[name]?.isSome → u.gauges[name]?.isSome
  counters : ∀ name : String, s.counters[name]?.isSome → u.counters[name]?.isSome

variable {s u v : Snapshot} {c : Call}

theorem Within.refl (s : Snapshot) : Within s s := ⟨fun _ h => h, fun _ h => h⟩

theorem Within.trans (h : Within s u) (k : Within u v) : Within s v :=
  ⟨fun n hn => k.gauges n (h.gauges n hn), fun n hn => k.counters n (h.counters n hn)⟩

theorem toOption_eq_some {ε α : Type} {x : Except ε α} {a : α} :
    x.toOption = some a ↔ x = .ok a := by
  cases x <;> simp [Except.toOption]

theorem lookup_sums {entries sums : List (String × Count)}
    (h : List.Forall₂ (fun e r => s.sumOf e = .ok r) entries sums) (name : String) :
    (sums.lookup name).map Count.val =
      (entries.lookup name).map fun d => (s.total? name).getD 0 + d.val := by
  induction h with
  | nil => rfl
  | @cons e r _ _ he _ ih =>
    obtain ⟨hk, ha⟩ := sumOf_eq_ok_iff.mp he
    rw [NameMap.lookup_cons, NameMap.lookup_cons, ← hk]
    by_cases hn : e.1 = name
    · subst hn
      simpa [total?] using accumulate_eq_ok_iff.mp ha
    · simpa [hn] using ih

theorem total?_of_change (h : s.change? c = some u) (name : String) :
    u.total? name = Update.plus (s.total? name) (c.delta? name) := by
  cases c with
  | putGauge n x =>
    obtain ⟨-, rfl⟩ := putGauge_eq_ok_iff.mp (toOption_eq_some.mp h)
    rfl
  | putGauges batch =>
    obtain ⟨-, rfl⟩ := putGauges_eq_ok_iff.mp (toOption_eq_some.mp h)
    rfl
  | putCounter n d =>
    obtain ⟨-, sum, hs, rfl⟩ := putCounter_eq_ok_iff.mp (toOption_eq_some.mp h)
    have hv := accumulate_eq_ok_iff.mp hs
    simp only [total?, NameMap.getElem?_insert, Call.delta?]
    by_cases hn : n = name
    · subst hn
      simp [hv, Update.plus]
    · simp [hn, Update.plus]
  | putCounters batch =>
    obtain ⟨-, sums, hs, rfl⟩ := putCounters_eq_ok_iff.mp (toOption_eq_some.mp h)
    have hl := lookup_sums (List.rel_reverse (mapM_eq_ok_iff.mp hs)) name
    rw [NameMap.lookup_reverse batch.distinct_toList, NameMap.lookup_toList] at hl
    simp only [total?, NameMap.getElem?_putAll, Call.delta?, Option.map_or, hl]
    cases batch[name]? <;> simp [Update.plus]
  | backend => cases h
  | getGauge => cases h
  | getCounter => cases h
  | getAll => cases h
  | ping => cases h

theorem gauges_of_change (h : s.change? c = some u) (name : String) :
    u.gauges[name]? = (c.gauge? name).or s.gauges[name]? := by
  cases c with
  | putGauge n x =>
    obtain ⟨-, rfl⟩ := putGauge_eq_ok_iff.mp (toOption_eq_some.mp h)
    rw [NameMap.getElem?_insert, Call.gauge?]
    by_cases hn : n = name <;> simp [hn]
  | putGauges batch =>
    obtain ⟨-, rfl⟩ := putGauges_eq_ok_iff.mp (toOption_eq_some.mp h)
    rw [NameMap.getElem?_putAll_of_distinct batch.distinct_toList, NameMap.lookup_toList,
      Call.gauge?]
  | putCounter n d =>
    obtain ⟨-, sum, hs, rfl⟩ := putCounter_eq_ok_iff.mp (toOption_eq_some.mp h)
    rfl
  | putCounters batch =>
    obtain ⟨-, sums, hs, rfl⟩ := putCounters_eq_ok_iff.mp (toOption_eq_some.mp h)
    rfl
  | backend => cases h
  | getGauge => cases h
  | getCounter => cases h
  | getAll => cases h
  | ping => cases h

theorem gauge_isFinite (h : s.change? c = some u) {name : String} {x : Binary64}
    (hx : c.gauge? name = some x) : x.isFinite = true := by
  cases c with
  | putGauge n y =>
    obtain ⟨check, -⟩ := putGauge_eq_ok_iff.mp (toOption_eq_some.mp h)
    obtain ⟨-, rfl⟩ : n = name ∧ y = x := by simpa [Call.gauge?] using hx
    exact (checkGauge_eq_ok_iff.mp check).2
  | putGauges batch =>
    obtain ⟨checks, -⟩ := putGauges_eq_ok_iff.mp (toOption_eq_some.mp h)
    have mem : (name, x) ∈ batch.toList := Std.ExtTreeMap.mem_toList_iff_getElem?_eq_some.mpr hx
    exact (checkGauge_eq_ok_iff.mp (checks _ mem)).2
  | _ => cases hx

theorem within_of_change (h : s.change? c = some u) : Within s u := by
  constructor
  · intro name hs
    rw [gauges_of_change h]
    cases c.gauge? name <;> simp [hs]
  · intro name hs
    have ht := total?_of_change h name
    rw [total?, total?] at ht
    rw [← Option.isSome_map (f := Count.val), ht]
    cases c.delta? name <;> simp [Update.plus, hs]

end Snapshot

namespace AtomicWrite

theorem attempt_error {fault : Option Step} {written : Nat} {t : FileTree} {path : String}
    {bytes : Bytes} {e : Error} (h : (attempt fault written t path bytes).result = .error e) :
    e.isPersistence = true := by
  have hp : e = .emptySnapshot path ∨ e = .persistence path := by
    unfold attempt at h
    grind [abandon]
  rcases hp with rfl | rfl <;> rfl

end AtomicWrite

namespace Memory

theorem afterWrite_error {m : Memory} {files : FileTree} {e : Error}
    (h : (m.afterWrite files).1 = .error e) : e.isPersistence = true := by
  unfold afterWrite at h
  split at h
  · exact AtomicWrite.attempt_error h
  · cases h

theorem apply_memory (m : Memory) (files : FileTree) (change : Except Error Snapshot) :
    (m.apply files change).2.1 = m.load (change.toOption.getD m.content) := by
  cases change <;> rfl

/-- The answer to an update: refused as it stands, or accepted whatever became of the save. -/
theorem apply_answer (m : Memory) (files : FileTree) (change : Except Error Snapshot) :
    (∃ e, change = .error e ∧ (m.apply files change).1 = .error e) ∨
      (∃ u, change = .ok u) ∧ ∀ e, (m.apply files change).1 = .error e → e.isPersistence = true := by
  cases change with
  | error e => exact .inl ⟨e, rfl, rfl⟩
  | ok u => exact .inr ⟨⟨u, rfl⟩, fun e h => afterWrite_error h⟩

theorem perform_memory (m : Memory) (files : FileTree) (c : Call) :
    (m.perform files c).2.1 = m.load ((m.content.change? c).getD m.content) := by
  cases c with
  | putGauge name x => exact m.apply_memory files _
  | putCounter name delta => exact m.apply_memory files _
  | putGauges batch =>
    simp only [perform, applyBatch, Snapshot.change?]
    split
    · rename_i he
      rw [List.isEmpty_iff.mp he]
      rfl
    · exact m.apply_memory files _
  | putCounters batch =>
    simp only [perform, applyBatch, Snapshot.change?]
    split
    · rename_i he
      rw [List.isEmpty_iff.mp he]
      rfl
    · exact m.apply_memory files _
  | backend => rfl
  | getGauge name => rfl
  | getCounter name => rfl
  | getAll => rfl
  | ping => rfl

end Memory

end Telemetry
