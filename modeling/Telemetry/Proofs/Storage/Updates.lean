import Telemetry.Proofs.Checks
import Telemetry.Storage.Store
/-!
Updates of the metrics in memory, seen through lookups: which are accepted, what an accepted one
changes, and that all other names stay. The answer of the memory tells an accepted update from a
refused one even when its snapshot could not be written.
-/

namespace Telemetry

open Storage

namespace Storage

/-- The update itself was refused; the storage is as it was. -/
def Error.isRefusal : Error → Bool
  | emptyName | nonFiniteGauge _ | counterOverflow _ => true
  | _ => false

/-- The database failed. -/
def Error.isFault : Error → Bool
  | backend _ _ | consistency _ _ _ => true
  | _ => false

theorem checkName_eq_ok_iff {name : String} : checkName name = .ok () ↔ isBlankText name = false := by
  unfold checkName
  cases isBlankText name <;> simp

theorem checkName_error {name : String} {e : Error} (h : checkName name = .error e) :
    e = .emptyName := by
  unfold checkName at h
  split at h
  · exact (Except.error.inj h).symm
  · simp at h

theorem checkGauge_eq_ok_iff {name : String} {x : Binary64} :
    checkGauge name x = .ok () ↔ isBlankText name = false ∧ x.isFinite = true := by
  rw [← checkName_eq_ok_iff, checkGauge, check_bind_eq_ok_iff]
  cases x.isFinite <;> simp

theorem checkGauge_error {name : String} {x : Binary64} {e : Error}
    (h : checkGauge name x = .error e) : e = .emptyName ∨ e = .nonFiniteGauge name := by
  rw [checkGauge, bind_eq_error_iff] at h
  rcases h with h | ⟨_, -, h⟩
  · exact .inl (checkName_error h)
  · split at h
    · cases h
    · exact .inr (Except.error.inj h).symm

theorem accumulate_eq_ok_iff {name : String} {old : Option Count} {delta sum : Count} :
    accumulate name old delta = .ok sum ↔ sum.val = (old.map Count.val).getD 0 + delta.val := by
  have hv : (old.getD .zero).val = (old.map Count.val).getD 0 := by cases old <;> rfl
  rw [← hv, ← Count.add?_eq_some_iff]
  unfold accumulate
  cases (old.getD .zero).add? delta <;> simp

theorem accumulate_error {name : String} {old : Option Count} {delta : Count} {e : Error}
    (h : accumulate name old delta = .error e) : e = .counterOverflow name := by
  unfold accumulate at h
  split at h
  · simp at h
  · exact (Except.error.inj h).symm

end Storage

namespace Snapshot

variable {s u : Snapshot}

theorem putGauge_eq_ok_iff {name : String} {x : Binary64} : s.putGauge name x = .ok u ↔
    checkGauge name x = .ok () ∧ { s with gauges := s.gauges.insert name x } = u := by
  simp only [putGauge, check_bind_eq_ok_iff, pure_eq_ok_iff]

theorem putCounter_eq_ok_iff {name : String} {delta : Count} : s.putCounter name delta = .ok u ↔
    checkName name = .ok () ∧ ∃ sum, accumulate name s.counters[name]? delta = .ok sum ∧
      { s with counters := s.counters.insert name sum } = u := by
  rw [putCounter, check_bind_eq_ok_iff]
  simp only [bind_eq_ok_iff, pure_eq_ok_iff]

theorem putGauges_eq_ok_iff {batch : List (String × Binary64)} : s.putGauges batch = .ok u ↔
    (∀ e ∈ batch, checkGauge e.1 e.2 = .ok ()) ∧
      { s with gauges := NameMap.putAll s.gauges batch } = u := by
  simp only [putGauges, check_bind_eq_ok_iff, pure_eq_ok_iff, ← forM_eq_ok_iff]

theorem putCounters_eq_ok_iff {batch : List (String × Count)} : s.putCounters batch = .ok u ↔
    (∀ e ∈ batch, checkName e.1 = .ok ()) ∧ ∃ sums, batch.mapM s.sumOf = .ok sums ∧
      { s with counters := NameMap.putAll s.counters sums } = u := by
  rw [putCounters, check_bind_eq_ok_iff, forM_eq_ok_iff]
  simp only [bind_eq_ok_iff, pure_eq_ok_iff]

theorem sumOf_eq_ok_iff {e r : String × Count} : s.sumOf e = .ok r ↔
    e.1 = r.1 ∧ accumulate e.1 s.counters[e.1]? e.2 = .ok r.2 := by
  simp only [sumOf, bind_eq_ok_iff, pure_eq_ok_iff, Prod.ext_iff]
  constructor
  · rintro ⟨sum, hs, h, rfl⟩
    exact ⟨h, hs⟩
  · rintro ⟨h, hs⟩
    exact ⟨r.2, hs, h, rfl⟩

theorem putGauge_error {name : String} {x : Binary64} {e : Error}
    (h : s.putGauge name x = .error e) : e.isRefusal = true := by
  rw [putGauge, bind_eq_error_iff] at h
  rcases h with h | ⟨_, -, h⟩
  · rcases checkGauge_error h with rfl | rfl <;> rfl
  · exact absurd h pure_ne_error

theorem putCounter_error {name : String} {delta : Count} {e : Error}
    (h : s.putCounter name delta = .error e) : e.isRefusal = true := by
  rw [putCounter, bind_eq_error_iff] at h
  rcases h with h | ⟨_, -, h⟩
  · rw [checkName_error h]; rfl
  rw [bind_eq_error_iff] at h
  rcases h with h | ⟨_, -, h⟩
  · rw [accumulate_error h]; rfl
  · exact absurd h pure_ne_error

theorem putGauges_error {batch : List (String × Binary64)} {e : Error}
    (h : s.putGauges batch = .error e) : e.isRefusal = true := by
  rw [putGauges, bind_eq_error_iff] at h
  rcases h with h | ⟨_, -, h⟩
  · obtain ⟨x, -, hx⟩ := error_of_forM h
    rcases checkGauge_error hx with rfl | rfl <;> rfl
  · exact absurd h pure_ne_error

theorem sumOf_error {e : String × Count} {r : Error} (h : s.sumOf e = .error r) :
    r = .counterOverflow e.1 := by
  rw [sumOf, bind_eq_error_iff] at h
  rcases h with h | ⟨_, -, h⟩
  · exact accumulate_error h
  · exact absurd h pure_ne_error

theorem putCounters_error {batch : List (String × Count)} {e : Error}
    (h : s.putCounters batch = .error e) : e.isRefusal = true := by
  rw [putCounters, bind_eq_error_iff] at h
  rcases h with h | ⟨_, -, h⟩
  · obtain ⟨x, -, hx⟩ := error_of_forM h
    rw [checkName_error hx]; rfl
  rw [bind_eq_error_iff] at h
  rcases h with h | ⟨_, -, h⟩
  · obtain ⟨x, -, hx⟩ := error_of_mapM h
    rw [sumOf_error hx]; rfl
  · exact absurd h pure_ne_error

end Snapshot

end Telemetry
