import Telemetry.Proofs.Metric.Aggregation
/-!
Lists that are accepted as a batch: every metric asks for an update, and the deltas of a counter never
leave the range of counters on their way through the list.
-/

namespace Telemetry

theorem kindOf_text (kind : Kind) : kindOf kind.text = .ok kind := by
  cases kind <;> decide +kernel

theorem Metric.payload?_gauge (id : String) {x : Binary64} (hf : x.isFinite = true) :
    (gauge id x).payload? = .ok (.gauge x) := by
  rw [payload?, show (gauge id x).kind? = .ok .gauge from kindOf_text .gauge, ok_bind]
  simp [gauge, hf]

theorem Metric.payload?_counter (id : String) (d : Count) :
    (counter id d).payload? = .ok (.counter d) := by
  rw [payload?, show (counter id d).kind? = .ok .counter from kindOf_text .counter, ok_bind]
  rfl

/-- Every running total of the deltas for a counter is a count. -/
def Update.Fits (us : List Update) : Prop :=
  ∀ front, front <+: us → ∀ name, ∃ c : Count, c.val = (Update.deltas name front).sum

namespace Batch

variable {b : Batch} {us : List Update}

theorem Holds.total (h : b.Holds us) (name : String) :
    (b.counters.getD name .zero).val = (Update.deltas name us).sum := by
  have held := h.counters name
  rw [Std.ExtTreeMap.getD_eq_getD_getElem?]
  cases hd : Update.deltas name us with
  | nil =>
    rw [hd] at held
    rw [Option.map_eq_none_iff.mp held]
    rfl
  | cons d ds =>
    rw [hd] at held
    obtain ⟨c, hc, total⟩ := Option.map_eq_some_iff.mp held
    rw [hc]
    exact total

theorem exists_add {m : Metric} {u : Update} (h : b.Holds us) (hu : m.update? = some u)
    (fits : ∀ name, ∃ c : Count, c.val = (Update.deltas name (us ++ [u])).sum) :
    ∃ c, b.add m = .ok c := by
  obtain ⟨name, payload⟩ := u
  obtain ⟨hn, hp⟩ := Metric.update?_eq_some_iff.mp hu
  rw [add, hn, ok_bind, hp, ok_bind]
  cases payload with
  | gauge x => exact ⟨_, rfl⟩
  | counter d =>
    obtain ⟨sum, hs⟩ := fits name
    have added : (b.counters.getD name .zero).add? d = some sum := by
      rw [Count.add?_eq_some_iff, hs, h.total]
      simp [Update.deltas]
    simp only [added]
    exact ⟨_, rfl⟩

theorem exists_foldlM {ms : List Metric} {vs : List Update} (h : b.Holds us)
    (hvs : List.Forall₂ (fun m u => m.update? = some u) ms vs)
    (fits : ∀ front, front <+: vs → ∀ name,
      ∃ c : Count, c.val = (Update.deltas name (us ++ front)).sum) :
    ∃ c, ms.foldlM add b = .ok c := by
  induction hvs generalizing b us with
  | nil => exact ⟨b, rfl⟩
  | @cons m u ms vs hu _ ih =>
    obtain ⟨c, hc⟩ := exists_add h hu (fits [u] (List.prefix_append [u] vs))
    obtain ⟨v, hv, held⟩ := holds_add h hc
    obtain rfl := Option.some.inj (hu.symm.trans hv)
    rw [List.foldlM_cons, hc, ok_bind]
    refine ih held fun front hf name => ?_
    rw [List.append_assoc]
    exact fits (u :: front) ((List.prefix_cons_inj u).mpr hf) name

theorem exists_ofMetrics {ms : List Metric} (hus : ms.mapM Metric.update? = some us)
    (fits : Update.Fits us) : ∃ b, ofMetrics ms = .ok b :=
  exists_foldlM holds_empty (mapM_eq_some_iff.mp hus) fits

end Batch

end Telemetry
