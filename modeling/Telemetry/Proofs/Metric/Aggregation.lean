import Mathlib.Algebra.Ring.Int.Defs
import Telemetry.Metric.Batch
import Telemetry.Proofs.Checks
import Telemetry.Proofs.Text.Trim
/-!
A list of metrics as updates of names, and the batch that it is folded into: every gauge has the last
value of its name, every counter the sum of the deltas of its name. What an accepted list mentions
passes every check of a storage.
-/

namespace Telemetry

/-- A trimmed name and the value for it. -/
abbrev Update := String × Payload

namespace Update

def gauge? (name : String) : Update → Option Binary64
  | (n, .gauge x) => if n = name then some x else none
  | _ => none

def delta? (name : String) : Update → Option Int
  | (n, .counter d) => if n = name then some d.val else none
  | _ => none

@[simp] theorem gauge?_gauge (name n : String) (x : Binary64) :
    gauge? name (n, .gauge x) = if n = name then some x else none := rfl

@[simp] theorem gauge?_counter (name n : String) (d : Count) :
    gauge? name (n, .counter d) = none := rfl

@[simp] theorem delta?_gauge (name n : String) (x : Binary64) :
    delta? name (n, .gauge x) = none := rfl

@[simp] theorem delta?_counter (name n : String) (d : Count) :
    delta? name (n, .counter d) = if n = name then some d.val else none := rfl

def gauges (name : String) (us : List Update) : List Binary64 := us.filterMap (gauge? name)

def deltas (name : String) (us : List Update) : List Int := us.filterMap (delta? name)

def sum? : List Int → Option Int
  | [] => none
  | ds => some ds.sum

/-- A counter after something was added to it, or was not. -/
def plus (old : Option Int) : Option Int → Option Int
  | some d => some (old.getD 0 + d)
  | none => old

/-- No storage refuses an update of this form for its name or its gauge. -/
def Sound (u : Update) : Prop :=
  isBlankText u.1 = false ∧ ∀ x, u.2 = .gauge x → x.isFinite = true

@[simp] theorem plus_none (old : Option Int) : plus old none = old := rfl

theorem plus_assoc (a b d : Option Int) : plus (plus a b) d = plus a (plus b d) := by
  cases b <;> cases d <;> simp [plus, Int.add_assoc]

theorem sum?_singleton (d : Int) : sum? [d] = some d := by simp [sum?]

theorem sum?_append (ds es : List Int) : sum? (ds ++ es) = plus (sum? ds) (sum? es) := by
  cases ds <;> cases es <;> simp [sum?, plus, Int.add_assoc]

end Update

def Metric.update? (m : Metric) : Option Update := do
  return (← m.name?.toOption, ← m.payload?.toOption)

theorem Metric.update?_eq_some_iff {m : Metric} {name : String} {payload : Payload} :
    m.update? = some (name, payload) ↔ m.name? = .ok name ∧ m.payload? = .ok payload := by
  unfold update?
  cases m.name? <;> cases m.payload? <;> simp [Except.toOption]

theorem nameOf_eq_ok {text name : String} (h : nameOf text = .ok name) :
    isBlankText name = false := by
  by_cases ht : trim text = ""
  · simp [nameOf, ht] at h
  · simp only [nameOf, ht, if_false, Except.ok.injEq] at h
    exact h ▸ isBlankText_trim ht

theorem Metric.payload?_finite {m : Metric} {x : Binary64} (h : m.payload? = .ok (.gauge x)) :
    x.isFinite = true := by
  rw [Metric.payload?, bind_eq_ok_iff] at h
  obtain ⟨kind, -, h⟩ := h
  cases kind with
  | gauge =>
    cases hv : m.value with
    | none => simp [hv] at h
    | some y =>
      by_cases hf : y.isFinite = true
      · simp only [hv, hf, if_true, Except.ok.injEq, Payload.gauge.injEq] at h
        exact h ▸ hf
      · simp [hv, hf] at h
  | counter => cases hd : m.delta <;> simp [hd] at h

theorem Metric.update?_sound {m : Metric} {u : Update} (h : m.update? = some u) : u.Sound := by
  obtain ⟨hn, hp⟩ := Metric.update?_eq_some_iff.mp h
  exact ⟨nameOf_eq_ok hn, fun x hx => Metric.payload?_finite (hp.trans (congrArg _ hx))⟩

namespace Batch

/-- A batch that holds what a list of updates asks for. -/
structure Holds (b : Batch) (us : List Update) : Prop where
  gauges : ∀ name : String, b.gauges[name]? = (Update.gauges name us).getLast?
  counters : ∀ name : String, b.counters[name]?.map Count.val = Update.sum? (Update.deltas name us)

theorem holds_empty : Holds empty [] := ⟨fun _ => by simp [empty, Update.gauges],
  fun _ => by simp [empty, Update.deltas, Update.sum?]⟩

theorem holds_add {b c : Batch} {m : Metric} {us : List Update} (hb : b.Holds us)
    (h : b.add m = .ok c) : ∃ u, m.update? = some u ∧ c.Holds (us ++ [u]) := by
  rw [Batch.add, bind_eq_ok_iff] at h
  obtain ⟨name, hn, h⟩ := h
  rw [bind_eq_ok_iff] at h
  obtain ⟨payload, hp, h⟩ := h
  refine ⟨(name, payload), Metric.update?_eq_some_iff.mpr ⟨hn, hp⟩, ?_⟩
  cases payload with
  | gauge x =>
    obtain rfl := pure_eq_ok_iff.mp h
    constructor
    · intro key
      rw [NameMap.getElem?_insert, hb.gauges]
      by_cases hk : name = key <;> simp [Update.gauges, hk]
    · intro key
      rw [hb.counters]
      simp [Update.deltas, List.filterMap_cons]
  | counter d =>
    cases hs : (b.counters.getD name .zero).add? d with
    | none => simp [hs] at h
    | some sum =>
      simp only [hs, pure_eq_ok_iff] at h
      subst h
      have hv := Count.add?_eq_some_iff.mp hs
      constructor
      · intro key
        rw [hb.gauges]
        simp [Update.gauges]
      · intro key
        rw [NameMap.getElem?_insert]
        by_cases hk : name = key
        · subst hk
          have hd : Update.deltas name (us ++ [(name, .counter d)]) =
              Update.deltas name us ++ [d.val] := by
            simp [Update.deltas]
          rw [hd, Update.sum?_append, Update.sum?_singleton, ← hb.counters]
          cases hc : b.counters[name]? <;>
            simp [hv, hc, Std.ExtTreeMap.getD_eq_getD_getElem?, Count.zero, Update.plus]
        · simp [hk, hb.counters, Update.deltas]

theorem holds_foldlM {metrics : List Metric} {b c : Batch} {us : List Update} (hb : b.Holds us)
    (h : metrics.foldlM add b = .ok c) :
    ∃ vs, metrics.mapM Metric.update? = some vs ∧ c.Holds (us ++ vs) := by
  induction metrics generalizing b us with
  | nil =>
    obtain rfl := pure_eq_ok_iff.mp h
    exact ⟨[], rfl, by simpa using hb⟩
  | cons m metrics ih =>
    rw [List.foldlM_cons, bind_eq_ok_iff] at h
    obtain ⟨d, hd, h⟩ := h
    obtain ⟨u, hu, hb⟩ := holds_add hb hd
    obtain ⟨vs, hvs, hc⟩ := ih hb h
    exact ⟨u :: vs, by simp [List.mapM_cons, hu, hvs], by simpa using hc⟩

theorem holds_ofMetrics {metrics : List Metric} {b : Batch} (h : ofMetrics metrics = .ok b) :
    ∃ us, metrics.mapM Metric.update? = some us ∧ (∀ u ∈ us, u.Sound) ∧ b.Holds us := by
  obtain ⟨us, hus, hb⟩ := holds_foldlM holds_empty h
  refine ⟨us, hus, ?_, by simpa using hb⟩
  exact forall_mem_of_mapM hus fun _ _ => Metric.update?_sound

end Batch

end Telemetry
