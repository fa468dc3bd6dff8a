import Mathlib.Algebra.BigOperators.Group.List.Basic
import Telemetry.Proofs.Server.Clients
/-!
The accounts of a server: when no request is worked on, every counter is what it was at the start
plus the deltas of the requests that were answered 200, and every gauge has the value of the last of
them that was applied.
-/

namespace Telemetry

namespace Update

variable {ds es : List Int}

theorem sum?_perm (h : ds.Perm es) : sum? ds = sum? es := by
  cases ds with
  | nil => rw [List.nil_perm.mp h]
  | cons d ds =>
    cases es with
    | nil => cases List.perm_nil.mp h
    | cons e es => exact congrArg some h.sum_eq

@[simp] theorem sum?_toList (d : Option Int) : sum? d.toList = d := by
  cases d <;> simp [sum?]

theorem sum?_flatMap {α : Type} (xs : List α) (f : α → List Int) :
    sum? (xs.flatMap fun x => (sum? (f x)).toList) = sum? (xs.flatMap f) := by
  induction xs with
  | nil => rfl
  | cons x xs ih => simp only [List.flatMap_cons, sum?_append, sum?_toList, ih]

end Update

namespace Server

namespace History

theorem perm_changesOf {h : History} {tickets : List Nat} (hn : tickets.Nodup)
    (hm : ∀ e ∈ h, e.1 ∈ tickets) : (h.map Prod.snd).Perm (tickets.flatMap h.changesOf) := by
  induction tickets generalizing h with
  | nil =>
    cases h with
    | nil => rfl
    | cons e h => cases hm e List.mem_cons_self
  | cons t tickets ih =>
    obtain ⟨ht, hn⟩ := List.nodup_cons.mp hn
    have split := (List.filter_append_perm (fun e : Nat × Call => e.1 = t) h).map Prod.snd
    rw [List.map_append] at split
    refine split.symm.trans (List.Perm.append_left _ ?_)
    refine (ih hn fun e he => ?_).trans (List.Perm.of_eq ?_)
    · obtain ⟨he, hne⟩ := List.mem_filter.mp he
      have hne : e.1 ≠ t := by simpa using hne
      exact (List.mem_cons.mp (hm e he)).resolve_left hne
    · refine List.flatMap_congr fun u hu => ?_
      have hut : u ≠ t := fun h => ht (h ▸ hu)
      rw [changesOf, changesOf, List.filter_filter]
      refine congrArg _ (List.filter_congr fun e _ => ?_)
      by_cases he : e.1 = u <;> simp [he, hut]

end History

namespace System

variable {ι : Type} {c : Snapshot} {s : System ι}

/-- The updates of all requests that were answered 200. -/
def accepted (s : System ι) : List Update := s.answered.flatMap Exchange.updates

theorem Invariant.applied (h : Invariant c s) {y : Exchange} (hy : y ∈ s.answered) :
    Applied y.updates (s.history.changesOf y.ticket) := by
  obtain ⟨-, accepted, refused⟩ := h.settled y hy
  by_cases hs : y.response.status = 200
  · obtain ⟨us, hus, happ⟩ := accepted hs
    rw [Exchange.updates, if_pos hs, hus]
    exact happ
  · have unchanged : s.history.changesOf y.ticket = [] := refused hs
    rw [Exchange.updates, if_neg hs, unchanged]
    exact ⟨fun _ => rfl, fun _ => rfl⟩

theorem Invariant.answered_of_idle (h : Invariant c s) (hi : s.Idle) :
    ∀ e ∈ s.history, ∃ y ∈ s.answered, y.ticket = e.1 := by
  intro e he
  rcases h.tickets.owned e he with ⟨i, x, hx, -⟩ | answered
  · rw [hi i] at hx
    cases hx
  · exact answered

theorem Invariant.perm_history (h : Invariant c s) (hi : s.Idle) :
    (s.history.map Prod.snd).Perm (s.answered.flatMap fun y => s.history.changesOf y.ticket) := by
  have sorted := History.perm_changesOf h.tickets.answered_once fun e he =>
    List.mem_map.mpr (h.answered_of_idle hi e he)
  rwa [List.flatMap_map] at sorted

theorem Invariant.sum_deltas (h : Invariant c s) (hi : s.Idle) (name : String) :
    Update.sum? (s.history.deltas name) = Update.sum? (Update.deltas name s.accepted) := by
  have sorted := (h.perm_history hi).filterMap (Call.delta? name)
  calc Update.sum? (s.history.deltas name)
      = Update.sum? ((s.history.map Prod.snd).filterMap (Call.delta? name)) := by
        rw [List.filterMap_map]
        rfl
    _ = Update.sum? (s.answered.flatMap fun y =>
          (s.history.changesOf y.ticket).filterMap (Call.delta? name)) := by
        rw [Update.sum?_perm sorted, List.filterMap_flatMap]
    _ = Update.sum? (s.answered.flatMap fun y =>
          (Update.sum? (Update.deltas name y.updates)).toList) := by
        rw [List.flatMap_congr fun y hy => (h.applied hy).deltas name]
    _ = Update.sum? (Update.deltas name s.accepted) := by
        rw [Update.sum?_flatMap, accepted, Update.deltas, List.filterMap_flatMap]
        rfl

theorem Invariant.mem_gauges (h : Invariant c s) (hi : s.Idle) {name : String} {t : Nat}
    {x : Binary64} : (t, x) ∈ s.history.gauges name ↔
      ∃ y ∈ s.answered, y.ticket = t ∧ (Update.gauges name y.updates).getLast? = some x := by
  have values (y : Exchange) (hy : y ∈ s.answered) : x ∈ (s.history.changesOf y.ticket).filterMap
      (Call.gauge? name) ↔ (Update.gauges name y.updates).getLast? = some x := by
    rw [(h.applied hy).gauges, Option.mem_toList]
  have entry : (t, x) ∈ s.history.gauges name ↔
      x ∈ (s.history.changesOf t).filterMap (Call.gauge? name) := by
    simp [History.gauges, History.changesOf]
  constructor
  · intro hx
    obtain ⟨e, he, hg⟩ := List.mem_filterMap.mp hx
    obtain ⟨y, hy, hye⟩ := h.answered_of_idle hi e he
    obtain ⟨v, -, hv⟩ := Option.map_eq_some_iff.mp hg
    have ht : y.ticket = t := hye.trans (Prod.ext_iff.mp hv).1
    exact ⟨y, hy, ht, (values y hy).mp (ht ▸ entry.mp hx)⟩
  · rintro ⟨y, hy, rfl, hx⟩
    exact entry.mpr ((values y hy).mpr hx)

/-- Every request settles. When none is worked on, a counter is what it was plus the sum of the
accepted deltas, absent if it was absent and there are none, and a gauge has the value of the accepted
update that was applied last. -/
theorem accounts_of_run [DecidableEq ι] (m : Memory) (events : List (Event ι)) :
    let s := run (start m) events
    (s.answered.map Exchange.ticket).Nodup ∧
    (∀ y ∈ s.answered, Settled (updates? y.request) y.response.status (s.ledger y.ticket)) ∧
    (s.Idle → ∀ name : String,
      let total := s.memory.content.total? name
      let before := m.content.total? name
      let added := Update.deltas name s.accepted
      total.getD 0 = before.getD 0 + added.sum ∧ (total = none ↔ before = none ∧ added = []) ∧
      s.memory.content.gauges[name]? =
        ((s.history.gauges name).getLast?.map Prod.snd).or m.content.gauges[name]? ∧
      ∀ t x, (t, x) ∈ s.history.gauges name ↔
        ∃ y ∈ s.answered, y.ticket = t ∧ (Update.gauges name y.updates).getLast? = some x) := by
  intro s
  have inv : Invariant m.content s := run_preserves_invariant (start_invariant m) events
  refine ⟨inv.tickets.answered_once, inv.settled, fun hi name => ?_⟩
  intro total before added
  have ht : total = Update.plus before (Update.sum? added) := by
    rw [← inv.sum_deltas hi name]
    exact inv.counters name
  refine ⟨?_, ?_, inv.gauges name, fun t x => inv.mem_gauges hi⟩
  · rw [ht]
    cases added <;> simp [Update.sum?, Update.plus]
  · rw [ht]
    cases added <;> simp [Update.sum?, Update.plus]

/-- A memory whose snapshot cannot be written, since no path leads out of the working directory. -/
def unsavedMemory : Memory := .new (some "/elsewhere/metrics.json") .inline

def countingEvents : List (Event Unit) :=
  .submit () ⟨"POST", "/update/counter/PollCount/5", [], .raw []⟩ ::
    List.replicate 5 (.advance () ⟨"/work", ∅⟩)

theorem accounts_of_countingEvents :
    let s := run (start unsavedMemory) countingEvents
    s.Idle ∧ s.answered.map (fun y => y.response.status) = [200] ∧
      (s.memory.content.total? "PollCount").getD 0 =
        (unsavedMemory.content.total? "PollCount").getD 0 +
          (Update.deltas "PollCount" s.accepted).sum := by
  intro s
  have idle : s.Idle := fun _ => by with_unfolding_all rfl
  exact ⟨idle, by decide +kernel,
    ((accounts_of_run unsavedMemory countingEvents).2.2 idle "PollCount").1⟩

end System

end Server

end Telemetry
