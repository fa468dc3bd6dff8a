import Telemetry.Agent.Samples
import Telemetry.Proofs.Server.Names
/-!
What an agent keeps between reports, over all that may happen to it. Whatever the readings are, the
gauges that are kept have trimmed names and finite values, so there is nothing in a report that a
server would have to refuse; and the number of polls never falls below zero.
-/

namespace Telemetry

namespace Count

theorem val_addSaturating_one {a : Count} (h : 0 ≤ a.val) :
    (a.addSaturating .one).val = min (a.val + 1) 9223372036854775807 := by
  have upper := a.upper
  have unit : one.val = 1 := rfl
  unfold addSaturating
  rw [dif_neg (by omega)]
  split
  · simp only
    omega
  · simp only [largest]
    omega

theorem drop_nonneg (a b : Count) : 0 ≤ (a.drop b).val := by
  unfold drop
  split
  · exact Int.le_refl 0
  split
  · simp only
    omega
  · exact (by decide : (0 : Int) ≤ largest.val)

theorem val_drop {a b : Count} (h : 0 ≤ b.val) : (a.drop b).val = max (a.val - b.val) 0 := by
  have upper := a.upper
  unfold drop
  split
  · simp only [zero]
    omega
  · rw [dif_pos (by omega)]
    simp only
    omega

end Count

namespace Agent.Samples

inductive Event where
  | record (readings : List Metric)
  | flush (reported : Count)

def next (s : Samples) : Event → Samples
  | .record readings => (s.record readings).1
  | .flush reported => s.flush reported

def run (s : Samples) (events : List Event) : Samples := events.foldl next s

theorem run_preserves {P : Samples → Prop} (step : ∀ s e, P s → P (s.next e)) {s : Samples} (h : P s)
    (events : List Event) : P (s.run events) := by
  induction events generalizing s with
  | nil => exact h
  | cons e events ih => exact ih (step s e h)

/-- All names are trimmed and not empty, all values are finite. -/
def Sound (gauges : NameMap Binary64) : Prop :=
  ∀ (name : String) (x : Binary64), gauges[name]? = some x → IsTidy name ∧ x.isFinite = true

theorem sound_empty : Sound ∅ := fun _ _ h => by simp at h

theorem Sound.insert {gauges : NameMap Binary64} {name : String} {x : Binary64} (h : Sound gauges)
    (tidy : IsTidy name) (finite : x.isFinite = true) : Sound (gauges.insert name x) := by
  intro n y hy
  rw [NameMap.getElem?_insert] at hy
  split at hy
  · rename_i hn
    exact ⟨hn ▸ tidy, Option.some.inj hy ▸ finite⟩
  · exact h n y hy

theorem sound_take {gauges : NameMap Binary64} (h : Sound gauges) (reading : Metric) :
    Sound (take gauges reading).1 := by
  unfold take
  split
  case h_1 hn hp => exact h.insert (tidy_of_nameOf hn) (Metric.payload?_finite hp)
  case h_2 => exact h
  case h_3 => exact h

theorem sound_takeAll {gauges : NameMap Binary64} (h : Sound gauges) (logs : List Log.Event)
    (readings : List Metric) : Sound (takeAll gauges logs readings).1 := by
  induction readings generalizing gauges logs with
  | nil => exact h
  | cons reading rest ih => exact ih (sound_take h reading) _

theorem sound_next {s : Samples} (h : Sound s.gauges) (e : Event) : Sound (s.next e).gauges := by
  cases e with
  | record readings => exact sound_takeAll h [] readings
  | flush reported => exact h

theorem sound_run {s : Samples} (h : Sound s.gauges) (events : List Event) :
    Sound (s.run events).gauges :=
  run_preserves (P := fun s => Sound s.gauges) (fun _ e sound => sound_next sound e) h events

theorem pollCount_next_nonneg {s : Samples} (h : 0 ≤ s.pollCount.val) (e : Event) :
    0 ≤ (s.next e).pollCount.val := by
  cases e with
  | record readings =>
    have count : (s.next (.record readings)).pollCount.val = _ := Count.val_addSaturating_one h
    omega
  | flush reported => exact Count.drop_nonneg s.pollCount reported

theorem pollCount_run_nonneg {s : Samples} (h : 0 ≤ s.pollCount.val) (events : List Event) :
    0 ≤ (s.run events).pollCount.val :=
  run_preserves (P := fun s => 0 ≤ s.pollCount.val) (fun _ e h => pollCount_next_nonneg h e) h events

theorem mem_report_iff {s : Samples} {m : Metric} : m ∈ s.report ↔
    (∃ (name : String) (x : Binary64), s.gauges[name]? = some x ∧ m = .gauge name x) ∨
      0 < s.pollCount.val ∧ m = .counter pollCountName s.pollCount := by
  rw [report, List.mem_append]
  refine or_congr ?_ ?_
  · rw [List.mem_map]
    constructor
    · rintro ⟨⟨name, x⟩, he, rfl⟩
      exact ⟨name, x, Std.ExtTreeMap.mem_toList_iff_getElem?_eq_some.mp he, rfl⟩
    · rintro ⟨name, x, hx, rfl⟩
      exact ⟨(name, x), Std.ExtTreeMap.mem_toList_iff_getElem?_eq_some.mpr hx, rfl⟩
  · rw [List.mem_ite_nil_right, List.mem_singleton]

end Agent.Samples

end Telemetry
