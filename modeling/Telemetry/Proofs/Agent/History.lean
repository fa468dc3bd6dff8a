import Telemetry.Proofs.Agent.Samples
import Telemetry.Proofs.Metric.Folding
import Telemetry.Proofs.Text.ByteOrder
/-!
What a report lists after any history of polls and reports. It has the gauges that were ever read, in
the order of their names and each with its last valid value, and then the number of polls that no report
has taken off yet. As long as nothing else is taken off than the number had been before, no sum and no
difference leaves the range of counts.
-/

namespace Telemetry

/-- A valid reading of a gauge: its name has something in it, its value is finite. -/
structure Metric.Reads (m : Metric) (name : String) (x : Binary64) : Prop where
  named : trim m.id ≠ ""
  trimmed : trim m.id = name
  carries : m.Carries (.gauge x)

theorem Metric.reads_iff {m : Metric} {name : String} {x : Binary64} :
    m.Reads name x ↔ m.name? = .ok name ∧ m.payload? = .ok (.gauge x) := by
  rw [name?_eq_ok_iff, payload?_eq_ok_iff]
  constructor
  · rintro ⟨named, trimmed, carries⟩
    exact ⟨⟨named, trimmed⟩, carries⟩
  · rintro ⟨⟨named, trimmed⟩, carries⟩
    exact ⟨named, trimmed, carries⟩

namespace Agent.Samples

/-! ### The readings of a history -/

def Event.readings : Event → List Metric
  | .record readings => readings
  | .flush _ => []

def recorded (events : List Event) : List Metric := events.flatMap Event.readings

def Silent (readings : List Metric) (name : String) : Prop := ∀ m ∈ readings, ∀ x, ¬m.Reads name x

def LastReading (readings : List Metric) (name : String) (x : Binary64) : Prop :=
  ∃ before m after, readings = before ++ m :: after ∧ m.Reads name x ∧ Silent after name

variable {m : Metric} {readings : List Metric} {gauges : NameMap Binary64} {name : String}
  {x : Binary64}

theorem silent_cons : Silent (m :: readings) name ↔ (∀ y, ¬m.Reads name y) ∧ Silent readings name :=
  List.forall_mem_cons

theorem lastReading_cons : LastReading (m :: readings) name x ↔
    LastReading readings name x ∨ m.Reads name x ∧ Silent readings name := by
  constructor
  · rintro ⟨before, last, after, split, reads, silent⟩
    cases before with
    | nil =>
      obtain ⟨rfl, rfl⟩ := List.cons.inj split
      exact .inr ⟨reads, silent⟩
    | cons first before =>
      obtain ⟨-, rfl⟩ := List.cons.inj split
      exact .inl ⟨before, last, after, rfl, reads, silent⟩
  · rintro (⟨before, last, after, rfl, reads, silent⟩ | ⟨reads, silent⟩)
    · exact ⟨m :: before, last, after, rfl, reads, silent⟩
    · exact ⟨[], m, readings, rfl, reads, silent⟩

theorem take_eq_some_iff : (take gauges m).1[name]? = some x ↔
    m.Reads name x ∨ (∀ y, ¬m.Reads name y) ∧ gauges[name]? = some x := by
  unfold take
  split
  case h_1 own value named payload =>
    have reads (n : String) (y : Binary64) : m.Reads n y ↔ own = n ∧ value = y := by
      simp [Metric.reads_iff, named, payload]
    simp only [NameMap.getElem?_insert, reads]
    by_cases same : own = name <;> simp [same]
  case h_2 own delta named payload =>
    have silent (y : Binary64) : ¬m.Reads name y := by simp [Metric.reads_iff, payload]
    simp [silent]
  case h_3 malformed _ =>
    have silent (y : Binary64) : ¬m.Reads name y := by
      rw [Metric.reads_iff]
      rintro ⟨named, payload⟩
      exact malformed name y named payload
    simp [silent]

theorem takeAll_eq_some_iff {logs : List Log.Event} : (takeAll gauges logs readings).1[name]? = some x ↔
    LastReading readings name x ∨ Silent readings name ∧ gauges[name]? = some x := by
  induction readings generalizing gauges logs with
  | nil => simp [takeAll, LastReading, Silent]
  | cons m readings ih =>
    rw [takeAll, ih, take_eq_some_iff, lastReading_cons, silent_cons]
    tauto

theorem silent_append {more : List Metric} :
    Silent (readings ++ more) name ↔ Silent readings name ∧ Silent more name :=
  List.forall_mem_append

theorem lastReading_append {more : List Metric} : LastReading (readings ++ more) name x ↔
    LastReading more name x ∨ LastReading readings name x ∧ Silent more name := by
  induction readings with
  | nil => simp [LastReading]
  | cons m readings ih =>
    rw [List.cons_append, lastReading_cons, lastReading_cons, ih, silent_append]
    tauto

theorem gauges_next_eq_some_iff {s : Samples} {e : Event} : (s.next e).gauges[name]? = some x ↔
    LastReading e.readings name x ∨ Silent e.readings name ∧ s.gauges[name]? = some x := by
  cases e with
  | record readings => exact takeAll_eq_some_iff
  | flush reported => simp [next, flush, Event.readings, LastReading, Silent]

/-- A gauge has its last valid value, or the one before the history if there was none in it. -/
theorem gauges_run_eq_some_iff {s : Samples} {events : List Event} :
    (s.run events).gauges[name]? = some x ↔ LastReading (recorded events) name x ∨
      Silent (recorded events) name ∧ s.gauges[name]? = some x := by
  induction events generalizing s with
  | nil => simp [run, recorded, LastReading, Silent]
  | cons e events ih =>
    rw [recorded, List.flatMap_cons, lastReading_append, silent_append]
    refine ih.trans ?_
    rw [gauges_next_eq_some_iff, recorded]
    tauto

theorem gauges_eq_some_iff {events : List Event} : (new.run events).gauges[name]? = some x ↔
    LastReading (recorded events) name x := by
  have empty : new.gauges[name]? = none := Std.ExtTreeMap.getElem?_empty
  rw [gauges_run_eq_some_iff, empty]
  simp

/-! ### The number of polls in a history -/

def samplesAt (events : List Event) (i : Nat) : Samples := new.run (events.take i)

/-- Only a number of polls that there had been before, or that there is now, is taken off. -/
def Honest (events : List Event) : Prop := ∀ i reported, events[i]? = some (.flush reported) →
  ∃ j ≤ i, (samplesAt events j).pollCount = reported

/-- A step counts without leaving the range of counts: a sum stays at the largest count, and a difference
is a count before it is held at zero. -/
def Exact (s : Samples) : Event → Prop
  | .record readings => (s.record readings).1.pollCount.val = min (s.pollCount.val + 1) (2 ^ 63 - 1)
  | .flush reported => Count.InRange (s.pollCount.val - reported.val) ∧
      (s.flush reported).pollCount.val = max (s.pollCount.val - reported.val) 0

theorem pollCount_nonneg (events : List Event) (i : Nat) : 0 ≤ (samplesAt events i).pollCount.val :=
  pollCount_run_nonneg (Int.le_refl 0) _

theorem exact_of_honest {events : List Event} (h : Honest events) {i : Nat} {e : Event}
    (he : events[i]? = some e) : Exact (samplesAt events i) e := by
  have positive := pollCount_nonneg events i
  cases e with
  | record readings => exact Count.val_addSaturating_one positive
  | flush reported =>
    obtain ⟨j, -, rfl⟩ := h i reported he
    have earlier := pollCount_nonneg events j
    have now := (samplesAt events i).pollCount.upper
    have before := (samplesAt events j).pollCount.upper
    refine ⟨⟨?_, ?_⟩, Count.val_drop earlier⟩
    · omega
    · omega

/-! ### Its report -/

theorem ascending_toList (gauges : NameMap Binary64) :
    gauges.toList.Pairwise fun a b => Utf8.encode a.1 < Utf8.encode b.1 := by
  have keys := gauges.ascending_keys
  rw [← Std.ExtTreeMap.map_fst_toList_eq_keys, List.pairwise_map] at keys
  exact keys.imp Utf8.encode_lt

/-- Whatever was recorded, and whatever earlier numbers of polls were taken off: a report lists the gauges
in the order of the bytes of their names, all of them and only them that a valid reading named, each with
its last valid value; and behind them the number of polls if there are any. That number is never negative
and never leaves its range. -/
theorem report_of_history {events : List Event} (h : Honest events) :
    (∃ gauges : List (String × Binary64),
      let polls := (new.run events).pollCount
      (new.run events).report = gauges.map (fun e => Metric.gauge e.1 e.2) ++
        (if 0 < polls.val then [Metric.counter "PollCount" polls] else []) ∧
      gauges.Pairwise (fun a b => Utf8.encode a.1 < Utf8.encode b.1) ∧
      ∀ name x, (name, x) ∈ gauges ↔ LastReading (recorded events) name x) ∧
    ∀ i, 0 ≤ (samplesAt events i).pollCount.val ∧
      ∀ e, events[i]? = some e → Exact (samplesAt events i) e := by
  refine ⟨⟨(new.run events).gauges.toList, rfl, ascending_toList _, fun name x => ?_⟩, fun i => ?_⟩
  · rw [Std.ExtTreeMap.mem_toList_iff_getElem?_eq_some]
    exact gauges_eq_some_iff
  · exact ⟨pollCount_nonneg events i, fun e he => exact_of_honest h he⟩

/-- Two reports that overlap: the second one takes off the poll that the first has taken off before. Among
the readings are some that do not count, and two that name the same gauge. -/
def overlappingReports : List Event :=
  [.record [.gauge " Alloc " ⟨0x3FF8000000000000⟩, .gauge " " .zero, .gauge "Free" .nan],
    .flush .one, .flush .one,
    .record [.counter "Polls" .one, .gauge "Alloc" ⟨0x4004000000000000⟩, ⟨"Alloc", "gauge", none, none⟩]]

theorem overlappingReports_counted :
    Honest overlappingReports ∧
    (new.run overlappingReports).report =
      [.gauge "Alloc" ⟨0x4004000000000000⟩, .counter "PollCount" .one] ∧
    LastReading (recorded overlappingReports) "Alloc" ⟨0x4004000000000000⟩ ∧
    (samplesAt overlappingReports 2).pollCount = .zero ∧
    Exact (samplesAt overlappingReports 2) (.flush .one) := by
  have honest : Honest overlappingReports := by
    intro i reported he
    match i, he with
    | 1, he =>
      obtain rfl : .one = reported := by simpa [overlappingReports] using he
      exact ⟨1, by decide, by decide +kernel⟩
    | 2, he =>
      obtain rfl : .one = reported := by simpa [overlappingReports] using he
      exact ⟨1, by decide, by decide +kernel⟩
    | i + 4, he => cases he
  have report : (new.run overlappingReports).report =
      [.gauge "Alloc" ⟨0x4004000000000000⟩, .counter "PollCount" .one] := by decide +kernel
  have polls : (new.run overlappingReports).pollCount = .one := by decide +kernel
  obtain ⟨⟨gauges, listed, -, last⟩, counted⟩ := report_of_history honest
  refine ⟨honest, report, ?_, by decide +kernel, (counted 2).2 _ rfl⟩
  rw [report, polls] at listed
  have only : gauges.map (fun e => Metric.gauge e.1 e.2) = [.gauge "Alloc" ⟨0x4004000000000000⟩] :=
    (List.append_cancel_right listed).symm
  obtain ⟨⟨name, x⟩, rfl, same⟩ := List.map_eq_singleton_iff.mp only
  obtain ⟨rfl, rfl⟩ : name = "Alloc" ∧ x = ⟨0x4004000000000000⟩ := by
    simpa [Metric.gauge] using same
  exact (last _ _).mp List.mem_cons_self

end Agent.Samples

end Telemetry
