import Telemetry.Proofs.Metric.Folding
import Telemetry.Proofs.Storage.Changes
/-!
Batches in memory, for every order in which their entries come. A batch without a defective entry is
applied as a whole, whatever becomes of its snapshot, and what it leaves does not depend on the order.
Any other batch is refused for a defect that one of its entries has, and leaves the memory and the
files alone.
-/

namespace Telemetry

open Storage

namespace NameMap

variable {α : Type} {m : NameMap α} {entries : List (String × α)}

theorem distinct_of_perm (h : entries.Perm m.toList) : Distinct entries :=
  (h.pairwise_iff Ne.symm).mpr m.distinct_toList

theorem mem_of_perm (h : entries.Perm m.toList) {name : String} {x : α} :
    (name, x) ∈ entries ↔ m[name]? = some x := by
  rw [h.mem_iff, Std.ExtTreeMap.mem_toList_iff_getElem?_eq_some]

theorem lookup_of_perm (h : entries.Perm m.toList) (name : String) :
    entries.lookup name = m[name]? := by
  ext x
  rw [lookup_eq_some_iff (distinct_of_perm h), mem_of_perm h]

end NameMap

namespace Snapshot

/-- Every gauge of the batch has its new value, all else is as it was. -/
structure Replaced (batch : NameMap Binary64) (s after : Snapshot) : Prop where
  replaced : ∀ (name : String) x, batch[name]? = some x → after.gauges[name]? = some x
  kept : ∀ name : String, batch[name]? = none → after.gauges[name]? = s.gauges[name]?
  counters : after.counters = s.counters

/-- Every counter of the batch has its delta more than before, or than zero if there was none; all else
is as it was. -/
structure Added (batch : NameMap Count) (s after : Snapshot) : Prop where
  added : ∀ (name : String) d, batch[name]? = some d →
    after.total? name = some ((s.total? name).getD 0 + d.val)
  kept : ∀ name : String, batch[name]? = none → after.counters[name]? = s.counters[name]?
  gauges : after.gauges = s.gauges

inductive GaugeDefect (batch : NameMap Binary64) : Error → Prop where
  | blank {name : String} {x} (listed : batch[name]? = some x) (blank : isBlankText name = true) :
    GaugeDefect batch .emptyName
  | infinite {name : String} {x} (listed : batch[name]? = some x) (infinite : x.isFinite = false) :
    GaugeDefect batch (.nonFiniteGauge name)

inductive CounterDefect (batch : NameMap Count) (s : Snapshot) : Error → Prop where
  | blank {name : String} {d} (listed : batch[name]? = some d) (blank : isBlankText name = true) :
    CounterDefect batch s .emptyName
  | overflow {name : String} {d} (listed : batch[name]? = some d)
    (beyond : ¬Count.InRange ((s.total? name).getD 0 + d.val)) :
    CounterDefect batch s (.counterOverflow name)

variable {s u v : Snapshot}

theorem Replaced.unique {batch : NameMap Binary64} (h : Replaced batch s u) (k : Replaced batch s v) :
    u = v := by
  have gauges : u.gauges = v.gauges := by
    refine NameMap.ext fun name => ?_
    cases hx : batch[name]? with
    | none => rw [h.kept name hx, k.kept name hx]
    | some x => rw [h.replaced name x hx, k.replaced name x hx]
  have counters : u.counters = v.counters := h.counters.trans k.counters.symm
  cases u
  cases v
  congr

theorem Added.unique {batch : NameMap Count} (h : Added batch s u) (k : Added batch s v) : u = v := by
  have counters : u.counters = v.counters := by
    refine NameMap.ext fun name => ?_
    cases hd : batch[name]? with
    | none => rw [h.kept name hd, k.kept name hd]
    | some d =>
      have same : u.total? name = v.total? name := by rw [h.added name d hd, k.added name d hd]
      exact (Option.map_inj_right fun _ _ => Count.ext).mp same
  have gauges : u.gauges = v.gauges := h.gauges.trans k.gauges.symm
  cases u
  cases v
  congr

theorem accumulate_isOk_iff {name : String} {d : Count} :
    (∃ sum, accumulate name s.counters[name]? d = .ok sum) ↔
      Count.InRange ((s.total? name).getD 0 + d.val) := by
  rw [← Count.exists_val_iff]
  exact exists_congr fun sum => accumulate_eq_ok_iff

/-! ### Accepted batches -/

section Gauges

variable {batch : NameMap Binary64} {order : List (String × Binary64)}

theorem putGauges_isOk_iff (h : order.Perm batch.toList) : (∃ u, s.putGauges order = .ok u) ↔
    ∀ (name : String) x, batch[name]? = some x → isBlankText name = false ∧ x.isFinite = true := by
  simp only [putGauges_eq_ok_iff, exists_and_left, exists_eq', and_true, checkGauge_eq_ok_iff,
    Prod.forall, NameMap.mem_of_perm h]

theorem replaced_of_putGauges (h : order.Perm batch.toList) (put : s.putGauges order = .ok u) :
    Replaced batch s u := by
  obtain ⟨-, rfl⟩ := putGauges_eq_ok_iff.mp put
  have found (name : String) : (NameMap.putAll s.gauges order)[name]? =
      batch[name]?.or s.gauges[name]? := by
    rw [NameMap.getElem?_putAll_of_distinct (NameMap.distinct_of_perm h), NameMap.lookup_of_perm h]
  refine ⟨fun name x hx => ?_, fun name hx => ?_, rfl⟩
  · rw [found, hx]
    rfl
  · rw [found, hx]
    rfl

theorem defect_of_putGauges {e : Error} (h : order.Perm batch.toList)
    (put : s.putGauges order = .error e) : GaugeDefect batch e := by
  rcases bind_eq_error_iff.mp put with check | ⟨_, -, put⟩
  · obtain ⟨⟨name, x⟩, mem, check⟩ := error_of_forM check
    have listed := (NameMap.mem_of_perm h).mp mem
    rcases bind_eq_error_iff.mp check with named | ⟨_, -, finite⟩
    · obtain rfl := checkName_error named
      refine .blank listed ?_
      by_contra blank
      rw [checkName_eq_ok_iff.mpr (by simpa using blank)] at named
      cases named
    · by_cases hx : x.isFinite = true
      · simp [hx] at finite
      · obtain rfl : .nonFiniteGauge name = e := by simpa [hx] using finite
        exact .infinite listed (by simpa using hx)
  · exact absurd put pure_ne_error

end Gauges

section Counters

variable {batch : NameMap Count} {order : List (String × Count)}

theorem putCounters_isOk_iff (h : order.Perm batch.toList) : (∃ u, s.putCounters order = .ok u) ↔
    ∀ (name : String) d, batch[name]? = some d →
      isBlankText name = false ∧ Count.InRange ((s.total? name).getD 0 + d.val) := by
  constructor
  · rintro ⟨u, put⟩ name d listed
    obtain ⟨named, sums, hsums, -⟩ := putCounters_eq_ok_iff.mp put
    have mem := (NameMap.mem_of_perm h).mpr listed
    obtain ⟨sum, -, hsum⟩ := (results_of_mapM hsums).1 _ mem
    exact ⟨checkName_eq_ok_iff.mp (named _ mem),
      accumulate_isOk_iff.mp ⟨sum.2, (sumOf_eq_ok_iff.mp hsum).2⟩⟩
  · intro sound
    have named : ∀ e ∈ order, checkName e.1 = .ok () := fun e mem =>
      checkName_eq_ok_iff.mpr (sound e.1 e.2 ((NameMap.mem_of_perm h).mp mem)).1
    cases hsums : order.mapM s.sumOf with
    | ok sums => exact ⟨_, putCounters_eq_ok_iff.mpr ⟨named, sums, hsums, rfl⟩⟩
    | error e =>
      obtain ⟨entry, mem, failed⟩ := error_of_mapM hsums
      obtain ⟨sum, hsum⟩ :=
        accumulate_isOk_iff.mpr (sound entry.1 entry.2 ((NameMap.mem_of_perm h).mp mem)).2
      have done : s.sumOf entry = .ok (entry.1, sum) := sumOf_eq_ok_iff.mpr ⟨rfl, hsum⟩
      rw [failed] at done
      cases done

theorem added_of_putCounters (h : order.Perm batch.toList) (put : s.putCounters order = .ok u) :
    Added batch s u := by
  obtain ⟨-, sums, hsums, rfl⟩ := putCounters_eq_ok_iff.mp put
  have each := mapM_eq_ok_iff.mp hsums
  have last (name : String) : (sums.reverse.lookup name).map Count.val =
      batch[name]?.map fun d => (s.total? name).getD 0 + d.val := by
    rw [lookup_sums (List.rel_reverse each), NameMap.lookup_reverse (NameMap.distinct_of_perm h),
      NameMap.lookup_of_perm h]
  refine ⟨fun name d hd => ?_, fun name hd => ?_, rfl⟩
  · have sum := last name
    rw [hd, Option.map_some] at sum
    rw [total?, NameMap.getElem?_putAll, Option.map_or, sum]
    rfl
  · have absent := last name
    rw [hd, Option.map_none, Option.map_eq_none_iff] at absent
    rw [NameMap.getElem?_putAll, absent]
    rfl

theorem defect_of_putCounters {e : Error} (h : order.Perm batch.toList)
    (put : s.putCounters order = .error e) : CounterDefect batch s e := by
  rcases bind_eq_error_iff.mp put with check | ⟨_, -, put⟩
  · obtain ⟨⟨name, d⟩, mem, named⟩ := error_of_forM check
    obtain rfl := checkName_error named
    refine .blank ((NameMap.mem_of_perm h).mp mem) ?_
    by_contra blank
    rw [checkName_eq_ok_iff.mpr (by simpa using blank)] at named
    cases named
  · rcases bind_eq_error_iff.mp put with sums | ⟨_, -, put⟩
    · obtain ⟨⟨name, d⟩, mem, failed⟩ := error_of_mapM sums
      obtain rfl := sumOf_error failed
      refine .overflow ((NameMap.mem_of_perm h).mp mem) fun fits => ?_
      obtain ⟨sum, hsum⟩ := accumulate_isOk_iff.mpr fits
      have done : s.sumOf (name, d) = .ok (name, sum) := sumOf_eq_ok_iff.mpr ⟨rfl, hsum⟩
      rw [failed] at done
      cases done
    · exact absurd put pure_ne_error

end Counters

end Snapshot

namespace Memory

variable {α : Type} {m : Memory} {files : FileTree}

def putGaugesIn (m : Memory) (files : FileTree) (order : List (String × Binary64)) :
    Except Error Unit × Memory × FileTree :=
  m.applyBatch files order (m.content.putGauges order)

def putCountersIn (m : Memory) (files : FileTree) (order : List (String × Count)) :
    Except Error Unit × Memory × FileTree :=
  m.applyBatch files order (m.content.putCounters order)

/-- The update was made, even if its snapshot could not be written. -/
def Accepts (result : Except Error Unit) : Prop := ∀ e, result = .error e → e.isPersistence = true

/-- What is promised of a batch, whatever the order of its entries: it is accepted exactly if every
entry is sound, and then applied as a whole; otherwise it is refused for a defect of an entry, and
neither the memory nor a file is changed. What is left is the same for all orders. -/
structure Whole (m : Memory) (files : FileTree) (batch : NameMap α) (Sound : String → α → Prop)
    (After : Snapshot → Prop) (Defect : Error → Prop)
    (put : List (String × α) → Except Error Unit × Memory × FileTree) : Prop where
  accepted : ∀ order, order.Perm batch.toList →
    (Accepts (put order).1 ↔ ∀ (name : String) x, batch[name]? = some x → Sound name x)
  applied : ∀ order, order.Perm batch.toList → Accepts (put order).1 →
    ∃ after, (put order).2.1 = m.load after ∧ After after
  refused : ∀ order, order.Perm batch.toList → ¬Accepts (put order).1 →
    ∃ e, (put order).1 = .error e ∧ Defect e ∧ (put order).2 = (m, files)
  same : ∀ order other, order.Perm batch.toList → other.Perm batch.toList →
    (put order).2 = (put other).2

theorem applyBatch_cases (m : Memory) (files : FileTree) (entries : List α)
    (change : Except Error Snapshot) (he : entries = [] → change = .ok m.content)
    (hr : ∀ e, change = .error e → e.isRefusal = true) :
    (∃ u, change = .ok u ∧ (m.applyBatch files entries change).2.1 = m.load u ∧
      Accepts (m.applyBatch files entries change).1) ∨
    ∃ e, change = .error e ∧ (m.applyBatch files entries change) = (.error e, m, files) ∧
      ¬Accepts (m.applyBatch files entries change).1 := by
  unfold applyBatch
  by_cases hn : entries.isEmpty = true
  · rw [if_pos hn]
    exact .inl ⟨m.content, he (List.isEmpty_iff.mp hn), rfl, fun e h => nomatch h⟩
  · rw [if_neg hn]
    cases change with
    | ok u => exact .inl ⟨u, rfl, rfl, fun e h => afterWrite_error h⟩
    | error e =>
      refine .inr ⟨e, rfl, rfl, fun accepts => ?_⟩
      have refusal := hr e rfl
      have persistence := accepts e rfl
      cases e <;> simp_all [Error.isRefusal, Error.isPersistence]

theorem applyBatch_snd_eq {entries others : List α} {change other : Except Error Snapshot}
    (lengths : entries.isEmpty = others.isEmpty) (agree : ∀ u, change = .ok u ↔ other = .ok u) :
    (m.applyBatch files entries change).2 = (m.applyBatch files others other).2 := by
  cases change with
  | ok u =>
    rw [(agree u).mp rfl]
    simp only [applyBatch, lengths]
  | error e =>
    cases other with
    | ok v => cases (agree v).mpr rfl
    | error d =>
      simp only [applyBatch, lengths]
      split <;> rfl

theorem whole_of_change {batch : NameMap α} {Sound : String → α → Prop} {After : Snapshot → Prop}
    {Defect : Error → Prop} {change : List (String × α) → Except Error Snapshot}
    (empty : change [] = .ok m.content) (refusal : ∀ order e, change order = .error e → e.isRefusal = true)
    (isOk : ∀ order, order.Perm batch.toList →
      ((∃ u, change order = .ok u) ↔ ∀ (name : String) x, batch[name]? = some x → Sound name x))
    (after : ∀ order u, order.Perm batch.toList → change order = .ok u → After u)
    (unique : ∀ u v, After u → After v → u = v)
    (defect : ∀ order e, order.Perm batch.toList → change order = .error e → Defect e) :
    Whole m files batch Sound After Defect fun order => m.applyBatch files order (change order) := by
  have decided (order : List (String × α)) :=
    applyBatch_cases m files order (change order) (by rintro rfl; exact empty) (refusal order)
  constructor
  case accepted =>
    intro order h
    rw [← isOk order h]
    rcases decided order with ⟨u, hu, -, accepts⟩ | ⟨e, he, -, refuses⟩
    · exact ⟨fun _ => ⟨u, hu⟩, fun _ => accepts⟩
    · refine ⟨fun accepts => absurd accepts refuses, ?_⟩
      rintro ⟨u, hu⟩
      rw [he] at hu
      cases hu
  case applied =>
    intro order h accepts
    rcases decided order with ⟨u, hu, now, -⟩ | ⟨e, -, -, refuses⟩
    · exact ⟨u, now, after order u h hu⟩
    · exact absurd accepts refuses
  case refused =>
    intro order h refuses
    rcases decided order with ⟨u, -, -, accepts⟩ | ⟨e, he, left, -⟩
    · exact absurd accepts refuses
    · exact ⟨e, by rw [left], defect order e h he, by rw [left]⟩
  case same =>
    intro order other h k
    have agree {order other : List (String × α)} (h : order.Perm batch.toList)
        (k : other.Perm batch.toList) {u : Snapshot} (hu : change order = .ok u) :
        change other = .ok u := by
      obtain ⟨v, hv⟩ := (isOk other k).mpr ((isOk order h).mp ⟨u, hu⟩)
      obtain rfl := unique u v (after order u h hu) (after other v k hv)
      exact hv
    exact applyBatch_snd_eq (h.trans k.symm).isEmpty_eq fun u => ⟨agree h k, agree k h⟩

/-- Batches of both kinds are whole, for every order in which their entries come; the order in which
a storage is asked for them is one of these. -/
theorem batches_are_whole (m : Memory) (files : FileTree) :
    (∀ batch : NameMap Binary64,
      m.perform files (.putGauges batch) = m.putGaugesIn files batch.toList ∧
      Whole m files batch (fun name x => isBlankText name = false ∧ x.isFinite = true)
        (Snapshot.Replaced batch m.content) (Snapshot.GaugeDefect batch) (m.putGaugesIn files)) ∧
    ∀ batch : NameMap Count,
      m.perform files (.putCounters batch) = m.putCountersIn files batch.toList ∧
      Whole m files batch
        (fun name d => isBlankText name = false ∧
          Count.InRange ((m.content.total? name).getD 0 + d.val))
        (Snapshot.Added batch m.content) (Snapshot.CounterDefect batch m.content)
        (m.putCountersIn files) := by
  refine ⟨fun batch => ⟨rfl, ?_⟩, fun batch => ⟨rfl, ?_⟩⟩
  · exact whole_of_change rfl (fun _ _ => Snapshot.putGauges_error)
      (fun _ => Snapshot.putGauges_isOk_iff) (fun _ _ => Snapshot.replaced_of_putGauges)
      (fun _ _ => Snapshot.Replaced.unique) fun _ _ => Snapshot.defect_of_putGauges
  · exact whole_of_change rfl (fun _ _ => Snapshot.putCounters_error)
      (fun _ => Snapshot.putCounters_isOk_iff) (fun _ _ => Snapshot.added_of_putCounters)
      (fun _ _ => Snapshot.Added.unique) fun _ _ => Snapshot.defect_of_putCounters

end Memory

end Telemetry
