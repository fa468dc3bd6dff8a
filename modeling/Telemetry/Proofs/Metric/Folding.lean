import Telemetry.Proofs.Metric.Acceptance
/-!
Which lists of metrics are folded into a batch, what the batch holds and what a refused list is
refused for, all of it seen from the metrics as they were sent.
-/

namespace Telemetry

def Count.InRange (n : Int) : Prop := -2 ^ 63 ≤ n ∧ n < 2 ^ 63

theorem Count.exists_val_iff {n : Int} : (∃ c : Count, c.val = n) ↔ InRange n := by
  constructor
  · rintro ⟨c, rfl⟩
    have lower := c.lower
    have upper := c.upper
    constructor <;> omega
  · rintro ⟨lower, upper⟩
    exact ⟨⟨n, by omega, by omega⟩, rfl⟩

theorem Count.add?_eq_none_iff {a b : Count} : a.add? b = none ↔ ¬InRange (a.val + b.val) := by
  simp only [← exists_val_iff, ← add?_eq_some_iff, Option.eq_none_iff_forall_ne_some, not_exists, ne_eq]

theorem Kind.ofText?_eq_some_iff {s : String} {k : Kind} :
    ofText? s = some k ↔ lowerAscii (trim s) = k.text := by
  unfold ofText?
  by_cases gauge : lowerAscii (trim s) = "gauge"
  · cases k <;> simp [gauge, Kind.text]
  · by_cases counter : lowerAscii (trim s) = "counter"
    · cases k <;> simp [counter, Kind.text]
    · cases k <;> simp [gauge, counter, Kind.text]

namespace Metric

/-- Blanks around the word for the kind and the case of its letters do not count. -/
def Is (kind : Kind) (m : Metric) : Prop := lowerAscii (trim m.type) = kind.text

instance (kind : Kind) (m : Metric) : Decidable (m.Is kind) := inferInstanceAs (Decidable (_ = _))

/-- What a metric brings for its kind. -/
inductive Carries (m : Metric) : Payload → Prop where
  | gauge {x} (kind : m.Is .gauge) (value : m.value = some x) (finite : x.isFinite = true) :
    Carries m (.gauge x)
  | counter {d} (kind : m.Is .counter) (delta : m.delta = some d) : Carries m (.counter d)

inductive Lacks (m : Metric) : Defect → Prop where
  | kind (unknown : ∀ kind, ¬m.Is kind) : Lacks m (.unknownKind m.type)
  | value (kind : m.Is .gauge) (missing : m.value = none) : Lacks m .missingGaugeValue
  | finiteness {x} (kind : m.Is .gauge) (value : m.value = some x) (infinite : x.isFinite = false) :
    Lacks m (.invalidValue .gauge x.text)
  | delta (kind : m.Is .counter) (missing : m.delta = none) : Lacks m .missingCounterDelta

structure Valid (m : Metric) : Prop where
  named : trim m.id ≠ ""
  carries : ∃ payload, m.Carries payload

def valueFor? (name : String) (m : Metric) : Option Binary64 :=
  if trim m.id = name ∧ m.Is .gauge then m.value else none

def deltaFor? (name : String) (m : Metric) : Option Int :=
  if trim m.id = name ∧ m.Is .counter then m.delta.map Count.val else none

variable {m : Metric}

theorem not_both (m : Metric) : ¬(m.Is .gauge ∧ m.Is .counter) := by
  rintro ⟨gauge, counter⟩
  have same : Kind.gauge.text = Kind.counter.text := gauge.symm.trans counter
  simp [Kind.text] at same

theorem name?_eq_ok_iff {name : String} : m.name? = .ok name ↔ trim m.id ≠ "" ∧ trim m.id = name := by
  by_cases blank : trim m.id = "" <;> simp [name?, nameOf, blank]

theorem name?_eq_error_iff {d : Defect} : m.name? = .error d ↔ trim m.id = "" ∧ d = .emptyName := by
  by_cases blank : trim m.id = "" <;> simp [name?, nameOf, blank, eq_comm]

theorem kind?_eq_ok_iff {k : Kind} : m.kind? = .ok k ↔ m.Is k := by
  rw [Is, ← Kind.ofText?_eq_some_iff]
  cases h : Kind.ofText? m.type <;> simp [kind?, kindOf, h]

theorem kind?_eq_error_iff {d : Defect} :
    m.kind? = .error d ↔ (∀ kind, ¬m.Is kind) ∧ d = .unknownKind m.type := by
  have known (k : Kind) : m.Is k ↔ Kind.ofText? m.type = some k := Kind.ofText?_eq_some_iff.symm
  simp only [known]
  cases h : Kind.ofText? m.type <;> simp [kind?, kindOf, h, eq_comm]

theorem payload?_eq_ok_iff {p : Payload} : m.payload? = .ok p ↔ m.Carries p := by
  constructor
  · intro h
    obtain ⟨k, hk, h⟩ := bind_eq_ok_iff.mp h
    have kind := kind?_eq_ok_iff.mp hk
    cases k with
    | gauge =>
      cases value : m.value with
      | none => simp [value] at h
      | some x =>
        by_cases finite : x.isFinite = true
        · obtain rfl : .gauge x = p := by simpa [value, finite] using h
          exact .gauge kind value finite
        · simp [value, finite] at h
    | counter =>
      cases delta : m.delta with
      | none => simp [delta] at h
      | some d =>
        obtain rfl : .counter d = p := by simpa [delta] using h
        exact .counter kind delta
  · intro carries
    cases carries with
    | gauge kind value finite => simp [payload?, kind?_eq_ok_iff.mpr kind, value, finite]
    | counter kind delta => simp [payload?, kind?_eq_ok_iff.mpr kind, delta]

theorem payload?_eq_error_iff {d : Defect} : m.payload? = .error d ↔ m.Lacks d := by
  constructor
  · intro h
    rcases bind_eq_error_iff.mp h with h | ⟨k, hk, h⟩
    · obtain ⟨unknown, rfl⟩ := kind?_eq_error_iff.mp h
      exact .kind unknown
    have kind := kind?_eq_ok_iff.mp hk
    cases k with
    | gauge =>
      cases value : m.value with
      | none =>
        obtain rfl : .missingGaugeValue = d := by simpa [value] using h
        exact .value kind value
      | some x =>
        by_cases finite : x.isFinite = true
        · simp [value, finite] at h
        · obtain rfl : .invalidValue .gauge x.text = d := by simpa [value, finite] using h
          exact .finiteness kind value (by simpa using finite)
    | counter =>
      cases delta : m.delta with
      | none =>
        obtain rfl : .missingCounterDelta = d := by simpa [delta] using h
        exact .delta kind delta
      | some c => simp [delta] at h
  · intro lacks
    cases lacks with
    | kind unknown => exact bind_eq_error_iff.mpr (.inl (kind?_eq_error_iff.mpr ⟨unknown, rfl⟩))
    | value kind missing => simp [payload?, kind?_eq_ok_iff.mpr kind, missing]
    | finiteness kind value infinite => simp [payload?, kind?_eq_ok_iff.mpr kind, value, infinite]
    | delta kind missing => simp [payload?, kind?_eq_ok_iff.mpr kind, missing]

theorem Valid.speaks (h : m.Valid) (name : String) :
    ((m.valueFor? name).isSome ↔ trim m.id = name ∧ m.Is .gauge) ∧
      ((m.deltaFor? name).isSome ↔ trim m.id = name ∧ m.Is .counter) := by
  obtain ⟨payload, carries⟩ := h.carries
  have apart := m.not_both
  cases carries with
  | gauge kind value _ => simp_all [valueFor?, deltaFor?]
  | counter kind delta => simp_all [valueFor?, deltaFor?]

theorem update?_eq_some_iff_carries {u : Update} :
    m.update? = some u ↔ trim m.id ≠ "" ∧ trim m.id = u.1 ∧ m.Carries u.2 := by
  rw [update?_eq_some_iff, name?_eq_ok_iff, payload?_eq_ok_iff, and_assoc]

theorem exists_update?_iff : (∃ u, m.update? = some u) ↔ m.Valid := by
  simp only [update?_eq_some_iff_carries]
  constructor
  · rintro ⟨u, named, -, carries⟩
    exact ⟨named, u.2, carries⟩
  · rintro ⟨named, payload, carries⟩
    exact ⟨(trim m.id, payload), named, rfl, carries⟩

theorem update?_says {u : Update} (h : m.update? = some u) (name : String) :
    Update.gauge? name u = m.valueFor? name ∧ Update.delta? name u = m.deltaFor? name := by
  obtain ⟨-, named, carries⟩ := update?_eq_some_iff_carries.mp h
  obtain ⟨n, payload⟩ := u
  obtain rfl : trim m.id = n := named
  have apart := m.not_both
  cases carries with
  | gauge kind value _ => simp_all [valueFor?, deltaFor?]
  | counter kind delta => simp_all [valueFor?, deltaFor?]

end Metric

theorem updates_say {ms : List Metric} {us : List Update} (h : ms.mapM Metric.update? = some us)
    (name : String) : Update.gauges name us = ms.filterMap (Metric.valueFor? name) ∧
      Update.deltas name us = ms.filterMap (Metric.deltaFor? name) := by
  have each := mapM_eq_some_iff.mp h
  clear h
  induction each with
  | nil => exact ⟨rfl, rfl⟩
  | @cons m u ms us hu _ ih =>
    obtain ⟨value, delta⟩ := Metric.update?_says hu name
    constructor
    · rw [Update.gauges, List.filterMap_cons, value, List.filterMap_cons, ← ih.1]
      rfl
    · rw [Update.deltas, List.filterMap_cons, delta, List.filterMap_cons, ← ih.2]
      rfl

theorem filterMap_ne_nil_iff {α β : Type} {f : α → Option β} {xs : List α} :
    xs.filterMap f ≠ [] ↔ ∃ x ∈ xs, (f x).isSome := by
  rw [ne_eq, List.filterMap_eq_nil_iff]
  simp [Option.isSome_iff_ne_none]

/-- Every metric brings what its kind asks for, and no sum leaves the range on its way. -/
structure Accepted (ms : List Metric) : Prop where
  valid : ∀ m ∈ ms, m.Valid
  fits : ∀ name ds, ds <+: ms.filterMap (Metric.deltaFor? name) → Count.InRange ds.sum

/-- Why a metric cannot follow metrics that are accepted. -/
inductive Flaw (front : List Metric) (m : Metric) : Defect → Prop where
  | name (blank : trim m.id = "") : Flaw front m .emptyName
  | payload {d} (named : trim m.id ≠ "") (lacks : m.Lacks d) : Flaw front m d
  | overflow {c} (named : trim m.id ≠ "") (carries : m.Carries (.counter c))
    (beyond : ¬Count.InRange ((front.filterMap (Metric.deltaFor? (trim m.id))).sum + c.val)) :
    Flaw front m (.counterOverflow (trim m.id))

/-- What is promised of a list that is folded into a batch with this result. -/
structure Folding (ms : List Metric) (result : Except Defect Batch) : Prop where
  accepted : (∃ b, result = .ok b) ↔ Accepted ms
  gauges : ∀ b, result = .ok b → ∀ name : String,
    b.gauges[name]? = (ms.filterMap (Metric.valueFor? name)).getLast?
  counters : ∀ b, result = .ok b → ∀ name : String,
    b.counters[name]?.map Count.val = Update.sum? (ms.filterMap (Metric.deltaFor? name))
  gaugeNames : ∀ b, result = .ok b → ∀ name,
    name ∈ b.gauges.keys ↔ ∃ m ∈ ms, trim m.id = name ∧ m.Is .gauge
  counterNames : ∀ b, result = .ok b → ∀ name,
    name ∈ b.counters.keys ↔ ∃ m ∈ ms, trim m.id = name ∧ m.Is .counter
  refused : ∀ d, result = .error d ↔
    ∃ front m rest, ms = front ++ m :: rest ∧ Accepted front ∧ Flaw front m d

namespace Batch

variable {b : Batch} {ms : List Metric}

theorem accepted_iff : (∃ b, ofMetrics ms = .ok b) ↔ Accepted ms := by
  constructor
  · rintro ⟨b, hb⟩
    obtain ⟨us, hus, -, -⟩ := holds_ofMetrics hb
    constructor
    case valid =>
      intro m hm
      exact Metric.exists_update?_iff.mp (exists_of_mapM hus m hm)
    case fits =>
      intro name ds hds
      -- What a prefix of the list is folded into has the sum of that prefix.
      obtain ⟨front, ⟨rest, rfl⟩, rfl⟩ := List.prefix_filterMap_iff.mp hds
      rw [ofMetrics, List.foldlM_append, bind_eq_ok_iff] at hb
      obtain ⟨c, hc, -⟩ := hb
      obtain ⟨vs, hvs, -, held⟩ := holds_ofMetrics hc
      rw [← (updates_say hvs name).2]
      exact Count.exists_val_iff.mp ⟨_, held.total name⟩
  · intro accepted
    obtain ⟨us, hus⟩ := exists_mapM_of_isSome fun m hm =>
      Option.isSome_iff_exists.mpr (Metric.exists_update?_iff.mpr (accepted.valid m hm))
    refine exists_ofMetrics hus fun front hfront name => ?_
    refine Count.exists_val_iff.mpr (accepted.fits name _ ?_)
    rw [← (updates_say hus name).2]
    exact hfront.filterMap _

theorem add_eq_error_iff {m : Metric} {d : Defect} (hb : ofMetrics ms = .ok b) :
    b.add m = .error d ↔ Flaw ms m d := by
  obtain ⟨us, hus, -, held⟩ := holds_ofMetrics hb
  have total (name : String) :
      (b.counters.getD name .zero).val = (ms.filterMap (Metric.deltaFor? name)).sum := by
    rw [held.total, (updates_say hus name).2]
  constructor
  · intro h
    rcases bind_eq_error_iff.mp h with h | ⟨name, hn, h⟩
    · obtain ⟨blank, rfl⟩ := Metric.name?_eq_error_iff.mp h
      exact .name blank
    obtain ⟨named, rfl⟩ := Metric.name?_eq_ok_iff.mp hn
    rcases bind_eq_error_iff.mp h with h | ⟨payload, hp, h⟩
    · exact .payload named (Metric.payload?_eq_error_iff.mp h)
    cases payload with
    | gauge x => cases h
    | counter c =>
      cases hs : (b.counters.getD (trim m.id) .zero).add? c with
      | some sum => simp [hs] at h
      | none =>
        obtain rfl : .counterOverflow (trim m.id) = d := by simpa [hs] using h
        refine .overflow named (Metric.payload?_eq_ok_iff.mp hp) ?_
        rw [← total]
        exact Count.add?_eq_none_iff.mp hs
  · intro flaw
    cases flaw with
    | name blank => exact bind_eq_error_iff.mpr (.inl (Metric.name?_eq_error_iff.mpr ⟨blank, rfl⟩))
    | payload named lacks =>
      rw [add, Metric.name?_eq_ok_iff.mpr ⟨named, rfl⟩, ok_bind, Metric.payload?_eq_error_iff.mpr lacks]
      rfl
    | overflow named carries beyond =>
      rw [← total] at beyond
      rw [add, Metric.name?_eq_ok_iff.mpr ⟨named, rfl⟩, ok_bind, Metric.payload?_eq_ok_iff.mpr carries,
        ok_bind]
      simp only [Count.add?_eq_none_iff.mpr beyond]

theorem refused_iff {d : Defect} : ofMetrics ms = .error d ↔
    ∃ front m rest, ms = front ++ m :: rest ∧ Accepted front ∧ Flaw front m d := by
  rw [ofMetrics, foldlM_eq_error_iff]
  constructor
  · rintro ⟨front, m, rest, b, rfl, hb, h⟩
    exact ⟨front, m, rest, rfl, accepted_iff.mp ⟨b, hb⟩, (add_eq_error_iff hb).mp h⟩
  · rintro ⟨front, m, rest, rfl, accepted, flaw⟩
    obtain ⟨b, hb⟩ := accepted_iff.mpr accepted
    exact ⟨front, m, rest, b, rfl, hb, (add_eq_error_iff hb).mpr flaw⟩

/-- Whichever list it is: what it is folded into, or refused for. -/
theorem folding_ofMetrics (ms : List Metric) : Folding ms (ofMetrics ms) := by
  have listed {b : Batch} (h : ofMetrics ms = .ok b) (name : String) :
      b.gauges[name]? = (ms.filterMap (Metric.valueFor? name)).getLast? ∧
        b.counters[name]?.map Count.val = Update.sum? (ms.filterMap (Metric.deltaFor? name)) := by
    obtain ⟨us, hus, -, held⟩ := holds_ofMetrics h
    obtain ⟨values, deltas⟩ := updates_say hus name
    rw [held.gauges, held.counters, values, deltas]
    exact ⟨rfl, rfl⟩
  constructor
  case accepted => exact accepted_iff
  case gauges => exact fun b h name => (listed h name).1
  case counters => exact fun b h name => (listed h name).2
  case gaugeNames =>
    intro b h name
    have valid := (accepted_iff.mp ⟨b, h⟩).valid
    rw [NameMap.mem_keys_iff, (listed h name).1, List.getLast?_isSome, filterMap_ne_nil_iff]
    exact exists_congr fun m => and_congr_right fun hm => ((valid m hm).speaks name).1
  case counterNames =>
    intro b h name
    have valid := (accepted_iff.mp ⟨b, h⟩).valid
    have some (ds : List Int) : (Update.sum? ds).isSome ↔ ds ≠ [] := by cases ds <;> simp [Update.sum?]
    rw [NameMap.mem_keys_iff, ← Option.isSome_map, (listed h name).2, some, filterMap_ne_nil_iff]
    exact exists_congr fun m => and_congr_right fun hm => ((valid m hm).speaks name).2
  case refused => exact fun d => refused_iff

end Batch

end Telemetry
