import Telemetry.Proofs.Checks
import Telemetry.Proofs.Json.Number
import Telemetry.Storage.Snapshot
/-!
Snapshots through their bytes. Names and counters come back as they were, and every finite gauge
comes back as what the reader of numbers makes of it; the bytes still tell all snapshots apart.
-/

namespace Telemetry.Snapshot

open Json Json.Value

variable {s u : Snapshot} {α : Type}

def Finite (s : Snapshot) : Prop :=
  ∀ (name : String) (x : Binary64), s.gauges[name]? = some x → x.isFinite = true

/-- Every gauge is read back as itself. -/
def Exact (s : Snapshot) : Prop :=
  ∀ (name : String) (x : Binary64), s.gauges[name]? = some x → x.reread = x

/-- The digits of every gauge and its power of ten are themselves numbers of the format. -/
def Short (s : Snapshot) : Prop :=
  ∀ (name : String) (x : Binary64), s.gauges[name]? = some x →
    x.kept.digits ≤ 2 * Binary64.leadingBit ∧ x.kept.exponent.natAbs ≤ 22

theorem Short.exact (hf : s.Finite) (h : s.Short) : s.Exact := fun name x hx =>
  Binary64.reread_eq_self (hf name x hx) (h name x hx).1 (h name x hx).2

/-- Whether a snapshot is exact is told by arithmetic: the digits of each gauge are rounded and
scaled, and what comes out must be the gauge. -/
theorem exact_iff (hf : s.Finite) : s.Exact ↔ ∀ (name : String) (x : Binary64),
    s.gauges[name]? = some x →
      Binary64.scaledMagnitude (Binary64.ofNat x.kept.digits).value x.kept.exponent =
        x.magnitude := by
  constructor
  · intro h name x hx
    exact (Binary64.reread_eq_iff (hf name x hx)).mp (h name x hx)
  · intro h name x hx
    exact (Binary64.reread_eq_iff (hf name x hx)).mpr (h name x hx)

def reread (s : Snapshot) : Snapshot := { s with gauges := s.gauges.map fun _ x => x.reread }

theorem Finite.reread (h : s.Finite) : s.reread.Finite := by
  intro name y hy
  rw [Snapshot.reread, NameMap.getElem?_map] at hy
  obtain ⟨x, hx, rfl⟩ := Option.map_eq_some_iff.mp hy
  exact Binary64.reread_isFinite (h name x hx)

theorem reread_eq_iff : s.reread = s ↔ s.Exact := by
  constructor
  · intro h name x hx
    have hy : s.reread.gauges[name]? = some x := by rw [h, hx]
    rw [reread, NameMap.getElem?_map, hx] at hy
    exact Option.some.inj hy
  · intro h
    have gauges : s.reread.gauges = s.gauges := by
      refine NameMap.ext fun name => ?_
      rw [reread, NameMap.getElem?_map]
      cases hx : s.gauges[name]? with
      | none => rfl
      | some x => exact congrArg some (h name x hx)
    exact congrArg (Snapshot.mk · s.counters) gauges

/-! ### Maps of values -/

theorem spelled_mapJson {key : String} {write : α → Value} {m : NameMap α}
    (h : ∀ (name : String) x, m[name]? = some x → (write x).Spelled) :
    ∀ e ∈ mapJson key write m, e.2.Spelled := by
  intro e he
  unfold mapJson at he
  split at he
  · cases he
  · rw [List.mem_singleton.mp he]
    show SpelledMembers _
    rw [spelledMembers_iff]
    intro e he
    obtain ⟨⟨name, x⟩, hx, rfl⟩ := List.mem_map.mp he
    exact h name x (Std.ExtTreeMap.mem_toList_iff_getElem?_eq_some.mp hx)

theorem mapOfJson?_toList {read : Value → Option α} {write : α → Value} {f : α → α} {m : NameMap α}
    (h : ∀ (name : String) x, m[name]? = some x → read (write x) = some (f x)) :
    mapOfJson? read (some (.object (m.toList.map fun e => (some e.1, write e.2)))) =
      some (m.map fun _ x => f x) := by
  have entries : (m.toList.map fun e => (some e.1, write e.2)).mapM (entryOfJson? read) =
      some (m.toList.map fun e => (e.1, f e.2)) := by
    rw [mapM_eq_some_iff, List.forall₂_map_left_iff, List.forall₂_map_right_iff, List.forall₂_same]
    rintro ⟨name, x⟩ hx
    simp [entryOfJson?, h name x (Std.ExtTreeMap.mem_toList_iff_getElem?_eq_some.mp hx)]
  have whole : NameMap.ofEntries (m.toList.map fun e => (e.1, f e.2)) = m.map fun _ x => f x := by
    refine NameMap.ext fun name => ?_
    rw [NameMap.getElem?_ofEntries (m.distinct_toList.map _), NameMap.lookup_map fun _ => f,
      NameMap.lookup_toList, NameMap.getElem?_map]
  rw [mapOfJson?, entries, Option.map_some, whole]

def member (write : α → Value) (m : NameMap α) : Option Value :=
  if m.isEmpty then none else some (.object (m.toList.map fun e => (some e.1, write e.2)))

theorem mapOfJson?_member {read : Value → Option α} {write : α → Value} {f : α → α} {m : NameMap α}
    (h : ∀ (name : String) x, m[name]? = some x → read (write x) = some (f x)) :
    mapOfJson? read (member write m) = some (m.map fun _ x => f x) := by
  unfold member
  split
  · rename_i empty
    have none : (∅ : NameMap α) = m.map fun _ x => f x := by
      refine NameMap.ext fun name => ?_
      rw [NameMap.getElem?_map, NameMap.getElem?_of_isEmpty empty]
      simp
    exact congrArg some none
  · exact mapOfJson?_toList h

theorem mapJson_eq (key : String) (write : α → Value) (m : NameMap α) :
    mapJson key write m = (member write m).toList.map fun v => (some key, v) := by
  unfold mapJson member
  split <;> rfl

theorem member?_json (gauges counters : Option Value) :
    member? "gauge_metrics" (gauges.toList.map (fun v => (some "gauge_metrics", v)) ++
      counters.toList.map fun v => (some "counter_metrics", v)) = some gauges ∧
    member? "counter_metrics" (gauges.toList.map (fun v => (some "gauge_metrics", v)) ++
      counters.toList.map fun v => (some "counter_metrics", v)) = some counters ∧
    keysReadable (gauges.toList.map (fun v => (some "gauge_metrics", v)) ++
      counters.toList.map fun v => (some "counter_metrics", v)) = true := by
  cases gauges <;> cases counters <;> exact ⟨rfl, rfl, rfl⟩

/-! ### Encoding and decoding -/

theorem json_spelled (h : s.Finite) : s.json.Spelled := by
  show SpelledMembers _
  rw [spelledMembers_iff]
  intro e he
  rcases List.mem_append.mp he with he | he
  · exact spelled_mapJson (fun name x hx => (binary64?_ofBinary64 (h name x hx)).1) e he
  · exact spelled_mapJson (fun _ c _ => (toCount?_ofCount c).1) e he

theorem ofJson?_json (h : s.Finite) : ofJson? s.json = some s.reread := by
  obtain ⟨gauges, counters, keys⟩ := member?_json (member ofBinary64 s.gauges)
    (member ofCount s.counters)
  have readGauges := mapOfJson?_member fun name x hx => (binary64?_ofBinary64 (h name x hx)).2
  have readCounters := @mapOfJson?_member _ count? ofCount (fun c => c) s.counters fun _ c _ =>
    (toCount?_ofCount c).2
  rw [NameMap.map_id] at readCounters
  rw [json, mapJson_eq, mapJson_eq, ofJson?, keys, gauges, counters]
  simp only [Bool.not_true, Bool.false_eq_true, if_false, Option.bind_eq_bind, Option.bind_some,
    Option.pure_def, ofParts?, readGauges, readCounters]
  rfl

/-- The bytes of a snapshot are accepted, and nothing but the last digits of gauges can change. -/
theorem decode_encode (h : s.Finite) : decode s.encode = .ok s.reread := by
  rw [decode, encode, read?_bytes (json_spelled h), Option.bind_some, ofJson?_json h]

theorem decode_encode_eq_iff (h : s.Finite) : decode s.encode = .ok s ↔ s.Exact := by
  rw [decode_encode h, ← reread_eq_iff]
  exact ⟨Except.ok.inj, congrArg _⟩

def nearestGauge? : Value → Option Binary64
  | .number n => some (.ofNumeral n)
  | _ => none

theorem nearestGauge?_ofBinary64 {x : Binary64} (hf : x.isFinite = true) :
    nearestGauge? (ofBinary64 x) = some x := by
  rw [ofBinary64, if_pos hf, nearestGauge?, Binary64.ofNumeral_numeral hf]

theorem json_injective (hs : s.Finite) (hu : u.Finite) (h : s.json = u.json) : s = u := by
  rw [json, json, mapJson_eq, mapJson_eq, mapJson_eq, mapJson_eq] at h
  have members := Value.object.inj h
  have left := member?_json (member ofBinary64 s.gauges) (member ofCount s.counters)
  have right := member?_json (member ofBinary64 u.gauges) (member ofCount u.counters)
  rw [members] at left
  have gauges : some s.gauges = some u.gauges := by
    have readLeft := @mapOfJson?_member _ nearestGauge? ofBinary64 (fun x => x) s.gauges
      fun name x hx => nearestGauge?_ofBinary64 (hs name x hx)
    have readRight := @mapOfJson?_member _ nearestGauge? ofBinary64 (fun x => x) u.gauges
      fun name x hx => nearestGauge?_ofBinary64 (hu name x hx)
    rw [NameMap.map_id] at readLeft readRight
    rw [← readLeft, ← readRight, Option.some.inj (left.1.symm.trans right.1)]
  have counters : some s.counters = some u.counters := by
    have readLeft := @mapOfJson?_member _ count? ofCount (fun c => c) s.counters
      fun _ c _ => (toCount?_ofCount c).2
    have readRight := @mapOfJson?_member _ count? ofCount (fun c => c) u.counters
      fun _ c _ => (toCount?_ofCount c).2
    rw [NameMap.map_id] at readLeft readRight
    rw [← readLeft, ← readRight, Option.some.inj (left.2.1.symm.trans right.2.1)]
  exact congr (congrArg Snapshot.mk (Option.some.inj gauges)) (Option.some.inj counters)

theorem encode_injective (hs : s.Finite) (hu : u.Finite) (h : s.encode = u.encode) : s = u := by
  have left := read?_bytes (json_spelled hs)
  have right := read?_bytes (json_spelled hu)
  rw [show s.json.bytes = u.json.bytes from h, right] at left
  exact json_injective hs hu (Option.some.inj left).symm

theorem encode_reread_eq_iff (h : s.Finite) : s.reread.encode = s.encode ↔ s.Exact := by
  rw [← reread_eq_iff]
  exact ⟨encode_injective h.reread h, congrArg encode⟩

/-! ### Whatever is decoded is finite -/

theorem mapOfJson?_values {read : Value → Option α} {v : Option Value} {m : NameMap α}
    (h : mapOfJson? read v = some m) {name : String} {x : α} (hx : m[name]? = some x) :
    ∃ w, read w = some x := by
  unfold mapOfJson? at h
  split at h
  · obtain rfl := Option.some.inj h
    simp at hx
  · obtain ⟨entries, hentries, rfl⟩ := Option.map_eq_some_iff.mp h
    rw [NameMap.ofEntries, NameMap.getElem?_putAll] at hx
    have found : entries.reverse.lookup name = some x := by simpa using hx
    obtain ⟨before, after, hsplit, -⟩ := List.lookup_eq_some_iff.mp found
    have mem : (name, x) ∈ entries := by
      rw [← List.mem_reverse, hsplit]
      simp
    have values := @forall_mem_of_mapM _ _ _ _ _ (fun e => ∃ w, read w = some e.2) hentries
      (fun m e he => by
        obtain ⟨key, hkey, x, hx, rfl⟩ : ∃ key, m.1 = some key ∧ ∃ x, read m.2 = some x ∧
            (key, x) = e := by
          simpa [entryOfJson?, Option.bind_eq_some_iff] using he
        exact ⟨m.2, hx⟩)
    exact values _ mem
  · cases h

theorem ofParts?_of_ofJson? {v : Value} (h : ofJson? v = some s) :
    ∃ gauges counters, ofParts? gauges counters = some s := by
  unfold ofJson? at h
  split at h
  · split at h
    · cases h
    · obtain ⟨gauges, -, h⟩ := Option.bind_eq_some_iff.mp h
      obtain ⟨counters, -, h⟩ := Option.bind_eq_some_iff.mp h
      exact ⟨gauges, counters, h⟩
  · split at h
    · cases h
    · exact ⟨_, _, h⟩
  · cases h

theorem finite_of_decode {bytes : Bytes} (h : decode bytes = .ok s) : s.Finite := by
  unfold decode at h
  split at h
  · rename_i u hu
    obtain rfl := Except.ok.inj h
    obtain ⟨v, -, hv⟩ := Option.bind_eq_some_iff.mp hu
    obtain ⟨gauges, counters, parts⟩ := ofParts?_of_ofJson? hv
    obtain ⟨g, hg, h⟩ := Option.bind_eq_some_iff.mp parts
    obtain ⟨c, -, h⟩ := Option.bind_eq_some_iff.mp h
    obtain rfl := Option.some.inj h
    intro name x hx
    obtain ⟨w, hw⟩ := mapOfJson?_values hg hx
    cases w with
    | number n => exact toBinary64?_isFinite hw
    | _ => cases hw
  · cases h

end Telemetry.Snapshot
