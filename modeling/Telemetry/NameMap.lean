import Std.Data.ExtTreeMap
/-!
Finite maps from names, listed in the order of their characters' code points (which is also the
order of their UTF-8 bytes). Two maps with the same lookups are equal.
-/

namespace Telemetry

abbrev NameMap (α : Type) := Std.ExtTreeMap String α

namespace NameMap

/-- Puts entries in from left to right, so the last of a repeated name stays. -/
def putAll {α : Type} (m : NameMap α) (entries : List (String × α)) : NameMap α :=
  entries.foldl (fun m e => m.insert e.1 e.2) m

def ofEntries {α : Type} (entries : List (String × α)) : NameMap α := putAll ∅ entries

def Distinct {α : Type} (entries : List (String × α)) : Prop :=
  entries.Pairwise fun a b => a.1 ≠ b.1

variable {α β : Type}

theorem ext {m k : NameMap α} (h : ∀ name : String, m[name]? = k[name]?) : m = k :=
  Std.ExtTreeMap.ext_getElem? fun {_} => h _

theorem getElem?_of_isEmpty {m : NameMap α} (h : m.isEmpty = true) (name : String) :
    m[name]? = none := by
  simp [Std.ExtTreeMap.isEmpty_iff.mp h]

theorem mem_keys_iff {m : NameMap α} {name : String} : name ∈ m.keys ↔ m[name]?.isSome := by
  rw [Std.ExtTreeMap.mem_keys, Std.ExtTreeMap.mem_iff_isSome_getElem?]

theorem getElem?_insert (m : NameMap α) (key name : String) (x : α) :
    (m.insert key x)[name]? = if key = name then some x else m[name]? := by
  simp [Std.ExtTreeMap.getElem?_insert]

theorem lookup_cons (e : String × α) (entries : List (String × α)) (name : String) :
    (e :: entries).lookup name = if e.1 = name then some e.2 else entries.lookup name := by
  rw [List.lookup_cons]
  by_cases h : e.1 = name
  · simp [h]
  · have : (name == e.1) = false := by simpa using fun h' => h h'.symm
    simp [h, this]

theorem lookup_eq_some_iff {entries : List (String × α)} (h : Distinct entries) {name : String}
    {x : α} : entries.lookup name = some x ↔ (name, x) ∈ entries := by
  induction entries with
  | nil => simp
  | cons e entries ih =>
    obtain ⟨he, h⟩ := List.pairwise_cons.mp h
    rw [lookup_cons, List.mem_cons]
    by_cases hn : e.1 = name
    · have : (name, x) ∉ entries := fun hm => he _ hm hn
      simp [hn, this, Prod.ext_iff, eq_comm]
    · simp [hn, ih h, Prod.ext_iff, eq_comm]

theorem lookup_reverse {entries : List (String × α)} (h : Distinct entries) (name : String) :
    entries.reverse.lookup name = entries.lookup name := by
  have hr : Distinct entries.reverse :=
    List.pairwise_reverse.mpr (h.imp fun hab => Ne.symm hab)
  ext x
  rw [lookup_eq_some_iff hr, lookup_eq_some_iff h, List.mem_reverse]

theorem distinct_toList (m : NameMap α) : Distinct m.toList :=
  Std.ExtTreeMap.distinct_keys_toList.imp fun hab => by simpa using hab

theorem ascending_keys (m : NameMap α) : m.keys.Pairwise (· < ·) := by
  have ordered := Std.ExtTreeMap.ordered_keys (t := m)
  exact ordered.imp fun hab => compareOfLessAndEq_eq_lt.mp hab

@[simp] theorem lookup_toList (m : NameMap α) (name : String) :
    m.toList.lookup name = m[name]? := by
  ext x
  rw [lookup_eq_some_iff m.distinct_toList]
  exact Std.ExtTreeMap.mem_toList_iff_getElem?_eq_some

/-- The last entry of a name counts, and without one the map before. -/
theorem getElem?_putAll (m : NameMap α) (entries : List (String × α)) (name : String) :
    (putAll m entries)[name]? = (entries.reverse.lookup name).or m[name]? := by
  induction entries generalizing m with
  | nil => simp [putAll]
  | cons e entries ih =>
    show (putAll (m.insert e.1 e.2) entries)[name]? = _
    rw [ih, List.reverse_cons, List.lookup_append, getElem?_insert, Option.or_assoc, lookup_cons]
    by_cases h : e.1 = name <;> simp [h]

theorem getElem?_putAll_of_distinct {entries : List (String × α)} (h : Distinct entries)
    (m : NameMap α) (name : String) :
    (putAll m entries)[name]? = (entries.lookup name).or m[name]? := by
  rw [getElem?_putAll, lookup_reverse h]

theorem putAll_perm {entries more : List (String × α)} (h : Distinct entries)
    (hp : entries.Perm more) (m : NameMap α) : putAll m entries = putAll m more := by
  have hm : Distinct more := (hp.pairwise_iff Ne.symm).mp h
  refine ext fun name => ?_
  rw [getElem?_putAll_of_distinct h, getElem?_putAll_of_distinct hm]
  congr 1
  ext x
  rw [lookup_eq_some_iff h, lookup_eq_some_iff hm, hp.mem_iff]

@[simp] theorem getElem?_map (f : String → α → β) (m : NameMap α) (name : String) :
    (m.map f)[name]? = m[name]?.map (f name) := by
  simp

@[simp] theorem map_id (m : NameMap α) : (m.map fun _ x => x) = m :=
  ext fun name => by rw [getElem?_map, Option.map_id']

theorem map_insert (f : String → α → β) (m : NameMap α) (key : String) (x : α) :
    (m.insert key x).map f = (m.map f).insert key (f key x) := by
  refine ext fun name => ?_
  rw [getElem?_map, getElem?_insert, getElem?_insert, getElem?_map]
  by_cases h : key = name <;> simp [h]

theorem map_putAll (f : String → α → β) (m : NameMap α) (entries : List (String × α)) :
    (putAll m entries).map f = putAll (m.map f) (entries.map fun e => (e.1, f e.1 e.2)) := by
  induction entries generalizing m with
  | nil => rfl
  | cons e entries ih =>
    show (putAll (m.insert e.1 e.2) entries).map f = _
    rw [ih, map_insert]
    rfl

theorem getElem?_ofEntries {entries : List (String × α)} (h : Distinct entries) (name : String) :
    (ofEntries entries)[name]? = entries.lookup name := by
  simp [ofEntries, getElem?_putAll_of_distinct h]

@[simp] theorem ofEntries_toList (m : NameMap α) : ofEntries m.toList = m :=
  ext fun name => by rw [getElem?_ofEntries m.distinct_toList, lookup_toList]

theorem lookup_map (f : String → α → β) (entries : List (String × α)) (name : String) :
    (entries.map fun e => (e.1, f e.1 e.2)).lookup name = (entries.lookup name).map (f name) := by
  induction entries with
  | nil => rfl
  | cons e entries ih =>
    rw [List.map_cons, lookup_cons, lookup_cons, ih]
    by_cases h : e.1 = name <;> simp [h]

theorem Distinct.map {entries : List (String × α)} (h : Distinct entries) (f : String × α → β) :
    Distinct (entries.map fun e => (e.1, f e)) :=
  List.pairwise_map.mpr h

end NameMap

end Telemetry
