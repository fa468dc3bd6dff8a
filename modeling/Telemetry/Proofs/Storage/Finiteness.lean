import Telemetry.Proofs.Storage.Restarts
import Telemetry.Proofs.Storage.SavingThreads
/-!
What follows from every stored gauge being finite. A snapshot has a number for each of them, never a
null that its reader would refuse, and a listing shows each of them in digits, never in a word.
-/

namespace Telemetry

open Storage Json

def IsPlain (text : String) : Prop :=
  ∃ n : Numeral, n.Spelled ∧ n.exponent = none ∧ n.text = text

namespace Numeral

variable {n : Numeral}

theorem chars_of_plain (spelled : n.Spelled) (plain : n.exponent = none) :
    ∀ c ∈ n.chars, isDigit c = true ∨ c = '-' ∨ c = '.' := by
  intro c hc
  rw [chars, plain, List.append_nil] at hc
  rcases List.mem_append.mp hc with hc | hc
  · rcases List.mem_append.mp hc with hc | hc
    · split at hc
      · exact .inr (.inl (List.mem_singleton.mp hc))
      · cases hc
    · exact .inl (spelled.wholeDigits c hc)
  · split at hc
    · cases hc
    · rcases List.mem_cons.mp hc with rfl | hc
      · exact .inr (.inr rfl)
      · exact .inl (spelled.fractionDigits c hc)

end Numeral

theorem IsPlain.chars {text : String} (h : IsPlain text) :
    ∀ c ∈ text.toList, isDigit c = true ∨ c = '-' ∨ c = '.' := by
  obtain ⟨n, spelled, plain, rfl⟩ := h
  rw [Numeral.text, String.toList_ofList]
  exact n.chars_of_plain spelled plain

namespace Binary64

/-- How the numbers are shown that are not finite. -/
def words : List String := [nan.text, (infinity false).text, (infinity true).text]

theorem text_isPlain {x : Binary64} (hf : x.isFinite = true) : IsPlain x.text := by
  have below := isFinite_iff.mp hf
  have notNaN : x.isNaN = false := by
    rw [isNaN, decide_eq_false_iff_not]
    omega
  have notInfinite : x.isInfinite = false := by
    rw [isInfinite, decide_eq_false_iff_not]
    omega
  refine ⟨x.numeral plainLayout, (numeral_spec hf plainLayout le_rfl).1, rfl, ?_⟩
  rw [text, notNaN, notInfinite]
  rfl

end Binary64

theorem IsPlain.not_word {text : String} (h : IsPlain text) : text ∉ Binary64.words := by
  have letter : ∀ word ∈ Binary64.words,
      word.toList.any (fun c => !(isDigit c || c = '-' || c = '.')) = true := by
    decide +kernel
  intro word
  obtain ⟨c, hc, foreign⟩ := List.any_eq_true.mp (letter text word)
  have known := h.chars c hc
  simp_all

namespace Snapshot

/-- Whether the bytes are JSON with a number for every gauge of the snapshot, and with nothing else
than numbers among its gauges. -/
structure HoldsNumbers (s : Snapshot) (members : List (Option String × Value)) : Prop where
  numbers : ∀ v, (some "gauge_metrics", v) ∈ members →
    ∃ gauges, v = .object gauges ∧ ∀ e ∈ gauges, ∃ n, e.2 = .number n
  complete : ∀ (name : String) (x : Binary64), s.gauges[name]? = some x →
    ∃ gauges n, (some "gauge_metrics", .object gauges) ∈ members ∧ (some name, .number n) ∈ gauges

variable {s : Snapshot}

theorem mem_mapJson {α : Type} {key : String} {write : α → Value} {m : NameMap α}
    {e : Option String × Value} : e ∈ mapJson key write m ↔ m.isEmpty = false ∧
      e = (some key, .object (m.toList.map fun e => (some e.1, write e.2))) := by
  unfold mapJson
  split <;> simp_all

theorem json_holdsNumbers (h : s.Finite) : HoldsNumbers s
    (mapJson "gauge_metrics" Value.ofBinary64 s.gauges ++
      mapJson "counter_metrics" Value.ofCount s.counters) := by
  have number {name : String} {x : Binary64} (hx : s.gauges[name]? = some x) :
      Value.ofBinary64 x = .number (x.numeral jsonLayout) := if_pos (h name x hx)
  constructor
  case numbers =>
    intro v hv
    rcases List.mem_append.mp hv with hv | hv
    · obtain ⟨-, hv⟩ := mem_mapJson.mp hv
      refine ⟨_, (Prod.mk.inj hv).2, fun e he => ?_⟩
      obtain ⟨⟨name, x⟩, hx, rfl⟩ := List.mem_map.mp he
      exact ⟨_, number (Std.ExtTreeMap.mem_toList_iff_getElem?_eq_some.mp hx)⟩
    · -- The counters stand under another key.
      exact absurd (Prod.mk.inj (mem_mapJson.mp hv).2).1 (by decide)
  case complete =>
    intro name x hx
    have filled : s.gauges.isEmpty = false := by
      by_contra empty
      rw [Bool.not_eq_false] at empty
      rw [NameMap.getElem?_of_isEmpty empty] at hx
      cases hx
    refine ⟨_, x.numeral jsonLayout, List.mem_append_left _ (mem_mapJson.mpr ⟨filled, rfl⟩), ?_⟩
    rw [← number hx]
    exact List.mem_map_of_mem (Std.ExtTreeMap.mem_toList_iff_getElem?_eq_some.mpr hx)

theorem read?_encode (h : s.Finite) : Value.read? s.encode = some s.json :=
  Value.read?_bytes (json_spelled h)

theorem listing_isPlain (h : s.Finite) {name text : String}
    (ht : s.listing.gauges[name]? = some text) : IsPlain text := by
  rw [listing, NameMap.getElem?_map] at ht
  obtain ⟨x, hx, rfl⟩ := Option.map_eq_some_iff.mp ht
  exact Binary64.text_isPlain (h name x hx)

end Snapshot

namespace Host

variable {h : Host}

/-- What an event does to the files: nothing, what others do to them, or one write of the content
that the memory has from then on. -/
theorem next_files (h : Host) (e : Event) :
    (h.next e).files = h.files ∨ e = .disk (h.next e).files ∨
      ∃ path, (h.next e).files = ((h.next e).memory.saveTo h.files path).2 := by
  cases e with
  | call c =>
    cases hu : h.memory.content.revise? c with
    | none => exact .inl (congrArg Prod.snd (Threads.perform_of_revise_none hu h.files))
    | some u =>
      have revised := (Threads.perform_revise hu h.files).2
      have memory : (h.next (.call c)).memory = h.memory.load u := congrArg Prod.fst revised
      have files : (h.next (.call c)).files = ((h.memory.load u).afterWrite h.files).2 :=
        congrArg Prod.snd revised
      rw [memory, files]
      unfold Memory.afterWrite
      split
      · exact .inr (.inr ⟨_, rfl⟩)
      · exact .inl rfl
  | save =>
    show (h.memory.save h.files).2 = _ ∨ _ ∨ ∃ path, (h.memory.save h.files).2 = _
    unfold Memory.save
    split
    · exact .inr (.inr ⟨_, rfl⟩)
    · exact .inl rfl
  | saveTo path => exact .inr (.inr ⟨path, rfl⟩)
  | restore path => exact .inl rfl
  | load bytes =>
    left
    rw [next]
    split <;> rfl
  | disk files => exact .inr (.inl rfl)

/-- Whatever was called, restored, loaded or done to the files, with or without success, every gauge
of the memory is finite. So what it writes next has a number for each gauge, also when it is read
from the file, and a listing shows numbers only. -/
theorem gauges_stay_finite (hh : Reachable h) :
    (∀ (name : String) (x : Binary64), h.memory.content.gauges[name]? = some x →
      x.isFinite = true) ∧
    (∀ e, (h.next e).files = h.files ∨ e = .disk (h.next e).files ∨ ∃ path bytes result,
      AtomicWrite.run h.files path bytes = (result, (h.next e).files) ∧
        (result = .ok () →
          (h.next e).files.read? (.ofText (h.next e).files.base path) = some bytes) ∧
        ∃ members, Value.read? bytes = some (.object members) ∧
          (h.next e).memory.content.HoldsNumbers members) ∧
    (h.memory.perform h.files .getAll).1 = .ok h.memory.content.listing ∧
    ∀ name text : String, h.memory.content.listing.gauges[name]? = some text →
      IsPlain text ∧ text ∉ Binary64.words := by
  have finite := hh.finite
  refine ⟨finite, fun e => ?_, rfl, fun name text ht => ?_⟩
  · rcases h.next_files e with same | others | ⟨path, write⟩
    · exact .inl same
    · exact .inr (.inl others)
    have later := step_preserves_finite finite e
    refine .inr (.inr ⟨path, (h.next e).memory.content.encode, _, Prod.ext rfl write.symm,
      fun ok => ?_, _, Snapshot.read?_encode later, Snapshot.json_holdsNumbers later⟩)
    obtain ⟨base, read⟩ := AtomicWrite.run_eq_ok (Prod.ext ok write.symm)
    rw [base, read]
  · have plain := Snapshot.listing_isPlain finite ht
    exact ⟨plain, plain.not_word⟩

/-- Numbers that are not finite, on every way into a memory, and finite ones between them. -/
def intrudedHost : Host :=
  run ⟨.new none .inline, .empty "/work"⟩
    [.call (.putGauge "x" ⟨0x3FF8000000000000⟩), .call (.putGauge "x" .nan),
      .call (.putGauge "x" (.infinity true)),
      .call (.putGauges (NameMap.ofEntries [("y", .zero), ("z", .infinity false)])),
      .load (Utf8.encode "\x7b\"gauge_metrics\":\x7b\"x\":null\x7d\x7d"),
      .load (Utf8.encode "\x7b\"gauge_metrics\":\x7b\"x\":1e999\x7d\x7d"),
      .load (Utf8.encode "\x7b\"gauge_metrics\":\x7b\"x\":1.5,\"t\":3\x7d\x7d"),
      .restore "nowhere.json", .saveTo "a.json", .restore "a.json"]

theorem intruders_stay_out : Reachable intrudedHost ∧
    intrudedHost.memory.content.gauges.keys = ["t", "x"] ∧
    intrudedHost.memory.content.Finite ∧
    intrudedHost.memory.content.listing.gauges["x"]? = some "1.5" ∧ IsPlain "1.5" ∧
    ∃ members, (intrudedHost.next (.saveTo "b.json")).memory.content.HoldsNumbers members := by
  have reachable : Reachable intrudedHost := ⟨_, _, _, _, rfl⟩
  obtain ⟨finite, writes, -, shown⟩ := gauges_stay_finite reachable
  have text : intrudedHost.memory.content.listing.gauges["x"]? = some "1.5" := by decide +kernel
  have written :
      ((intrudedHost.next (.saveTo "b.json")).files.read? (.ofText "/work" "b.json")).isSome ∧
      ¬(intrudedHost.files.read? (.ofText "/work" "b.json")).isSome := by decide +kernel
  refine ⟨reachable, by decide +kernel, finite, text, (shown _ _ text).1, ?_⟩
  rcases writes (.saveTo "b.json") with same | others | ⟨_, _, _, _, _, members, _, holds⟩
  · rw [same] at written
    exact absurd written.1 written.2
  · cases others
  · exact ⟨members, holds⟩

end Host

end Telemetry
