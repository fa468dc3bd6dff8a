import Telemetry.Metric.Wire
import Telemetry.Proofs.Checks
import Telemetry.Proofs.Json.Number
/-!
Metrics through their JSON form. All parts of a metric come back as they were sent, but the value of a
gauge is what the reader of numbers makes of it, and one that is not finite is missing.
-/

namespace Telemetry.Metric

open Json Json.Value

variable {m : Metric} {ms : List Metric}

def reread (m : Metric) : Metric :=
  { m with value := m.value.bind fun x => if x.isFinite then some x.reread else none }

theorem optional?_number {α : Type} (read : Value → Option α) (n : Numeral) :
    optional? read (some (.number n)) = (read (.number n)).map some := rfl

theorem optional?_ofCount (d : Option Count) :
    optional? count? (d.map ofCount) = some d := by
  cases d with
  | none => rfl
  | some d => exact congrArg (Option.map some) (toCount?_ofCount d).2

theorem optional?_ofBinary64 (v : Option Binary64) :
    optional? binary64? (v.map ofBinary64) =
      some (v.bind fun x => if x.isFinite then some x.reread else none) := by
  cases v with
  | none => rfl
  | some x =>
    rw [Option.map_some, Option.bind_some, ofBinary64]
    by_cases hf : x.isFinite = true
    · have read := (binary64?_ofBinary64 hf).2
      rw [ofBinary64, if_pos hf] at read
      rw [if_pos hf, if_pos hf, optional?_number, read]
      rfl
    · rw [if_neg hf, if_neg hf]
      rfl

theorem json_spelled (m : Metric) : m.json.Spelled := by
  show SpelledMembers _
  rw [spelledMembers_iff]
  intro e he
  rcases List.mem_append.mp he with he | he
  · rcases List.mem_append.mp he with he | he
    · simp only [List.mem_cons, List.not_mem_nil, or_false] at he
      rcases he with rfl | rfl <;> trivial
    · obtain ⟨d, -, rfl⟩ := Option.map_eq_some_iff.mp (Option.mem_toList.mp he)
      exact (toCount?_ofCount d).1
  · obtain ⟨x, -, rfl⟩ := Option.map_eq_some_iff.mp (Option.mem_toList.mp he)
    show (ofBinary64 x).Spelled
    cases hf : x.isFinite with
    | false => simp [ofBinary64, hf, Spelled]
    | true => exact (binary64?_ofBinary64 hf).1

/-- Each part is found under its key, and no key is repeated. -/
theorem member?_json (m : Metric) : ∃ members, m.json = .object members ∧
    member? "id" members = some (some (.text m.id)) ∧
    member? "type" members = some (some (.text m.type)) ∧
    member? "delta" members = some (m.delta.map ofCount) ∧
    member? "value" members = some (m.value.map ofBinary64) ∧ keysReadable members = true := by
  refine ⟨_, rfl, ?_⟩
  cases m.delta <;> cases m.value <;> exact ⟨rfl, rfl, rfl, rfl, rfl⟩

theorem ofJson?_json (m : Metric) : ofJson? m.json = some m.reread := by
  obtain ⟨members, whole, id, type, delta, value, keys⟩ := m.member?_json
  rw [whole, ofJson?, keys, id, type, delta, value]
  simp only [Bool.not_true, Bool.false_eq_true, if_false, Option.bind_eq_bind, Option.bind_some,
    Option.pure_def, ofParts?, optional?_ofCount, optional?_ofBinary64]
  rfl

theorem readList?_listJson (ms : List Metric) :
    readList? (listJson ms).bytes = some (ms.map reread) := by
  have spelled : (listJson ms).Spelled := by
    show SpelledItems _
    rw [spelledItems_iff]
    intro v hv
    obtain ⟨m, -, rfl⟩ := List.mem_map.mp hv
    exact m.json_spelled
  rw [readList?, read?_bytes spelled]
  show (ms.map json).mapM ofJson? = _
  rw [mapM_eq_some_iff, List.forall₂_map_left_iff, List.forall₂_map_right_iff, List.forall₂_same]
  exact fun m _ => m.ofJson?_json

end Telemetry.Metric
