import Telemetry.Proofs.Program
import Telemetry.Server.Application
/-!
What handlers ensure: a condition on the refusals and one on the results, carried through the steps
that handlers are made of.
-/

namespace Telemetry.Server

open Http

namespace Handler

variable {σ α β : Type} {E : Surroundings Call.Reply σ} {R : Refusal → σ → Prop}
  {Q : α → σ → Prop} {s : σ}

/-- Where the handler succeeds `Q` holds, and where it refuses `R` holds. -/
def Ensures (E : Surroundings Call.Reply σ) (R : Refusal → σ → Prop) (Q : α → σ → Prop)
    (h : Handler α) (s : σ) : Prop :=
  Program.Ensures E (fun r s => match r with
    | .ok a => Q a s
    | .error e => R e s) h.run s

@[simp] theorem ensures_pure (a : α) : Ensures E R Q (pure a) s ↔ Q a s := Iff.rfl

@[simp] theorem ensures_throw (e : Refusal) : Ensures E R Q (throw e) s ↔ R e s := Iff.rfl

@[simp] theorem ensures_bind (h : Handler α) (f : α → Handler β) (Q : β → σ → Prop) :
    Ensures E R Q (h >>= f) s ↔ Ensures E R (fun a s => Ensures E R Q (f a) s) h s := by
  unfold Ensures
  rw [ExceptT.run_bind, Program.ensures_bind]
  constructor <;> refine fun hr => hr.mono ?_ <;> rintro (e | a) s h <;> exact h

@[simp] theorem ensures_report (e : Log.Event) {Q : Unit → σ → Prop} :
    Ensures E R Q (report e) s ↔ Q () s := Iff.rfl

theorem ensures_perform {c : Call} {Q : c.Reply → σ → Prop} :
    Ensures E R Q (perform c) s ↔ ∀ u, E.Others s u → ∀ r v, E.Answers u c r v → Q r v := Iff.rfl

theorem ensures_checked {x : Except Defect α} : Ensures E R Q (checked x) s ↔
    (∀ a, x = .ok a → Q a s) ∧ ∀ d, x = .error d → R (.defect d) s := by
  cases x <;> simp [checked]

theorem ensures_found {name : String} {x : Option α} : Ensures E R Q (found name x) s ↔
    (∀ a, x = some a → Q a s) ∧ (x = none → R (.notFound name) s) := by
  cases x <;> simp [found]

theorem ensures_written {what : String} {x : Except Storage.Error Unit} {Q : Unit → σ → Prop} :
    Ensures E R Q (written what x) s ↔
      ((x = .ok () ∨ ∃ e, x = .error e ∧ e.isPersistence = true) → Q () s) ∧
      ∀ e, x = .error e → e.isPersistence = false → R (.storage e) s := by
  cases x with
  | ok _ => simp [written]
  | error e => cases he : e.isPersistence <;> simp [written, he]

theorem ensures_readJson {read : Bytes → Option α} {r : Http.Request} {body : Bytes}
    (hQ : ∀ a, read body = some a → Q a s) (hN : R .notJson s) (hB : R .malformedBody s) :
    Ensures E R Q (readJson read r body) s := by
  unfold readJson
  extract_lets isJson
  cases isJson with
  | false => exact hN
  | true =>
    cases h : read body with
    | none => exact hB
    | some a => exact hQ a h

theorem Ensures.mono {h : Handler α} {R' : Refusal → σ → Prop} {Q' : α → σ → Prop}
    (hs : Ensures E R Q h s) (hR : ∀ e s, R e s → R' e s) (hQ : ∀ a s, Q a s → Q' a s) :
    Ensures E R' Q' h s := by
  refine Program.Ensures.mono hs ?_
  rintro (e | a) s h
  · exact hR e s h
  · exact hQ a s h

theorem ensures_answer {P : Http.Response → σ → Prop} {h : Handler Http.Response}
    (hs : Ensures E (fun e s => P (.text e.status e.message) s) P h s) :
    Program.Ensures E P h.answer s := by
  unfold answer
  rw [Program.ensures_bind]
  refine Program.Ensures.mono hs ?_
  rintro (e | a) s h
  · by_cases h5 : 500 ≤ e.status <;> simpa [h5, Work.report, Program.ensures_report] using h
  · exact h

/-- What is said of the end of a handler alone does not depend on the steps before it. -/
theorem ensures_of_last {h : Handler α} {f : α → Handler β} {Q : β → σ → Prop}
    (hf : ∀ a s, Ensures E (fun _ _ => True) Q (f a) s) :
    Ensures E (fun _ _ => True) Q (h >>= f) s := by
  rw [ensures_bind]
  refine Program.Ensures.mono (Program.ensures_true h.run s) ?_
  rintro (e | a) s -
  · trivial
  · exact hf a s

/-! ### Answers in JSON -/

def AnswersJson (E : Surroundings Call.Reply σ) (h : Handler Response) (s : σ) : Prop :=
  Ensures E (fun _ _ => True) (fun a _ => ∃ bytes, a = .json bytes) h s

theorem updateJson_answersJson (r : Request) (body : Bytes) : AnswersJson E (updateJson r body) s := by
  rw [updateJson]
  apply ensures_of_last; intro _ _
  apply ensures_of_last; intro _ _
  apply ensures_of_last; intro _ _
  apply ensures_of_last; intro _ _
  apply ensures_of_last; intro _ _
  exact ⟨_, rfl⟩

theorem valueJson_answersJson (r : Request) (body : Bytes) : AnswersJson E (valueJson r body) s := by
  rw [valueJson]
  apply ensures_of_last; intro _ _
  apply ensures_of_last; intro _ _
  apply ensures_of_last; intro _ _
  apply ensures_of_last; intro _ _
  exact ⟨_, rfl⟩

theorem updateBatch_answersJson (r : Request) (body : Bytes) :
    AnswersJson E (updateBatch r body) s := by
  rw [updateBatch]
  apply ensures_of_last; intro _ _
  apply ensures_of_last; intro _ _
  apply ensures_of_last; intro _ _
  apply ensures_of_last; intro _ _
  apply ensures_of_last; intro _ _
  apply ensures_of_last; intro _ _
  exact ⟨_, rfl⟩

end Handler

end Telemetry.Server
