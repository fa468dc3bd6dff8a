import Telemetry.Proofs.Server.Settling
/-!
From the handlers to whole requests: whatever a request asks for, it settles.
-/

namespace Telemetry.Server

open Storage Http

variable {l : Ledger} {us : Option (List Update)}

theorem settled_of_turned_away (us : Option (List Update)) (hl : l.changes = []) : ∀ n ∈ turnedAway, Settled us n l := by
  intro n hn
  have bad : n ≠ 200 ∧ n < 500 := by
    simp only [turnedAway, List.mem_cons, List.not_mem_nil, or_false] at hn
    omega
  exact ⟨bad.2, fun h => absurd h bad.1, fun _ => hl⟩

theorem answered_of_asked {response : Response} (hl : l.changes = [])
    (h : response.status = 200) : Answered (some []) response l := by
  refine Handler.settled_ok h ?_
  rw [hl]
  exact ⟨fun _ => rfl, fun _ => rfl⟩

namespace Handler

theorem ensures_answered {h : Handler Response}
    (hs : Ensures sharedMemory Refused (Answered us) h l) :
    Program.Ensures sharedMemory (Answered us) h.answer l :=
  ensures_answer (hs.mono (fun _ _ => settled_of_refused) fun _ _ ha => ha)

theorem ensures_page (hl : l.changes = []) :
    Ensures sharedMemory Refused (Answered (some [])) page l := by
  simp only [page, ensures_bind, ensures_perform, ensures_pure]
  rintro k hk r v ⟨m, files, -, rfl, rfl⟩
  exact answered_of_asked (hk.1.trans hl) rfl

theorem ensures_ping (hl : l.changes = []) :
    Program.Ensures sharedMemory (Answered (some [])) ping l := by
  unfold ping
  rintro k hk r v ⟨m, files, -, rfl, rfl⟩
  exact answered_of_asked (hk.1.trans hl) rfl

theorem ensures_valueText {kind name : String} (hl : l.changes = []) :
    Ensures sharedMemory Refused (Answered (some [])) (valueText kind name) l := by
  rw [valueText, ensures_bind, ensures_checked]
  refine ⟨fun k _ => ?_, fun d _ => ⟨.inl rfl, hl⟩⟩
  rw [ensures_bind, ensures_checked]
  refine ⟨fun n _ => ?_, fun d _ => ⟨.inl rfl, hl⟩⟩
  rw [ensures_bind]
  exact ensures_currentPayload (fun p k hk => answered_of_asked (hk.1.trans hl) rfl)
    fun _ k hk => ⟨.inr rfl, hk.1.trans hl⟩

theorem ensures_valueJson {r : Request} {body : Bytes} (hl : l.changes = []) :
    Ensures sharedMemory Refused (Answered (some [])) (valueJson r body) l := by
  rw [valueJson, ensures_bind]
  refine ensures_readJson (fun query _ => ?_) ⟨.inl rfl, hl⟩ ⟨.inl rfl, hl⟩
  rw [ensures_bind, ensures_checked]
  refine ⟨fun k _ => ?_, fun d _ => ⟨.inl rfl, hl⟩⟩
  rw [ensures_bind, ensures_checked]
  refine ⟨fun n _ => ?_, fun d _ => ⟨.inl rfl, hl⟩⟩
  rw [ensures_bind]
  exact ensures_current (fun m k hk => answered_of_asked (hk.1.trans hl) rfl)
    fun _ k hk => ⟨.inr rfl, hk.1.trans hl⟩

end Handler

theorem ensures_run {r : Request} {content : Option Bytes} {found : Route} (hl : l.changes = []) :
    Program.Ensures sharedMemory (Answered (found.updates? content)) (found.run r content) l := by
  have away (us) := settled_of_turned_away us hl
  have invalid (us) (part : String) : Answered us (invalidSegment part) l :=
    away us 400 (by decide)
  cases found with
  | page => exact Handler.ensures_answered (Handler.ensures_page hl)
  | ping => exact Handler.ensures_ping hl
  | updateText kind name value =>
    simp only [Route.run, texts_cons, texts_nil]
    cases hk : segmentText? kind with
    | none => exact invalid _ "kind"
    | some k =>
      cases hn : segmentText? name with
      | none => exact invalid _ "name"
      | some n =>
        cases hv : segmentText? value with
        | none => exact invalid _ "value"
        | some v =>
          have hu : (Route.updateText kind name value).updates? content =
              (textUpdate? k n v).map ([·]) := by
            cases ht : textUpdate? k n v <;> simp [Route.updates?, hk, hn, hv, ht]
          rw [hu]
          exact Handler.ensures_answered (Handler.ensures_updateText hl)
  | valueText kind name =>
    simp only [Route.run, texts_cons, texts_nil]
    cases segmentText? kind with
    | none => exact invalid _ "kind"
    | some k =>
      cases segmentText? name with
      | none => exact invalid _ "name"
      | some n => exact Handler.ensures_answered (Handler.ensures_valueText hl)
  | updateJson =>
    refine ensures_withBody (away _) fun body hb => ?_
    rw [hb]
    exact Handler.ensures_answered (Handler.ensures_updateJson hl)
  | valueJson =>
    exact ensures_withBody (away _) fun _ _ => Handler.ensures_answered (Handler.ensures_valueJson hl)
  | updateBatch =>
    refine ensures_withBody (away _) fun body hb => ?_
    rw [hb]
    exact Handler.ensures_answered (Handler.ensures_updateBatch hl)

/-- Every request settles, whoever uses the memory at the same time and whatever becomes of the
snapshots. -/
theorem ensures_settled (key : Option String) (r : Request) (hl : l.changes = []) :
    Program.Ensures sharedMemory (Answered (updates? r)) (Application.handle key r) l := by
  have away := settled_of_turned_away (updates? r) hl
  refine Application.ensures_handle away (ensures_route away fun found hf => ?_)
  have hu : updates? r = found.updates? (contentOf? r) := by rw [updates?, hf]; rfl
  rw [hu]
  exact ensures_run hl

/-! ### Statuses -/

theorem Refusal.status_ge (e : Refusal) : 400 ≤ e.status := by
  unfold status
  split <;> decide

/-- An answer is a success as such, or it tells of an error. -/
def Plain {σ : Type} (status : Nat) (_ : σ) : Prop := status = 200 ∨ 400 ≤ status

namespace Handler

variable {σ α β : Type} {E : Surroundings Call.Reply σ} {s : σ}

theorem ensures_refusal (h : Handler α) (s : σ) :
    Ensures E (fun e => Plain e.status) (fun _ _ => True) h s := by
  refine (Program.ensures_true h.run s).mono ?_
  rintro (e | a) t -
  · exact .inr e.status_ge
  · trivial

theorem ensures_plain_bind {Q : β → σ → Prop} {h : Handler α} {f : α → Handler β}
    (hf : ∀ a t, Ensures E (fun e => Plain e.status) Q (f a) t) :
    Ensures E (fun e => Plain e.status) Q (h >>= f) s := by
  rw [ensures_bind]
  exact (ensures_refusal h s).mono (fun _ _ he => he) fun a t _ => hf a t

theorem ensures_plain_pure {response : Response} (h : response.status = 200) :
    Ensures E (fun e => Plain e.status) (fun a => Plain a.status) (pure response) s := .inl h

theorem ensures_plain_answer {h : Handler Response}
    (hs : Ensures E (fun e => Plain e.status) (fun a => Plain a.status) h s) :
    Program.Ensures E (fun a => Plain a.status) h.answer s :=
  ensures_answer hs

theorem ensures_plain_ping : Program.Ensures E (fun a => Plain a.status) ping s := by
  unfold ping
  rintro t - (e | _) u -
  · exact fun _ _ _ _ _ => .inr (by decide : 400 ≤ 500)
  · exact .inl rfl

end Handler

theorem plain_of_turned_away {σ : Type} (s : σ) : ∀ n ∈ turnedAway, Plain n s := by
  intro n hn
  simp only [turnedAway, List.mem_cons, List.not_mem_nil, or_false] at hn
  exact .inr (by omega)

open Handler in
theorem ensures_plain_run {σ : Type} {E : Surroundings Call.Reply σ} {s : σ} {r : Request}
    {content : Option Bytes} (found : Route) :
    Program.Ensures E (fun a => Plain a.status) (found.run r content) s := by
  have away : ∀ n ∈ turnedAway, Plain n s := plain_of_turned_away s
  have invalid (part : String) : Plain (invalidSegment part).status s := .inr (by decide : 400 ≤ 400)
  cases found with
  | page =>
    refine ensures_plain_answer (ensures_plain_bind fun _ _ => ensures_plain_bind fun _ _ => ?_)
    exact ensures_plain_pure rfl
  | ping => exact ensures_plain_ping
  | updateText kind name value =>
    simp only [Route.run, texts_cons, texts_nil]
    cases segmentText? kind with
    | none => exact invalid "kind"
    | some k =>
      cases segmentText? name with
      | none => exact invalid "name"
      | some n =>
        cases segmentText? value with
        | none => exact invalid "value"
        | some v =>
          refine ensures_plain_answer (ensures_plain_bind fun _ _ => ensures_plain_bind fun _ _ => ?_)
          refine ensures_plain_bind fun _ _ => ensures_plain_bind fun _ _ => ?_
          exact ensures_plain_pure rfl
  | valueText kind name =>
    simp only [Route.run, texts_cons, texts_nil]
    cases segmentText? kind with
    | none => exact invalid "kind"
    | some k =>
      cases segmentText? name with
      | none => exact invalid "name"
      | some n =>
        refine ensures_plain_answer (ensures_plain_bind fun _ _ => ensures_plain_bind fun _ _ => ?_)
        exact ensures_plain_bind fun _ _ => ensures_plain_pure rfl
  | updateJson =>
    refine ensures_withBody away fun _ _ => ensures_plain_answer ?_
    refine ensures_plain_bind fun _ _ => ensures_plain_bind fun _ _ => ensures_plain_bind fun _ _ => ?_
    exact ensures_plain_bind fun _ _ => ensures_plain_bind fun _ _ => ensures_plain_pure rfl
  | valueJson =>
    refine ensures_withBody away fun _ _ => ensures_plain_answer ?_
    refine ensures_plain_bind fun _ _ => ensures_plain_bind fun _ _ => ensures_plain_bind fun _ _ => ?_
    exact ensures_plain_bind fun _ _ => ensures_plain_pure rfl
  | updateBatch =>
    refine ensures_withBody away fun _ _ => ensures_plain_answer ?_
    refine ensures_plain_bind fun _ _ => ensures_plain_bind fun _ _ => ensures_plain_bind fun _ _ => ?_
    refine ensures_plain_bind fun _ _ => ensures_plain_bind fun _ _ => ensures_plain_bind fun _ _ => ?_
    exact ensures_plain_pure rfl

theorem ensures_plain {σ : Type} {E : Surroundings Call.Reply σ} {s : σ} (key : Option String)
    (r : Request) : Program.Ensures E (fun a => Plain a.status) (Application.handle key r) s :=
  Application.ensures_handle (plain_of_turned_away s)
    (ensures_route (plain_of_turned_away s) fun found _ => ensures_plain_run found)

end Telemetry.Server
