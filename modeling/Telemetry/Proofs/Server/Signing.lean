import Telemetry.Proofs.Server.Admission
import Telemetry.Proofs.Server.Outcomes
/-!
Which answers of a server that has a key are signed: those of the routes, over the whole body that they
have, and none of those that the layers around the routes give themselves.
-/

namespace Telemetry.Server

open Http

variable {σ : Type} {E : Surroundings Call.Reply σ} {s : σ}

def Unsigned (a : Response) : Prop := a.header? Signature.header = none

theorem unsigned_typed (status : Nat) (type : String) (body : Body) :
    Unsigned ⟨status, [("content-type", type)], body⟩ := by
  have other : "content-type" ≠ Signature.header := by decide
  rw [Unsigned, Response.header?, NameMap.lookup_cons, if_neg other]
  rfl

namespace Handler

/-- Whatever it does and whatever it is told, the handler does not sign its answer. -/
def LeavesUnsigned (E : Surroundings Call.Reply σ) (h : Handler Response) (s : σ) : Prop :=
  Ensures E (fun _ _ => True) (fun a _ => Unsigned a) h s

theorem AnswersJson.unsigned {h : Handler Response} (hj : AnswersJson E h s) :
    LeavesUnsigned E h s := by
  refine hj.mono (fun _ _ _ => trivial) ?_
  rintro _ _ ⟨bytes, rfl⟩
  exact unsigned_typed ..

theorem LeavesUnsigned.answer {h : Handler Response} (hu : LeavesUnsigned E h s) :
    Program.Ensures E (fun a _ => Unsigned a) h.answer s :=
  ensures_answer (hu.mono (fun e _ _ => unsigned_typed e.status _ _) fun _ _ ha => ha)

theorem page_unsigned : LeavesUnsigned E page s := by
  rw [page]
  apply ensures_of_last; intro _ _
  apply ensures_of_last; intro _ _
  exact unsigned_typed ..

theorem updateText_unsigned (kind name raw : String) : LeavesUnsigned E (updateText kind name raw) s := by
  rw [updateText]
  apply ensures_of_last; intro _ _
  apply ensures_of_last; intro _ _
  apply ensures_of_last; intro _ _
  apply ensures_of_last; intro _ _
  exact unsigned_typed ..

theorem valueText_unsigned (kind name : String) : LeavesUnsigned E (valueText kind name) s := by
  rw [valueText]
  apply ensures_of_last; intro _ _
  apply ensures_of_last; intro _ _
  apply ensures_of_last; intro _ _
  exact unsigned_typed ..

theorem updateJson_unsigned (r : Request) (body : Bytes) : LeavesUnsigned E (updateJson r body) s :=
  (updateJson_answersJson r body).unsigned

theorem valueJson_unsigned (r : Request) (body : Bytes) : LeavesUnsigned E (valueJson r body) s :=
  (valueJson_answersJson r body).unsigned

theorem updateBatch_unsigned (r : Request) (body : Bytes) : LeavesUnsigned E (updateBatch r body) s :=
  (updateBatch_answersJson r body).unsigned

theorem ping_unsigned : Program.Ensures E (fun a _ => Unsigned a) ping s := by
  unfold ping
  rintro u - r v -
  cases r with
  | ok _ => exact unsigned_typed ..
  | error e => exact fun _ _ _ _ _ => unsigned_typed ..

end Handler

theorem withBody_unsigned {content : Option Bytes} {h : Bytes → Handler Response}
    (hu : ∀ body, Handler.LeavesUnsigned E (h body) s) :
    Program.Ensures E (fun a _ => Unsigned a) (withBody content h) s := by
  unfold withBody
  cases readBody content with
  | ok body => exact (hu body).answer
  | error u => exact unsigned_typed u.status _ _

theorem run_unsigned (found : Route) (r : Request) (content : Option Bytes) :
    Program.Ensures E (fun a _ => Unsigned a) (found.run r content) s := by
  cases found with
  | page => exact Handler.page_unsigned.answer
  | ping => exact Handler.ping_unsigned
  | updateText kind name value =>
    simp only [Route.run]
    split
    · exact (Handler.updateText_unsigned ..).answer
    · exact unsigned_typed ..
    · exact unsigned_typed ..
  | valueText kind name =>
    simp only [Route.run]
    split
    · exact (Handler.valueText_unsigned ..).answer
    · exact unsigned_typed ..
    · exact unsigned_typed ..
  | updateJson => exact withBody_unsigned fun body => Handler.updateJson_unsigned r body
  | valueJson => exact withBody_unsigned fun body => Handler.valueJson_unsigned r body
  | updateBatch => exact withBody_unsigned fun body => Handler.updateBatch_unsigned r body

theorem route_unsigned (r : Request) (content : Option Bytes) :
    Program.Ensures E (fun a _ => Unsigned a) (route r content) s := by
  unfold route
  cases Route.ofPath? r.path with
  | none => exact unsigned_typed ..
  | some found =>
    by_cases ha : found.accepts r.method = true
    · simp only [ha, if_true]
      exact run_unsigned found r content
    · simp only [ha, Bool.false_eq_true, if_false]
      show (Response.addHeader _ _ _).header? _ = none
      rw [Application.header?_addHeader, if_neg (by decide), Option.or_none]
      exact unsigned_typed ..

namespace Application

variable {key : String} {r : Request}

def Signed (key : String) (a : Response) : Prop :=
  ∃ signature, a.header? Signature.header = some signature ∧
    Signature.verify key a.body.content signature = true

theorem signed_signResponse {a : Response} (h : Unsigned a) : Signed key (signResponse key a) := by
  refine ⟨Signature.sign key a.body.content, ?_, Signature.verify_sign key a.body.content⟩
  rw [signResponse, header?_addHeader, h, if_pos rfl, Option.none_or]

theorem outward_signed (w : Work Response)
    (h : Program.Ensures E (fun a _ => Unsigned a) w s) :
    Program.Ensures E (fun a _ => Signed key a) (outward key r w) s := by
  rw [outward, Program.ensures_bind]
  refine h.mono fun a t ha => ?_
  obtain ⟨signature, hs, hv⟩ : Signed key (signResponse key a) := signed_signResponse ha
  refine ⟨signature, ?_, ?_⟩
  · rw [traced_header?, packed_header?, hs]
  · show Signature.verify key (packed r _).body.content signature = true
    rw [packed_content]
    exact hv

/-- With a key, the answer to a request that reaches the routes is signed, and no other. The signature
is that of the body which is sent, or which HEAD leaves out. -/
theorem signed_iff_reaches (hk : key ≠ "") (r : Request) (s : Store) :
    let answer := ((handle (Signature.keyOf (some key)) r).run s).1
    let whole := ((logged (Signature.keyOf (some key)) r).run s).1
    answer = delivered r whole ∧
    (Reaches key r → ∃ signature, answer.header? Signature.header = some signature ∧
      Signature.verify key whole.body.content signature = true) ∧
    (¬Reaches key r → answer.header? Signature.header = none ∧ answer.status ∈ [400, 413, 415]) := by
  intro answer whole
  have hkey : Signature.keyOf (some key) = some key := by simp [Signature.keyOf, hk]
  have left : answer = delivered r whole := by
    show ((handle _ r).runFrom _ _ _).1 = _
    rw [handle_eq, Program.runFrom_map]
    rfl
  refine ⟨left, fun h => ?_, fun h => ?_⟩
  · obtain ⟨e, he⟩ := logged_of_reaches h
    have signed : Program.Ensures (.alone Store.perform) (fun a _ => Signed key a)
        (logged (Signature.keyOf (some key)) r) s := by
      rw [hkey, he]
      exact outward_signed _ (route_unsigned r _)
    obtain ⟨signature, hs, hv⟩ := Program.ensures_alone_iff.mp signed
    exact ⟨signature, by rw [left, delivered_header?]; exact hs, hv⟩
  · have rejected : Rejection answer := by
      show Rejection ((handle _ r).runFrom _ _ _).1
      rw [hkey]
      exact ((handle_of_not_reaches h).runFrom Store.perform [] s).1
    exact ⟨rejected.2, rejected.1⟩

def pingRequest : Request := ⟨"GET", "/ping", [], .raw []⟩

/-- A refusal for a missing signature has none itself. -/
theorem pingRequest_answered_unsigned : "secret" ≠ "" ∧ ¬Reaches "secret" pingRequest ∧
    ∀ s : Store, ¬Signed "secret" ((handle (Signature.keyOf (some "secret")) pingRequest).run s).1 := by
  have key : "secret" ≠ "" := by decide
  have absent : pingRequest.text? Signature.header = none := by decide
  have closed : ¬Reaches "secret" pingRequest := by
    rw [reaches_iff_of_ne (by decide)]
    rintro ⟨body, signature, hs, -⟩
    rw [absent] at hs
    cases hs
  refine ⟨key, closed, fun s => ?_⟩
  rintro ⟨signature, hs, -⟩
  have none := ((signed_iff_reaches key pingRequest s).2.2 closed).1
  rw [none] at hs
  cases hs

end Application

end Telemetry.Server
