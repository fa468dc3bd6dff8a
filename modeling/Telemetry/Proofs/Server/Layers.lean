import Telemetry.Proofs.Checks
import Telemetry.Proofs.Program
import Telemetry.Server.Application
/-!
The layers around the handlers. They turn requests away or pass them on with the unpacked body; none
of them calls the storage or changes the status of an answer. So what the router ensures for a status
the whole server ensures, if it also holds where a request is turned away.
-/

namespace Telemetry.Server

open Http

/-- The bytes that the handlers find in a body, after unpacking. -/
def contentBy? (extent : Gzip.Extent) (r : Request) : Option Bytes :=
  match r.value? "content-encoding" with
  | none => some r.body.sent
  | some coding =>
    if coding = Utf8.encode "gzip" then r.body.unpacked? extent bodyLimit
    else if coding = Utf8.encode "identity" then some r.body.sent
    else none

def contentOf? (r : Request) : Option Bytes := contentBy? .first r

theorem readBody_eq_ok {content : Option Bytes} {body : Bytes} (h : readBody content = .ok body) :
    content = some body := by
  unfold readBody at h
  cases content with
  | none => cases h
  | some bytes =>
    by_cases hlen : bodyLimit < bytes.length
    · simp only [hlen, if_true] at h
      cases h
    · simp only [hlen, if_false, Except.ok.injEq] at h
      rw [h]

theorem texts_nil : texts [] = .ok [] := rfl

theorem texts_cons (part : String × String) (parts : List (String × String)) :
    texts (part :: parts) = match segmentText? part.2 with
      | none => .error part.1
      | some text => (texts parts).map (text :: ·) := by
  unfold texts
  rw [mapM_cons]
  cases segmentText? part.2 <;> rfl

/-- The statuses of requests that no handler sees. -/
def turnedAway : List Nat := [400, 404, 413, 415]

variable {σ : Type} {E : Surroundings Call.Reply σ} {P : Nat → σ → Prop} {s : σ}

theorem Unreadable.status_mem (u : Unreadable) : u.status ∈ turnedAway := by
  cases u <;> decide

theorem ensures_withBody {content : Option Bytes} {h : Bytes → Handler Response}
    (away : ∀ n ∈ turnedAway, P n s)
    (hb : ∀ body, content = some body →
      Program.Ensures E (fun a => P a.status) (h body).answer s) :
    Program.Ensures E (fun a => P a.status) (withBody content h) s := by
  unfold withBody
  cases hr : readBody content with
  | error u => exact away _ u.status_mem
  | ok body => exact hb body (readBody_eq_ok hr)

theorem ensures_route {r : Request} {content : Option Bytes} (away : ∀ n ∈ turnedAway, P n s)
    (hf : ∀ found, Route.ofPath? r.path = some found →
      Program.Ensures E (fun a => P a.status) (found.run r content) s) :
    Program.Ensures E (fun a => P a.status) (route r content) s := by
  have notFound : P 404 s := away 404 (by decide)
  unfold route
  cases hp : Route.ofPath? r.path with
  | none => exact notFound
  | some found =>
    by_cases ha : found.accepts r.method = true
    · simp only [ha, if_true]
      exact hf found hp
    · simp only [ha, Bool.false_eq_true, if_false]
      exact notFound

namespace Application

theorem packed_status (r : Request) (response : Response) :
    (packed r response).status = response.status := by
  unfold packed
  grind [Response.addHeader]

theorem ensures_guarded {key : Option String} {r : Request} {content : Option Bytes}
    (away : ∀ n ∈ turnedAway, P n s)
    (hr : Program.Ensures E (fun a => P a.status) (route r content) s) :
    Program.Ensures E (fun a => P a.status) (guarded key r content) s := by
  unfold guarded
  cases key with
  | none => exact hr
  | some key =>
    have signs : Program.Ensures E (fun a => P a.status) (signed key r content) s := by
      rw [signed, Program.ensures_bind]
      exact hr
    by_cases hp : r.path = "/"
    · simp only [hp, if_true]
      exact signs
    · simp only [hp, if_false]
      cases r.text? Signature.header with
      | none => exact away 400 (by decide)
      | some signature =>
        cases hb : readBody content with
        | error u => exact away _ u.status_mem
        | ok body =>
          by_cases hv : Signature.verify key body signature = true
          · simp only [hv, if_true]
            exact readBody_eq_ok hb ▸ signs
          · simp only [hv, Bool.false_eq_true, if_false]
            exact away 400 (by decide)

theorem ensures_unpacked {key : Option String} {r : Request} (away : ∀ n ∈ turnedAway, P n s)
    (hr : Program.Ensures E (fun a => P a.status) (route r (contentOf? r)) s) :
    Program.Ensures E (fun a => P a.status) (unpacked key r) s := by
  have inner (content : Option Bytes) (hc : contentOf? r = content) :
      Program.Ensures E (fun a => P a.status)
        (do return packed r (← guarded key r content)) s := by
    rw [Program.ensures_bind]
    refine (ensures_guarded away (hc ▸ hr)).mono fun response t h => ?_
    rw [Program.ensures_pure, packed_status]
    exact h
  unfold unpacked unpackedBy
  cases hv : r.value? "content-encoding" with
  | none => exact inner _ (by simp [contentOf?, contentBy?, hv])
  | some coding =>
    by_cases hg : coding = Utf8.encode "gzip"
    · simp only [hg, if_true]
      exact inner _ (by simp [contentOf?, contentBy?, hv, hg])
    · by_cases hi : coding = Utf8.encode "identity"
      · simp only [if_neg hg, if_pos hi]
        exact inner _ (by simp only [contentOf?, contentBy?, hv, if_neg hg, if_pos hi])
      · simp only [hg, hi, if_false]
        exact away 415 (by decide)

theorem ensures_logged {key : Option String} {r : Request} (away : ∀ n ∈ turnedAway, P n s)
    (hr : Program.Ensures E (fun a => P a.status) (route r (contentOf? r)) s) :
    Program.Ensures E (fun a => P a.status) (logged key r) s := by
  have proceed : Program.Ensures E (fun a => P a.status) (do
      let response ← unpacked key r
      Work.report (responseEvent response)
      return traced response) s := by
    rw [Program.ensures_bind]
    exact (ensures_unpacked away hr).mono fun _ _ h => h
  unfold logged loggedBy
  by_cases hread : isReadableRequest r = true
  · simp only [hread, Bool.not_true, Bool.false_eq_true, if_false]
    cases readBody (some r.body.sent) with
    | error u => exact away _ u.status_mem
    | ok bytes => exact proceed
  · simp only [hread, Bool.not_false, if_true]
    exact proceed

theorem ensures_handle {key : Option String} {r : Request} (away : ∀ n ∈ turnedAway, P n s)
    (hr : Program.Ensures E (fun a => P a.status) (route r (contentOf? r)) s) :
    Program.Ensures E (fun a => P a.status) (handle key r) s := by
  rw [handle, handleBy, Program.ensures_bind]
  refine (ensures_logged away hr).mono fun response t h => ?_
  rw [Program.ensures_pure]
  by_cases hm : r.method = "HEAD"
  · simp only [hm, if_true]
    exact h
  · simp only [hm, if_false]
    exact h

end Application

end Telemetry.Server
