import Telemetry.Proofs.Server.Admission
import Telemetry.Proofs.Server.Outcomes
/-!
Requests one after another on a server that has a key. Those whose signature does not fit are answered
without a call of the storage, and at "/" the storage is only listed. So whoever does not have the key
cannot change what is stored, nor what anybody else is answered.
-/

namespace Telemetry

theorem Store.perform_getAll (s : Store) : (s.perform .getAll).2 = s := by
  cases s with
  | mk engine files => cases engine <;> rfl

namespace Server

open Http Application

def serve (key : Option String) (s : Store) : List Request → List (Request × Response) × Store
  | [] => ([], s)
  | r :: rest =>
    let (a, s, _) := (handle key r).run s
    let (answered, s) := serve key s rest
    ((r, a) :: answered, s)

variable {key : String} {r : Request} {s : Store}

theorem store_of_not_reaches (h : ¬Reaches key r) (s : Store) :
    ((handle (some key) r).run s).2.1 = s :=
  ((handle_of_not_reaches h).runFrom Store.perform [] s).2

theorem ensures_page_unchanged :
    Program.Ensures (.alone Store.perform) (fun _ t => t = s) Handler.page.answer s := by
  apply Handler.ensures_answer
  simp only [Handler.page, Handler.ensures_bind, Handler.ensures_perform]
  rintro u rfl r v hv
  obtain rfl : v = u := (congrArg Prod.snd hv).symm.trans (Store.perform_getAll u)
  cases r with
  | error e => rfl
  | ok l => rfl

theorem store_of_root (key : Option String) (hp : r.path = "/") (s : Store) :
    ((handle key r).run s).2.1 = s := by
  have rooted : Route.ofPath? "/" = some .page := by decide
  have unchanged : Program.Ensures (.alone Store.perform) (fun _ t => t = s) (handle key r) s := by
    apply ensures_handle (P := fun _ t => t = s) fun _ _ => rfl
    apply ensures_route (P := fun _ t => t = s) fun _ _ => rfl
    intro found hf
    rw [hp, rooted] at hf
    obtain rfl := Option.some.inj hf
    exact ensures_page_unchanged
  exact Program.ensures_alone_iff.mp unchanged

theorem serve_filter {k : Option String} {keep : Request → Bool}
    (h : ∀ r, keep r = false → ∀ s : Store, ((handle k r).run s).2.1 = s) (s : Store)
    (rs : List Request) : serve k s (rs.filter keep) =
      ((serve k s rs).1.filter fun x => keep x.1, (serve k s rs).2) := by
  induction rs generalizing s with
  | nil => rfl
  | cons r rs ih =>
    by_cases hk : keep r = true
    · rw [List.filter_cons_of_pos hk]
      simp only [serve]
      rw [ih]
      simp [hk]
    · -- The request is left out on one side; on the other the storage is as before.
      have same := h r (by simpa using hk) s
      rw [List.filter_cons_of_neg hk]
      simp only [serve]
      rw [same, ih]
      simp [hk]

/-- With a key, a request for another path than "/" reaches the routes only with the bytes that its
signature fits; without such bytes it is refused and nothing is called. At "/" nothing is changed. So
any requests whose signature does not fit may be left out of a sequence: what is stored in the end and
the answers to all others are the same. -/
theorem unverified_requests_leave_no_trace (hk : key ≠ "") :
    (∀ r : Request, r.path ≠ "/" →
      (∀ body, Verifies key r body → ∃ e, handle (Signature.keyOf (some key)) r =
        delivered r <$> (do
          Work.report e
          outward key r (route r (some body)))) ∧
      ((∀ body, ¬Verifies key r body) →
        (handle (Signature.keyOf (some key)) r).Immediate (fun a => 400 ≤ a.status ∧ a.status < 500) ∧
        ∀ s : Store, ((handle (Signature.keyOf (some key)) r).run s).2.1 = s)) ∧
    (∀ r : Request, r.path = "/" → ∀ s : Store,
      ((handle (Signature.keyOf (some key)) r).run s).2.1 = s) ∧
    ∀ keep : Request → Bool,
      (∀ r, keep r = false → r.path ≠ "/" ∧ ∀ body, ¬Verifies key r body) →
      ∀ (s : Store) (rs : List Request), serve (Signature.keyOf (some key)) s (rs.filter keep) =
        ((serve (Signature.keyOf (some key)) s rs).1.filter fun x => keep x.1,
          (serve (Signature.keyOf (some key)) s rs).2) := by
  have hkey : Signature.keyOf (some key) = some key := by simp [Signature.keyOf, hk]
  have closed {r : Request} (hp : r.path ≠ "/") (hv : ∀ body, ¬Verifies key r body) :
      ¬Reaches key r := by
    rw [reaches_iff_of_ne hp]
    rintro ⟨body, h⟩
    exact hv body h
  rw [hkey]
  refine ⟨fun r hp => ⟨fun body hb => ?_, fun hv => ⟨?_, ?_⟩⟩, fun r hp => ?_, fun keep hkeep => ?_⟩
  · obtain ⟨e, he⟩ := logged_of_reaches hb.reaches
    exact ⟨e, by rw [handle_eq, he, hb.content]⟩
  · exact (handle_of_not_reaches (closed hp hv)).mono fun a ha => ha.status
  · exact store_of_not_reaches (closed hp hv)
  · exact store_of_root (some key) hp
  · apply serve_filter
    intro r hr
    obtain ⟨hp, hv⟩ := hkeep r hr
    exact store_of_not_reaches (closed hp hv)

def unsignedUpdate : Request := ⟨"POST", "/update/counter/PollCount/5", [], .raw []⟩

def pageRequest : Request := ⟨"GET", "/", [], .raw []⟩

theorem unsignedUpdate_leaves_no_trace : "secret" ≠ "" ∧ unsignedUpdate.path ≠ "/" ∧
    (∀ body, ¬Verifies "secret" unsignedUpdate body) ∧
    (handle (Signature.keyOf (some "secret")) unsignedUpdate).Immediate
      (fun a => 400 ≤ a.status ∧ a.status < 500) ∧
    ∀ s : Store, serve (Signature.keyOf (some "secret")) s [pageRequest] =
      ((serve (Signature.keyOf (some "secret")) s [unsignedUpdate, pageRequest]).1.filter
          fun x => (x.1.text? Signature.header).isSome || x.1.path = "/",
        (serve (Signature.keyOf (some "secret")) s [unsignedUpdate, pageRequest]).2) := by
  have key : "secret" ≠ "" := by decide
  have path : unsignedUpdate.path ≠ "/" := by decide
  have unsigned {r : Request} (h : r.text? Signature.header = none) (body : Bytes) :
      ¬Verifies "secret" r body := by
    rintro ⟨signature, hs, -⟩
    rw [h] at hs
    cases hs
  have absent : unsignedUpdate.text? Signature.header = none := by decide
  obtain ⟨single, -, without⟩ := unverified_requests_leave_no_trace key
  refine ⟨key, path, unsigned absent, ((single _ path).2 (unsigned absent)).1, fun s => ?_⟩
  refine without (fun r => (r.text? Signature.header).isSome || r.path = "/") ?_ s
    [unsignedUpdate, pageRequest]
  intro r hr
  simp only [Bool.or_eq_false_iff, decide_eq_false_iff_not] at hr
  exact ⟨hr.2, unsigned (by simpa using hr.1)⟩

end Server

end Telemetry
