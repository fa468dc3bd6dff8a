import Telemetry.Proofs.Server.Layers
import Telemetry.Proofs.Signature
/-!
Which requests reach the routes of a server that has a key. A request whose signature does not fit its
body is answered by the layers around the routes without a call of the storage, so leaving such
requests out changes neither the storage nor any other answer.
-/

namespace Telemetry.Server

open Http

namespace Application

/-- The body is read for the log, and too long for that. -/
def TooLongToShow (r : Request) : Prop :=
  isReadableRequest r = true ∧ bodyLimit < r.body.sent.length

def KnownCoding (r : Request) : Prop :=
  ∀ coding, r.value? "content-encoding" = some coding →
    coding = Utf8.encode "gzip" ∨ coding = Utf8.encode "identity"

/-- What the request holds after unpacking is `body`, and its header is a signature of that. -/
def Verifies (key : String) (r : Request) (body : Bytes) : Prop :=
  ∃ signature, r.text? Signature.header = some signature ∧
    readBody (contentOf? r) = .ok body ∧ Signature.verify key body signature = true

structure Reaches (key : String) (r : Request) : Prop where
  shown : ¬TooLongToShow r
  coding : KnownCoding r
  allowed : r.path = "/" ∨ ∃ body, Verifies key r body

def outward (key : String) (r : Request) (w : Work Response) : Work Response := do
  let response := packed r (signResponse key (← w))
  Work.report (responseEvent response)
  return traced response

/-- For the method HEAD the body is left out in the end. -/
def delivered (r : Request) (a : Response) : Response :=
  if r.method = "HEAD" then { a with body := .raw [] } else a

def Rejection (a : Response) : Prop :=
  a.status ∈ [400, 413, 415] ∧ a.header? Signature.header = none

variable {key : String} {r : Request} {body : Bytes}

theorem Verifies.content (h : Verifies key r body) : contentOf? r = some body := by
  obtain ⟨_, -, hb, -⟩ := h
  exact readBody_eq_ok hb

/-- Elsewhere than at "/" the signature alone decides. -/
theorem Verifies.reaches (h : Verifies key r body) : Reaches key r := by
  have content := h.content
  constructor
  · rintro ⟨hread, hlong⟩
    have plain : r.value? "content-encoding" = none := by
      simp only [isReadableRequest, Bool.and_eq_true, decide_eq_true_eq] at hread
      exact hread.1
    obtain ⟨_, -, hb, -⟩ := h
    rw [contentOf?, contentBy?, plain] at hb
    simp [readBody, hlong] at hb
  · intro coding hc
    by_contra hno
    obtain ⟨hg, hi⟩ := not_or.mp hno
    rw [contentOf?, contentBy?, hc] at content
    simp [hg, hi] at content
  · exact .inr ⟨body, h⟩

theorem reaches_iff_of_ne (hp : r.path ≠ "/") : Reaches key r ↔ ∃ body, Verifies key r body := by
  constructor
  · intro h
    exact h.allowed.resolve_left hp
  · rintro ⟨body, h⟩
    exact h.reaches

/-! ### The layers one by one -/

theorem guarded_of_allowed (h : r.path = "/" ∨ ∃ body, Verifies key r body) :
    guarded (some key) r (contentOf? r) = signed key r (contentOf? r) := by
  by_cases hp : r.path = "/"
  · simp only [guarded, hp, if_true]
  · obtain ⟨body, hv⟩ := h.resolve_left hp
    have content := hv.content
    obtain ⟨signature, hs, hb, hv⟩ := hv
    simp only [guarded, if_neg hp, hs, hb, hv, if_true]
    rw [content]

theorem guarded_of_not_allowed (h : ¬(r.path = "/" ∨ ∃ body, Verifies key r body)) :
    (guarded (some key) r (contentOf? r)).Immediate Rejection := by
  obtain ⟨hp, hv⟩ := not_or.mp h
  simp only [guarded, if_neg hp]
  cases hs : r.text? Signature.header with
  | none => exact ⟨by decide, by decide⟩
  | some signature =>
    cases hb : readBody (contentOf? r) with
    | error u =>
      cases u
      · exact ⟨by decide, by decide⟩
      · exact ⟨by decide, by decide⟩
    | ok body =>
      have bad : ¬Signature.verify key body signature = true := fun hok =>
        hv ⟨body, signature, hs, hb, hok⟩
      simp only [if_neg bad]
      exact ⟨by decide, by decide⟩

theorem unpackedBy_of_known (extent : Gzip.Extent) {k : Option String} (h : KnownCoding r) :
    unpackedBy extent k r = (do return packed r (← guarded k r (contentBy? extent r))) := by
  unfold unpackedBy contentBy?
  cases hc : r.value? "content-encoding" with
  | none => rfl
  | some coding =>
    by_cases hg : coding = Utf8.encode "gzip"
    · simp only [hg, if_true]
    · have hi := (h coding hc).resolve_left hg
      simp only [if_neg hg, if_pos hi]

theorem unpacked_of_known {k : Option String} (h : KnownCoding r) :
    unpacked k r = (do return packed r (← guarded k r (contentOf? r))) := unpackedBy_of_known .first h

theorem unpacked_of_unknown {k : Option String} (h : ¬KnownCoding r) :
    unpacked k r = pure unsupportedEncoding := by
  unfold unpacked unpackedBy
  cases hc : r.value? "content-encoding" with
  | none => exact absurd (fun coding hs => by rw [hc] at hs; cases hs) h
  | some coding =>
    have unknown : ¬(coding = Utf8.encode "gzip" ∨ coding = Utf8.encode "identity") := by
      intro hk
      apply h
      intro other hs
      rw [hc] at hs
      exact Option.some.inj hs ▸ hk
    obtain ⟨hg, hi⟩ := not_or.mp unknown
    simp only [if_neg hg, if_neg hi]

theorem loggedBy_of_shown (extent : Gzip.Extent) {k : Option String} (h : ¬TooLongToShow r) :
    ∃ e, loggedBy extent k r = (do
      Work.report e
      let response ← unpackedBy extent k r
      Work.report (responseEvent response)
      return traced response) := by
  unfold loggedBy
  by_cases hread : isReadableRequest r = true
  · have short : ¬bodyLimit < r.body.sent.length := fun hl => h ⟨hread, hl⟩
    simp only [hread, readBody, if_neg short]
    exact ⟨_, rfl⟩
  · simp only [hread]
    exact ⟨_, rfl⟩

theorem logged_of_shown {k : Option String} (h : ¬TooLongToShow r) : ∃ e, logged k r = (do
    Work.report e
    let response ← unpacked k r
    Work.report (responseEvent response)
    return traced response) := loggedBy_of_shown .first h

theorem loggedBy_of_tooLong (extent : Gzip.Extent) {k : Option String} (h : TooLongToShow r) :
    ∃ e, loggedBy extent k r = (do Work.report e; return traced Unreadable.tooLong.response) := by
  obtain ⟨hread, hlong⟩ := h
  simp only [loggedBy, hread, readBody, if_pos hlong]
  exact ⟨_, rfl⟩

/-! ### Headers of the answer -/

theorem header?_addHeader (a : Response) (name value other : String) :
    (a.addHeader name value).header? other =
      (a.header? other).or (if name = other then some value else none) := by
  rw [Response.header?, Response.addHeader, List.lookup_append, NameMap.lookup_cons]
  rfl

theorem packed_header? (r : Request) (a : Response) :
    (packed r a).header? Signature.header = a.header? Signature.header := by
  have vary : (a.addHeader "vary" "accept-encoding").header? Signature.header =
      a.header? Signature.header := by
    rw [header?_addHeader, if_neg (by decide), Option.or_none]
  unfold packed
  by_cases hl : a.body.content.length < packingThreshold
  · rw [if_pos hl]
  · by_cases hg : prefersGzip r = true
    · simp only [hl, hg, if_true, if_false]
      show ((a.addHeader _ _).addHeader _ _).header? _ = _
      rw [header?_addHeader, if_neg (by decide), Option.or_none, vary]
    · simp only [hl, hg, if_false]
      exact vary

theorem traced_header? (a : Response) :
    (traced a).header? Signature.header = a.header? Signature.header := by
  rw [traced, header?_addHeader, if_neg (by decide), Option.or_none]

theorem packed_content (r : Request) (a : Response) :
    (packed r a).body.content = a.body.content := by
  unfold packed
  by_cases hl : a.body.content.length < packingThreshold
  · rw [if_pos hl]
  · by_cases hg : prefersGzip r = true
    · simp only [hl, hg, if_true, if_false]
      rfl
    · simp only [hl, hg, if_false]
      rfl

theorem Rejection.packed {a : Response} (h : Rejection a) : Rejection (packed r a) :=
  ⟨packed_status r a ▸ h.1, packed_header? r a ▸ h.2⟩

theorem Rejection.traced {a : Response} (h : Rejection a) : Rejection (traced a) :=
  ⟨h.1, traced_header? a ▸ h.2⟩

theorem Rejection.status {a : Response} (h : Rejection a) : 400 ≤ a.status ∧ a.status < 500 := by
  have known := h.1
  simp only [List.mem_cons, List.not_mem_nil, or_false] at known
  omega

theorem delivered_header? (r : Request) (a : Response) (name : String) :
    (delivered r a).header? name = a.header? name := by
  unfold delivered
  by_cases hm : r.method = "HEAD"
  · rw [if_pos hm]
    rfl
  · rw [if_neg hm]

theorem delivered_status (r : Request) (a : Response) : (delivered r a).status = a.status := by
  unfold delivered
  by_cases hm : r.method = "HEAD"
  · rw [if_pos hm]
  · rw [if_neg hm]

theorem Rejection.delivered {a : Response} (h : Rejection a) : Rejection (delivered r a) :=
  ⟨delivered_status r a ▸ h.1, delivered_header? r a _ ▸ h.2⟩

/-! ### All layers -/

theorem handleBy_eq (extent : Gzip.Extent) (k : Option String) (r : Request) :
    handleBy extent k r = delivered r <$> loggedBy extent k r := by
  rw [← bind_pure_comp]
  rfl

theorem handle_eq (k : Option String) (r : Request) : handle k r = delivered r <$> logged k r :=
  handleBy_eq .first k r

theorem logged_of_reaches (h : Reaches key r) : ∃ e, logged (some key) r = (do
    Work.report e
    outward key r (route r (contentOf? r))) := by
  obtain ⟨e, he⟩ := logged_of_shown h.shown
  refine ⟨e, ?_⟩
  rw [he, unpacked_of_known h.coding, guarded_of_allowed h.allowed]
  simp only [outward, signed, bind_assoc, pure_bind]

/-- What lets a request through to the routes, whether there is a key or not. -/
structure LetThrough (k : Option String) (r : Request) : Prop where
  shown : ¬TooLongToShow r
  coding : KnownCoding r
  allowed : ∀ key, k = some key → r.path = "/" ∨ ∃ body, Verifies key r body

theorem letThrough_iff_reaches : LetThrough (some key) r ↔ Reaches key r := by
  constructor
  · exact fun h => ⟨h.shown, h.coding, h.allowed key rfl⟩
  · exact fun h => ⟨h.shown, h.coding, fun other same => Option.some.inj same ▸ h.allowed⟩

theorem logged_of_not_letThrough {k : Option String} (h : ¬LetThrough k r) :
    (logged k r).Immediate Rejection := by
  by_cases hl : TooLongToShow r
  · obtain ⟨e, he⟩ := loggedBy_of_tooLong .first hl
    rw [logged, he]
    exact Rejection.traced ⟨by decide, by decide⟩
  obtain ⟨e, he⟩ := logged_of_shown hl
  rw [he]
  have away : (unpacked k r).Immediate Rejection := by
    by_cases hc : KnownCoding r
    · obtain ⟨key, rfl, closed⟩ : ∃ key, k = some key ∧ ¬(r.path = "/" ∨ ∃ body, Verifies key r body) := by
        by_contra allowed
        exact h ⟨hl, hc, fun key hk => by_contra fun closed => allowed ⟨key, hk, closed⟩⟩
      rw [unpacked_of_known hc, Program.immediate_bind]
      exact (guarded_of_not_allowed closed).mono fun a ha => ha.packed
    · rw [unpacked_of_unknown hc]
      exact ⟨by decide, by decide⟩
  show Program.Immediate Rejection (unpacked k r >>= _)
  rw [Program.immediate_bind]
  exact away.mono fun a ha => ha.traced

theorem handle_of_not_letThrough {k : Option String} (h : ¬LetThrough k r) :
    (handle k r).Immediate Rejection := by
  rw [handle_eq, Program.immediate_map]
  exact (logged_of_not_letThrough h).mono fun a ha => ha.delivered

theorem handle_of_not_reaches (h : ¬Reaches key r) : (handle (some key) r).Immediate Rejection :=
  handle_of_not_letThrough fun through => h (letThrough_iff_reaches.mp through)

theorem ensures_handle_of_letThrough {σ : Type} {E : Surroundings Call.Reply σ} {s : σ}
    {k : Option String} {P : Nat → Bytes → σ → Prop} (h : LetThrough k r) (method : r.method ≠ "HEAD")
    (hr : Program.Ensures E (fun a s => P a.status a.body.content s) (route r (contentOf? r)) s) :
    Program.Ensures E (fun a s => P a.status a.body.content s) (handle k r) s := by
  have passed : Program.Ensures E (fun a s => P a.status a.body.content s)
      (guarded k r (contentOf? r)) s := by
    cases k with
    | none => exact hr
    | some key =>
      rw [guarded_of_allowed (h.allowed key rfl), signed, Program.ensures_bind]
      exact hr
  obtain ⟨e, he⟩ := logged_of_shown (k := k) h.shown
  rw [handle_eq, Program.ensures_map, he, unpacked_of_known h.coding]
  simp only [Work.report, Program.ensures_bind, Program.ensures_report, Program.ensures_pure]
  refine passed.mono fun a t ha => ?_
  rw [delivered, if_neg method]
  show P (packed r a).status (packed r a).body.content t
  rw [packed_status, packed_content]
  exact ha

end Application

end Telemetry.Server
