import Telemetry.Proofs.Deflate.Limit
import Telemetry.Proofs.Server.ListAnswers
/-!
The limit on bodies, for the routes that read JSON. Who reads a body depends on the headers: the log,
the check of the signature or the handler, and two of these read it unpacked, as much of it as the decoder
hands out. Whoever it is, a body over the limit is refused before anything is verified or stored, and no
other body is refused as too long.
-/

namespace Telemetry

namespace Http

/-- What a decoder finds in a body that is a well-formed gzip stream, whatever its length. -/
inductive Body.Packs (extent : Gzip.Extent) : Body → Bytes → Prop
  | stream {bytes : Bytes} {contents : List Bytes} (members : Gzip.Members bytes contents) :
    Packs extent (.raw bytes) (extent.join contents)
  | known (content : Bytes) : Packs extent (.gzip content) content

/-- The body of a request is plain, or a well-formed gzip stream that is said to be one. Once it is
unpacked it is `content`. -/
inductive Request.Conveys (r : Request) (extent : Gzip.Extent) (content : Bytes) : Prop
  | plain (coding : r.value? "content-encoding" = none ∨
      r.value? "content-encoding" = some (Utf8.encode "identity")) (body : r.body = .raw content)
  | packed (coding : r.value? "content-encoding" = some (Utf8.encode "gzip"))
      (body : r.body.Packs extent content)

theorem Body.Packs.unpacked? {extent : Gzip.Extent} {body : Body} {content : Bytes}
    (h : body.Packs extent content) (limit : Nat) :
    (content.length ≤ limit → body.unpacked? extent limit = some content) ∧
      (limit < content.length → ∃ cut, body.unpacked? extent limit = some cut ∧ limit < cut.length) := by
  cases h with
  | known => exact ⟨fun _ => rfl, fun long => ⟨content, rfl, long⟩⟩
  | stream members => exact Gzip.content?_of_members members extent limit

end Http

namespace Server

open Http

variable {σ : Type} {E : Surroundings Call.Reply σ} {s : σ} {r : Request} {content : Bytes}
  {k : Option String} {body? : Option Bytes} {extent : Gzip.Extent}

theorem contentBy?_packed (coding : r.value? "content-encoding" = some (Utf8.encode "gzip")) :
    contentBy? extent r = r.body.unpacked? extent bodyLimit := by
  rw [contentBy?, coding]
  exact if_pos rfl

theorem contentBy?_plain (coding : r.value? "content-encoding" = none ∨
    r.value? "content-encoding" = some (Utf8.encode "identity")) :
    contentBy? extent r = some r.body.sent := by
  have other : Utf8.encode "identity" ≠ Utf8.encode "gzip" := by decide +kernel
  rcases coding with coding | coding
  · rw [contentBy?, coding]
  · rw [contentBy?, coding]
    simp only [if_neg other, if_true]

theorem readBody_of_conveys (h : r.Conveys extent content) : readBody (contentBy? extent r) =
    if bodyLimit < content.length then .error .tooLong else .ok content := by
  cases h with
  | plain coding body =>
    rw [contentBy?_plain coding, body]
    rfl
  | packed coding body =>
    obtain ⟨within, beyond⟩ := body.unpacked? bodyLimit
    rw [contentBy?_packed coding]
    by_cases long : bodyLimit < content.length
    · obtain ⟨cut, stopped, size⟩ := beyond long
      rw [stopped, readBody, if_pos size, if_pos long]
    · rw [within (by omega), readBody, if_neg long]

namespace Application

theorem knownCoding_of_conveys (h : r.Conveys extent content) : KnownCoding r := by
  intro sent hs
  cases h with
  | plain coding =>
    rcases coding with coding | coding
    · cases coding.symm.trans hs
    · exact .inr (Option.some.inj (hs.symm.trans coding))
  | packed coding => exact .inl (Option.some.inj (hs.symm.trans coding))

/-- A body that is read for the log is not packed. -/
theorem tooLongToShow_iff (h : r.Conveys extent content) :
    TooLongToShow r ↔ isReadableRequest r = true ∧ bodyLimit < content.length := by
  refine and_congr_right fun readable => ?_
  have uncoded : r.value? "content-encoding" = none := by
    simp only [isReadableRequest, Bool.and_eq_true, decide_eq_true_eq] at readable
    exact readable.1
  cases h with
  | plain coding body => rw [body, Body.sent]
  | packed coding => cases coding.symm.trans uncoded

theorem handleBy_of_shown (extent : Gzip.Extent) (shown : ¬TooLongToShow r)
    (coding : KnownCoding r) : ∃ e, handleBy extent k r = (do
      Work.report e
      let a ← guarded k r (contentBy? extent r)
      Work.report (responseEvent (packed r a))
      return delivered r (traced (packed r a))) := by
  obtain ⟨e, he⟩ := loggedBy_of_shown extent (k := k) shown
  refine ⟨e, ?_⟩
  rw [handleBy_eq, he, unpackedBy_of_known extent coding]
  simp only [map_bind, map_pure, bind_assoc, pure_bind]

theorem delivered_traced_packed_status (r : Request) (a : Response) :
    (delivered r (traced (packed r a))).status = a.status := by
  rw [delivered_status]
  exact packed_status r a

end Application

namespace Handler

theorem status_ne_of_refusal_tooLong (e : Refusal) : e.status ≠ 413 := by
  cases e with
  | storage e => cases e <;> simp [Refusal.status]
  | _ => simp [Refusal.status]

theorem AnswersJson.status_ne {h : Handler Response} (hj : AnswersJson E h s) :
    Program.Ensures E (fun a _ => a.status ≠ 413) h.answer s := by
  refine ensures_answer (P := fun a _ => a.status ≠ 413) (hj.mono ?_ ?_)
  · exact fun e _ _ => status_ne_of_refusal_tooLong e
  · rintro _ _ ⟨bytes, rfl⟩
    exact (by decide : 200 ≠ 413)

end Handler

structure ReadsJson (r : Request) : Prop where
  method : r.method = "POST"
  path : r.path ∈ ["/update", "/value", "/updates"]

theorem ReadsJson.route_eq (h : ReadsJson r) : ∃ handler : Bytes → Handler Response,
    (∀ content, route r content = withBody content handler) ∧
    ∀ {σ : Type} (E : Surroundings Call.Reply σ) (s : σ) (body : Bytes),
      Handler.AnswersJson E (handler body) s := by
  obtain ⟨method, path⟩ := h
  simp only [List.mem_cons, List.not_mem_nil, or_false] at path
  rcases path with path | path | path
  · exact ⟨_, fun _ => route_update method path, fun _ _ => Handler.updateJson_answersJson r⟩
  · exact ⟨_, fun _ => route_value method path, fun _ _ => Handler.valueJson_answersJson r⟩
  · exact ⟨_, fun _ => route_updates method path, fun _ _ => Handler.updateBatch_answersJson r⟩

theorem ReadsJson.not_root (h : ReadsJson r) : r.path ≠ "/" := by
  intro root
  have path := root ▸ h.path
  revert path
  decide

namespace Application

/-- The signature is missed before anybody reads the body. -/
def MissesSignature (k : Option String) (r : Request) : Prop :=
  k ≠ none ∧ r.text? Signature.header = none ∧ isReadableRequest r = false

instance (k : Option String) (r : Request) : Decidable (MissesSignature k r) :=
  inferInstanceAs (Decidable (_ ∧ _ ∧ _))

theorem guarded_of_tooLong (json : ReadsJson r) (unread : isReadableRequest r = false)
    (long : readBody body? = .error .tooLong) :
    (guarded k r body?).Immediate fun a => a.status = if MissesSignature k r then 400 else 413 := by
  cases k with
  | none =>
    obtain ⟨handler, routed, -⟩ := json.route_eq
    rw [guarded, routed, withBody, long, if_neg fun missed => missed.1 rfl]
    exact rfl
  | some key =>
    rw [guarded, if_neg json.not_root]
    cases hs : r.text? Signature.header with
    | none =>
      rw [if_pos ⟨by simp, hs, unread⟩]
      exact rfl
    | some signature =>
      have present : ¬MissesSignature (some key) r := by simp [MissesSignature, hs]
      rw [long, if_neg present]
      exact rfl

theorem guarded_of_read (json : ReadsJson r) (read : readBody body? = .ok content) :
    Program.Ensures E (fun a _ => a.status ≠ 413) (guarded k r body?) s := by
  have routed (body? : Option Bytes) (read : readBody body? = .ok content) :
      Program.Ensures E (fun a _ => a.status ≠ 413) (route r body?) s := by
    obtain ⟨handler, routed, answers⟩ := json.route_eq
    rw [routed, withBody, read]
    exact (answers E s content).status_ne
  cases k with
  | none => exact routed body? read
  | some key =>
    have refused : (400 : Nat) ≠ 413 := by decide
    rw [guarded, if_neg json.not_root]
    cases r.text? Signature.header with
    | none => exact refused
    | some signature =>
      rw [read]
      dsimp only
      split
      · rw [signed, Program.ensures_bind]
        exact routed _ (readBody_eq_ok read ▸ read)
      · exact refused

theorem handleBy_of_tooLong (json : ReadsJson r) (conveys : r.Conveys extent content)
    (long : bodyLimit < content.length) :
    (handleBy extent k r).Immediate fun a => a.status = if MissesSignature k r then 400 else 413 := by
  cases read : isReadableRequest r with
  | true =>
    -- The body is plain, so the log has it in full.
    have heard : ¬MissesSignature k r := by simp [MissesSignature, read]
    obtain ⟨e, he⟩ := loggedBy_of_tooLong extent (k := k) ((tooLongToShow_iff conveys).mpr ⟨read, long⟩)
    rw [handleBy_eq, he, Program.immediate_map, if_neg heard]
    exact delivered_status r _
  | false =>
    have shown : ¬TooLongToShow r := by simp [TooLongToShow, read]
    have unread : readBody (contentBy? extent r) = .error .tooLong := by
      rw [readBody_of_conveys conveys, if_pos long]
    obtain ⟨e, he⟩ := handleBy_of_shown extent (k := k) shown (knownCoding_of_conveys conveys)
    rw [he]
    simp only [Program.immediate_bind, Work.report, Program.immediate_report,
      Program.immediate_pure, delivered_traced_packed_status]
    exact guarded_of_tooLong json read unread

theorem handleBy_of_short (json : ReadsJson r) (conveys : r.Conveys extent content)
    (short : content.length ≤ bodyLimit) :
    Program.Ensures E (fun a _ => a.status ≠ 413) (handleBy extent k r) s := by
  have shown : ¬TooLongToShow r := fun long => by
    have := ((tooLongToShow_iff conveys).mp long).2
    omega
  have read : readBody (contentBy? extent r) = .ok content := by
    rw [readBody_of_conveys conveys, if_neg (by omega)]
  obtain ⟨e, he⟩ := handleBy_of_shown extent (k := k) shown (knownCoding_of_conveys conveys)
  rw [he]
  simp only [Program.ensures_bind, Work.report, Program.ensures_report, Program.ensures_pure,
    delivered_traced_packed_status]
  exact guarded_of_read json read

/-- On every route that reads JSON, with and without a key, a body that is over the limit once it is
unpacked is refused with 413, or with 400 if the signature is missed before the body is read; in both
cases the storage stays as it is, whether or not the signature fits. No other body is answered 413. That
holds of decoders that read one member of a body and of those that read all of them. -/
theorem limit_holds_for_json (extent : Gzip.Extent) (setting : Option String) (json : ReadsJson r)
    (conveys : r.Conveys extent content) (s : Store) :
    let answered := (handleBy extent (Signature.keyOf setting) r).run s
    (bodyLimit < content.length → answered.2.1 = s ∧ answered.1.status =
      if MissesSignature (Signature.keyOf setting) r then 400 else 413) ∧
    (content.length ≤ bodyLimit → answered.1.status ≠ 413) := by
  intro answered
  constructor
  · intro long
    obtain ⟨status, kept⟩ := (handleBy_of_tooLong json conveys long).runFrom Store.perform [] s
    exact ⟨kept, status⟩
  · intro short
    exact Program.ensures_alone_iff.mp (handleBy_of_short (E := .alone Store.perform) json conveys short)

def longList (headers : List (String × Bytes)) : Request :=
  ⟨"POST", "/updates", ("content-encoding", Utf8.encode "gzip") :: headers,
    .gzip (List.replicate (bodyLimit + 1) 0x20)⟩

/-- With a wrong signature it is refused for its length, and without one for that. -/
theorem longList_refused :
    let wrong := longList [(Signature.header, Utf8.encode "0")]
    let unsigned := longList []
    (ReadsJson wrong ∧ wrong.Conveys .first (List.replicate (bodyLimit + 1) 0x20)) ∧
      (ReadsJson unsigned ∧ unsigned.Conveys .first (List.replicate (bodyLimit + 1) 0x20)) ∧
      ∀ s : Store, ((handle (Signature.keyOf (some "secret")) wrong).run s).2.1 = s ∧
        ((handle (Signature.keyOf (some "secret")) wrong).run s).1.status = 413 ∧
        ((handle (Signature.keyOf (some "secret")) unsigned).run s).2.1 = s ∧
        ((handle (Signature.keyOf (some "secret")) unsigned).run s).1.status = 400 := by
  intro wrong unsigned
  have wrongReads : ReadsJson wrong := ⟨rfl, by decide⟩
  have unsignedReads : ReadsJson unsigned := ⟨rfl, by decide⟩
  have wrongConveys : wrong.Conveys .first (List.replicate (bodyLimit + 1) 0x20) :=
    .packed (by decide +kernel) (.known _)
  have unsignedConveys : unsigned.Conveys .first (List.replicate (bodyLimit + 1) 0x20) :=
    .packed (by decide +kernel) (.known _)
  have long : bodyLimit < (List.replicate (bodyLimit + 1) (0x20 : UInt8)).length := by
    rw [List.length_replicate]
    exact Nat.lt_succ_self bodyLimit
  have heard : ¬MissesSignature (Signature.keyOf (some "secret")) wrong := by decide +kernel
  have missed : MissesSignature (Signature.keyOf (some "secret")) unsigned := by decide +kernel
  refine ⟨⟨wrongReads, wrongConveys⟩, ⟨unsignedReads, unsignedConveys⟩, fun s => ?_⟩
  obtain ⟨kept, status⟩ :=
    (limit_holds_for_json .first (some "secret") wrongReads wrongConveys s).1 long
  obtain ⟨kept', status'⟩ :=
    (limit_holds_for_json .first (some "secret") unsignedReads unsignedConveys s).1 long
  rw [if_neg heard] at status
  rw [if_pos missed] at status'
  unfold handle
  exact ⟨kept, status, kept', status'⟩

end Application

end Server

end Telemetry
