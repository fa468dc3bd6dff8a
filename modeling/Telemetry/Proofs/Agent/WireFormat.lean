import Telemetry.Proofs.Agent.Posting
/-!
Metrics on their way from a client to a server. Every request for a batch has the same body, and the
server finds in it the metrics that were sent, in their order. Only the value of a gauge may come over
as another: it is what the reader of numbers makes of its text.
-/

namespace Telemetry

namespace Metric

open Json

variable {m : Metric}

def numberRead? (x : Binary64) : Option Binary64 :=
  (Value.read? (Value.ofBinary64 x).bytes).bind Value.binary64?

/-- All parts are as they were sent, but a value is what is read from its text. -/
structure ComesAs (sent got : Metric) : Prop where
  id : got.id = sent.id
  type : got.type = sent.type
  delta : got.delta = sent.delta
  value : Option.Rel (fun x y => numberRead? x = some y) sent.value got.value

def HasFiniteValue (m : Metric) : Prop := ∀ x, m.value = some x → x.isFinite = true

theorem numberRead?_eq {x : Binary64} (hf : x.isFinite = true) : numberRead? x = some x.reread := by
  obtain ⟨spelled, read⟩ := binary64?_ofBinary64 hf
  rw [numberRead?, Value.read?_bytes spelled, Option.bind_some, read]

theorem comesAs_reread (finite : m.HasFiniteValue) : m.ComesAs m.reread := by
  refine ⟨rfl, rfl, rfl, ?_⟩
  show Option.Rel _ m.value (m.value.bind _)
  cases hx : m.value with
  | none => exact .none
  | some x =>
    rw [Option.bind_some, if_pos (finite x hx)]
    exact .some (numberRead?_eq (finite x hx))

end Metric

namespace Agent.Client

open Http Server

def repeating (url : String) (r : Request) : Protocol Action.Reply Unit where
  Allows _ a := match a with
    | .post target sent => target = url ∧ sent = r
    | .pause _ => True
    | _ => False
  after _ _ _ := ()

/-- However a batch is sent, it is sent as this JSON text: it is packed in the first request, and in
all that follow when that fails. -/
structure SendsAs (c : Client) (ms : List Metric) (json : Bytes) : Prop where
  first : (c.sendBatch ms).nextCall? = some (.post c.url (c.request json))
  repeated : (c.sendBatch ms).Follows (repeating c.url (c.request json)) (fun _ _ => True) ()
  content : contentOf? (c.request json) = some json
  typed : Handler.SaysJson (c.request json)

theorem immediate_accept (c : Client) (a : Response) : (c.accept a).Immediate fun _ => True := by
  unfold accept
  by_cases refused : a.status < 200 ∨ 300 ≤ a.status
  · rw [if_pos refused]
    exact trivial
  · rw [if_neg refused]
    by_cases mistrusted : c.mistrusts a = true <;>
      cases Metric.readList? a.body.content <;> simp [mistrusted, Work.report]

theorem sendsAs (c : Client) (ms : List Metric) : c.SendsAs ms (Metric.listJson ms).bytes where
  first := by
    rw [sendBatch, Retry.loop]
    exact Program.nextCall?_bind rfl _
  repeated := by
    have pauses (n : Nat) (e : ClientError) (d : Duration) :
        (pause n e d).run.Follows (repeating c.url (c.request (Metric.listJson ms).bytes))
          (fun _ t => t = ()) () :=
      ⟨trivial, fun _ => rfl⟩
    rw [sendBatch, Program.follows_bind]
    refine (Retry.follows_loop (Q := fun _ => True) ?_ pauses 1 c.backoff).mono ?_
    · rw [post, OptionT.run_bind, Option.elimM, Program.follows_bind]
      refine ⟨⟨rfl, rfl⟩, fun reply => ?_⟩
      rcases reply with _ | _ | a
      · exact rfl
      · exact rfl
      · show (some <$> c.accept a).Follows _ _ _
        rw [Program.follows_map]
        refine ((immediate_accept c a).follows _ ()).mono ?_
        rintro (e | stored) _ -
        · exact rfl
        · exact trivial
    · rintro (late | result) _ -
      · exact trivial
      · exact trivial
  content := contentOf?_request c _
  typed := saysJson_request c _

/-- A batch of finite values is sent as a JSON text from which the server reads the same metrics. -/
theorem wire_keeps_metrics (c : Client) {ms : List Metric} (finite : ∀ m ∈ ms, m.HasFiniteValue) :
    ∃ json got, c.SendsAs ms json ∧
      (∀ r, Handler.SaysJson r → Handler.readJson Metric.readList? r json = pure got) ∧
      List.Forall₂ Metric.ComesAs ms got := by
  refine ⟨_, ms.map Metric.reread, c.sendsAs ms, ?_, ?_⟩
  · exact fun r typed => Handler.readJson_eq typed (Metric.readList?_listJson ms)
  · rw [List.forall₂_map_right_iff, List.forall₂_same]
    exact fun m hm => Metric.comesAs_reread (finite m hm)

/-- Texts that need escapes, both ends of the counts, and a value that comes over as another. -/
def awkward : List Metric :=
  [⟨"\"\\/\x00\t\n\x1f\x7fé😀", "", Count.ofInt? (-9223372036854775808), none⟩,
    ⟨"", "gäuge\r ", Count.ofInt? 9223372036854775807, some ⟨0x3FEFBC1DCF1EB125⟩⟩,
    ⟨" ", "counter", none, some ⟨0x8000000000000000⟩⟩, ⟨"x", "gauge", none, none⟩]

theorem awkward_metrics_come_over : (∀ m ∈ awkward, m.HasFiniteValue) ∧
    ∃ json got, SendsAs ⟨"http://localhost:8080/updates", some "key", .standard, 10⟩ awkward json ∧
      (∀ r, Handler.SaysJson r → Handler.readJson Metric.readList? r json = pure got) ∧
      List.Forall₂ Metric.ComesAs awkward got := by
  have finite : ∀ m ∈ awkward, m.HasFiniteValue := by
    simp [awkward, Metric.HasFiniteValue]
    decide
  exact ⟨finite, wire_keeps_metrics _ finite⟩

end Agent.Client

end Telemetry
