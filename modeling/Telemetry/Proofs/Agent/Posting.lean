import Telemetry.Agent.Loopback
import Telemetry.Proofs.Agent.Reports
import Telemetry.Proofs.Server.MemoryLists
/-!
What a client posts, and a server with the same key. The request says that its packed body is JSON and
carries the signature of what is inside, so it is let through; and an answer with a list of metrics is
taken for success, whatever its signature.
-/

namespace Telemetry

namespace Http

theorem ofUInt8_ofNat {c : Char} (h : c.toNat < 0x7F) : Char.ofUInt8 (UInt8.ofNat c.toNat) = c := by
  have value : (UInt8.ofNat c.toNat).toUInt32.toNat = c.toNat := by
    rw [UInt8.toNat_toUInt32, UInt8.toNat_ofNat']
    omega
  exact Char.ext (UInt32.toNat_inj.mp value)

theorem encodeChars_visible {cs : List Char} (h : ∀ c ∈ cs, 0x20 ≤ c.toNat ∧ c.toNat < 0x7F) :
    Utf8.encodeChars cs = cs.map fun c => UInt8.ofNat c.toNat := by
  rw [Utf8.encodeChars, List.map_eq_flatMap]
  refine List.flatMap_congr fun c hc => ?_
  rw [Utf8.encodeChar, if_pos (by have := h c hc; omega)]

theorem textOf?_encode {s : String} (h : ∀ c ∈ s.toList, 0x20 ≤ c.toNat ∧ c.toNat < 0x7F) :
    textOf? (Utf8.encode s) = some s := by
  have back : s.toList.map (Char.ofUInt8 ∘ fun c => UInt8.ofNat c.toNat) = s.toList :=
    (List.map_congr_left fun c hc => ofUInt8_ofNat (h c hc).2).trans (List.map_id _)
  have visible : (s.toList.map fun c => UInt8.ofNat c.toNat).all
      (fun b => (0x20 ≤ b && b < 0x7F) || b = 0x09) = true := by
    rw [List.all_map, List.all_eq_true]
    intro c hc
    obtain ⟨low, high⟩ := h c hc
    have value : (UInt8.ofNat c.toNat).toNat = c.toNat := by
      rw [UInt8.toNat_ofNat']
      omega
    simp [UInt8.le_iff_toNat_le, UInt8.lt_iff_toNat_lt, value, low, high]
  rw [textOf?, Utf8.encode, encodeChars_visible h, if_pos visible, List.map_map, back,
    String.ofList_toList]

end Http

namespace Agent.Client

open Http Server

variable {c : Client} {json : Bytes} {key : String}

theorem values_request (c : Client) (json : Bytes) :
    (c.request json).value? "content-type" = some (Utf8.encode "application/json") ∧
    (c.request json).value? "content-encoding" = some (Utf8.encode "gzip") ∧
    (c.request json).value? Signature.header =
      c.key.map fun key => Utf8.encode (Signature.sign key json) := by
  have type : lowerAscii "content-type" = "content-type" := by decide +kernel
  have coding : lowerAscii "content-encoding" = "content-encoding" := by decide +kernel
  have signature : lowerAscii Signature.header = Signature.header := by decide +kernel
  have other : "content-type" ≠ "content-encoding" ∧ "content-type" ≠ Signature.header ∧
    "content-encoding" ≠ Signature.header := by decide +kernel
  obtain ⟨h1, h2, h3⟩ := other
  unfold Request.value? Request.values request
  cases c.key <;> simp [type, coding, signature, h1, h2, h3, h1.symm, h2.symm, h3.symm]

theorem saysJson_request (c : Client) (json : Bytes) : Handler.SaysJson (c.request json) := by
  refine ⟨"application/json", ?_, by decide +kernel⟩
  rw [Request.text?, (values_request c json).1, Option.bind_some]
  decide +kernel

/-- What a client signs is verified with the same key. -/
theorem verifies_request (hk : c.key = some key) (short : json.length ≤ bodyLimit) :
    Application.Verifies key (c.request json) json := by
  refine ⟨Signature.sign key json, ?_, ?_, Signature.verify_sign key json⟩
  · rw [Request.text?, (values_request c json).2.2, hk, Option.map_some, Option.bind_some]
    exact textOf?_encode fun _ => Signature.visible_of_mem_sign
  · rw [contentOf?_request, readBody, if_neg (by omega)]

theorem letThrough_request (short : json.length ≤ bodyLimit) :
    Application.LetThrough c.key (c.request json) := by
  have coding := (values_request c json).2.1
  refine ⟨?_, fun sent hs => .inl ?_, fun key hk => .inr ⟨json, verifies_request hk short⟩⟩
  · rintro ⟨readable, -⟩
    simp [Application.isReadableRequest, coding] at readable
  · rw [coding] at hs
    exact (Option.some.inj hs).symm

theorem lists_request (path : pathOfUrl c.url = "/updates") {ms : List Metric}
    (short : (Metric.listJson ms).bytes.length ≤ bodyLimit) :
    Lists c.key (c.request (Metric.listJson ms).bytes) (ms.map Metric.reread) where
  method := rfl
  path := path
  typed := saysJson_request c _
  through := letThrough_request short
  content := ⟨_, contentOf?_request c _, short, Metric.readList?_listJson ms⟩

theorem accept_list {a : Response} {stored : List Metric} (status : a.status = 200)
    (content : a.body.content = (Metric.listJson stored).bytes) :
    (c.accept a).Immediate (· = .ok (stored.map Metric.reread)) := by
  have success : ¬(a.status < 200 ∨ 300 ≤ a.status) := by omega
  have read : Metric.readList? a.body.content = some (stored.map Metric.reread) := by
    rw [content, Metric.readList?_listJson]
  rw [accept, if_neg success, read]
  by_cases mistrusted : c.mistrusts a = true
  · rw [if_pos mistrusted]
    exact rfl
  · rw [if_neg mistrusted]
    exact rfl

theorem ensures_sendBatch {k : Option String} {samples : Samples} {store after : Store}
    {ms stored : List Metric} {a : Response} {logs : List Log.Event}
    (handled : (Application.handle k (c.request (Metric.listJson ms).bytes)).run store = (a, after, logs))
    (status : a.status = 200) (content : a.body.content = (Metric.listJson stored).bytes) :
    Program.Ensures (.alone (Work.answer (Link.toServer k)))
      (fun result s => result = .ok (stored.map Metric.reread) ∧ s = (samples, after))
      (c.sendBatch ms) (samples, store) := by
  have accepted : Program.Ensures (.alone (Work.answer (Link.toServer k)))
      (fun result s => result = .ok (stored.map Metric.reread) ∧ s = (samples, after))
      (c.accept a) (samples, after) :=
    Program.ensures_alone_iff.mpr ((accept_list status content).runFrom _ [] _)
  have arrived : Work.answer (Link.toServer k) (samples, store)
      (.post c.url (c.request (Metric.listJson ms).bytes)) = (some (some a), samples, after) := by
    simp only [Work.answer, Link.toServer, handled]
  rw [sendBatch, Retry.loop, Program.ensures_bind, OptionT.run_bind, Option.elimM,
    Program.ensures_bind, post, OptionT.run_bind, Option.elimM, Program.ensures_bind]
  rintro u rfl reply v hv
  obtain ⟨rfl, rfl⟩ := Prod.mk.inj (arrived.symm.trans hv)
  show Program.Ensures _ _ (some <$> c.accept a) _
  rw [Program.ensures_map]
  refine accepted.mono ?_
  rintro result s ⟨rfl, rfl⟩
  exact ⟨rfl, rfl⟩

end Agent.Client

end Telemetry
