import Telemetry.Agent.Reporter
import Telemetry.Proofs.Metric.Acceptance
import Telemetry.Proofs.Metric.Wire
import Telemetry.Proofs.Program
import Telemetry.Proofs.Server.Layers
/-!
A report of an agent, call by call. After the samples are read every request carries gauges only, but
the one of the last chunk: that carries the polls. The polls are taken off the samples once that
request is answered with success, and by nothing else.
-/

namespace Telemetry

/-- What a metric adds to the number of polls. -/
def Metric.polls? (m : Metric) : Option Int :=
  m.update?.bind (Update.delta? Agent.Samples.pollCountName)

namespace Metric

variable {m : Metric}

/-- Gauges are no polls, whatever their name. -/
theorem polls?_of_gauge (kind : m.kind? = .ok .gauge) : m.polls? = none := by
  unfold polls? update? payload?
  rw [kind]
  cases m.name? with
  | error d => rfl
  | ok name =>
    cases m.value with
    | none => rfl
    | some x => by_cases hf : x.isFinite = true <;> simp [hf, Except.toOption]

theorem polls?_reread (m : Metric) : m.reread.polls? = m.polls? := by
  have same : m.reread.kind? = m.kind? := rfl
  by_cases gauge : m.kind? = .ok .gauge
  · rw [polls?_of_gauge gauge, polls?_of_gauge (same.trans gauge)]
  · have payload : m.reread.payload? = m.payload? := by
      unfold payload?
      rw [same]
      cases hk : m.kind? with
      | error d => rfl
      | ok kind =>
        cases kind with
        | gauge => exact absurd hk gauge
        | counter => rfl
    rw [polls?, update?, payload]
    rfl

theorem polls?_gauge (name : String) (x : Binary64) : (gauge name x).polls? = none :=
  polls?_of_gauge (kindOf_text .gauge)

theorem nameOf_pollCountName :
    nameOf Agent.Samples.pollCountName = .ok Agent.Samples.pollCountName := by
  decide +kernel

theorem polls?_counter (p : Count) :
    (counter Agent.Samples.pollCountName p).polls? = some p.val := by
  have update : (counter Agent.Samples.pollCountName p).update? =
      some (Agent.Samples.pollCountName, .counter p) :=
    update?_eq_some_iff.mpr ⟨nameOf_pollCountName, payload?_counter _ p⟩
  rw [polls?, update, Option.bind_some, Update.delta?_counter, if_pos rfl]

theorem filterMap_polls? {ms : List Metric} {us : List Update} (h : ms.mapM update? = some us) :
    ms.filterMap polls? = Update.deltas Agent.Samples.pollCountName us := by
  have each := mapM_eq_some_iff.mp h
  clear h
  induction each with
  | nil => rfl
  | @cons m u ms us hu _ ih =>
    have first : m.polls? = Update.delta? Agent.Samples.pollCountName u := by
      rw [polls?, hu]
      rfl
    rw [List.filterMap_cons, first, ih, Update.deltas, Update.deltas, List.filterMap_cons]

end Metric

namespace Retry

variable {C : Type} {Reply : C → Type} {σ ε α : Type} {P : Protocol Reply σ} {s : σ}

/-- What holds after an operation that leaves the state alone where it fails. -/
def Tried (Q : σ → Prop) (s : σ) : Except ε α → σ → Prop
  | .ok _, t => Q t
  | .error _, t => t = s

/-- What holds after work that leaves the state alone where it is given up. -/
def InTime (R : α → σ → Prop) (s : σ) : Option α → σ → Prop
  | some a, t => R a t
  | none, t => t = s

/-- Attempts that fail leave the state as it was, so as many may follow as there are delays. -/
theorem follows_loop {pause : Nat → ε → Duration → OptionT (Program Reply) Unit}
    {op : OptionT (Program Reply) (Except ε α)} {Q : σ → Prop}
    (hop : op.run.Follows P (InTime (Tried Q s) s) s)
    (hpause : ∀ n e d, (pause n e d).run.Follows P (fun _ t => t = s) s) (attempt : Nat)
    (b : Backoff) : (loop pause op attempt b).run.Follows P (InTime (Tried Q s) s) s := by
  generalize hn : b.remaining = n
  induction n using Nat.strong_induction_on generalizing attempt b with
  | _ n ih =>
    rw [loop, OptionT.run_bind, Option.elimM, Program.follows_bind]
    refine hop.mono ?_
    rintro (late | e | a) t h
    · exact h
    · obtain rfl : t = s := h
      dsimp only [Option.elim]
      split
      · exact rfl
      · rename_i delay rest step
        rw [OptionT.run_bind, Option.elimM, Program.follows_bind]
        refine (hpause attempt e delay).mono ?_
        rintro (late | waited) u rfl
        · exact rfl
        · exact ih _ (hn ▸ Backoff.step?_remaining step) _ rest rfl
    · exact h

end Retry

namespace Agent

open Http

def carried? (r : Request) : Option Int := do
  Update.sum? ((← Metric.readList? (← Server.contentOf? r)).filterMap Metric.polls?)

/-- Whether a client takes what came back for success: an answer with such a status that it can read.
Nothing comes back if the request or the answer is lost, or comes too late. -/
def Client.takes : Option (Option Response) → Bool
  | some (some r) => 200 ≤ r.status && r.status < 300 && (Metric.readList? r.body.content).isSome
  | _ => false

/-- How far a report is: before the samples are read, with polls that the server has not accepted,
with polls that it has, and after these are taken off. -/
inductive Phase where
  | fresh
  | carrying (polls : Count)
  | owing (polls : Count)
  | flushed

/-- What a report of a client may do. Polls are taken off in the end only, and not before they are
accepted. -/
def reporting (c : Client) : Protocol Action.Reply Phase where
  Allows
    | .fresh, .read => True
    | .carrying p, .post url r => url = c.url ∧ r.path = pathOfUrl c.url ∧
      (carried? r = none ∨ carried? r = some p.val)
    | .carrying _, .pause _ => True
    | .carrying p, .flush q => q = p ∧ p.val ≤ 0
    | .owing p, .flush q => q = p
    | _, _ => False
  after
    | .fresh, .read, samples => .carrying samples.pollCount
    | .carrying p, .post _ r, reply =>
      if Client.takes reply && (carried? r).isSome then .owing p else .carrying p
    | _, .flush _, _ => .flushed
    | s, _, _ => s

def Ended (_ : Summary) : Phase → Prop
  | .owing _ => False
  | _ => True

variable {c : Client} {p : Count}

theorem contentOf?_request (c : Client) (json : Bytes) :
    Server.contentOf? (c.request json) = some json := by
  have other : lowerAscii "content-type" ≠ "content-encoding" := by decide +kernel
  have here : lowerAscii "content-encoding" = "content-encoding" := by decide +kernel
  have coding : (c.request json).value? "content-encoding" = some (Utf8.encode "gzip") := by
    simp [Client.request, Request.value?, Request.values, other, here]
  rw [Server.contentOf?, Server.contentBy?, coding]
  simp only [if_true]
  rfl

theorem carried?_request (c : Client) (ms : List Metric) :
    carried? (c.request (Metric.listJson ms).bytes) = Update.sum? (ms.filterMap Metric.polls?) := by
  have polls : (ms.map Metric.reread).filterMap Metric.polls? = ms.filterMap Metric.polls? := by
    rw [List.filterMap_map]
    exact congrArg (ms.filterMap ·) (funext Metric.polls?_reread)
  rw [carried?, contentOf?_request, Option.bind_eq_bind, Option.bind_some, Metric.readList?_listJson]
  exact congrArg Update.sum? polls

def settled (p : Count) (polls : Option Int) : Phase :=
  if polls.isSome then .owing p else .carrying p

theorem Client.follows_accept {Q : Phase → Prop} {s t : Phase} (r : Response)
    (ok : takes (some (some r)) = true → Q t) (failed : takes (some (some r)) = false → t = s) :
    (c.accept r).Follows (reporting c) (Retry.Tried Q s) t := by
  unfold accept
  by_cases refused : r.status < 200 ∨ 300 ≤ r.status
  · rw [if_pos refused]
    refine failed ?_
    simp [takes]
    omega
  rw [if_neg refused]
  have status : takes (some (some r)) = (Metric.readList? r.body.content).isSome := by
    simp [takes]
    omega
  cases hr : Metric.readList? r.body.content with
  | none =>
    have kept : t = s := failed (by rw [status, hr]; rfl)
    by_cases mistrusted : c.mistrusts r = true
    · rw [if_pos mistrusted]
      exact kept
    · rw [if_neg mistrusted]
      exact kept
  | some stored =>
    have taken : Q t := ok (by rw [status, hr]; rfl)
    by_cases mistrusted : c.mistrusts r = true
    · rw [if_pos mistrusted]
      exact taken
    · rw [if_neg mistrusted]
      exact taken

theorem Client.follows_post (json : Bytes)
    (h : carried? (c.request json) = none ∨ carried? (c.request json) = some p.val) :
    (c.post json).run.Follows (reporting c)
      (Retry.InTime (Retry.Tried (· = settled p (carried? (c.request json))) (.carrying p))
        (.carrying p)) (.carrying p) := by
  rw [post, OptionT.run_bind, Option.elimM, Program.follows_bind]
  refine ⟨⟨rfl, rfl, h⟩, fun reply => ?_⟩
  match reply with
  | none => exact rfl
  | some none => exact rfl
  | some (some r) =>
    show (some <$> c.accept r).Follows _ _ (if takes (some (some r)) && _ then _ else _)
    rw [Program.follows_map]
    refine follows_accept r (fun ok => ?_) fun failed => ?_
    · rw [ok, Bool.true_and]
      rfl
    · rw [failed, Bool.false_and]
      rfl

theorem Client.follows_sendBatch (ms : List Metric)
    (h : Update.sum? (ms.filterMap Metric.polls?) = none ∨
      Update.sum? (ms.filterMap Metric.polls?) = some p.val) :
    (c.sendBatch ms).Follows (reporting c)
      (Retry.Tried (· = settled p (Update.sum? (ms.filterMap Metric.polls?))) (.carrying p))
      (.carrying p) := by
  rw [← carried?_request c] at h ⊢
  rw [sendBatch, Program.follows_bind]
  refine (Retry.follows_loop (Client.follows_post _ h) (fun n e d => ?_) 1 c.backoff).mono ?_
  · exact ⟨trivial, fun _ => rfl⟩
  · rintro (late | result) t ht
    · exact ht
    · exact ht

namespace Reporter

/-- The polls are in the last chunk, and there if there are any. -/
def Shipment (p : Count) : List (List Metric) → Prop
  | [] => True
  | chunk :: rest =>
    Update.sum? (chunk.filterMap Metric.polls?) =
      (if rest = [] ∧ 0 < p.val then some p.val else none) ∧ Shipment p rest

theorem follows_sendChunks {cs : List (List Metric)} (h : Shipment p cs) (sent : Nat) :
    (sendChunks c p sent cs).Follows (reporting c) Ended
      (if cs = [] ∧ 0 < p.val then .owing p else .carrying p) := by
  induction cs generalizing sent with
  | nil =>
    rw [sendChunks]
    by_cases hp : 0 < p.val
    · rw [if_pos ⟨rfl, hp⟩]
      exact ⟨rfl, fun _ => trivial⟩
    · rw [if_neg fun h => hp h.2]
      exact ⟨⟨rfl, not_lt.mp hp⟩, fun _ => trivial⟩
  | cons chunk rest ih =>
    obtain ⟨polls, later⟩ := h
    rw [if_neg (by simp), sendChunks, Program.follows_bind]
    have sends := Client.follows_sendBatch (c := c) (p := p) chunk (by
      rw [polls]
      by_cases last : rest = [] ∧ 0 < p.val <;> simp [last])
    refine sends.mono ?_
    rintro (e | stored) s hs
    · obtain rfl : s = _ := hs
      trivial
    · obtain rfl : s = _ := hs
      rw [polls]
      by_cases last : rest = [] ∧ 0 < p.val
      · have := ih later (sent + chunk.length)
        rw [if_pos last] at this ⊢
        exact this
      · have := ih later (sent + chunk.length)
        rw [if_neg last] at this ⊢
        exact this

theorem chunks_eq_nil_iff {α : Type} {size : Nat} {xs : List α} : chunks size xs = [] ↔ xs = [] := by
  cases xs <;> simp [chunks]

def pollMetrics (p : Count) : List Metric :=
  if 0 < p.val then [Metric.counter Samples.pollCountName p] else []

theorem sum?_pollMetrics (p : Count) : Update.sum? ((pollMetrics p).filterMap Metric.polls?) =
    if 0 < p.val then some p.val else none := by
  unfold pollMetrics
  split
  · simp [Metric.polls?_counter, Update.sum?]
  · rfl

theorem shipment_chunks {gauges : List Metric} (hg : ∀ m ∈ gauges, m.polls? = none) (p : Count)
    (size : Nat) : Shipment p (chunks size (gauges ++ pollMetrics p)) := by
  generalize hms : gauges ++ pollMetrics p = ms
  induction ms using chunks.induct size generalizing gauges with
  | case1 =>
    rw [chunks]
    trivial
  | case2 m ms ih =>
    rw [chunks]
    by_cases last : ms.drop (size - 1) = []
    · have whole : ms.take (size - 1) = ms :=
        List.take_of_length_le (List.drop_eq_nil_iff.mp last)
      rw [last, whole, ← hms]
      refine ⟨?_, by rw [chunks]; trivial⟩
      rw [List.filterMap_append, List.filterMap_eq_nil_iff.mpr hg, List.nil_append,
        sum?_pollMetrics, chunks]
      simp
    · -- More than the polls is left, so this chunk has only gauges.
      have few : (pollMetrics p).length ≤ 1 := by
        unfold pollMetrics
        split <;> simp
      have length := congrArg List.length hms
      rw [List.drop_eq_nil_iff, not_le] at last
      rw [List.length_append, List.length_cons] at length
      have cut : size - 1 + 1 ≤ gauges.length := by omega
      have chunk : m :: ms.take (size - 1) = gauges.take (size - 1 + 1) := by
        rw [← List.take_succ_cons, ← hms, List.take_append_of_le_length cut]
      have rest : gauges.drop (size - 1 + 1) ++ pollMetrics p = ms.drop (size - 1) := by
        rw [← List.drop_append_of_le_length cut, hms, List.drop_succ_cons]
      refine ⟨?_, ih (fun m hm => hg m (List.mem_of_mem_drop hm)) rest⟩
      have none : (gauges.take (size - 1 + 1)).filterMap Metric.polls? = [] :=
        List.filterMap_eq_nil_iff.mpr fun m hm => hg m (List.mem_of_mem_take hm)
      rw [chunk, none, if_neg]
      · rfl
      · rw [chunks_eq_nil_iff, List.drop_eq_nil_iff]
        omega

/-- A report keeps to the protocol, with every client, every size of a chunk and every answer. -/
theorem follows_report (c : Client) (batchSize : Nat) :
    (report c batchSize).Follows (reporting c) Ended .fresh := by
  rw [report, Program.follows_bind]
  refine ⟨trivial, fun samples => ?_⟩
  rw [Program.Follows]
  cases hr : samples.report with
  | nil => trivial
  | cons m ms =>
    have gauges : ∀ m ∈ samples.gauges.toList.map fun e => Metric.gauge e.1 e.2,
        m.polls? = none := by
      intro m hm
      obtain ⟨e, -, rfl⟩ := List.mem_map.mp hm
      exact Metric.polls?_gauge e.1 e.2
    have shipment : Shipment samples.pollCount (chunks batchSize samples.report) :=
      shipment_chunks gauges samples.pollCount batchSize
    have sends := follows_sendChunks (c := c) shipment 0
    rw [hr, if_neg fun h => by simp [chunks_eq_nil_iff] at h] at sends
    exact sends

end Reporter

end Agent

end Telemetry
