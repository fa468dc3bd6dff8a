import Telemetry.Agent.Config
import Telemetry.Agent.Work
import Telemetry.Cause
import Telemetry.Metric.Wire
import Telemetry.Retry
import Telemetry.Signature
/-!
Sending batches of metrics to the server.

A body is packed, and signed before that if there is a key. An attempt that fails is repeated after
growing delays, until these or the time for the batch are used up. The server answers with the values it
stores; an answer with a wrong signature is reported and accepted.
-/

namespace Telemetry.Agent

/-- Why a batch was not sent. A body is packed in memory, where nothing can make that fail. -/
inductive ClientError where
  | unreadable
  | unpacked
  | unreachable
  | refused (status : Nat) (body : String)
  | late (seconds : Nat)
  deriving DecidableEq, Repr

/-- A number of whole seconds; zero is told in the smallest unit. -/
def secondsText (n : Nat) : String := if n = 0 then "0ns" else toString n ++ "s"

def ClientError.message : ClientError → String
  | .unreadable => "failed to encode metrics: " ++ Cause.json.text
  | .unpacked => "failed to compress request body: " ++ Cause.io.text
  | .unreachable => "request failed: " ++ Cause.http.text
  | .refused status body => "server answered " ++ toString status ++ ": " ++ body
  | .late seconds => "gave up after " ++ secondsText seconds

/-- `patience` is the time for all attempts to send a batch, in seconds. -/
structure Client where
  url : String
  key : Option String
  backoff : Backoff
  patience : Nat

namespace Client

open Http

def ofConfig (c : Config) (backoff : Backoff) : Client :=
  ⟨c.baseUrl ++ "/updates", Signature.keyOf c.hashKey, backoff, c.requestTimeout⟩

def request (c : Client) (json : Bytes) : Request :=
  ⟨"POST", pathOfUrl c.url,
    [("content-type", Utf8.encode "application/json"), ("content-encoding", Utf8.encode "gzip")] ++
      (c.key.map fun key => (Signature.header, Utf8.encode (Signature.sign key json))).toList,
    .gzip json⟩

/-- Whether an answer has a signature that does not fit its body. -/
def mistrusts (c : Client) (r : Response) : Bool :=
  match c.key, r.header? Signature.header with
  | some key, some signature => !Signature.verify key r.body.content signature
  | _, _ => false

def accept (c : Client) (r : Response) : Work (Except ClientError (List Metric)) := do
  if r.status < 200 ∨ 300 ≤ r.status then
    return .error (.refused r.status (trim (Utf8.decodeLossy r.body.content)))
  if c.mistrusts r then
    Work.report ⟨.warn, "Response body hash mismatch", [("url", c.url)]⟩
  match Metric.readList? r.body.content with
  | some stored => return .ok stored
  | none => return .error .unreadable

def post (c : Client) (json : Bytes) : Timed (Except ClientError (List Metric)) := do
  match ← OptionT.mk (Work.perform (.post c.url (c.request json))) with
  | none => return .error .unreachable
  | some response => c.accept response

def pause (attempt : Nat) (e : ClientError) (delay : Duration) : Timed Unit := do
  Work.report (Retry.warning "report metrics" attempt e.message delay)
  OptionT.mk (Work.perform (.pause delay))

/-- Sends a batch; the answer lists what the server stores now. -/
def sendBatch (c : Client) (metrics : List Metric) : Work (Except ClientError (List Metric)) := do
  match ← (Retry.loop pause (c.post (Metric.listJson metrics).bytes) 1 c.backoff).run with
  | some result => return result
  | none => return .error (.late c.patience)

end Client

end Telemetry.Agent
