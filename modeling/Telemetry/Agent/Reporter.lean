import Telemetry.Agent.Client
import Telemetry.Chunks
/-!
One report: the samples are sent in chunks, and nothing more is sent after a chunk that fails. The
polls stand at the end, so they are taken off the samples only when the server has all of them.
-/

namespace Telemetry.Agent

/-- How many metrics the server has accepted, and how many it has not. -/
structure Summary where
  sent : Nat
  failed : Nat
  deriving DecidableEq, Repr

namespace Reporter

/-- Sends chunks until one fails; `sent` metrics have been accepted before. -/
def sendChunks (c : Client) (polls : Count) (sent : Nat) : List (List Metric) → Work Summary
  | [] => do
    Work.perform (.flush polls)
    Work.report ⟨.info, "Metrics reported", [("metrics", toString sent), ("polls", polls.text)]⟩
    return ⟨sent, 0⟩
  | chunk :: rest => do
    match ← c.sendBatch chunk with
    | .ok _ => sendChunks c polls (sent + chunk.length) rest
    | .error e =>
      let pending := (chunk :: rest).flatten.length
      Work.report ⟨.warn, "Report failed",
        [("error", e.message), ("sent", toString sent), ("pending", toString pending)]⟩
      return ⟨sent, pending⟩

def report (c : Client) (batchSize : Nat) : Work Summary := do
  let samples : Samples ← Work.perform .read
  match samples.report with
  | [] => return ⟨0, 0⟩
  | metrics => sendChunks c samples.pollCount 0 (chunks batchSize metrics)

end Reporter

end Telemetry.Agent
