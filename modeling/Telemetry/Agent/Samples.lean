import Telemetry.Log
import Telemetry.Metric.Batch
/-!
What an agent keeps between two reports: the last valid reading of every gauge, and how many polls
no report has carried yet.
-/

namespace Telemetry.Agent

structure Samples where
  gauges : NameMap Binary64
  pollCount : Count

namespace Samples

open Log

def new : Samples := ⟨∅, .zero⟩

/-- The counter that carries the number of polls. -/
def pollCountName : String := "PollCount"

/-- Takes one reading. Only a valid gauge is kept; what is not is reported. -/
def take (gauges : NameMap Binary64) (reading : Metric) : NameMap Binary64 × List Event :=
  match reading.name?, reading.payload? with
  | .ok name, .ok (.gauge x) => (gauges.insert name x, [])
  | .ok name, .ok (.counter delta) =>
    (gauges, [⟨.debug, "Collectors report gauges only", [("metric", name), ("delta", delta.text)]⟩])
  | _, _ => (gauges, [⟨.debug, "Skipping malformed reading", [("metric", reading.id)]⟩])

/-- Takes readings from first to last; `logs` holds the reports so far, last first. -/
def takeAll (gauges : NameMap Binary64) (logs : List Event) :
    List Metric → NameMap Binary64 × List Event
  | [] => (gauges, logs.reverse)
  | reading :: rest =>
    let (gauges, events) := take gauges reading
    takeAll gauges (events.reverse ++ logs) rest

def record (s : Samples) (readings : List Metric) : Samples × List Event :=
  let (gauges, logs) := takeAll s.gauges [] readings
  (⟨gauges, s.pollCount.addSaturating .one⟩, logs)

/-- Every gauge in the order of the names, and then the polls if there are any. -/
def report (s : Samples) : List Metric :=
  s.gauges.toList.map (fun e => Metric.gauge e.1 e.2) ++
    if 0 < s.pollCount.val then [Metric.counter pollCountName s.pollCount] else []

/-- Takes off polls that have been reported; later ones are kept. -/
def flush (s : Samples) (reported : Count) : Samples :=
  { s with pollCount := s.pollCount.drop reported }

end Samples

end Telemetry.Agent
