import Telemetry.Agent.Samples
/-!
One poll: every collector is asked once, and what those that succeed have read is put together. A
collector that fails is reported and does not hide the others.
-/

namespace Telemetry.Agent

open Log

structure Collection where
  collector : String
  outcome : Except String (List Metric)

namespace Collection

def readings (c : Collection) : List Metric :=
  match c.outcome with
  | .ok readings => readings
  | .error _ => []

def events (c : Collection) : List Event :=
  match c.outcome with
  | .ok _ => []
  | .error e => [⟨.warn, "Collection failed", [("collector", c.collector), ("error", e)]⟩]

end Collection

def poll (collections : List Collection) : List Metric × List Event :=
  let readings := collections.flatMap Collection.readings
  (readings, collections.flatMap Collection.events ++
    [⟨.debug, "Collected metrics", [("count", toString readings.length)]⟩])

end Telemetry.Agent
