import Telemetry.Metric.Basic
import Telemetry.NameMap
/-!
A list of metrics folded into one update per name and kind. The last value of a gauge counts, the
deltas of a counter are added in the order of the list; one defect refuses the whole list.
-/

namespace Telemetry

structure Batch where
  gauges : NameMap Binary64
  counters : NameMap Count

namespace Batch

def empty : Batch := ⟨∅, ∅⟩

def add (b : Batch) (m : Metric) : Except Defect Batch := do
  let name ← m.name?
  match ← m.payload? with
  | .gauge x => return { b with gauges := b.gauges.insert name x }
  | .counter delta =>
    match (b.counters.getD name .zero).add? delta with
    | some sum => return { b with counters := b.counters.insert name sum }
    | none => .error (.counterOverflow name)

def ofMetrics (metrics : List Metric) : Except Defect Batch := metrics.foldlM add empty

def isEmpty (b : Batch) : Bool := b.gauges.isEmpty && b.counters.isEmpty
def size (b : Batch) : Nat := b.gauges.size + b.counters.size

end Batch

end Telemetry
