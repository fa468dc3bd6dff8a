import Telemetry.Json.Number
import Telemetry.Metric.Basic
/-!
Metrics in JSON: an object with the members `id`, `type`, `delta` and `value`, of which the last two
are left out when absent, or an array of these parts in order. Unknown members are skipped, a known
one may stand only once.
-/

namespace Telemetry

namespace Kind

def json (k : Kind) : Json.Value := .text k.text

def ofName? : String → Option Kind
  | "gauge" => some .gauge
  | "counter" => some .counter
  | _ => none

/-- A kind is its exact name, or an object with that name as its only key and nothing in it. -/
def ofJson? : Json.Value → Option Kind
  | .string (some name) => ofName? name
  | .object [(some name, .null)] => ofName? name
  | _ => none

end Kind

namespace Metric

def json (m : Metric) : Json.Value :=
  .object ([(some "id", .text m.id), (some "type", .text m.type)] ++
    (m.delta.map fun d => (some "delta", Json.Value.ofCount d)).toList ++
    (m.value.map fun x => (some "value", Json.Value.ofBinary64 x)).toList)

def ofParts? (id type delta value : Option Json.Value) : Option Metric := do
  return ⟨← (← id).text?, ← (← type).text?, ← Json.Value.optional? Json.Value.count? delta,
    ← Json.Value.optional? Json.Value.binary64? value⟩

def ofJson? : Json.Value → Option Metric
  | .object members => do
    if !Json.Value.keysReadable members then none
    ofParts? (← Json.Value.member? "id" members) (← Json.Value.member? "type" members)
      (← Json.Value.member? "delta" members) (← Json.Value.member? "value" members)
  | .array items => if 4 < items.length then none else ofParts? items[0]? items[1]? items[2]? items[3]?
  | _ => none

def read? (bytes : Bytes) : Option Metric := (Json.Value.read? bytes).bind ofJson?

def listJson (metrics : List Metric) : Json.Value := .array (metrics.map json)

def listOfJson? : Json.Value → Option (List Metric)
  | .array items => items.mapM ofJson?
  | _ => none

def readList? (bytes : Bytes) : Option (List Metric) := (Json.Value.read? bytes).bind listOfJson?

end Metric

end Telemetry
