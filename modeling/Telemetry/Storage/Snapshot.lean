import Telemetry.Json.Number
import Telemetry.NameMap
import Telemetry.Storage.Error
/-!
All stored metrics at one moment, and their JSON form: an object whose members `gauge_metrics` and
`counter_metrics` hold the values by name. An empty map is left out, so equal contents have equal
bytes.
-/

namespace Telemetry

structure Snapshot where
  gauges : NameMap Binary64
  counters : NameMap Count

namespace Snapshot

def empty : Snapshot := ⟨∅, ∅⟩

def isEmpty (s : Snapshot) : Bool := s.gauges.isEmpty && s.counters.isEmpty

def mapJson {α : Type} (key : String) (write : α → Json.Value) (m : NameMap α) :
    List (Option String × Json.Value) :=
  if m.isEmpty then []
  else [(some key, .object (m.toList.map fun e => (some e.1, write e.2)))]

def json (s : Snapshot) : Json.Value :=
  .object (mapJson "gauge_metrics" Json.Value.ofBinary64 s.gauges ++
    mapJson "counter_metrics" Json.Value.ofCount s.counters)

def encode (s : Snapshot) : Bytes := s.json.bytes

def entryOfJson? {α : Type} (read : Json.Value → Option α) (m : Option String × Json.Value) :
    Option (String × α) := do
  return (← m.1, ← read m.2)

/-- A missing map is empty; of a repeated name the last value stays. -/
def mapOfJson? {α : Type} (read : Json.Value → Option α) : Option Json.Value → Option (NameMap α)
  | none => some ∅
  | some (.object members) =>
    (members.mapM (entryOfJson? read)).map NameMap.ofEntries
  | some _ => none

def ofParts? (gauges counters : Option Json.Value) : Option Snapshot := do
  return ⟨← mapOfJson? Json.Value.binary64? gauges, ← mapOfJson? Json.Value.count? counters⟩

def ofJson? : Json.Value → Option Snapshot
  | .object members => do
    if !Json.Value.keysReadable members then none
    ofParts? (← Json.Value.member? "gauge_metrics" members)
      (← Json.Value.member? "counter_metrics" members)
  | .array items => if 2 < items.length then none else ofParts? items[0]? items[1]?
  | _ => none

def decode (bytes : Bytes) : Except Storage.Error Snapshot :=
  match (Json.Value.read? bytes).bind ofJson? with
  | some s => .ok s
  | none => .error .snapshotFormat

end Snapshot

end Telemetry
