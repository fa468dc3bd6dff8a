import Telemetry.Binary64.Layout
import Telemetry.Binary64.Reading
import Telemetry.Metric.Kind
/-!
Metrics as they are sent, and what can be wrong with one.

The kind of a metric is kept as the text that was sent: an unknown kind is a defect of the metric,
not of the message. A metric is looked at through `name?` and `payload?`; each says which defect it
found.
-/

namespace Telemetry

/-- Why a metric is refused before it reaches the storage. -/
inductive Defect where
  | unknownKind (text : String)
  | emptyName
  | invalidValue (kind : Kind) (raw : String)
  | missingGaugeValue
  | missingCounterDelta
  | counterOverflow (name : String)
  deriving DecidableEq, Repr

def Defect.message : Defect → String
  | .unknownKind text => "unknown metric type " ++ text
  | .emptyName => "empty metric name"
  | .invalidValue kind raw => "wrong " ++ kind.text ++ " value " ++ raw
  | .missingGaugeValue => "not specified gauge value"
  | .missingCounterDelta => "not specified counter delta"
  | .counterOverflow name => "counter " ++ name ++ " overflows when summing batch deltas"

def kindOf (text : String) : Except Defect Kind :=
  match Kind.ofText? text with
  | some kind => .ok kind
  | none => .error (.unknownKind text)

-- Whoever unfolds a handler would otherwise run into the comparison with the words of the kinds.
attribute [irreducible] kindOf

/-- A name without the blanks around it; nothing may be left of it only if it is refused. -/
def nameOf (text : String) : Except Defect String :=
  let name := trim text
  if name = "" then .error .emptyName else .ok name

inductive Payload where
  | gauge (x : Binary64)
  | counter (delta : Count)
  deriving DecidableEq

namespace Payload

def kind : Payload → Kind
  | .gauge _ => .gauge
  | .counter _ => .counter

def text : Payload → String
  | .gauge x => x.text
  | .counter delta => delta.text

/-- Reads the text of a value; what a gauge holds must be finite. -/
def ofText (kind : Kind) (raw : String) : Except Defect Payload :=
  let found := match kind with
    | .gauge => ((Binary64.ofText? (trim raw)).filter Binary64.isFinite).map gauge
    | .counter => (Count.ofText? (trim raw)).map counter
  match found with
  | some payload => .ok payload
  | none => .error (.invalidValue kind raw)

end Payload

structure Metric where
  id : String
  type : String
  delta : Option Count
  value : Option Binary64
  deriving DecidableEq

namespace Metric

def gauge (id : String) (x : Binary64) : Metric := ⟨id, Kind.gauge.text, none, some x⟩
def counter (id : String) (delta : Count) : Metric := ⟨id, Kind.counter.text, some delta, none⟩

def ofPayload (id : String) : Payload → Metric
  | .gauge x => gauge id x
  | .counter delta => counter id delta

def kind? (m : Metric) : Except Defect Kind := kindOf m.type
def name? (m : Metric) : Except Defect String := nameOf m.id

/-- The value that belongs to the kind; the other one is not looked at. -/
def payload? (m : Metric) : Except Defect Payload := do
  match ← m.kind? with
  | .gauge =>
    match m.value with
    | some x => if x.isFinite then .ok (.gauge x) else .error (.invalidValue .gauge x.text)
    | none => .error .missingGaugeValue
  | .counter =>
    match m.delta with
    | some delta => .ok (.counter delta)
    | none => .error .missingCounterDelta

end Metric

end Telemetry
