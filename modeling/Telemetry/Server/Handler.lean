import Telemetry.Http.Message
import Telemetry.Metric.Batch
import Telemetry.Metric.Wire
import Telemetry.Server.Page
import Telemetry.Server.Work
/-!
What each address of the server does.

A request is checked completely before the storage is called. An update whose snapshot could not be
written has been stored and is answered as such.
-/

namespace Telemetry.Server

open Http Log

inductive Refusal where
  | defect (d : Defect)
  | notJson
  | malformedBody
  | notFound (name : String)
  | storage (e : Storage.Error)
  deriving DecidableEq, Repr

namespace Refusal

def message : Refusal → String
  | defect d => d.message
  | notJson => "wrong Content-Type. Expect application/json"
  | malformedBody => "failed unmarshal body: " ++ Cause.json.text
  | notFound name => "metric " ++ name ++ " not found"
  | storage e => e.message

def status : Refusal → Nat
  | defect _ | notJson | malformedBody => 400
  | notFound _ => 404
  | storage (.emptyName) | storage (.nonFiniteGauge _) | storage (.counterOverflow _) => 400
  | storage _ => 500

end Refusal

abbrev Handler (α : Type) := ExceptT Refusal Work α

namespace Handler

def perform (c : Call) : Handler c.Reply := ExceptT.lift (Work.perform c)
def report (e : Event) : Handler Unit := ExceptT.lift (Work.report e)

def checked {α : Type} : Except Defect α → Handler α
  | .ok a => pure a
  | .error d => throw (.defect d)

def stored {α : Type} : Except Storage.Error α → Handler α
  | .ok a => pure a
  | .error e => throw (.storage e)

/-- Accepts an update that was stored, even if it could not be saved. -/
def written (what : String) : Except Storage.Error Unit → Handler Unit
  | .ok _ => pure ()
  | .error e =>
    if e.isPersistence then
      report ⟨.warn, "Metric stored but snapshot failed", [("metric", what), ("error", e.message)]⟩
    else throw (.storage e)

def put (name : String) : Payload → Handler Unit
  | .gauge x => do written name (← perform (.putGauge name x))
  | .counter delta => do written name (← perform (.putCounter name delta))

def getGauge (name : String) : Handler (Option Binary64) := do stored (← perform (.getGauge name))
def getCounter (name : String) : Handler (Option Count) := do stored (← perform (.getCounter name))

def found {α : Type} (name : String) : Option α → Handler α
  | some a => pure a
  | none => throw (.notFound name)

def currentPayload (kind : Kind) (name : String) : Handler Payload := do
  match kind with
  | .gauge => return .gauge (← found name (← getGauge name))
  | .counter => return .counter (← found name (← getCounter name))

def current (kind : Kind) (name : String) : Handler Metric := do
  return .ofPayload name (← currentPayload kind name)

def page : Handler Response := do
  return .html (Page.render (← stored (← perform .getAll)))

def updateText (kind name raw : String) : Handler Response := do
  let kind ← checked (kindOf kind)
  let name ← checked (nameOf name)
  let payload ← checked (Payload.ofText kind raw)
  put name payload
  return .text 200 ("metric " ++ name ++ " saved")

def valueText (kind name : String) : Handler Response := do
  let kind ← checked (kindOf kind)
  let name ← checked (nameOf name)
  return .text 200 (← currentPayload kind name).text

def readJson {α : Type} (read : Bytes → Option α) (r : Request) (body : Bytes) : Handler α :=
  let isJson := match r.text? "content-type" with
    | some t => "application/json".toList.isPrefixOf (t.toList.dropWhile isBlank)
    | none => false
  if !isJson then throw .notJson
  else
    match read body with
    | some a => pure a
    | none => throw .malformedBody

def updateJson (r : Request) (body : Bytes) : Handler Response := do
  let metric ← readJson Metric.read? r body
  let name ← checked metric.name?
  let payload ← checked metric.payload?
  put name payload
  return .json (← current payload.kind name).json.bytes

def valueJson (r : Request) (body : Bytes) : Handler Response := do
  let query ← readJson Metric.read? r body
  let kind ← checked query.kind?
  let name ← checked query.name?
  return .json (← current kind name).json.bytes

/-- Stores the counters of a batch; if there are none the storage is not called. -/
def putCounters (counters : NameMap Count) : Handler Unit := do
  if !counters.isEmpty then written "counter batch" (← perform (.putCounters counters))

def putGauges (gauges : NameMap Binary64) : Handler Unit := do
  if !gauges.isEmpty then written "gauge batch" (← perform (.putGauges gauges))

def currentBatch (batch : Batch) : Handler (List Metric) := do
  let gauges ← batch.gauges.keys.mapM (current .gauge)
  let counters ← batch.counters.keys.mapM (current .counter)
  return gauges ++ counters

/-- Stores the counters of a list, then its gauges, and answers with what is stored then. -/
def updateBatch (r : Request) (body : Bytes) : Handler Response := do
  let metrics ← readJson Metric.readList? r body
  let batch ← checked (Batch.ofMetrics metrics)
  putCounters batch.counters
  putGauges batch.gauges
  report ⟨.debug, "Stored metric batch",
    [("gauges", toString batch.gauges.size), ("counters", toString batch.counters.size)]⟩
  return .json (Metric.listJson (← currentBatch batch)).bytes

def answer (h : Handler Response) : Work Response := do
  match ← h.run with
  | .ok response => return response
  | .error refusal =>
    if 500 ≤ refusal.status then
      Work.report ⟨.error, "Request failed", [("error", refusal.message)]⟩
    return .text refusal.status refusal.message

def ping : Work Response := do
  let reply : Except Storage.Error Unit ← Work.perform .ping
  match reply with
  | .ok _ => return .text 200 "pong"
  | .error e =>
    let backend : String ← Work.perform .backend
    Work.report ⟨.error, "Storage ping failed", [("backend", backend), ("error", e.message)]⟩
    return .text 500 e.message

def notImplemented : Response := .text 404 "not implemented yet"

end Handler

end Telemetry.Server
