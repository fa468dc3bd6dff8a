import Telemetry.Metric.Basic
import Telemetry.Storage.Snapshot
/-!
The rules of storing metrics. A gauge is replaced, a delta is added to its counter; an update that
breaks a rule changes nothing. In a batch every sum is formed from the values before the batch.
-/

namespace Telemetry

structure Listing where
  gauges : NameMap String
  counters : NameMap String

def Listing.isEmpty (l : Listing) : Bool := l.gauges.isEmpty && l.counters.isEmpty

namespace Storage

/-- A name must have more in it than blanks; it is kept as given. -/
def checkName (name : String) : Except Error Unit :=
  if isBlankText name then .error .emptyName else .ok ()

def checkGauge (name : String) (x : Binary64) : Except Error Unit := do
  checkName name
  if x.isFinite then .ok () else .error (.nonFiniteGauge name)

/-- The new value of a counter; one that was never written counts from zero. -/
def accumulate (name : String) (old : Option Count) (delta : Count) : Except Error Count :=
  match (old.getD .zero).add? delta with
  | some sum => .ok sum
  | none => .error (.counterOverflow name)

end Storage

namespace Snapshot

open Storage

def putGauge (s : Snapshot) (name : String) (x : Binary64) : Except Error Snapshot := do
  checkGauge name x
  return { s with gauges := s.gauges.insert name x }

def putCounter (s : Snapshot) (name : String) (delta : Count) : Except Error Snapshot := do
  checkName name
  let sum ← accumulate name s.counters[name]? delta
  return { s with counters := s.counters.insert name sum }

def putGauges (s : Snapshot) (batch : List (String × Binary64)) : Except Error Snapshot := do
  batch.forM fun e => checkGauge e.1 e.2
  return { s with gauges := NameMap.putAll s.gauges batch }

def sumOf (s : Snapshot) (e : String × Count) : Except Error (String × Count) := do
  return (e.1, ← accumulate e.1 s.counters[e.1]? e.2)

def putCounters (s : Snapshot) (batch : List (String × Count)) : Except Error Snapshot := do
  batch.forM fun e => checkName e.1
  let sums ← batch.mapM s.sumOf
  return { s with counters := NameMap.putAll s.counters sums }

def listing (s : Snapshot) : Listing :=
  ⟨s.gauges.map fun _ x => x.text, s.counters.map fun _ c => c.text⟩

end Snapshot

end Telemetry
