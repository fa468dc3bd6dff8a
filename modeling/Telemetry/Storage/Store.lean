import Telemetry.Storage.Connection
import Telemetry.Storage.Memory
/-!
A storage that answers calls, whatever keeps its metrics: memory, a database, or memory that answers
chosen calls with errors.
-/

namespace Telemetry

inductive Call where
  | backend
  | getGauge (name : String)
  | putGauge (name : String) (x : Binary64)
  | getCounter (name : String)
  | putCounter (name : String) (delta : Count)
  | putGauges (batch : NameMap Binary64)
  | putCounters (batch : NameMap Count)
  | getAll
  | ping

def Call.Reply : Call → Type
  | .backend => String
  | .getGauge _ => Except Storage.Error (Option Binary64)
  | .getCounter _ => Except Storage.Error (Option Count)
  | .getAll => Except Storage.Error Listing
  | .putGauge _ _ | .putCounter _ _ | .putGauges _ | .putCounters _ | .ping =>
    Except Storage.Error Unit

/-- Calls that can be made to fail. -/
inductive Operation where
  | getGauge
  | putGauge
  | getCounter
  | putCounter
  | putGauges
  | putCounters
  | getAll
  | ping
  deriving DecidableEq, Repr

/-- Memory without a file that answers some calls with an error; what is put is kept all the same. -/
structure Faulty where
  memory : Memory
  faults : List (Operation × Storage.Error)

inductive Engine where
  | memory (m : Memory)
  | relational (c : Connection)
  | faulty (f : Faulty)

structure Store where
  engine : Engine
  files : FileTree

namespace Memory

def perform (m : Memory) (files : FileTree) : (c : Call) → c.Reply × Memory × FileTree
  | .backend => (backend, m, files)
  | .getGauge name => (.ok m.content.gauges[name]?, m, files)
  | .getCounter name => (.ok m.content.counters[name]?, m, files)
  | .getAll => (.ok m.content.listing, m, files)
  | .ping => (.ok (), m, files)
  | .putGauge name x => m.apply files (m.content.putGauge name x)
  | .putCounter name delta => m.apply files (m.content.putCounter name delta)
  | .putGauges batch => m.applyBatch files batch.toList (m.content.putGauges batch.toList)
  | .putCounters batch => m.applyBatch files batch.toList (m.content.putCounters batch.toList)

end Memory

namespace Connection

def perform (c : Connection) (files : FileTree) : (call : Call) → call.Reply × Connection × FileTree
  | .backend => (backend, c, files)
  | .getGauge name => ((c.database files).gauges.lookup Storage.gaugeColumn name, c, files)
  | .getCounter name => ((c.database files).counters.lookup Storage.counterColumn name, c, files)
  | .getAll => ((c.database files).listing, c, files)
  | .ping => (.ok (), c, files)
  | .putGauge name x => c.apply files ((c.database files).putGauge name x)
  | .putCounter name delta => c.apply files ((c.database files).putCounter name delta)
  | .putGauges batch => c.apply files ((c.database files).putGauges batch)
  | .putCounters batch => c.apply files ((c.database files).putCounters batch)

end Connection

namespace Faulty

def backend : String := "stub"

def fault? (f : Faulty) (o : Operation) : Option Storage.Error := f.faults.lookup o

def answer {α : Type} (f : Faulty) (o : Operation) (reply : Except Storage.Error α) :
    Except Storage.Error α :=
  match f.fault? o with
  | some e => .error e
  | none => reply

def perform (f : Faulty) (files : FileTree) : (c : Call) → c.Reply × Faulty × FileTree
  | .backend => (backend, f, files)
  | .getGauge name => (f.answer .getGauge (.ok f.memory.content.gauges[name]?), f, files)
  | .getCounter name => (f.answer .getCounter (.ok f.memory.content.counters[name]?), f, files)
  | .getAll => (f.answer .getAll (.ok f.memory.content.listing), f, files)
  | .ping => (f.answer .ping (.ok ()), f, files)
  | .putGauge name x =>
    let (r, m, files) := f.memory.perform files (.putGauge name x)
    (f.answer .putGauge r, { f with memory := m }, files)
  | .putCounter name delta =>
    let (r, m, files) := f.memory.perform files (.putCounter name delta)
    (f.answer .putCounter r, { f with memory := m }, files)
  | .putGauges batch =>
    let (r, m, files) := f.memory.perform files (.putGauges batch)
    (f.answer .putGauges r, { f with memory := m }, files)
  | .putCounters batch =>
    let (r, m, files) := f.memory.perform files (.putCounters batch)
    (f.answer .putCounters r, { f with memory := m }, files)

end Faulty

namespace Store

def perform (s : Store) (c : Call) : c.Reply × Store :=
  match s.engine with
  | .memory m =>
    let (r, m, files) := m.perform s.files c
    (r, ⟨.memory m, files⟩)
  | .relational k =>
    let (r, k, files) := k.perform s.files c
    (r, ⟨.relational k, files⟩)
  | .faulty f =>
    let (r, f, files) := f.perform s.files c
    (r, ⟨.faulty f, files⟩)

end Store

end Telemetry
