import Telemetry.Metric.Basic
/-!
The collectors of an agent and the gauges they read off the host.
-/

namespace Telemetry.Agent

/-- What the host tells about itself and about the process of the agent; `random` is drawn anew for
every reading. -/
structure Host where
  residentMemory : Nat
  virtualMemory : Nat
  processUsage : Binary64
  uptime : Nat
  random : Binary64
  totalMemory : Nat
  freeMemory : Nat
  usedMemory : Nat
  coreUsage : List Binary64

inductive Collector where
  | runtime
  | memory
  | cpu
  deriving DecidableEq, Repr

namespace Collector

def all : List Collector := [runtime, memory, cpu]

def name : Collector → String
  | runtime => "runtime"
  | memory => "memory"
  | cpu => "cpu"

def ofName? (name : String) : Option Collector := all.find? fun c => c.name = name

def coreGauge (core : Binary64 × Nat) : Metric :=
  .gauge ("CPUutilization" ++ toString core.2) core.1

def readings (host : Host) : Collector → List Metric
  | runtime =>
    [.gauge "ResidentMemory" (.ofNat host.residentMemory),
      .gauge "VirtualMemory" (.ofNat host.virtualMemory),
      .gauge "ProcessCPUUsage" host.processUsage, .gauge "ProcessUptime" (.ofNat host.uptime),
      .gauge "RandomValue" host.random]
  | memory =>
    [.gauge "TotalMemory" (.ofNat host.totalMemory), .gauge "FreeMemory" (.ofNat host.freeMemory),
      .gauge "UsedMemory" (.ofNat host.usedMemory)]
  | cpu => host.coreUsage.zipIdx.map coreGauge

end Collector

end Telemetry.Agent
