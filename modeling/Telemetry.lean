import Telemetry.Agent.Collector
import Telemetry.Agent.Loopback
import Telemetry.Agent.Poller
import Telemetry.Agent.Reporter
import Telemetry.Main
import Telemetry.Server.SaverTask
import Telemetry.Storage.Interference
import Telemetry.Proofs.Checks
import Telemetry.Proofs.Program
import Telemetry.Proofs.Storage.Updates
import Telemetry.Proofs.Metric.Aggregation
import Telemetry.Proofs.Metric.Folding
import Telemetry.Proofs.Storage.Changes
import Telemetry.Proofs.Server.Ledger
import Telemetry.Proofs.Server.Accounting
import Telemetry.Proofs.Server.BatchUpdates
import Telemetry.Proofs.Server.Requests
import Telemetry.Proofs.Storage.Batches
import Telemetry.Proofs.Storage.Backends
import Telemetry.Proofs.Storage.Connections
import Telemetry.Proofs.Storage.Tables
import Telemetry.Proofs.Storage.Reopening
import Telemetry.Proofs.Storage.Restarts
import Telemetry.Proofs.Server.Admission
import Telemetry.Proofs.Server.Isolation
import Telemetry.Proofs.Server.Cutting
import Telemetry.Proofs.Server.Signing
import Telemetry.Proofs.Storage.BatchOutcomes
import Telemetry.Proofs.Storage.SinglePuts
import Telemetry.Proofs.Storage.InlineSaving
import Telemetry.Proofs.Storage.AtomicWrites
import Telemetry.Proofs.Server.Recovery
import Telemetry.Proofs.Agent.Covered
import Telemetry.Proofs.Agent.Undisturbed
import Telemetry.Proofs.Agent.Agreement
import Telemetry.Proofs.Server.Fetching
import Telemetry.Proofs.Server.Starting
import Telemetry.Proofs.Storage.Finiteness
import Telemetry.Proofs.Server.PeriodicSaving
import Telemetry.Proofs.Storage.MemoryBatches
import Telemetry.Proofs.Agent.WireFormat
import Telemetry.Proofs.Server.ListAnswers
import Telemetry.Proofs.Server.GaugeReaders
import Telemetry.Proofs.Server.BodyLimit
import Telemetry.Proofs.Agent.Cycle
import Telemetry.Proofs.Agent.History
import Telemetry.Proofs.Server.Markup
