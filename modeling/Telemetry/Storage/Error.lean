import Telemetry.Cause
/-!
What can go wrong in a storage.
-/

namespace Telemetry.Storage

inductive Phase where
  | connect
  | begin
  | query
  | exec
  | commit
  deriving DecidableEq, Repr

def Phase.text : Phase → String
  | .connect => "open"
  | .begin => "begin"
  | .query => "query"
  | .exec => "exec"
  | .commit => "commit"

inductive Error where
  | emptyName
  | nonFiniteGauge (name : String)
  | counterOverflow (name : String)
  | noSnapshotPath
  | persistence (path : String)
  | emptySnapshot (path : String)
  | snapshotFormat
  | invalidDsn (dsn : String)
  | unreachable
  | backend (table : String) (phase : Phase)
  | consistency (table : String) (expected affected : Nat)
  deriving DecidableEq, Repr

namespace Error

def message : Error → String
  | emptyName => "Storage: empty metric name"
  | nonFiniteGauge name => "Storage: gauge " ++ name ++ " must be a finite number"
  | counterOverflow name => "Storage: counter " ++ name ++ " would overflow"
  | noSnapshotPath => "Storage: no snapshot file configured"
  | persistence path => "Storage: snapshot I/O on " ++ path ++ ": " ++ Cause.io.text
  | emptySnapshot path => "Storage: nothing was written to snapshot " ++ path
  | snapshotFormat => "Storage: snapshot format: " ++ Cause.json.text
  | invalidDsn dsn => "Storage: invalid database dsn '" ++ dsn ++ "'"
  | unreachable => "Storage: database unreachable: " ++ Cause.database.text
  | backend table phase =>
    "Storage: " ++ phase.text ++ " failed on " ++ table ++ ": " ++ Cause.database.text
  | consistency table expected affected =>
    "Storage: batch on " ++ table ++ " affected " ++ toString affected ++ " rows instead of " ++
      toString expected

/-- Errors of the snapshot file: the metrics themselves were stored. -/
def isPersistence : Error → Bool
  | noSnapshotPath | persistence _ | emptySnapshot _ | snapshotFormat => true
  | _ => false

end Error

end Telemetry.Storage
