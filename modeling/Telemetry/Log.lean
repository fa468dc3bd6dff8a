/-!
What a component reports about its work.
-/

namespace Telemetry.Log

inductive Level where
  | debug
  | info
  | warn
  | error
  deriving DecidableEq, Repr

def Level.text : Level → String
  | .debug => "DEBUG"
  | .info => "INFO"
  | .warn => "WARN"
  | .error => "ERROR"

structure Event where
  level : Level
  message : String
  fields : List (String × String)
  deriving DecidableEq, Repr

end Telemetry.Log
