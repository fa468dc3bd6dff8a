/-!
Causes that lie outside the rules of the library. They are not told apart further; a message names
where they come from.
-/

namespace Telemetry

inductive Cause where
  | json
  | database
  | io
  | http
  deriving DecidableEq, Repr

def Cause.text : Cause → String
  | .json => "the text is not of the expected form"
  | .database => "the database reports a failure"
  | .io => "the system reports a failure"
  | .http => "the server cannot be reached"

end Telemetry
