import Telemetry.Text.Blank
import Telemetry.Text.Lowercase
/-!
The two kinds of metrics. Writing a gauge replaces its value, writing a counter adds to it.
-/

namespace Telemetry

inductive Kind where
  | gauge
  | counter
  deriving DecidableEq, Repr

namespace Kind

def text : Kind → String
  | .gauge => "gauge"
  | .counter => "counter"

/-- Blanks around the word and the case of its letters do not count. -/
def ofText? (s : String) : Option Kind :=
  let word := lowerAscii (trim s)
  if word = "gauge" then some .gauge else if word = "counter" then some .counter else none

end Kind

end Telemetry
