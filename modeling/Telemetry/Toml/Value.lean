import Telemetry.Binary64.Basic
import Telemetry.Count
/-!
The values of a TOML document.

A table remembers how it came to be, because that decides what may still be added to it: a table that
a heading only passed through may get a heading of its own, a table made by a dotted key may grow
further dotted keys, and an inline table is complete.
-/

namespace Telemetry.Toml

inductive Manner where
  | headed
  | implied
  | dotted
  | inline
  deriving DecidableEq, Repr

/-- A `moment` is a date, a time or both, as written. The tables of `tables` each have a heading of
their own, last first. -/
inductive Value where
  | text (s : String)
  | integer (n : Count)
  | float (x : Binary64)
  | flag (b : Bool)
  | moment (written : List Char)
  | array (items : List Value)
  | table (manner : Manner) (entries : List (String × Value))
  | tables (elements : List (List (String × Value)))

abbrev Entries := List (String × Value)

end Telemetry.Toml
