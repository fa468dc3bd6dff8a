import Telemetry.Toml.Value
/-!
Adding to tables. Every name is defined once; what may be added later depends on how a table was
made.
-/

namespace Telemetry.Toml

/-- The names of a key: those that lead to a table, and the one defined in it. -/
structure Key where
  parents : List String
  name : String
  deriving DecidableEq, Repr

/-- Whether the names of a heading or of a dotted key may lead through a table; `via` is the manner
of the tables that they make on the way. A dotted key does not reach into what has a heading. -/
def Manner.admits (via : Manner) : Manner → Bool
  | .inline => false
  | .headed => via ≠ .dotted
  | .implied | .dotted => true

namespace Entries

def replace (name : String) (v : Value) : Entries → Entries
  | [] => [(name, v)]
  | e :: rest => if e.1 = name then (name, v) :: rest else e :: replace name v rest

/-- Changes the table that names lead to. Tables that are missing on the way are made in the manner
`via`; of several tables of one name the newest is meant. -/
def alter? (via : Manner) (change : Manner → Entries → Option Entries) :
    List String → Manner → Entries → Option Entries
  | [], manner, entries => change manner entries
  | name :: names, _, entries =>
    match entries.lookup name with
    | none => (alter? via change names via []).map fun es => entries.replace name (.table via es)
    | some (.table manner inner) =>
      if via.admits manner then
        (alter? via change names manner inner).map fun es => entries.replace name (.table manner es)
      else none
    | some (.tables (newest :: older)) =>
      (alter? via change names .headed newest).map fun es =>
        entries.replace name (.tables (es :: older))
    | _ => none

/-- Defines a key. A table that a dotted key leads to must itself come from dotted keys. -/
def define? (key : Key) (v : Value) : Manner → Entries → Option Entries :=
  alter? .dotted (fun manner entries =>
    if (manner = .dotted) ≠ (key.parents = []) ∧ (entries.lookup key.name).isNone then
      some (entries ++ [(key.name, v)])
    else none) key.parents

def open? (key : Key) (root : Entries) : Option Entries :=
  alter? .implied (fun _ entries =>
    match entries.lookup key.name with
    | none => some (entries ++ [(key.name, .table .headed [])])
    | some (.table .implied inner) => some (entries.replace key.name (.table .headed inner))
    | _ => none) key.parents .headed root

def append? (key : Key) (root : Entries) : Option Entries :=
  alter? .implied (fun _ entries =>
    match entries.lookup key.name with
    | none => some (entries ++ [(key.name, .tables [[]])])
    | some (.tables elements) => some (entries.replace key.name (.tables ([] :: elements)))
    | _ => none) key.parents .headed root

def defineUnder? (heading : List String) (key : Key) (v : Value) (root : Entries) :
    Option Entries :=
  alter? .implied (define? key v) heading .headed root

end Entries

def inlineTable? (pairs : List (Key × Value)) : Option Value :=
  (pairs.foldlM (fun entries p => Entries.define? p.1 p.2 .inline entries) ([] : Entries)).map
    (Value.table .inline)

end Telemetry.Toml
