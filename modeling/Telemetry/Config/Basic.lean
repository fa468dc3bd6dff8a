import Telemetry.NameMap
import Telemetry.Text.Blank
import Telemetry.Toml.Document
/-!
Settings from a file and from the environment.

A file gives values by name; names that nobody asks for are passed over, a value of the wrong type
makes the file unreadable. What the environment sets goes before the file.
-/

namespace Telemetry.Config

inductive Error where
  | unreadable (path : String)
  | notSeconds (name raw : String)
  | notFlag (name raw : String)
  | notPositive (setting : String)
  deriving DecidableEq, Repr

def Error.message : Error → String
  | .unreadable path => "failed to load config '" ++ path ++ "'"
  | .notSeconds name raw => name ++ " must be whole seconds, got '" ++ raw ++ "'"
  | .notFlag name raw => name ++ " must be true or false, got '" ++ raw ++ "'"
  | .notPositive setting => setting ++ " must be positive"

/-- A file that is named on the command line; one that cannot be read has no bytes. -/
structure File where
  path : String
  bytes : Option Bytes

def ofFile {α : Type} (read : Toml.Entries → Option α) (standard : α) :
    Option File → Except Error α
  | none => .ok standard
  | some file =>
    match (file.bytes.bind Toml.ofBytes?).bind read with
    | some config => .ok config
    | none => .error (.unreadable file.path)

def text? : Toml.Value → Option String
  | .text s => some s
  | _ => none

def whole? : Toml.Value → Option Nat
  | .integer n => if n.val < 0 then none else some n.val.toNat
  | _ => none

def flag? : Toml.Value → Option Bool
  | .flag b => some b
  | _ => none

/-- The value of a name in the file, or the standard one if the name is not there. -/
def setting? {α : Type} (read : Toml.Value → Option α) (standard : α) (name : String)
    (entries : Toml.Entries) : Option α :=
  match entries.lookup name with
  | none => some standard
  | some v => read v

abbrev Environment := NameMap String

namespace Environment

def text (env : Environment) (name : String) (before : String) : String :=
  (env[name]?).getD before

/-- Blanks alone take a setting away. -/
def optionalText (env : Environment) (name : String) (before : Option String) : Option String :=
  match env[name]? with
  | none => before
  | some raw => if isBlankText raw then none else some raw

def seconds (env : Environment) (name : String) (before : Nat) : Except Error Nat :=
  match env[name]? with
  | none => .ok before
  | some raw =>
    match unsigned64? (trim raw) with
    | some n => .ok n
    | none => .error (.notSeconds name raw)

def flag (env : Environment) (name : String) (before : Bool) : Except Error Bool :=
  match env[name]? with
  | none => .ok before
  | some raw =>
    if trim raw = "true" then .ok true
    else if trim raw = "false" then .ok false
    else .error (.notFlag name raw)

end Environment

end Telemetry.Config
