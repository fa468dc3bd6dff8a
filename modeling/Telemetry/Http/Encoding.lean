import Telemetry.Http.Message
import Telemetry.Text.Blank
import Telemetry.Text.Split
/-!
Choosing how a response is packed from what the client accepts.

The client lists codings with weights between 0 and 1. Of those that are known and have a weight
above zero the heaviest is taken; gzip goes before no packing at all.
-/

namespace Telemetry.Http

inductive Coding where
  | identity
  | gzip
  deriving DecidableEq, Repr

def Coding.ofName? (name : String) : Option Coding :=
  match lowerAscii name with
  | "gzip" | "x-gzip" => some .gzip
  | "identity" => some .identity
  | _ => none

/-- The digits behind the point of a weight, in thousandths; at most three. -/
def weightDigits (value factor : Nat) : List Char → Option Nat
  | [] => if value ≤ 1000 then some value else none
  | c :: cs =>
    if '0' ≤ c ∧ c ≤ '9' ∧ 0 < factor then
      weightDigits (value + factor * (c.toNat - '0'.toNat)) (factor / 10) cs
    else none

def weight? : List Char → Option Nat
  | q :: '=' :: unit :: rest =>
    if (q = 'q' ∨ q = 'Q') ∧ (unit = '0' ∨ unit = '1') then
      let value := if unit = '1' then 1000 else 0
      match rest with
      | [] => some value
      | '.' :: digits => weightDigits value 100 digits
      | _ => none
    else none
  | _ => none

def acceptedEntry? (entry : List Char) : Option (Coding × Nat) := do
  let name := entry.takeWhile (· ≠ ';')
  let coding ← Coding.ofName? (trim (String.ofList name))
  match entry.drop name.length with
  | [] => return (coding, 1000)
  | _ :: weight => return (coding, ← weight? (trimChars weight))

def accepted (r : Request) : List (Coding × Nat) :=
  let texts := (r.values "accept-encoding").filterMap textOf?
  ((texts.flatMap fun t => splitChars ',' t.toList).filterMap acceptedEntry?).filter fun e => 0 < e.2

def prefersGzip (r : Request) : Bool :=
  let weightOf (c : Coding) := ((accepted r).filter fun e => e.1 = c).foldl (fun w e => max w e.2) 0
  0 < weightOf .gzip && weightOf .identity ≤ weightOf .gzip

end Telemetry.Http
