import Telemetry.Text.Utf8
import Telemetry.Toml.Expression
/-!
TOML documents: lines that define keys and lines with headings, put together into one table.
-/

namespace Telemetry.Toml

inductive Statement where
  | pair (key : Key) (v : Value)
  | table (key : Key)
  | element (key : Key)

/-- Writes every line break as one character; `acc` holds the characters so far, last first. -/
def unifyBreaks (acc : List Char) : List Char → List Char
  | [] => acc.reverse
  | '\r' :: '\n' :: rest => unifyBreaks ('\n' :: acc) rest
  | c :: rest => unifyBreaks (c :: acc) rest

def endLine? (cs : List Char) : Option (List Char) :=
  let rest := match cs.dropWhile isGap with
    | '#' :: rest => rest.dropWhile isPlain
    | rest => rest
  match rest with
  | [] => some []
  | '\n' :: rest => some rest
  | _ => none

def scanHeading (close : List Char) (cs : List Char) : Option (Key × List Char) := do
  let (key, rest) ← scanKey cs
  return (key, ← close.isPrefixOf? rest)

def scanStatement : List Char → Option (Statement × List Char)
  | '[' :: '[' :: rest => (scanHeading [']', ']'] rest).map fun (key, rest) => (.element key, rest)
  | '[' :: rest => (scanHeading [']'] rest).map fun (key, rest) => (.table key, rest)
  | cs => (scanPairWith (scanValue depthLimit) cs).map fun (key, v, rest) => (.pair key v, rest)

/-- The statements of a document. Every one takes a character, so as many rounds as characters
suffice. -/
def statementsFrom (acc : List Statement) : Nat → List Char → Option (List Statement)
  | 0, cs => if cs = [] then some acc.reverse else none
  | fuel + 1, cs =>
    match cs.dropWhile isGap with
    | [] => some acc.reverse
    | '\n' :: rest => statementsFrom acc fuel rest
    | '#' :: rest => (endLine? ('#' :: rest)).bind (statementsFrom acc fuel)
    | cs =>
      match (scanStatement cs).bind fun (s, rest) => (endLine? rest).map fun rest => (s, rest) with
      | some (s, rest) => statementsFrom (s :: acc) fuel rest
      | none => none

/-- The byte order mark may stand in front. -/
def statements? (cs : List Char) : Option (List Statement) :=
  let cs := unifyBreaks [] cs
  let cs := if cs.head? = some (Char.ofNat 0xFEFF) then cs.drop 1 else cs
  statementsFrom [] cs.length cs

/-- The document so far, and the names of the heading that holds. -/
structure Draft where
  root : Entries
  heading : List String

def Draft.add? (d : Draft) : Statement → Option Draft
  | .pair key v => (d.root.defineUnder? d.heading key v).map fun root => { d with root }
  | .table key => (d.root.open? key).map fun root => ⟨root, key.parents ++ [key.name]⟩
  | .element key => (d.root.append? key).map fun root => ⟨root, key.parents ++ [key.name]⟩

def ofChars? (cs : List Char) : Option Entries := do
  return (← (← statements? cs).foldlM Draft.add? ⟨[], []⟩).root

def ofBytes? (bytes : Bytes) : Option Entries := (Utf8.decodeChars? bytes).bind ofChars?

end Telemetry.Toml
