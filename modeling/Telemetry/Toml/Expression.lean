import Telemetry.Toml.Scalar
import Telemetry.Toml.Table
/-!
Keys and values as they stand in a TOML document.

Arrays may run over several lines, inline tables may not. Values are read to a given depth of
brackets; a document that goes deeper is refused.
-/

namespace Telemetry.Toml

/-- How many names a key may have, and how deep brackets may be nested. -/
def depthLimit : Nat := 79

def isBareKeyChar (c : Char) : Bool := c.isAlphanum || c = '-' || c = '_'

def scanName : List Char → Option (String × List Char)
  | '"' :: rest => scanBasic [] rest
  | '\'' :: rest => scanLiteral [] rest
  | cs =>
    let name := cs.takeWhile isBareKeyChar
    if name = [] then none else some (String.ofList name, cs.dropWhile isBareKeyChar)

/-- The names of a key with the points between them, and what follows; `acc` holds the names so far,
last first. Blanks may stand around each name. -/
def scanNames (acc : List String) : Nat → List Char → Option (List String × List Char)
  | 0, _ => none
  | limit + 1, cs =>
    match scanName (cs.dropWhile isGap) with
    | none => none
    | some (name, rest) =>
      match rest.dropWhile isGap with
      | '.' :: rest => scanNames (name :: acc) limit rest
      | rest => some ((name :: acc).reverse, rest)

def scanKey (cs : List Char) : Option (Key × List Char) := do
  let (names, rest) ← scanNames [] depthLimit cs
  return (⟨names.dropLast, ← names.getLast?⟩, rest)

def skipLines (comment : Bool) : List Char → Option (List Char)
  | [] => some []
  | c :: rest =>
    if comment then
      if c = '\n' then skipLines false rest else if isPlain c then skipLines true rest else none
    else if c = '#' then skipLines true rest
    else if c = '\n' ∨ isGap c then skipLines false rest
    else some (c :: rest)

abbrev Scan := List Char → Option (Value × List Char)

def scanItems (item : Scan) (acc : List Value) : Nat → Scan
  | 0, _ => none
  | fuel + 1, cs =>
    match skipLines false cs with
    | none => none
    | some (']' :: rest) => some (.array acc.reverse, rest)
    | some cs =>
      match (item cs).bind fun (v, rest) => (skipLines false rest).map fun rest => (v, rest) with
      | some (v, ',' :: rest) => scanItems item (v :: acc) fuel rest
      | some (v, ']' :: rest) => some (.array (v :: acc).reverse, rest)
      | _ => none

def scanPairWith (item : Scan) (cs : List Char) : Option (Key × Value × List Char) := do
  let (key, rest) ← scanKey cs
  let rest ← skip? '=' rest
  let (v, rest) ← item (rest.dropWhile isGap)
  return (key, v, rest.dropWhile isGap)

def scanPairs (item : Scan) (acc : List (Key × Value)) : Nat → Scan
  | 0, _ => none
  | fuel + 1, cs =>
    match scanPairWith item cs with
    | some (key, v, ',' :: rest) => scanPairs item ((key, v) :: acc) fuel rest
    | some (key, v, '}' :: rest) => (inlineTable? ((key, v) :: acc).reverse).map fun v => (v, rest)
    | _ => none

def scanInlineTable (item : Scan) (cs : List Char) : Option (Value × List Char) :=
  match cs.dropWhile isGap with
  | '}' :: rest => some (.table .inline [], rest)
  | cs => scanPairs item [] cs.length cs

def isWordChar (c : Char) : Bool := !([' ', '\t', '\n', '#', ',', ']', '}'].contains c)

/-- A value without brackets or quotes. A date and a time may have a blank between them. -/
def scanScalar : Scan := fun cs =>
  let word := cs.takeWhile isWordChar
  let rest := cs.dropWhile isWordChar
  match afterDate? word, rest with
  | some [], ' ' :: c :: more =>
    if isDigit c then
      let time := (c :: more).takeWhile isWordChar
      (scalar? (word ++ ' ' :: time)).map fun v => (v, (c :: more).dropWhile isWordChar)
    else (scalar? word).map fun v => (v, rest)
  | _, _ => (scalar? word).map fun v => (v, rest)

def asText : Option (String × List Char) → Option (Value × List Char) :=
  Option.map fun (s, rest) => (.text s, rest)

/-- The value at the front, with at most `depth` brackets around its innermost part. -/
def scanValue : Nat → Scan
  | _, '"' :: '"' :: '"' :: rest => asText (scanBasicLines .text [] (afterOpening rest))
  | _, '"' :: rest => asText (scanBasic [] rest)
  | _, '\'' :: '\'' :: '\'' :: rest => asText (scanLiteralLines [] (afterOpening rest))
  | _, '\'' :: rest => asText (scanLiteral [] rest)
  | depth, cs =>
    match depth, cs with
    | depth + 1, '[' :: rest => scanItems (scanValue depth) [] (rest.length + 1) rest
    | depth + 1, '{' :: rest => scanInlineTable (scanValue depth) rest
    | _, cs => scanScalar cs

end Telemetry.Toml
