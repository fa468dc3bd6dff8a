import Telemetry.Text.Hex
import Telemetry.Toml.Value
/-!
Strings in a TOML document: between quotation marks with escapes, between apostrophes without; on
one line, or between three marks over several lines. A line break is one character, LF.
-/

namespace Telemetry.Toml

/-- What may stand anywhere in a line: no control character but the tab. -/
def isPlain (c : Char) : Bool := c = '\t' || (' ' ≤ c && c.toNat ≠ 0x7F)

def isGap (c : Char) : Bool := c = ' ' || c = '\t'

def escapedChar? (c : Char) : Option Char :=
  match c with
  | '"' => some '"'
  | '\\' => some '\\'
  | 'b' => some '\x08'
  | 't' => some '\t'
  | 'n' => some '\n'
  | 'f' => some '\x0c'
  | 'r' => some '\r'
  | _ => none

def charOfHex? (digits : List Char) : Option Char := do
  let n ← digits.foldlM (fun n c => (hexValue? c).map (16 * n + ·)) 0
  if n.isValidChar then some (Char.ofNat n) else none

/-- The text up to the closing quotation mark, and what follows it; `acc` holds the characters so
far, last first. -/
def scanBasic (acc : List Char) : List Char → Option (String × List Char)
  | [] => none
  | c :: rest =>
    if c = '"' then some (String.ofList acc.reverse, rest)
    else if c = '\\' then
      match rest with
      | 'u' :: a :: b :: c :: d :: rest =>
        match charOfHex? [a, b, c, d] with
        | some c => scanBasic (c :: acc) rest
        | none => none
      | 'U' :: a :: b :: c :: d :: e :: f :: g :: h :: rest =>
        match charOfHex? [a, b, c, d, e, f, g, h] with
        | some c => scanBasic (c :: acc) rest
        | none => none
      | e :: rest =>
        match escapedChar? e with
        | some c => scanBasic (c :: acc) rest
        | none => none
      | [] => none
    else if isPlain c then scanBasic (c :: acc) rest
    else none

/-- Where a string of several lines is: in its text, behind a backslash that must end its line, or in
the blank space after such a line. -/
inductive Fold where
  | text
  | lineEnd
  | margin
  deriving DecidableEq, Repr

/-- As `scanBasic`, for three quotation marks. One or two of them may stand before the closing
three. -/
def scanBasicLines (fold : Fold) (acc : List Char) : List Char → Option (String × List Char)
  | [] => none
  | c :: rest =>
    if c = '\n' then
      if fold = .text then scanBasicLines .text ('\n' :: acc) rest
      else scanBasicLines .margin acc rest
    else if isGap c ∧ fold ≠ .text then scanBasicLines fold acc rest
    else if fold = .lineEnd then none
    else if c = '"' then
      match rest with
      | '"' :: '"' :: '"' :: '"' :: rest => some (String.ofList ('"' :: '"' :: acc).reverse, rest)
      | '"' :: '"' :: '"' :: rest => some (String.ofList ('"' :: acc).reverse, rest)
      | '"' :: '"' :: rest => some (String.ofList acc.reverse, rest)
      | rest => scanBasicLines .text ('"' :: acc) rest
    else if c = '\\' then
      match rest with
      | 'u' :: a :: b :: c :: d :: rest =>
        match charOfHex? [a, b, c, d] with
        | some c => scanBasicLines .text (c :: acc) rest
        | none => none
      | 'U' :: a :: b :: c :: d :: e :: f :: g :: h :: rest =>
        match charOfHex? [a, b, c, d, e, f, g, h] with
        | some c => scanBasicLines .text (c :: acc) rest
        | none => none
      | e :: rest =>
        if e = '\n' then scanBasicLines .margin acc rest
        else if isGap e then scanBasicLines .lineEnd acc rest
        else
          match escapedChar? e with
          | some c => scanBasicLines .text (c :: acc) rest
          | none => none
      | [] => none
    else if isPlain c then scanBasicLines .text (c :: acc) rest
    else none

def scanLiteral (acc : List Char) : List Char → Option (String × List Char)
  | [] => none
  | c :: rest =>
    if c = '\'' then some (String.ofList acc.reverse, rest)
    else if isPlain c then scanLiteral (c :: acc) rest
    else none

def scanLiteralLines (acc : List Char) : List Char → Option (String × List Char)
  | [] => none
  | c :: rest =>
    if c = '\'' then
      match rest with
      | '\'' :: '\'' :: '\'' :: '\'' :: rest =>
        some (String.ofList ('\'' :: '\'' :: acc).reverse, rest)
      | '\'' :: '\'' :: '\'' :: rest => some (String.ofList ('\'' :: acc).reverse, rest)
      | '\'' :: '\'' :: rest => some (String.ofList acc.reverse, rest)
      | rest => scanLiteralLines ('\'' :: acc) rest
    else if isPlain c ∨ c = '\n' then scanLiteralLines (c :: acc) rest
    else none

/-- A line break right after the opening marks does not count. -/
def afterOpening : List Char → List Char
  | '\n' :: rest => rest
  | rest => rest

end Telemetry.Toml
