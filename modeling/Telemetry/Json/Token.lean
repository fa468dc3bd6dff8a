import Telemetry.Json.Quoted
import Telemetry.Numeral
/-!
The tokens of a JSON text, read from bytes and written to bytes.

Numbers keep their spelling, so a number that is skipped has no range. A string that is no text is
a token too: it may be skipped, but it has no value.
-/

namespace Telemetry.Json

inductive Token where
  | openObject
  | closeObject
  | openArray
  | closeArray
  | colon
  | comma
  | null
  | bool (b : Bool)
  | number (n : Numeral)
  | string (text : Option String)
  deriving DecidableEq, Repr

def isSpace (b : UInt8) : Bool := b = 0x20 || b = 0x09 || b = 0x0A || b = 0x0D

def isDigitByte (b : UInt8) : Bool := 0x30 ≤ b && b ≤ 0x39

def scanDigits (bytes : Bytes) : List Char × Bytes :=
  ((bytes.takeWhile isDigitByte).map Char.ofUInt8, bytes.dropWhile isDigitByte)

/-- Digits without a needless zero in front. -/
def isWhole : List Char → Bool
  | [] => false
  | ['0'] => true
  | '0' :: _ => false
  | _ => true

/-- A point must be followed by a digit; without a point the fraction is empty. -/
def scanFraction : Bytes → Option (List Char × Bytes)
  | 0x2E :: rest =>
    let (digits, rest) := scanDigits rest
    if digits = [] then none else some (digits, rest)
  | rest => some ([], rest)

def scanSign : Bytes → Option Sign × Bytes
  | 0x2B :: rest => (some .plus, rest)
  | 0x2D :: rest => (some .minus, rest)
  | rest => (none, rest)

def scanExponent : Bytes → Option (Option (Option Sign × List Char) × Bytes)
  | [] => some (none, [])
  | e :: rest =>
    if e = 0x65 ∨ e = 0x45 then
      let (sign, rest) := scanSign rest
      let (digits, rest) := scanDigits rest
      if digits = [] then none else some (some (sign, digits), rest)
    else some (none, e :: rest)

def scanNumber (negative : Bool) (bytes : Bytes) : Option (Token × Bytes) := do
  let (whole, rest) := scanDigits bytes
  if !isWhole whole then none
  let (fraction, rest) ← scanFraction rest
  let (exponent, rest) ← scanExponent rest
  return (.number ⟨negative, whole, fraction, exponent⟩, rest)

def Token.fixed? : Char → Option (List Char × Token)
  | '{' => some ([], .openObject)
  | '}' => some ([], .closeObject)
  | '[' => some ([], .openArray)
  | ']' => some ([], .closeArray)
  | ':' => some ([], .colon)
  | ',' => some ([], .comma)
  | 'n' => some (['u', 'l', 'l'], .null)
  | 't' => some (['r', 'u', 'e'], .bool true)
  | 'f' => some (['a', 'l', 's', 'e'], .bool false)
  | _ => none

def scanToken : Bytes → Option (Token × Bytes)
  | [] => none
  | b :: rest =>
    if b = 0x22 then (scanQuoted [] rest).map fun (pieces, rest) => (.string (join? pieces), rest)
    else if b = 0x2D then scanNumber true rest
    else if isDigitByte b then scanNumber false (b :: rest)
    else do
      let (spelling, token) ← Token.fixed? (Char.ofUInt8 b)
      let rest ← (Utf8.encodeChars spelling).isPrefixOf? rest
      return (token, rest)

/-- The tokens of a whole text. Every token takes a byte, so as many rounds as bytes suffice. -/
def tokensFrom (acc : List Token) : Nat → Bytes → Option (List Token)
  | fuel, bytes =>
    match bytes.dropWhile isSpace, fuel with
    | [], _ => some acc.reverse
    | _ :: _, 0 => none
    | bytes, fuel + 1 =>
      match scanToken bytes with
      | some (token, rest) => tokensFrom (token :: acc) fuel rest
      | none => none

def tokens? (bytes : Bytes) : Option (List Token) := tokensFrom [] bytes.length bytes

/-- A string without a value is written as an escape that stands for no character. -/
def unreadable : Bytes := Utf8.encodeChars ['"', '\\', 'u', 'd', '8', '0', '0', '"']

def Token.bytes : Token → Bytes
  | .openObject => [0x7B]
  | .closeObject => [0x7D]
  | .openArray => [0x5B]
  | .closeArray => [0x5D]
  | .colon => [0x3A]
  | .comma => [0x2C]
  | .null => Utf8.encodeChars ['n', 'u', 'l', 'l']
  | .bool true => Utf8.encodeChars ['t', 'r', 'u', 'e']
  | .bool false => Utf8.encodeChars ['f', 'a', 'l', 's', 'e']
  | .number n => Utf8.encodeChars n.chars
  | .string none => unreadable
  | .string (some s) => quote s

end Telemetry.Json
