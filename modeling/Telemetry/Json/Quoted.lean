import Telemetry.Text.Hex
import Telemetry.Text.Utf8
/-!
Strings between quotes.

Quotes, backslashes and control characters are escaped when written; reading accepts every escape of
the format. What a reader collects are pieces: bytes as they stand and units of sixteen bits from
escapes. Only a string that is kept has to be text, so pieces are joined after the scan.
-/

namespace Telemetry.Json

inductive Piece where
  | byte (b : UInt8)
  | unit (n : Nat)
  deriving DecidableEq, Repr

def isHighSurrogate (n : Nat) : Bool := 0xD800 ≤ n && n < 0xDC00
def isLowSurrogate (n : Nat) : Bool := 0xDC00 ≤ n && n < 0xE000

def surrogatePair (high low : Nat) : Char :=
  Char.ofNat (0x10000 + (high - 0xD800) * 0x400 + (low - 0xDC00))

/-- The bytes of the pieces; a surrogate must stand in a pair. `acc` holds the bytes so far, last
first. -/
def joinFrom (acc : Bytes) : List Piece → Option Bytes
  | [] => some acc.reverse
  | .byte b :: rest => joinFrom (b :: acc) rest
  | .unit high :: .unit low :: rest =>
    if isHighSurrogate high then
      if isLowSurrogate low then
        joinFrom ((Utf8.encodeChar (surrogatePair high low)).reverse ++ acc) rest
      else none
    else if isLowSurrogate high then none
    else joinFrom ((Utf8.encodeChar (Char.ofNat high)).reverse ++ acc) (.unit low :: rest)
  | .unit n :: rest =>
    if isHighSurrogate n || isLowSurrogate n then none
    else joinFrom ((Utf8.encodeChar (Char.ofNat n)).reverse ++ acc) rest

def join? (pieces : List Piece) : Option String := (joinFrom [] pieces).bind Utf8.decode?

def hexUnit? (a b c d : UInt8) : Option Nat := do
  return (← hexPair? (Char.ofUInt8 a) (Char.ofUInt8 b)) * 256 +
    (← hexPair? (Char.ofUInt8 c) (Char.ofUInt8 d))

def escaped? (c : Char) : Option UInt8 :=
  match c with
  | '"' => some 0x22
  | '\\' => some 0x5C
  | '/' => some 0x2F
  | 'b' => some 0x08
  | 'f' => some 0x0C
  | 'n' => some 0x0A
  | 'r' => some 0x0D
  | 't' => some 0x09
  | _ => none

def scanQuoted (acc : List Piece) : Bytes → Option (List Piece × Bytes)
  | [] => none
  | b :: rest =>
    if b = 0x22 then some (acc.reverse, rest)
    else if b = 0x5C then
      match rest with
      | [] => none
      | 0x75 :: a :: b :: c :: d :: rest =>
        match hexUnit? a b c d with
        | some n => scanQuoted (.unit n :: acc) rest
        | none => none
      | e :: rest =>
        match escaped? (Char.ofUInt8 e) with
        | some b => scanQuoted (.byte b :: acc) rest
        | none => none
    else if b < 0x20 then none
    else scanQuoted (.byte b :: acc) rest

def escapeByte (b : UInt8) : Bytes :=
  match b with
  | 0x22 => [0x5C, 0x22]
  | 0x5C => [0x5C, 0x5C]
  | 0x08 => [0x5C, 0x62]
  | 0x0C => [0x5C, 0x66]
  | 0x0A => [0x5C, 0x6E]
  | 0x0D => [0x5C, 0x72]
  | 0x09 => [0x5C, 0x74]
  | b =>
    if b < 0x20 then
      [0x5C, 0x75, 0x30, 0x30, (hexDigit (b.toNat / 16)).toUInt8, (hexDigit (b.toNat % 16)).toUInt8]
    else [b]

def quote (s : String) : Bytes := 0x22 :: (Utf8.encode s).flatMap escapeByte ++ [0x22]

end Telemetry.Json
