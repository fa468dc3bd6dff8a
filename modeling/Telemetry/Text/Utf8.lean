/-!
UTF-8 as a writer of characters and a byte machine that reads them back.

The machine takes one byte at a time. After a leading byte it knows how many bytes are missing and
which range the next one must fall into, so overlong forms, surrogates and values above U+10FFFF
stop it at the first byte that cannot belong to a character.
-/

namespace Telemetry

/-- Octets as they travel in bodies, header values and files. -/
abbrev Bytes := List UInt8

namespace Utf8

def encodeChar (c : Char) : Bytes :=
  let n := c.toNat
  if n < 0x80 then [UInt8.ofNat n]
  else if n < 0x800 then [UInt8.ofNat (0xC0 + n / 0x40), UInt8.ofNat (0x80 + n % 0x40)]
  else if n < 0x10000 then
    [UInt8.ofNat (0xE0 + n / 0x1000), UInt8.ofNat (0x80 + n / 0x40 % 0x40),
      UInt8.ofNat (0x80 + n % 0x40)]
  else
    [UInt8.ofNat (0xF0 + n / 0x40000), UInt8.ofNat (0x80 + n / 0x1000 % 0x40),
      UInt8.ofNat (0x80 + n / 0x40 % 0x40), UInt8.ofNat (0x80 + n % 0x40)]

def encodeChars (cs : List Char) : Bytes := cs.flatMap encodeChar
def encode (s : String) : Bytes := encodeChars s.toList

/-- A character some of whose bytes are still to come: the value so far, the number of missing
bytes, and the range of the next one. -/
structure Pending where
  value : Nat
  missing : Nat
  low : Nat
  high : Nat
  deriving DecidableEq, Repr

inductive Progress where
  | char (c : Char)
  | more (p : Pending)
  | malformed
  deriving DecidableEq, Repr

def start (b : UInt8) : Progress :=
  let n := b.toNat
  if n < 0x80 then .char (Char.ofNat n)
  else if n < 0xC2 then .malformed
  else if n < 0xE0 then .more ⟨n - 0xC0, 1, 0x80, 0xBF⟩
  else if n < 0xF0 then
    .more ⟨n - 0xE0, 2, if n = 0xE0 then 0xA0 else 0x80, if n = 0xED then 0x9F else 0xBF⟩
  else if n < 0xF5 then
    .more ⟨n - 0xF0, 3, if n = 0xF0 then 0x90 else 0x80, if n = 0xF4 then 0x8F else 0xBF⟩
  else .malformed

def Pending.take (p : Pending) (b : UInt8) : Progress :=
  let n := b.toNat
  if n < p.low ∨ p.high < n then .malformed
  else
    let value := p.value * 0x40 + (n - 0x80)
    if p.missing ≤ 1 then .char (Char.ofNat value)
    else .more ⟨value, p.missing - 1, 0x80, 0xBF⟩

/-- Reads on from a state of the machine; `acc` holds the characters already read, last first. -/
def decodeFrom (acc : List Char) : Option Pending → Bytes → Option (List Char)
  | none, [] => some acc.reverse
  | some _, [] => none
  | none, b :: rest =>
    match start b with
    | .char c => decodeFrom (c :: acc) none rest
    | .more p => decodeFrom acc (some p) rest
    | .malformed => none
  | some p, b :: rest =>
    match p.take b with
    | .char c => decodeFrom (c :: acc) none rest
    | .more p => decodeFrom acc (some p) rest
    | .malformed => none

def decodeChars? (bytes : Bytes) : Option (List Char) := decodeFrom [] none bytes
def decode? (bytes : Bytes) : Option String := (decodeChars? bytes).map String.ofList

/-- Stands for bytes that belong to no character. -/
def replacement : Char := Char.ofNat 0xFFFD

/-- The characters that a start byte adds when nothing may fail, and the state after it. -/
def startLossy (acc : List Char) (b : UInt8) : List Char × Option Pending :=
  match start b with
  | .char c => (c :: acc, none)
  | .more p => (acc, some p)
  | .malformed => (replacement :: acc, none)

/-- As `decodeFrom`, writing one replacement character for each longest stretch of bytes that begins
a character without finishing it, and for each byte that begins none. -/
def decodeLossyFrom (acc : List Char) : Option Pending → Bytes → List Char
  | none, [] => acc.reverse
  | some _, [] => (replacement :: acc).reverse
  | none, b :: rest =>
    let (acc, state) := startLossy acc b
    decodeLossyFrom acc state rest
  | some p, b :: rest =>
    match p.take b with
    | .char c => decodeLossyFrom (c :: acc) none rest
    | .more p => decodeLossyFrom acc (some p) rest
    | .malformed =>
      let (acc, state) := startLossy (replacement :: acc) b
      decodeLossyFrom acc state rest

def decodeLossy (bytes : Bytes) : String := String.ofList (decodeLossyFrom [] none bytes)

end Utf8

end Telemetry
