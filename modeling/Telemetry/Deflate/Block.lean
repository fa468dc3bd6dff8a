import Telemetry.Deflate.PrefixCode
/-!
Packed data as a sequence of blocks, and the bytes they stand for.

A block holds bytes as they are, or words of two prefix codes: single bytes, and copies of bytes that
came before. Its codes are fixed, or given at its beginning by a third code.
-/

namespace Telemetry.Deflate

inductive Item where
  | byte (b : UInt8)
  | copy (length distance : Nat)
  | stop
  deriving DecidableEq, Repr

structure Codes where
  items : PrefixCode
  distances : PrefixCode

/-- The least value of a symbol, and the number of bits that are added to it. -/
structure Range where
  least : Nat
  bits : Nat
  deriving DecidableEq, Repr

def lengthRanges : Array Range :=
  #[⟨3, 0⟩, ⟨4, 0⟩, ⟨5, 0⟩, ⟨6, 0⟩, ⟨7, 0⟩, ⟨8, 0⟩, ⟨9, 0⟩, ⟨10, 0⟩, ⟨11, 1⟩, ⟨13, 1⟩, ⟨15, 1⟩, ⟨17, 1⟩,
    ⟨19, 2⟩, ⟨23, 2⟩, ⟨27, 2⟩, ⟨31, 2⟩, ⟨35, 3⟩, ⟨43, 3⟩, ⟨51, 3⟩, ⟨59, 3⟩, ⟨67, 4⟩, ⟨83, 4⟩, ⟨99, 4⟩,
    ⟨115, 4⟩, ⟨131, 5⟩, ⟨163, 5⟩, ⟨195, 5⟩, ⟨227, 5⟩, ⟨258, 0⟩]

def distanceRanges : Array Range :=
  #[⟨1, 0⟩, ⟨2, 0⟩, ⟨3, 0⟩, ⟨4, 0⟩, ⟨5, 1⟩, ⟨7, 1⟩, ⟨9, 2⟩, ⟨13, 2⟩, ⟨17, 3⟩, ⟨25, 3⟩, ⟨33, 4⟩, ⟨49, 4⟩,
    ⟨65, 5⟩, ⟨97, 5⟩, ⟨129, 6⟩, ⟨193, 6⟩, ⟨257, 7⟩, ⟨385, 7⟩, ⟨513, 8⟩, ⟨769, 8⟩, ⟨1025, 9⟩, ⟨1537, 9⟩,
    ⟨2049, 10⟩, ⟨3073, 10⟩, ⟨4097, 11⟩, ⟨6145, 11⟩, ⟨8193, 12⟩, ⟨12289, 12⟩, ⟨16385, 13⟩, ⟨24577, 13⟩]

def Range.number? (r : Range) (s : Bits) : Option (Nat × Bits) :=
  (s.number? r.bits).map fun e => (r.least + e.1, e.2)

/-- The symbol that ends a block; those above it are lengths, those below it bytes. -/
def stopSymbol : Nat := 256

def Codes.item? (c : Codes) (s : Bits) : Option (Item × Bits) := do
  let (symbol, s) ← c.items.symbol? s
  if symbol < stopSymbol then return (.byte (UInt8.ofNat symbol), s)
  else if symbol = stopSymbol then return (.stop, s)
  else
    let (length, s) ← (← lengthRanges[symbol - stopSymbol - 1]?).number? s
    let (symbol, s) ← c.distances.symbol? s
    let (distance, s) ← (← distanceRanges[symbol]?).number? s
    return (.copy length distance, s)

/-- Adds `count` bytes, each the one that came `distance` bytes before it. -/
def copyBack (distance : Nat) : Nat → Array UInt8 → Array UInt8
  | 0, out => out
  | count + 1, out => copyBack distance count (out.push (out.getD (out.size - distance) 0))

/-- How far unpacking came: to the end with the bytes behind it, to more bytes than are wanted, or to
what cannot be unpacked. -/
inductive Unpacked where
  | done (out : Array UInt8) (rest : Bytes)
  | cut (out : Array UInt8)
  | malformed
  deriving DecidableEq, Repr

inductive BlockEnd where
  | more (out : Array UInt8) (s : Bits)
  | cut (out : Array UInt8)
  | malformed

/-- Reads the words of a block; each takes one bit at least, so no more than `fuel` bits are left. -/
def unpackItems (limit : Nat) (c : Codes) : Nat → Array UInt8 → Bits → BlockEnd
  | 0, _, _ => .malformed
  | fuel + 1, out, s =>
    if limit < out.size then .cut out
    else
      match c.item? s with
      | none => .malformed
      | some (.stop, s) => .more out s
      | some (.byte b, s) => unpackItems limit c fuel (out.push b) s
      | some (.copy length distance, s) =>
        if out.size < distance then .malformed
        else unpackItems limit c fuel (copyBack distance length out) s

def Codes.unpack (c : Codes) (limit : Nat) (out : Array UInt8) (s : Bits) : BlockEnd :=
  unpackItems limit c (s.size + 1) out s

def appendBytes : Nat → Array UInt8 → Bytes → BlockEnd
  | 0, out, bytes => .more out (.ofBytes bytes)
  | count + 1, out, b :: bytes => appendBytes count (out.push b) bytes
  | _ + 1, _, [] => .malformed

/-- A block of bytes begins at a whole byte with their number, written once plainly and once with all
bits changed. -/
def unpackStored (out : Array UInt8) (s : Bits) : BlockEnd :=
  match s.bytes with
  | a :: b :: c :: d :: bytes =>
    if a ^^^ c = 0xFF ∧ b ^^^ d = 0xFF then appendBytes (a.toNat + 256 * b.toNat) out bytes
    else .malformed
  | _ => .malformed

def fixedCodes : Codes where
  items := .ofLengths (List.replicate 144 8 ++ List.replicate 112 9 ++ List.replicate 24 7 ++
    List.replicate 8 8)
  distances := .ofLengths (List.replicate 32 5)

def lengthOrder : List Nat :=
  [16, 17, 18, 0, 8, 7, 9, 6, 10, 5, 11, 4, 12, 3, 13, 2, 14, 1, 15]

def threeBits? : Nat → Bits → Option (List Nat × Bits)
  | 0, s => some ([], s)
  | count + 1, s => do
    let (n, s) ← s.number? 3
    let (ns, s) ← threeBits? count s
    return (n :: ns, s)

/-- What one word of the third code adds to the lengths, of which `last` is the last one. -/
def lengthRun? (code : PrefixCode) (last : Option Nat) (s : Bits) : Option (List Nat × Bits) := do
  let (symbol, s) ← code.symbol? s
  if symbol < 16 then return ([symbol], s)
  else
    let (repeated, range) ← match symbol with
      | 16 => last.map fun n => (n, (⟨3, 2⟩ : Range))
      | 17 => some (0, ⟨3, 3⟩)
      | _ => some (0, ⟨11, 7⟩)
    let (count, s) ← range.number? s
    return (List.replicate count repeated, s)

/-- The lengths of both codes, `missing` of them; `acc` holds those already read, last first. Every
word adds one at least. -/
def lengths? (code : PrefixCode) (acc : List Nat) (s : Bits) :
    Nat → Nat → Option (List Nat × Bits)
  | _, 0 => some (acc.reverse, s)
  | 0, _ + 1 => none
  | fuel + 1, missing + 1 => do
    let (run, s) ← lengthRun? code acc.head? s
    if missing + 1 < run.length then none
    else lengths? code (run.reverse ++ acc) s fuel (missing + 1 - run.length)

def codes? (s : Bits) : Option (Codes × Bits) := do
  let (items, s) ← Range.number? ⟨257, 5⟩ s
  let (distances, s) ← Range.number? ⟨1, 5⟩ s
  let (count, s) ← Range.number? ⟨4, 4⟩ s
  if 286 < items ∨ 30 < distances then none
  else
    let (widths, s) ← threeBits? count s
    let given := lengthOrder.zip widths
    let code := PrefixCode.ofLengths
      ((List.range lengthOrder.length).map fun symbol => (given.lookup symbol).getD 0)
    if !code.isComplete then none
    else
      let total := items + distances
      let (lengths, s) ← lengths? code [] s total total
      let codes : Codes := ⟨.ofLengths (lengths.take items), .ofLengths (lengths.drop items)⟩
      if codes.items.isUsable && codes.distances.isUsable then return (codes, s)
      else none

def unpackBlock (limit : Nat) (kind : Nat) (out : Array UInt8) (s : Bits) : BlockEnd :=
  match kind with
  | 0 => unpackStored out s
  | 1 => fixedCodes.unpack limit out s
  | 2 =>
    match codes? s with
    | some (codes, s) => codes.unpack limit out s
    | none => .malformed
  | _ => .malformed

/-- Unpacks block after block up to the one that is marked as the last. Every block takes three bits at
least, so there are no more than `fuel`. -/
def unpackBlocks (limit : Nat) : Nat → Array UInt8 → Bits → Unpacked
  | 0, _, _ => .malformed
  | fuel + 1, out, s =>
    match s.number? 3 with
    | none => .malformed
    | some (mark, s) =>
      match unpackBlock limit (mark / 2) out s with
      | .malformed => .malformed
      | .cut out => .cut out
      | .more out s =>
        if limit < out.size then .cut out
        else if mark % 2 = 1 then .done out s.bytes
        else unpackBlocks limit fuel out s

/-- Unpacks the data at the beginning of some bytes, but no more than a little over `limit` bytes. -/
def unpack (limit : Nat) (packed : Bytes) : Unpacked :=
  let s := Bits.ofBytes packed
  unpackBlocks limit (s.size + 1) #[] s

end Telemetry.Deflate
