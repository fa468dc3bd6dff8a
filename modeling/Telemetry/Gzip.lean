import Telemetry.Crc32
import Telemetry.Deflate.Block
/-!
Packed content as a sequence of members, each with a head in front and with its checksum and length
behind.
-/

namespace Telemetry.Gzip

/-- The flags that say what else is in the head. -/
def hasChecksum (flags : UInt8) : Bool := flags &&& 0x02 ≠ 0
def hasExtra (flags : UInt8) : Bool := flags &&& 0x04 ≠ 0
def hasName (flags : UInt8) : Bool := flags &&& 0x08 ≠ 0
def hasComment (flags : UInt8) : Bool := flags &&& 0x10 ≠ 0

def behind? (count : Nat) (bytes : Bytes) : Option Bytes :=
  if count ≤ bytes.length then some (bytes.drop count) else none

def behindExtra? : Bytes → Option Bytes
  | a :: b :: bytes => behind? (a.toNat + 256 * b.toNat) bytes
  | _ => none

def behindText? (bytes : Bytes) : Option Bytes :=
  behind? 1 (bytes.dropWhile fun b => b ≠ 0)

def behindOptional? (present : Bool) (field? : Bytes → Option Bytes) (bytes : Bytes) : Option Bytes :=
  if present then field? bytes else some bytes

def behindHead? : Bytes → Option Bytes
  | 0x1F :: 0x8B :: 0x08 :: flags :: rest => do
    let rest ← behind? 6 rest
    let rest ← behindOptional? (hasExtra flags) behindExtra? rest
    let rest ← behindOptional? (hasName flags) behindText? rest
    let rest ← behindOptional? (hasComment flags) behindText? rest
    behindOptional? (hasChecksum flags) (behind? 2) rest
  | _ => none

def word (a b c d : UInt8) : UInt32 :=
  a.toUInt32 ||| (b.toUInt32 <<< 8) ||| (c.toUInt32 <<< 16) ||| (d.toUInt32 <<< 24)

def confirms (content : Bytes) : Bytes → Bool
  | a :: b :: c :: d :: e :: f :: g :: h :: _ =>
    Crc32.checksum content = word a b c d && UInt32.ofNat content.length = word e f g h
  | _ => false

def behindTrailer (bytes : Bytes) : Bytes := bytes.drop 8

/-- The content of the member at the beginning of some bytes, and what is behind the member. With more
than `limit` bytes of content it is not read to its end. -/
def member? (limit : Nat) (bytes : Bytes) : Option (Bytes × Option Bytes) := do
  match Deflate.unpack limit (← behindHead? bytes) with
  | .malformed => none
  | .cut out => some (out.toList, none)
  | .done out rest =>
    if confirms out.toList rest then some (out.toList, some (behindTrailer rest)) else none

/-- Reads as many members at most, one behind the other; what is behind them is passed over. -/
def members? : Nat → Nat → Bytes → Option Bytes
  | _, _, [] => some []
  | 0, _, _ :: _ => some []
  | count + 1, limit, bytes => do
    match ← member? limit bytes with
    | (content, none) => some content
    | (content, some rest) => (members? count (limit - content.length) rest).map (content ++ ·)

/-- Which members a decoder reads. In a message one is usual, and some decoders leave it at that. -/
inductive Extent where
  | first
  | all
  deriving DecidableEq, Repr

/-- Every member has bytes of its own, so there are no more of them than bytes. -/
def Extent.most : Extent → Bytes → Nat
  | .first, _ => 1
  | .all, bytes => bytes.length

/-- The content of some bytes; where they are no member they cannot be read. What has more than `limit`
bytes is not read to its end. -/
def content? (extent : Extent) (limit : Nat) (bytes : Bytes) : Option Bytes :=
  members? (extent.most bytes) limit bytes

end Telemetry.Gzip
