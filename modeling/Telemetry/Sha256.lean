import Telemetry.Text.Utf8
/-!
The SHA-256 digest of a byte string.

The message is padded to whole blocks of sixteen words. A block is worked off with a window of
sixteen words: each round uses the first, drops it and appends the next word of the schedule.
-/

namespace Telemetry.Sha256

/-- The eight working words. -/
structure Lanes where
  a : UInt32
  b : UInt32
  c : UInt32
  d : UInt32
  e : UInt32
  f : UInt32
  g : UInt32
  h : UInt32
  deriving DecidableEq

def rotateRight (x : UInt32) (n : UInt32) : UInt32 := (x >>> n) ||| (x <<< (32 - n))

def initial : Lanes :=
  ⟨0x6A09E667, 0xBB67AE85, 0x3C6EF372, 0xA54FF53A, 0x510E527F, 0x9B05688C, 0x1F83D9AB, 0x5BE0CD19⟩

def constants : List UInt32 :=
  [0x428A2F98, 0x71374491, 0xB5C0FBCF, 0xE9B5DBA5, 0x3956C25B, 0x59F111F1, 0x923F82A4, 0xAB1C5ED5,
    0xD807AA98, 0x12835B01, 0x243185BE, 0x550C7DC3, 0x72BE5D74, 0x80DEB1FE, 0x9BDC06A7, 0xC19BF174,
    0xE49B69C1, 0xEFBE4786, 0x0FC19DC6, 0x240CA1CC, 0x2DE92C6F, 0x4A7484AA, 0x5CB0A9DC, 0x76F988DA,
    0x983E5152, 0xA831C66D, 0xB00327C8, 0xBF597FC7, 0xC6E00BF3, 0xD5A79147, 0x06CA6351, 0x14292967,
    0x27B70A85, 0x2E1B2138, 0x4D2C6DFC, 0x53380D13, 0x650A7354, 0x766A0ABB, 0x81C2C92E, 0x92722C85,
    0xA2BFE8A1, 0xA81A664B, 0xC24B8B70, 0xC76C51A3, 0xD192E819, 0xD6990624, 0xF40E3585, 0x106AA070,
    0x19A4C116, 0x1E376C08, 0x2748774C, 0x34B0BCB5, 0x391C0CB3, 0x4ED8AA4A, 0x5B9CCA4F, 0x682E6FF3,
    0x748F82EE, 0x78A5636F, 0x84C87814, 0x8CC70208, 0x90BEFFFA, 0xA4506CEB, 0xBEF9A3F7, 0xC67178F2]

def Lanes.round (s : Lanes) (k w : UInt32) : Lanes :=
  let s1 := rotateRight s.e 6 ^^^ rotateRight s.e 11 ^^^ rotateRight s.e 25
  let choice := (s.e &&& s.f) ^^^ (~~~s.e &&& s.g)
  let t1 := s.h + s1 + choice + k + w
  let s0 := rotateRight s.a 2 ^^^ rotateRight s.a 13 ^^^ rotateRight s.a 22
  let majority := (s.a &&& s.b) ^^^ (s.a &&& s.c) ^^^ (s.b &&& s.c)
  ⟨t1 + (s0 + majority), s.a, s.b, s.c, s.d + t1, s.e, s.f, s.g⟩

def Lanes.add (s t : Lanes) : Lanes :=
  ⟨s.a + t.a, s.b + t.b, s.c + t.c, s.d + t.d, s.e + t.e, s.f + t.f, s.g + t.g, s.h + t.h⟩

def nextWord (w0 w1 w9 w14 : UInt32) : UInt32 :=
  w0 + (rotateRight w1 7 ^^^ rotateRight w1 18 ^^^ (w1 >>> 3)) + w9 +
    (rotateRight w14 17 ^^^ rotateRight w14 19 ^^^ (w14 >>> 10))

def rounds : List UInt32 → List UInt32 → Lanes → Lanes
  | k :: ks, w :: window, s =>
    let next := nextWord w (window.getD 0 0) (window.getD 8 0) (window.getD 13 0)
    rounds ks (window ++ [next]) (s.round k w)
  | _, _, s => s

def compress (s : Lanes) (block : List UInt32) : Lanes := s.add (rounds constants block s)

def word (a b c d : UInt8) : UInt32 :=
  (a.toUInt32 <<< 24) ||| (b.toUInt32 <<< 16) ||| (c.toUInt32 <<< 8) ||| d.toUInt32

/-- Works off whole blocks; `block` holds the words of the current one, last first. -/
def absorb (s : Lanes) (block : List UInt32) (count : Nat) : Bytes → Lanes
  | a :: b :: c :: d :: rest =>
    let block := word a b c d :: block
    if count = 15 then absorb (compress s block.reverse) [] 0 rest
    else absorb s block (count + 1) rest
  | _ => s

def wordBytes (w : UInt32) : Bytes :=
  [(w >>> 24).toUInt8, (w >>> 16).toUInt8, (w >>> 8).toUInt8, w.toUInt8]

/-- A one bit, zeros up to the last eight bytes of a block, and the length in bits. -/
def padding (length : Nat) : Bytes :=
  let zeros := (119 - length % 64) % 64
  0x80 :: List.replicate zeros 0 ++
    wordBytes (UInt32.ofNat (8 * length / 4294967296)) ++ wordBytes (UInt32.ofNat (8 * length))

def Lanes.bytes (s : Lanes) : Bytes :=
  [s.a, s.b, s.c, s.d, s.e, s.f, s.g, s.h].flatMap wordBytes

def digest (message : Bytes) : Bytes :=
  (absorb initial [] 0 (message ++ padding message.length)).bytes

end Telemetry.Sha256
