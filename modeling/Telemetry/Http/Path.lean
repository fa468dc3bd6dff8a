import Telemetry.Text.Hex
import Telemetry.Text.Split
import Telemetry.Text.Utf8
/-!
Segments of a path and the characters that are escaped in them.
-/

namespace Telemetry.Http

/-- Replaces each "%" with two hexadecimal digits by the byte they stand for. An escape that is not
complete stays as it is. -/
def percentDecodeFrom (acc : Bytes) : Bytes → Bytes
  | [] => acc.reverse
  | 0x25 :: a :: b :: rest =>
    match hexPair? (Char.ofUInt8 a) (Char.ofUInt8 b) with
    | some n => percentDecodeFrom (UInt8.ofNat n :: acc) rest
    | none => percentDecodeFrom (0x25 :: acc) (a :: b :: rest)
  | b :: rest => percentDecodeFrom (b :: acc) rest

def segmentText? (segment : String) : Option String :=
  Utf8.decode? (percentDecodeFrom [] (Utf8.encode segment))

def segments (path : String) : List String := split '/' path

end Telemetry.Http
