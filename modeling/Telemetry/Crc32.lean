import Telemetry.Text.Utf8
/-!
The CRC-32 checksum: the remainder of the message by a polynomial over two elements, its bits taken
from the low end of every byte.
-/

namespace Telemetry.Crc32

/-- The polynomial without its leading term, lowest power at the high end. -/
def polynomial : UInt32 := 0xEDB88320

def addBit (sum : UInt32) : UInt32 :=
  if sum &&& 1 = 1 then (sum >>> 1) ^^^ polynomial else sum >>> 1

def addByte (sum : UInt32) (b : UInt8) : UInt32 :=
  Nat.repeat addBit 8 (sum ^^^ b.toUInt32)

def checksum (message : Bytes) : UInt32 := ~~~(message.foldl addByte 0xFFFFFFFF)

end Telemetry.Crc32
