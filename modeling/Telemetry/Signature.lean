import Telemetry.Sha256
import Telemetry.Text.Blank
import Telemetry.Text.Hex
import Telemetry.Text.Lowercase
/-!
Signatures of message bodies: the digest of the key followed by the body, in hexadecimal digits.
A given signature is compared in full, so the time it takes does not tell where it differs.
-/

namespace Telemetry.Signature

def hexByte (b : UInt8) : List Char := [hexDigit (b.toNat / 16), hexDigit (b.toNat % 16)]

def hex (bytes : Bytes) : String := String.ofList (bytes.flatMap hexByte)

def sign (key : String) (body : Bytes) : String := hex (Sha256.digest (Utf8.encode key ++ body))

/-- Collects the differing bits of two byte strings of one length. -/
def difference : Bytes → Bytes → UInt8 → UInt8
  | x :: xs, y :: ys, diff => difference xs ys (diff ||| (x ^^^ y))
  | _, _, diff => diff

def sameBytes (xs ys : Bytes) : Bool := xs.length = ys.length && difference xs ys 0 = 0

/-- Blanks around the signature and the case of its digits do not count. -/
def verify (key : String) (body : Bytes) (signature : String) : Bool :=
  sameBytes (Utf8.encode (sign key body)) (Utf8.encode (lowerAscii (trim signature)))

def header : String := "hashsha256"

/-- An empty key is no key. -/
def keyOf (key : Option String) : Option String := key.filter (· ≠ "")

end Telemetry.Signature
