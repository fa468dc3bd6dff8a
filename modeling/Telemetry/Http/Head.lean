import Telemetry.Count
import Telemetry.Http.Message
import Telemetry.Text.Blank
/-!
The heads of HTTP messages as lines of text: a request line or a status line, and the headers.
-/

namespace Telemetry.Http

/-- A header line. Blanks around the value do not count. -/
def headerOfLine? (line : String) : Option (String × Bytes) :=
  (splitOnce? [':'] line.toList).map fun parts =>
    (lowerAscii (String.ofList parts.1), Utf8.encodeChars (trimChars parts.2))

def Request.ofHead? : List String → Option Request
  | [] => none
  | line :: headers =>
    match split ' ' line with
    | [method, target, _] =>
      (headers.mapM headerOfLine?).map fun hs => ⟨method, pathOf target, hs, .raw []⟩
    | _ => none

def Request.bodyLength (r : Request) : Nat :=
  ((r.text? "content-length").bind unsigned64?).getD 0

def Response.head (r : Response) : List String :=
  ("HTTP/1.1 " ++ toString r.status ++ " ") ::
    (r.headers.map fun h => h.1 ++ ": " ++ h.2) ++
    ["content-length: " ++ toString r.body.content.length, ""]

end Telemetry.Http
