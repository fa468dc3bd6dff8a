import Telemetry.Http.Encoding
import Telemetry.Server.Router
import Telemetry.Signature
/-!
The whole server: what happens around the handlers.

From the outside in, a request is logged, its body unpacked, its response packed, its signature
checked and the response signed. A body is read by whoever needs it first, and nobody reads more
than the limit.
-/

namespace Telemetry.Server

open Http Log

namespace Application

def rejected (message : String) (fields : List (String × String)) (response : Response) :
    Work Response := do
  Work.report ⟨.warn, "Request rejected: " ++ message, fields⟩
  return response

def signResponse (key : String) (response : Response) : Response :=
  response.addHeader Signature.header (Signature.sign key response.body.content)

def signed (key : String) (r : Request) (content : Option Bytes) : Work Response := do
  return signResponse key (← route r content)

/-- With a key, every path but "/" needs a signature that fits its body. -/
def guarded (key : Option String) (r : Request) (content : Option Bytes) : Work Response :=
  match key with
  | none => route r content
  | some key =>
    if r.path = "/" then signed key r content
    else
      match r.text? Signature.header with
      | none => rejected "missing body hash header" [] (.text 400 "absent body hash header")
      | some signature =>
        match readBody content with
        | .error u =>
          rejected "body not readable" [("status", toString u.status)] u.response
        | .ok body =>
          if Signature.verify key body signature then signed key r (some body)
          else rejected "body hash mismatch" [] (.text 400 "hashes not equal")

/-- Responses shorter than this are not worth packing. -/
def packingThreshold : Nat := 32

def packed (r : Request) (response : Response) : Response :=
  if response.body.content.length < packingThreshold then response
  else
    let response := response.addHeader "vary" "accept-encoding"
    if prefersGzip r then
      { response.addHeader "content-encoding" "gzip" with body := .gzip response.body.content }
    else response

def unsupportedEncoding : Response := ⟨415, [("accept-encoding", "gzip")], .raw []⟩

/-- Unpacks the body of the request as its header says, with a decoder that reads so much of it. -/
def unpackedBy (extent : Gzip.Extent) (key : Option String) (r : Request) : Work Response := do
  let inner (content : Option Bytes) : Work Response := do
    return packed r (← guarded key r content)
  match r.value? "content-encoding" with
  | none => inner (some r.body.sent)
  | some coding =>
    if coding = Utf8.encode "gzip" then inner (r.body.unpacked? extent bodyLimit)
    else if coding = Utf8.encode "identity" then inner (some r.body.sent)
    else return unsupportedEncoding

def isReadableType (contentType : Option String) : Bool :=
  match contentType with
  | some t => t.startsWith "application/json" || t.startsWith "text/plain"
  | none => false

/-- Text that is not packed is worth a line in the log. -/
def isReadableRequest (r : Request) : Bool :=
  r.value? "content-encoding" = none && isReadableType (r.text? "content-type")

def previewLength : Nat := 200

def preview (bytes : Bytes) : String :=
  match Utf8.decodeChars? bytes with
  | none => "<" ++ toString bytes.length ++ " bytes binary>"
  | some cs =>
    if cs.length ≤ previewLength then String.ofList cs
    else String.ofList (cs.take previewLength) ++ "..."

/-- The report of a response. What a packed body looks like is not known. -/
def responseEvent (r : Response) : Event :=
  let level : Level := if 500 ≤ r.status then .error else if 400 ≤ r.status then .warn else .info
  let status := ("status", toString r.status)
  match r.body with
  | .gzip _ => ⟨level, "<-- response", [status]⟩
  | .raw bytes =>
    let fields := [status, ("size", toString bytes.length)]
    ⟨level, "<-- response", if 400 ≤ r.status then fields ++ [("body", preview bytes)] else fields⟩

def traced (r : Response) : Response := r.addHeader "x-trace-id" "0000000000000000"

/-- Reports the request and its response. A body that is shown is read first, and if that fails the
request goes no further. -/
def loggedBy (extent : Gzip.Extent) (key : Option String) (r : Request) : Work Response := do
  let about := [("method", r.method), ("path", r.path)]
  let proceed : Work Response := do
    let response ← unpackedBy extent key r
    Work.report (responseEvent response)
    return traced response
  if !isReadableRequest r then
    Work.report ⟨.info, "--> request", about⟩
    proceed
  else
    match readBody (some r.body.sent) with
    | .error u =>
      Work.report ⟨.warn, "--> request body rejected", about ++ [("status", toString u.status)]⟩
      return traced u.response
    | .ok bytes =>
      Work.report ⟨.info, "--> request", about ++ [("body", preview bytes)]⟩
      proceed

/-- Answers a request. For the method HEAD only the body is left out. -/
def handleBy (extent : Gzip.Extent) (key : Option String) (r : Request) : Work Response := do
  let response ← loggedBy extent key r
  return if r.method = "HEAD" then { response with body := .raw [] } else response

/-- The decoder in use reads one member. -/
def unpacked (key : Option String) (r : Request) : Work Response := unpackedBy .first key r
def logged (key : Option String) (r : Request) : Work Response := loggedBy .first key r
def handle (key : Option String) (r : Request) : Work Response := handleBy .first key r

end Application

end Telemetry.Server
