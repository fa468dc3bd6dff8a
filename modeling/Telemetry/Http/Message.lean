import Telemetry.Gzip
import Telemetry.Text.Lowercase
import Telemetry.Text.Split
import Telemetry.Text.Utf8
/-!
HTTP requests and responses.

A body that is packed here is known by its content: unpacking is taken to be exact, and the bytes in
between do not matter. Packed bytes that come from elsewhere are unpacked. Of a header that is repeated
the first value counts.
-/

namespace Telemetry.Http

/-- A body as it is sent: bytes, or a gzip stream of some content. -/
inductive Body where
  | raw (bytes : Bytes)
  | gzip (content : Bytes)
  deriving DecidableEq, Repr

namespace Body

/-- The bytes as they are sent; of a gzip stream only its mark is known. -/
def sent : Body → Bytes
  | .raw bytes => bytes
  | .gzip _ => [0x1F, 0x8B, 0x08]

/-- Unpacks a body that is said to be a gzip stream. What is longer than `limit` need not be complete. -/
def unpacked? (extent : Gzip.Extent) (limit : Nat) : Body → Option Bytes
  | .raw bytes => Gzip.content? extent limit bytes
  | .gzip content => some content

def content : Body → Bytes
  | .raw bytes => bytes
  | .gzip bytes => bytes

end Body

/-- `path` is as it was sent, without the query. -/
structure Request where
  method : String
  path : String
  headers : List (String × Bytes)
  body : Body
  deriving DecidableEq, Repr

structure Response where
  status : Nat
  headers : List (String × String)
  body : Body
  deriving DecidableEq, Repr

def beforeQuery (target : List Char) : List Char := target.takeWhile fun c => c ≠ '?' && c ≠ '#'

/-- The path of a URL: what comes after the authority, and a slash if that is nothing. -/
def pathOfUrl (url : String) : String :=
  let rest := ((splitOnce? [':', '/', '/'] url.toList).map Prod.snd).getD url.toList
  match beforeQuery (rest.dropWhile fun c => c ≠ '/' && c ≠ '?' && c ≠ '#') with
  | [] => "/"
  | path => String.ofList path

/-- The path of a target. A target is a path with a query, a whole URL, an asterisk, or an authority
alone, which has no path. -/
def pathOf (target : String) : String :=
  let chars := target.toList
  if chars.head? = some '/' || chars = ['*'] then String.ofList (beforeQuery chars)
  else if (splitOnce? [':', '/', '/'] chars).isSome then pathOfUrl target
  else ""

/-- Values that are text hold visible ASCII characters, blanks and tabs. -/
def textOf? (value : Bytes) : Option String :=
  if value.all fun b => (0x20 ≤ b && b < 0x7F) || b = 0x09 then
    some (String.ofList (value.map Char.ofUInt8))
  else none

namespace Request

/-- All values of a header; its name has no case. -/
def values (r : Request) (name : String) : List Bytes :=
  (r.headers.filter fun h => lowerAscii h.1 = name).map Prod.snd

def value? (r : Request) (name : String) : Option Bytes := (r.values name).head?

def text? (r : Request) (name : String) : Option String := (r.value? name).bind textOf?

end Request

namespace Response

def text (status : Nat) (s : String) : Response :=
  ⟨status, [("content-type", "text/plain; charset=utf-8")], .raw (Utf8.encode s)⟩

def html (s : String) : Response :=
  ⟨200, [("content-type", "text/html; charset=utf-8")], .raw (Utf8.encode s)⟩

def json (bytes : Bytes) : Response := ⟨200, [("content-type", "application/json")], .raw bytes⟩

def header? (r : Response) (name : String) : Option String := r.headers.lookup name

def addHeader (r : Response) (name value : String) : Response :=
  { r with headers := r.headers ++ [(name, value)] }

end Response

end Telemetry.Http
