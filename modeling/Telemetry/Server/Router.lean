import Telemetry.Http.Path
import Telemetry.Server.Handler
/-!
The addresses of the server. Paths are compared segment by segment as they were sent; what stands in
a segment is unescaped only by the handler that needs it.
-/

namespace Telemetry.Server

open Http

/-- Parts of a path are kept as they were sent. -/
inductive Route where
  | page
  | ping
  | updateText (kind name value : String)
  | valueText (kind name : String)
  | updateJson
  | valueJson
  | updateBatch
  deriving DecidableEq, Repr

namespace Route

/-- A segment at the end may not be empty. -/
def ofPath? (path : String) : Option Route :=
  match segments path with
  | ["", ""] => some .page
  | ["", "ping"] => some .ping
  | ["", "update", kind, name, value] =>
    if value = "" then none else some (.updateText kind name value)
  | ["", "value", kind, name] => if name = "" then none else some (.valueText kind name)
  | ["", "update"] => some .updateJson
  | ["", "value"] => some .valueJson
  | ["", "updates"] => some .updateBatch
  | _ => none

/-- Whether the route is for reading; the others are for writing or asking with a body. -/
def isGet : Route → Bool
  | .page | .ping | .valueText _ _ => true
  | _ => false

def allow (r : Route) : String := if r.isGet then "GET,HEAD" else "POST"

def accepts (r : Route) (method : String) : Bool :=
  if r.isGet then method = "GET" || method = "HEAD" else method = "POST"

end Route

def bodyLimit : Nat := 1048576

inductive Unreadable where
  | tooLong
  | broken
  deriving DecidableEq, Repr

namespace Unreadable

def status : Unreadable → Nat
  | tooLong => 413
  | broken => 400

def message : Unreadable → String
  | tooLong => "Failed to buffer the request body: length limit exceeded"
  | broken => "Failed to buffer the request body: " ++ Cause.io.text

def response (u : Unreadable) : Response := .text u.status u.message

end Unreadable

def readBody (content : Option Bytes) : Except Unreadable Bytes :=
  match content with
  | none => .error .broken
  | some bytes => if bodyLimit < bytes.length then .error .tooLong else .ok bytes

/-- Unescapes the parts of a path; the first that is no text is named. -/
def texts (parts : List (String × String)) : Except String (List String) :=
  parts.mapM fun part =>
    match segmentText? part.2 with
    | some text => .ok text
    | none => .error part.1

def invalidSegment (name : String) : Response :=
  .text 400 ("Invalid URL: Invalid UTF-8 in \x60" ++ name ++ "\x60")

def withBody (content : Option Bytes) (h : Bytes → Handler Response) : Work Response :=
  match readBody content with
  | .ok body => (h body).answer
  | .error u => return u.response

def Route.run (route : Route) (r : Request) (content : Option Bytes) : Work Response :=
  match route with
  | .page => Handler.page.answer
  | .ping => Handler.ping
  | .updateText kind name value =>
    match texts [("kind", kind), ("name", name), ("value", value)] with
    | .ok [kind, name, value] => (Handler.updateText kind name value).answer
    | .ok _ => return Handler.notImplemented
    | .error part => return invalidSegment part
  | .valueText kind name =>
    match texts [("kind", kind), ("name", name)] with
    | .ok [kind, name] => (Handler.valueText kind name).answer
    | .ok _ => return Handler.notImplemented
    | .error part => return invalidSegment part
  | .updateJson => withBody content (Handler.updateJson r)
  | .valueJson => withBody content (Handler.valueJson r)
  | .updateBatch => withBody content (Handler.updateBatch r)

def route (r : Request) (content : Option Bytes) : Work Response :=
  match Route.ofPath? r.path with
  | none => return Handler.notImplemented
  | some found =>
    if found.accepts r.method then found.run r content
    else return Handler.notImplemented.addHeader "allow" found.allow

end Telemetry.Server
