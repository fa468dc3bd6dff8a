import Telemetry.Agent.Config
import Telemetry.Http.Head
import Telemetry.Server.Application
import Telemetry.Server.Config
/-!
The command line. A server takes its requests one after another from the standard input and answers
on the standard output, as it does behind a socket that somebody else listens to; what it reports
goes to the standard error. For an agent the settings are checked.
-/

namespace Telemetry.CommandLine

def usage : List String :=
  ["Usage:", "  telemetry server [config.toml]    Serve requests from the standard input",
    "  telemetry agent [config.toml]     Check the settings of an agent", "",
    "Environment overrides: ADDRESS, STORE_INTERVAL, FILE_STORAGE_PATH, RESTORE, DATABASE_DSN, KEY",
    "and for an agent: ADDRESS, POLL_INTERVAL, REPORT_INTERVAL, KEY"]

def variableNames : List String :=
  ["ADDRESS", "STORE_INTERVAL", "FILE_STORAGE_PATH", "RESTORE", "DATABASE_DSN", "KEY",
    "POLL_INTERVAL", "REPORT_INTERVAL"]

def eventLine (e : Log.Event) : String :=
  String.intercalate " " (e.level.text :: e.message :: e.fields.map fun f => f.1 ++ "=" ++ f.2)

def report (events : List Log.Event) : IO Unit :=
  events.forM fun e => IO.eprintln (eventLine e)

def readFile? (path : String) : IO (Option Bytes) := do
  try return some (← IO.FS.readBinFile path).toList
  catch _ => return none

def environment : IO Config.Environment := do
  let set ← variableNames.filterMapM fun name => do
    return (← IO.getEnv name).map fun value => (name, value)
  return .ofEntries set

def configFile (args : List String) : IO (Option Config.File) :=
  match args with
  | [] => return none
  | path :: _ => do return some ⟨path, ← readFile? path⟩

/-- The file tree with the one file that a server reads when it starts. -/
def filesWith (path : Option String) : IO FileTree := do
  let files := FileTree.empty ""
  match path with
  | none => return files
  | some path =>
    match ← readFile? path with
    | some bytes => return files.plant (Path.ofText "" path) bytes
    | none => return files

def keep (path : Option String) (before after : FileTree) : IO Unit :=
  match path with
  | none => return ()
  | some path => do
    let file := Path.ofText "" path
    match after.read? file with
    | some bytes =>
      if before.read? file ≠ some bytes then
        try IO.FS.writeBinFile path bytes.toByteArray
        catch e => IO.eprintln (toString e)
    | none => return ()

/-- The lines up to an empty one; `acc` holds those already read, last first. -/
partial def readLines (input : IO.FS.Stream) (acc : List String) : IO (List String) := do
  let line ← input.getLine
  if trim line = "" then return acc.reverse
  else readLines input (trim line :: acc)

partial def readBytes (input : IO.FS.Stream) (count : Nat) (acc : Bytes) : IO Bytes := do
  if count ≤ acc.length then return acc
  let more ← input.read (count - acc.length).toUSize
  if more.isEmpty then return acc
  else readBytes input count (acc ++ more.toList)

/-- Answers requests until the input ends. Answers are never packed here. -/
partial def serve (key path : Option String) (store : Store) : IO Store := do
  let input ← IO.getStdin
  let output ← IO.getStdout
  match Http.Request.ofHead? (← readLines input []) with
  | none => return store
  | some request =>
    let body ← readBytes input request.bodyLength []
    let plain := request.headers.filter fun h => h.1 ≠ "accept-encoding"
    let (response, after, events) :=
      (Server.Application.handle key { request with headers := plain, body := .raw body }).run store
    report events
    keep path store.files after.files
    output.putStr (String.intercalate "\r\n" response.head ++ "\r\n")
    output.write response.body.content.toByteArray
    output.flush
    serve key path after

def finish (path : Option String) (store : Store) : IO Unit :=
  match path, store.engine with
  | some _, .memory m => do
    let (result, files) := m.save store.files
    match result with
    | .ok _ => keep path store.files files
    | .error e => IO.eprintln e.message
  | _, _ => return ()

def runServer (c : Server.Config) : IO UInt32 := do
  let path := c.storage.fileStoragePath
  let outcome := Server.Startup.start c.storage (← filesWith path)
  report outcome.logs
  match outcome.engine with
  | .error e =>
    IO.eprintln e.message
    return 1
  | .ok engine =>
    finish path (← serve c.signingKey path ⟨engine, outcome.files⟩)
    return 0

def showAgent (c : Agent.Config) : IO UInt32 := do
  report [⟨.info, "Agent settings", [("server", c.baseUrl),
    ("poll_interval_secs", toString c.pollInterval),
    ("report_interval_secs", toString c.reportInterval), ("batch_size", toString c.batchSize),
    ("signing", toString (Signature.keyOf c.hashKey).isSome)]⟩]
  return 0

def withConfig {α : Type} (config : Except Config.Error α) (next : α → IO UInt32) : IO UInt32 :=
  match config with
  | .ok c => next c
  | .error e => do
    IO.eprintln ("Error: " ++ e.message)
    return 1

def run (args : List String) : IO UInt32 := do
  match args with
  | "server" :: rest =>
    withConfig (Server.Config.resolve (← configFile rest) (← environment)) runServer
  | "agent" :: rest =>
    withConfig (Agent.Config.resolve (← configFile rest) (← environment)) showAgent
  | _ =>
    usage.forM IO.eprintln
    return if args = ["--help"] ∨ args = ["-h"] then 0 else 2

end Telemetry.CommandLine

def main (args : List String) : IO UInt32 := Telemetry.CommandLine.run args
