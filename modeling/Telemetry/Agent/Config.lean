import Telemetry.Config.Basic
import Telemetry.Text.Split
/-!
The settings of an agent.
-/

namespace Telemetry.Agent

open Telemetry.Config

structure Config where
  serverAddress : String
  pollInterval : Nat
  reportInterval : Nat
  batchSize : Nat
  requestTimeout : Nat
  hashKey : Option String
  deriving DecidableEq, Repr

namespace Config

def standard : Config := ⟨"localhost:8080", 2, 10, 5, 10, none⟩

def ofEntries? (entries : Toml.Entries) : Option Config := do
  return ⟨← setting? text? standard.serverAddress "server_address" entries,
    ← setting? whole? standard.pollInterval "poll_interval_secs" entries,
    ← setting? whole? standard.reportInterval "report_interval_secs" entries,
    ← setting? whole? standard.batchSize "batch_size" entries,
    ← setting? whole? standard.requestTimeout "request_timeout_secs" entries,
    ← setting? (Option.map some ∘ text?) standard.hashKey "hash_key" entries⟩

def override (c : Config) (env : Environment) : Except Error Config := do
  let pollInterval ← env.seconds "POLL_INTERVAL" c.pollInterval
  let reportInterval ← env.seconds "REPORT_INTERVAL" c.reportInterval
  return { c with
    serverAddress := env.text "ADDRESS" c.serverAddress
    pollInterval
    reportInterval
    hashKey := env.optionalText "KEY" c.hashKey }

/-- Both intervals and the size of a batch must be positive. -/
def checked (c : Config) : Except Error Config :=
  if c.pollInterval = 0 then .error (.notPositive "poll interval")
  else if c.reportInterval = 0 then .error (.notPositive "report interval")
  else if c.batchSize = 0 then .error (.notPositive "batch size")
  else .ok c

def resolve (file : Option File) (env : Environment) : Except Error Config := do
  (← (← ofFile ofEntries? standard file).override env).checked

/-- The address without blanks around it and slashes behind it, with a scheme in front. -/
def baseUrl (c : Config) : String :=
  let address := dropRight (· = '/') (trimChars c.serverAddress.toList)
  if (splitOnce? [':', '/', '/'] address).isSome then String.ofList address
  else "http://" ++ String.ofList address

end Config

end Telemetry.Agent
