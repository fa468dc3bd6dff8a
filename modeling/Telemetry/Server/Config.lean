import Telemetry.Config.Basic
import Telemetry.Server.Startup
import Telemetry.Signature
/-!
The settings of a server.
-/

namespace Telemetry.Server

open Telemetry.Config

namespace StorageConfig

def standard : StorageConfig := ⟨300, some "/tmp/metrics-db.json", true, none⟩

def ofEntries? (entries : Toml.Entries) : Option StorageConfig := do
  return ⟨← setting? whole? standard.storeInterval "store_interval_secs" entries,
    ← setting? (Option.map some ∘ text?) standard.fileStoragePath "file_storage_path" entries,
    ← setting? flag? standard.restore "restore" entries,
    ← setting? (Option.map some ∘ text?) standard.databaseDsn "database_dsn" entries⟩

def settingNames : List String :=
  ["store_interval_secs", "file_storage_path", "restore", "database_dsn"]

/-- A table of settings, or their values in order. A moment counts as a table that sets nothing. -/
def ofValue? : Toml.Value → Option StorageConfig
  | .table _ entries => ofEntries? entries
  | .moment _ => some standard
  | .array items => ofEntries? (settingNames.zip items)
  | _ => none

end StorageConfig

structure Config where
  address : String
  hashKey : Option String
  storage : StorageConfig
  deriving DecidableEq, Repr

namespace Config

def standard : Config := ⟨"localhost:8080", none, .standard⟩

def ofEntries? (entries : Toml.Entries) : Option Config := do
  return ⟨← setting? text? standard.address "address" entries,
    ← setting? (Option.map some ∘ text?) standard.hashKey "hash_key" entries,
    ← setting? StorageConfig.ofValue? standard.storage "storage" entries⟩

def override (c : Config) (env : Environment) : Except Error Config := do
  let storeInterval ← env.seconds "STORE_INTERVAL" c.storage.storeInterval
  let restore ← env.flag "RESTORE" c.storage.restore
  return {
    address := env.text "ADDRESS" c.address
    hashKey := env.optionalText "KEY" c.hashKey
    storage := {
      storeInterval
      fileStoragePath := env.optionalText "FILE_STORAGE_PATH" c.storage.fileStoragePath
      restore
      databaseDsn := env.optionalText "DATABASE_DSN" c.storage.databaseDsn } }

def resolve (file : Option File) (env : Environment) : Except Error Config := do
  (← ofFile ofEntries? standard file).override env

def signingKey (c : Config) : Option String := Signature.keyOf c.hashKey

end Config

end Telemetry.Server
