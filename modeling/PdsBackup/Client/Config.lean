import PdsBackup.Common.ConfigFile

/-!
# The configuration of the client

The variables of `client::Config`, their keys and their defaults.
-/

namespace PdsBackup.Client

namespace Config

open ConfigFile

inductive PathVariable where
  | pathToWatch
  | databasePath
  | caFilePath
  deriving DecidableEq

inductive NumberVariable where
  | millisFilesystemWatcher
  | eventQueueSize
  | secondsBetweenReconnections
  | maxConnectionRetries
  | timeoutSeconds
  | selectTimeoutSeconds
  | maxResponseWaiting
  | tmpFileNameSize
  | maxDataChunkSize
  deriving DecidableEq

def pathKey : PathVariable → Text
  | .pathToWatch => "path_to_watch".toList
  | .databasePath => "database_path".toList
  | .caFilePath => "ca_file_path".toList

def numberKey : NumberVariable → Text
  | .millisFilesystemWatcher => "millis_filesystem_watcher".toList
  | .eventQueueSize => "event_queue_size".toList
  | .secondsBetweenReconnections => "seconds_between_reconnections".toList
  | .maxConnectionRetries => "max_connection_retries".toList
  | .timeoutSeconds => "timeout_seconds".toList
  | .selectTimeoutSeconds => "select_timeout_seconds".toList
  | .maxResponseWaiting => "max_response_waiting".toList
  | .tmpFileNameSize => "tmp_file_name_size".toList
  | .maxDataChunkSize => "max_data_chunk_size".toList

/-- The keys in the order in which `_load` compares them. -/
def schema : Schema PathVariable NumberVariable where
  paths := [.pathToWatch, .databasePath, .caFilePath].map fun member => (pathKey member, member)
  numbers := [.millisFilesystemWatcher, .eventQueueSize, .secondsBetweenReconnections,
    .maxConnectionRetries, .timeoutSeconds, .selectTimeoutSeconds, .maxResponseWaiting,
    .tmpFileNameSize, .maxDataChunkSize].map fun member => (numberKey member, member)
  pathKey := pathKey
  numberKey := numberKey
  paths_lookup := by intro member; cases member <;> decide
  paths_key := by decide
  numbers_lookup := by intro member; cases member <;> decide
  numbers_key := by decide +kernel
  numbers_apart := by intro member; cases member <;> decide +kernel

end Config

/-- `client::Config` -/
abbrev Config := ConfigFile.Settings Config.PathVariable Config.NumberVariable

namespace Config

open ConfigFile

def load (content : Text) : Config := schema.load content

def DATABASE_PATH : Text := "../clientFiles/clientDB.sqlite".toList

def CA_FILE_PATH : Text := "../../TLScerts/cacert.pem".toList

def getDatabasePath (config : Config) : Text := pathOr DATABASE_PATH (config.path .databasePath)

def getCAFilePath (config : Config) : Text := pathOr CA_FILE_PATH (config.path .caFilePath)

def getMillisFilesystemWatcher (config : Config) : UInt32 :=
  numberOr 5000 (config.number .millisFilesystemWatcher)

def getEventQueueSize (config : Config) : UInt32 := numberOr 20 (config.number .eventQueueSize)

def getSecondsBetweenReconnections (config : Config) : UInt32 :=
  numberOr 10 (config.number .secondsBetweenReconnections)

def getMaxConnectionRetries (config : Config) : UInt32 :=
  numberOr 12 (config.number .maxConnectionRetries)

def getTimeoutSeconds (config : Config) : UInt32 := numberOr 15 (config.number .timeoutSeconds)

def getSelectTimeoutSeconds (config : Config) : UInt32 :=
  numberOr 5 (config.number .selectTimeoutSeconds)

def getMaxResponseWaiting (config : Config) : UInt32 :=
  numberOr 1024 (config.number .maxResponseWaiting)

def getTmpFileNameSize (config : Config) : UInt32 := numberOr 8 (config.number .tmpFileNameSize)

def getMaxDataChunkSize (config : Config) : UInt32 :=
  numberOr 15360 (config.number .maxDataChunkSize)

/-- The path variables with a default: the variable, the default and the getter. -/
def pathGetters : List (PathVariable × Text × (Config → Text)) :=
  [(.databasePath, DATABASE_PATH, getDatabasePath), (.caFilePath, CA_FILE_PATH, getCAFilePath)]

theorem getter_eq {entry : PathVariable × Text × (Config → Text)} (hentry : entry ∈ pathGetters)
    (config : Config) : entry.2.2 config = pathOr entry.2.1 (config.path entry.1) := by
  simp only [pathGetters, List.mem_cons, List.not_mem_nil, or_false] at hentry
  cases hentry with
  | inl hdatabase => rw [hdatabase]; rfl
  | inr hca => rw [hca]; rfl

end Config

end PdsBackup.Client
