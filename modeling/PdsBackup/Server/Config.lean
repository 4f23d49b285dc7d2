import PdsBackup.Common.ConfigFile

/-!
# The configuration of the server

The variables of `server::Config`, their keys and their defaults.
-/

namespace PdsBackup.Server

namespace Config

open ConfigFile

inductive PathVariable where
  | serverBasePath
  | tempPath
  | passwordDatabasePath
  | serverDatabasePath
  | certificatePath
  | privateKeyPath
  | caFilePath
  deriving DecidableEq

inductive NumberVariable where
  | listenQueue
  | nThreads
  | socketQueueSize
  | selectTimeoutSeconds
  | timeoutSeconds
  | tmpFileNameSize
  | maxDataChunkSize
  deriving DecidableEq

def pathKey : PathVariable → Text
  | .serverBasePath => "server_base_path".toList
  | .tempPath => "temp_path".toList
  | .passwordDatabasePath => "password_database_path".toList
  | .serverDatabasePath => "server_database_path".toList
  | .certificatePath => "certificate_path".toList
  | .privateKeyPath => "private_key_path".toList
  | .caFilePath => "ca_file_path".toList

def numberKey : NumberVariable → Text
  | .listenQueue => "listen_queue".toList
  | .nThreads => "n_threads".toList
  | .socketQueueSize => "socket_queue_size".toList
  | .selectTimeoutSeconds => "select_timeout_seconds".toList
  | .timeoutSeconds => "timeout_seconds".toList
  | .tmpFileNameSize => "tmp_file_name_size".toList
  | .maxDataChunkSize => "max_data_chunk_size".toList

/-- The keys in the order in which `_load` compares them. -/
def schema : Schema PathVariable NumberVariable where
  paths := [.serverBasePath, .tempPath, .passwordDatabasePath, .serverDatabasePath,
    .certificatePath, .privateKeyPath, .caFilePath].map fun member => (pathKey member, member)
  numbers := [.listenQueue, .nThreads, .socketQueueSize, .selectTimeoutSeconds, .timeoutSeconds,
    .tmpFileNameSize, .maxDataChunkSize].map fun member => (numberKey member, member)
  pathKey := pathKey
  numberKey := numberKey
  paths_lookup := by intro member; cases member <;> decide +kernel
  paths_key := by decide +kernel
  numbers_lookup := by intro member; cases member <;> decide +kernel
  numbers_key := by decide +kernel
  numbers_apart := by intro member; cases member <;> decide +kernel

end Config

/-- `server::Config` -/
abbrev Config := ConfigFile.Settings Config.PathVariable Config.NumberVariable

namespace Config

open ConfigFile

def load (content : Text) : Config := schema.load content

def PASSWORD_DATABASE_PATH : Text := "../serverFiles/passwordDB.sqlite".toList

def DATABASE_PATH : Text := "../serverFiles/serverDB.sqlite".toList

def CERTIFICATE_PATH : Text := "../../TLScerts/server_cert.pem".toList

def PRIVATEKEY_PATH : Text := "../../TLScerts/server_pkey.pem".toList

def CA_FILE_PATH : Text := "../../TLScerts/cacert.pem".toList

def getPasswordDatabasePath (config : Config) : Text :=
  pathOr PASSWORD_DATABASE_PATH (config.path .passwordDatabasePath)

def getServerDatabasePath (config : Config) : Text :=
  pathOr DATABASE_PATH (config.path .serverDatabasePath)

def getCertificatePath (config : Config) : Text :=
  pathOr CERTIFICATE_PATH (config.path .certificatePath)

def getPrivateKeyPath (config : Config) : Text :=
  pathOr PRIVATEKEY_PATH (config.path .privateKeyPath)

def getCaFilePath (config : Config) : Text := pathOr CA_FILE_PATH (config.path .caFilePath)

def getListenQueue (config : Config) : UInt32 := numberOr 8 (config.number .listenQueue)

def getNThreads (config : Config) : UInt32 := numberOr 4 (config.number .nThreads)

def getSocketQueueSize (config : Config) : UInt32 := numberOr 10 (config.number .socketQueueSize)

def getSelectTimeoutSeconds (config : Config) : UInt32 :=
  numberOr 5 (config.number .selectTimeoutSeconds)

def getTimeoutSeconds (config : Config) : UInt32 := numberOr 30 (config.number .timeoutSeconds)

def getTmpFileNameSize (config : Config) : UInt32 := numberOr 8 (config.number .tmpFileNameSize)

def getMaxDataChunkSize (config : Config) : UInt32 :=
  numberOr 15360 (config.number .maxDataChunkSize)

/-- The path variables with a default: the variable, the default and the getter. -/
def pathGetters : List (PathVariable × Text × (Config → Text)) :=
  [(.passwordDatabasePath, PASSWORD_DATABASE_PATH, getPasswordDatabasePath),
    (.serverDatabasePath, DATABASE_PATH, getServerDatabasePath),
    (.certificatePath, CERTIFICATE_PATH, getCertificatePath),
    (.privateKeyPath, PRIVATEKEY_PATH, getPrivateKeyPath),
    (.caFilePath, CA_FILE_PATH, getCaFilePath)]

theorem getter_eq {entry : PathVariable × Text × (Config → Text)} (hentry : entry ∈ pathGetters)
    (config : Config) : entry.2.2 config = pathOr entry.2.1 (config.path entry.1) := by
  simp only [pathGetters, List.mem_cons, List.not_mem_nil, or_false] at hentry
  rcases hentry with rfl | rfl | rfl | rfl | rfl
  all_goals rfl

end Config

end PdsBackup.Server
