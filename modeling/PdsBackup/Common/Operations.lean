import PdsBackup.Common.DirectoryEntry
import PdsBackup.Common.Messages
import PdsBackup.Core.Replicas

/-!
# Requests as operations

Client and server each keep a table of the elements that are backed up.  Of a path the
tables have in common its type and its hash; a request that is confirmed is an
operation on both.
-/

namespace PdsBackup

/-- What the tables of both sides record of a path. -/
structure Record where
  type : Text
  hash : Text
  deriving DecidableEq

def DirectoryEntry.record (entry : DirectoryEntry) : Record where
  type := entry.typeName
  hash := stringToHex entry.hash.str

/-- The other path is below this one. -/
def Below (path other : Text) : Prop := path ++ ['/'] <+: other

instance Below.decidableRel : DecidableRel Below := fun path other =>
  inferInstanceAs (Decidable (path ++ ['/'] <+: other))

abbrev Operation := TableOperation Text Record

def fileRecord (hash : List Byte) : Record := { type := "file".toList, hash := stringToHex hash }

def directoryRecord : Record where
  type := "directory".toList
  hash := stringToHex Hash.zero.str

/-- What is recorded of an object. -/
def Node.record (platform : Platform) : Node → Record
  | .file content _ => fileRecord (platform.sha256 content).str
  | .dir _ => directoryRecord

def ClientMessage.operation (message : ClientMessage) : Option Operation :=
  match message.type with
  | .PROB | .STOR => some (.put message.path (fileRecord message.hash))
  | .MKD => some (.put message.path directoryRecord)
  | .DELE => some (.drop message.path)
  | .RMD => some (.sweep message.path)
  | .NOOP | .DATA | .AUTH | .RETR | .unknown _ => none

theorem record_of_file {entry : DirectoryEntry} (hfile : entry.type = .file) :
    entry.record = fileRecord entry.hash.str := by
  rw [DirectoryEntry.record, DirectoryEntry.typeName, if_pos hfile]
  rfl

theorem record_of_directory {entry : DirectoryEntry} (hdirectory : entry.type = .directory)
    (hhash : entry.hash = .zero) : entry.record = directoryRecord := by
  rw [DirectoryEntry.record, DirectoryEntry.typeName, if_neg (by simp [hdirectory]), hhash]
  rfl

end PdsBackup
