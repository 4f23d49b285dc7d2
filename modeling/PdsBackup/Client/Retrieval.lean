import PdsBackup.Client.ProtocolManager
import PdsBackup.Core.Disk

/-!
# The client's retrieval

The loop of `retrieveFiles`: the client makes the directories that the server
announces and stores the files below a destination folder.  A file is taken in
under a temporary name, checked, and moved into place.
-/

namespace PdsBackup.Client

open Procedure

/-- What stays the same during a retrieval. -/
structure Retrieval where
  settings : Settings
  destFolder : Text
  tempNameSize : Nat
  /-- The temporary folder; `retrieveFiles` puts it below the destination folder. -/
  temporaryPath : Text := destFolder ++ "/temp".toList

/-- The protocol manager, the file system the files go to, and the bytes the
random number generator will deliver. -/
structure RetrievalState where
  manager : ClientState
  disk : Disk
  random : Nat → Byte

abbrev RetrievalProcedure := Procedure RetrievalState ClientException

/-! ## Access to the parts of the state -/

def onManager {α : Type} (p : ClientProcedure α) : RetrievalProcedure α :=
  within RetrievalState.manager (fun manager s => { s with manager }) id p

def onDisk {ε α : Type} (p : Procedure Disk ε α) : RetrievalProcedure α :=
  within RetrievalState.disk (fun disk s => { s with disk }) (fun _ => .standard) p

def serverMessageError : ClientException := .protocolManager .serverMessage

/-- `RandomNumberGenerator::getHexString` -/
def getHexString (size : Nat) : RetrievalProcedure Text := do
  let bytes ← read fun s => (List.range size).map s.random
  modify fun s => { s with random := fun index => s.random (index + size) }
  pure (stringToHex bytes)

section Retrieval

variable (retrieval : Retrieval)

/-! ## Entries of the destination folder -/

def loadEntry (basePath absolutePath : Text) : RetrievalProcedure DirectoryEntry := do
  let disk ← read RetrievalState.disk
  orRaise .standard
    (DirectoryEntry.load retrieval.settings.platform basePath absolutePath disk.tree)

def setTimeToFile (entry : DirectoryEntry) (time : Text) : RetrievalProcedure DirectoryEntry :=
  onDisk (DirectoryEntry.setTimeToFile retrieval.settings.platform entry time)

/-- The entry of the parent directory.  The destination folder has no path
relative to itself and is left out. -/
def saveParent (parent : Text) : RetrievalProcedure DirectoryEntry :=
  if parent ≠ retrieval.destFolder then loadEntry retrieval retrieval.destFolder parent
  else pure {}

/-! ## Files -/

/-- The loop that takes the DATA messages in.  It follows the messages still to
come; when there are none, receiving fails. -/
def receiveData (handle : Path) (tmpPath : Text) : List ServerMessage → RetrievalProcedure Unit
  | [] => do
      let _ ← onManager recvMessage
      pure ()
  | _ :: pending => do
      let message ← onManager recvMessage
      if message.version ≠ retrieval.settings.protocolVersion then do
        let _ ← onDisk (SystemCall.remove tmpPath)
        raise (.protocolManager .version)
      else if message.type ≠ .DATA then do
        let _ ← onDisk (SystemCall.remove tmpPath)
        raise serverMessageError
      else do
        onDisk (SystemCall.append handle message.data)
        if message.last then pure () else receiveData handle tmpPath pending

/-- In case of a socket exception the temporary file is deleted. -/
def removeOnSocketException (tmpPath : Text) (exception : ClientException) :
    RetrievalProcedure Unit :=
  match exception with
  | .socket _ => do
      let _ ← onDisk (SystemCall.remove tmpPath)
      raise exception
  | _ => raise exception

/-- Moves the temporary file to its destination.  The time of the parent is set
again unless the entry of the parent is that of the destination folder; the empty
entry that stands for the destination folder is not. -/
def moveIntoPlace (tmpPath : Text) (expected : DirectoryEntry) : RetrievalProcedure Unit := do
  let parent := parentPath expected.absolutePath
  let parentExists ← read fun s => s.disk.present parent
  when (!parentExists) (onDisk (SystemCall.createDirectories parent))
  let entry ← saveParent retrieval parent
  onDisk (SystemCall.rename tmpPath expected.absolutePath)
  when (entry.absolutePath ≠ retrieval.destFolder) do
    let _ ← setTimeToFile retrieval entry entry.lastWriteTime
    pure ()

/-- What is done with a temporary file that is complete. -/
def acceptFile (tmpPath : Text) (expected : DirectoryEntry) : RetrievalProcedure Unit := do
  let newFile ← loadEntry retrieval retrieval.temporaryPath tmpPath
  let newFile ← setTimeToFile retrieval newFile expected.lastWriteTime
  if newFile.size ≠ expected.size ∨ newFile.hash ≠ expected.hash ∨
      newFile.lastWriteTime ≠ expected.lastWriteTime then do
    let _ ← onDisk (SystemCall.remove tmpPath)
    raise serverMessageError
  else moveIntoPlace retrieval tmpPath expected

def storeFile (message : ServerMessage) : RetrievalProcedure Unit := do
  let h ← orRaise .hash (Hash.ofBytes message.hash)
  let path ← orRaise serverMessageError (Validator.validatePath message.path)
  ensure serverMessageError (Validator.validateLastWriteTime message.lastWriteTime)
  let expected := DirectoryEntry.make retrieval.destFolder path message.fileSize "file".toList
    message.lastWriteTime h
  let name ← getHexString retrieval.tempNameSize
  let tmpPath := retrieval.temporaryPath ++ '/' :: name ++ ".tmp".toList
  let tmpPathExists ← read fun s => s.disk.present retrieval.temporaryPath
  when (!tmpPathExists) (onDisk (SystemCall.createDirectories retrieval.temporaryPath))
  let temporaryFile ← onDisk (SystemCall.openTruncated tmpPath)
  match temporaryFile with
  | some handle => do
      let incoming ← read fun s => s.manager.connection.incoming
      catching (receiveData retrieval handle tmpPath incoming) (removeOnSocketException tmpPath)
      acceptFile retrieval tmpPath expected
  | none => raise (.protocolManager .client)

/-! ## Directories -/

def makeDir (message : ServerMessage) : RetrievalProcedure Unit := do
  let path ← orRaise serverMessageError (Validator.validatePath message.path)
  ensure serverMessageError (Validator.validateLastWriteTime message.lastWriteTime)
  let absolutePath := retrieval.destFolder ++ path
  let parent := parentPath absolutePath
  let parentExists ← read fun s => s.disk.present parent
  let entry ← if parentExists then saveParent retrieval parent else pure {}
  let dirExists ← read fun s => s.disk.present absolutePath
  when (!dirExists) (onDisk (SystemCall.createDirectories absolutePath))
  let isDirectory ← read fun s => s.disk.isDirectory absolutePath
  if !isDirectory then raise serverMessageError
  else do
    let newDir ← loadEntry retrieval retrieval.destFolder absolutePath
    let _ ← setTimeToFile retrieval newDir message.lastWriteTime
    when (parentExists && parent ≠ retrieval.destFolder) do
      let _ ← setTimeToFile retrieval entry entry.lastWriteTime
      pure ()

/-! ## The loop -/

/-- Only `retrieved` ends the loop; every other code is an error. -/
def retrieveOK (code : Nat) : RetrievalProcedure Bool :=
  match OkCode.ofCode code with
  | some .retrieved => pure false
  | _ => raise (.protocolManager .unexpectedCode)

def retrieveERR (code : Nat) : RetrievalProcedure Bool :=
  match ErrCode.ofCode code with
  | some .retrieve => raise (.protocolManager .client)
  | some .exception => raise (.protocolManager .internal)
  | _ => raise (.protocolManager .unexpectedCode)

/-- One turn; false when the server has sent everything. -/
def retrieveTurn : RetrievalProcedure Bool := do
  let message ← onManager recvMessage
  if retrieval.settings.protocolVersion ≠ message.version then
    raise (.protocolManager .version)
  else
    match message.type with
    | .MKD => do
        makeDir retrieval message
        pure true
    | .STOR => do
        storeFile retrieval message
        pure true
    | .OK => retrieveOK message.code
    | .ERR => retrieveERR message.code
    | .VER => raise (.protocolManager .version)
    | _ => raise (.protocolManager .unexpected)

end Retrieval

end PdsBackup.Client
