import PdsBackup.Common.Messages
import PdsBackup.Server.Database

/-!
# The server's protocol manager

One authenticated session: the state the class `ProtocolManager` works on, the
messages it sends, and the handlers of the six requests of a client, up to
`receive` with its exception handling.  Handlers keep the order of the checks
and effects of the source, and every call that can throw does so here.
-/

namespace PdsBackup.Server

open Procedure

inductive ProtocolManagerError where
  | auth
  | internal
  | client
  | version
  | unexpected
  deriving DecidableEq

inductive SocketError where
  | read
  | write
  | closed
  deriving DecidableEq

/-- What can be thrown in a session.  `standard` is any other `std::exception`:
of a hash, of the file system, of a regular expression or of a conversion. -/
inductive ServerException where
  | protocolManager (code : ProtocolManagerError)
  | socket (code : SocketError)
  | database (code : DatabaseError)
  | databasePwd
  | config
  | standard
  deriving DecidableEq

/-- What stays the same during a session. -/
structure Session where
  platform : Platform
  protocolVersion : Int
  basePath : Text
  temporaryPath : Text
  tempNameSize : Nat
  maxDataChunkSize : Nat
  username : Text
  mac : Text

/-- The socket: the messages still to come, those that were written, and how
many more can be written before the connection fails.  A message whose writing
failed is remembered. -/
structure Connection where
  incoming : List ClientMessage
  outgoing : List ServerMessage := []
  sendsLeft : Option Nat := none
  undelivered : Option ServerMessage := none

structure ServerState where
  disk : Disk
  database : Database
  elements : KeyedMap Text DirectoryEntry
  recovered : Bool
  /-- The bytes the random number generator will deliver. -/
  random : Nat → Byte
  connection : Connection

abbrev ServerProcedure := Procedure ServerState ServerException

namespace Session

variable (session : Session)

/-- The folder of a user and a machine, relative to the base path. -/
def relativeRoot (mac : Text) : Text := '/' :: Validator.folderName session.username mac

def userPath : Text := session.basePath ++ session.relativeRoot session.mac

end Session

/-! ## Access to the parts of the state -/

def onDisk {ε α : Type} (p : Procedure Disk ε α) : ServerProcedure α :=
  within ServerState.disk (fun disk s => { s with disk }) (fun _ => .standard) p

def onDatabase {α : Type} (p : Query α) : ServerProcedure α :=
  within ServerState.database (fun database s => { s with database }) .database p

def recvMessage : ServerProcedure ClientMessage := do
  let incoming ← read fun s => s.connection.incoming
  match incoming with
  | [] => raise (.socket .closed)
  | message :: incoming => do
      modify fun s => { s with connection := { s.connection with incoming } }
      pure message

namespace Connection

def sent (message : ServerMessage) (connection : Connection) : Connection :=
  { connection with
    outgoing := connection.outgoing ++ [message]
    sendsLeft := connection.sendsLeft.map (· - 1) }

def failed (message : ServerMessage) (connection : Connection) : Connection :=
  { connection with undelivered := some message }

end Connection

def sendServerMessage (message : ServerMessage) : ServerProcedure Unit := do
  let sendsLeft ← read fun s => s.connection.sendsLeft
  if sendsLeft = some 0 then do
    modify fun s => { s with connection := s.connection.failed message }
    raise (.socket .write)
  else modify fun s => { s with connection := s.connection.sent message }

def insertElement (path : Text) (entry : DirectoryEntry) : ServerProcedure Unit :=
  modify fun s => { s with elements := s.elements.insert path entry }

def emplaceElement (path : Text) (entry : DirectoryEntry) : ServerProcedure Unit :=
  modify fun s => { s with elements := s.elements.emplace path entry }

def eraseElement (path : Text) : ServerProcedure Unit :=
  modify fun s => { s with elements := s.elements.erase path }

def clientError : ServerException := .protocolManager .client

def internalError : ServerException := .protocolManager .internal

section Handlers

variable (session : Session)

def okMessage (code : OkCode) : ServerMessage :=
  { version := session.protocolVersion, type := .OK, code := code.code }

def errMessage (code : ErrCode) : ServerMessage :=
  { version := session.protocolVersion, type := .ERR, code := code.code }

def sendMessage (path : Text) (hash : Hash) : ServerMessage :=
  { version := session.protocolVersion, type := .SEND, path, hash := hash.str }

def verMessage : ServerMessage :=
  { version := session.protocolVersion
    type := .VER
    newVersion := session.protocolVersion }

def sendOK (code : OkCode) : ServerProcedure Unit := sendServerMessage (okMessage session code)

def sendERR (code : ErrCode) : ServerProcedure Unit := sendServerMessage (errMessage session code)

def sendSEND (path : Text) (hash : Hash) : ServerProcedure Unit :=
  sendServerMessage (sendMessage session path hash)

def sendVER : ServerProcedure Unit := sendServerMessage (verMessage session)

/-- Tells the client what is wrong with its request and gives the request up. -/
def refuse {α : Type} (code : ErrCode) (exception : ServerException) : ServerProcedure α := do
  sendERR session code
  raise exception

/-! ## Entries of the user's folder -/

def loadEntry (basePath absolutePath : Text) : ServerProcedure DirectoryEntry := do
  let disk ← read ServerState.disk
  orRaise .standard (DirectoryEntry.load session.platform basePath absolutePath disk.tree)

def setTimeToFile (entry : DirectoryEntry) (time : Text) : ServerProcedure DirectoryEntry :=
  onDisk (DirectoryEntry.setTimeToFile session.platform entry time)

/-- The entry of the parent directory, whose time is to be kept.  The user's
folder has no path relative to itself and is left out. -/
def saveParent (parent : Text) : ServerProcedure DirectoryEntry :=
  if parent ≠ session.userPath then loadEntry session session.userPath parent
  else pure {}

def resetParent (parent : Text) (entry : DirectoryEntry) : ServerProcedure Unit :=
  when (parent ≠ session.userPath) do
    let _ ← setTimeToFile session entry entry.lastWriteTime
    pure ()

/-- Removes a path from the database and from the map. -/
def forget (relativePath : Text) : ServerProcedure Unit := do
  onDatabase (Database.remove session.username session.mac relativePath)
  eraseElement relativePath

def forgetAll : List DirectoryEntry → ServerProcedure Unit
  | [] => pure ()
  | entry :: entries => do
      forget session entry.relativePath
      forgetAll entries

/-! ## Recovery -/

/-- The lambda of `recoverFromDB`, for one row: what is to be updated and what
is to be deleted is collected, what agrees with the disk is entered. -/
def recoverRow (row : Row) (toUpdate toDelete : List DirectoryEntry) :
    ServerProcedure (List DirectoryEntry × List DirectoryEntry) := do
  let bytes ← orRaise .standard row.hashBytes
  let hash ← orRaise .standard (Hash.ofBytes bytes)
  let current := DirectoryEntry.make session.userPath row.path row.size row.type
    row.lastWriteTime hash
  let disk ← read ServerState.disk
  if !disk.present current.absolutePath then pure (toUpdate, toDelete ++ [current])
  else do
    let effective ← loadEntry session session.userPath current.absolutePath
    if effective.type ≠ current.type ∨ effective.size ≠ current.size ∨
        effective.lastWriteTime ≠ current.lastWriteTime ∨ effective.hash ≠ current.hash then
      pure (toUpdate ++ [effective], toDelete)
    else do
      emplaceElement row.path current
      pure (toUpdate, toDelete)

def recoverRows : List Row → List DirectoryEntry → List DirectoryEntry →
    ServerProcedure (List DirectoryEntry × List DirectoryEntry)
  | [], toUpdate, toDelete => pure (toUpdate, toDelete)
  | row :: rows, toUpdate, toDelete => do
      let (toUpdate, toDelete) ← recoverRow session row.columns toUpdate toDelete
      recoverRows rows toUpdate toDelete

def updateAll : List DirectoryEntry → ServerProcedure Unit
  | [] => pure ()
  | entry :: entries => do
      onDatabase (Database.update session.username session.mac entry)
      emplaceElement entry.relativePath entry
      updateAll entries

def deleteAll : List DirectoryEntry → ServerProcedure Unit
  | [] => pure ()
  | entry :: entries => do
      onDatabase (Database.remove session.username session.mac entry.relativePath)
      deleteAll entries

def recoverFromDB : ServerProcedure Unit := do
  let rows ← onDatabase (Database.select session.username session.mac)
  let (toUpdate, toDelete) ← recoverRows session rows [] []
  onDatabase Database.finish
  updateAll session toUpdate
  deleteAll session toDelete
  modify fun s => { s with recovered := true }

def recoverIfNeeded : ServerProcedure Unit := do
  let recovered ← read ServerState.recovered
  if recovered then pure () else recoverFromDB session

/-! ## The requests of a backup -/

def probe (message : ClientMessage) : ServerProcedure Unit := do
  recoverIfNeeded session
  let h ← orRaise .standard (Hash.ofBytes message.hash)
  let path ← orRaise clientError (Validator.validatePath message.path)
  ensure clientError (Validator.validateLastWriteTime message.lastWriteTime)
  let el ← read fun s => s.elements.lookup path
  match el with
  | none => sendSEND session path h
  | some el =>
      if !el.isRegularFile then refuse session .notAFile clientError
      else if el.hash ≠ h then sendSEND session path h
      else if el.lastWriteTime ≠ message.lastWriteTime then do
        let el ← setTimeToFile session el message.lastWriteTime
        insertElement path el
        sendOK session .found
      else sendOK session .found

/-- `RandomNumberGenerator::getHexString` -/
def getHexString (size : Nat) : ServerProcedure Text := do
  let bytes ← read fun s => (List.range size).map s.random
  modify fun s => { s with random := fun index => s.random (index + size) }
  pure (stringToHex bytes)

/-- The loop that takes the DATA messages in.  It follows the messages still to
come; when there are none, receiving fails. -/
def receiveData (handle : Path) (tmpPath : Text) : List ClientMessage → ServerProcedure Unit
  | [] => do
      let _ ← recvMessage
      pure ()
  | _ :: pending => do
      let message ← recvMessage
      if message.version ≠ session.protocolVersion then do
        sendVER session
        let _ ← onDisk (SystemCall.remove tmpPath)
        raise (.protocolManager .version)
      else if message.type ≠ .DATA then do
        let _ ← onDisk (SystemCall.remove tmpPath)
        refuse session .unexpected (.protocolManager .unexpected)
      else do
        onDisk (SystemCall.append handle message.data)
        if message.last then pure () else receiveData handle tmpPath pending

/-- In case of a socket exception the temporary file is deleted. -/
def removeOnSocketException (tmpPath : Text) (exception : ServerException) :
    ServerProcedure Unit :=
  match exception with
  | .socket _ => do
      let _ ← onDisk (SystemCall.remove tmpPath)
      raise exception
  | _ => raise exception

/-- Enters an element in the database and in the map, or updates it there. -/
def track (path : Text) (el : Option DirectoryEntry) (entry : DirectoryEntry) :
    ServerProcedure Unit :=
  match el with
  | none => do
      onDatabase (Database.insert session.username session.mac entry)
      emplaceElement entry.relativePath entry
  | some _ => do
      onDatabase (Database.update session.username session.mac entry)
      insertElement path entry

/-- Moves the temporary file to its destination, makes the missing directories
on the way, and keeps the time of the parent directory. -/
def moveIntoPlace (tmpPath : Text) (expected : DirectoryEntry) : ServerProcedure Unit := do
  let parent := parentPath expected.absolutePath
  let parentExists ← read fun s => s.disk.present parent
  when (!parentExists) (onDisk (SystemCall.createDirectories parent))
  let entry ← saveParent session parent
  onDisk (SystemCall.rename tmpPath expected.absolutePath)
  resetParent session parent entry

/-- What is done with a temporary file that is complete. -/
def acceptFile (tmpPath : Text) (expected : DirectoryEntry) : ServerProcedure Unit := do
  let newFile ← loadEntry session session.temporaryPath tmpPath
  let newFile ← setTimeToFile session newFile expected.lastWriteTime
  if newFile.size ≠ expected.size ∨ newFile.hash ≠ expected.hash ∨
      newFile.lastWriteTime ≠ expected.lastWriteTime then do
    let _ ← onDisk (SystemCall.remove tmpPath)
    refuse session .store clientError
  else do
    moveIntoPlace session tmpPath expected
    let el ← read fun s => s.elements.lookup expected.relativePath
    track session expected.relativePath el expected
    sendOK session .created

def storeFile (message : ClientMessage) : ServerProcedure Unit := do
  recoverIfNeeded session
  let h ← orRaise .standard (Hash.ofBytes message.hash)
  let path ← orRaise clientError (Validator.validatePath message.path)
  ensure clientError (Validator.validateLastWriteTime message.lastWriteTime)
  let expected := DirectoryEntry.make session.userPath path message.fileSize "file".toList
    message.lastWriteTime h
  let name ← getHexString session.tempNameSize
  let tmpPath := session.temporaryPath ++ '/' :: name ++ ".tmp".toList
  let tmpPathExists ← read fun s => s.disk.present session.temporaryPath
  when (!tmpPathExists) (onDisk (SystemCall.createDirectories session.temporaryPath))
  let temporaryFile ← onDisk (SystemCall.openTruncated tmpPath)
  match temporaryFile with
  | some handle => do
      let incoming ← read fun s => s.connection.incoming
      catching (receiveData session handle tmpPath incoming) (removeOnSocketException tmpPath)
      acceptFile session tmpPath expected
  | none => refuse session .exception internalError

def removeFile (message : ClientMessage) : ServerProcedure Unit := do
  recoverIfNeeded session
  let h ← orRaise .standard (Hash.ofBytes message.hash)
  let path ← orRaise clientError (Validator.validatePath message.path)
  let el ← read fun s => s.elements.lookup path
  match el with
  | none => sendOK session .notThere
  | some el => do
      let elExists ← read fun s => s.disk.present el.absolutePath
      if !elExists then do
        forget session el.relativePath
        sendOK session .notThere
      else if !el.isRegularFile ∨ el.hash ≠ h then refuse session .remove clientError
      else do
        let parent := parentPath el.absolutePath
        let entry ← saveParent session parent
        let removed ← onDisk (SystemCall.remove el.absolutePath)
        if !removed then raise internalError
        else do
          resetParent session parent entry
          forget session el.relativePath
          sendOK session .removed

/-- The parent's entry when the parent was there before, or an empty one. -/
def saveExistingParent (parentExists : Bool) (parent : Text) : ServerProcedure DirectoryEntry :=
  if parentExists then saveParent session parent else pure {}

/-- What `makeDir` does when it cannot answer from the map alone. -/
def updateDir (path : Text) (el : Option DirectoryEntry) (lastWriteTime : Text) :
    ServerProcedure Unit := do
  let absolutePath := session.userPath ++ path
  let parent := parentPath absolutePath
  let parentExists ← read fun s => s.disk.present parent
  let entry ← saveExistingParent session parentExists parent
  let dirExists ← read fun s => s.disk.present absolutePath
  when (!dirExists) (onDisk (SystemCall.createDirectories absolutePath))
  let isDirectory ← read fun s => s.disk.isDirectory absolutePath
  if !isDirectory then refuse session .notADir clientError
  else do
    let newDir ← loadEntry session session.userPath absolutePath
    let newDir ← setTimeToFile session newDir lastWriteTime
    when parentExists (resetParent session parent entry)
    track session path el newDir
    sendOK session .created

def makeDir (message : ClientMessage) : ServerProcedure Unit := do
  recoverIfNeeded session
  let path ← orRaise clientError (Validator.validatePath message.path)
  ensure clientError (Validator.validateLastWriteTime message.lastWriteTime)
  let el ← read fun s => s.elements.lookup path
  let upToDate ← read fun s => el.any fun el =>
    s.disk.present el.absolutePath && el.lastWriteTime = message.lastWriteTime
  if upToDate then sendOK session .created
  else updateDir session path el message.lastWriteTime

def removeDir (message : ClientMessage) : ServerProcedure Unit := do
  recoverIfNeeded session
  let path ← orRaise clientError (Validator.validatePath message.path)
  let el ← read fun s => s.elements.lookup path
  match el with
  | none => sendOK session .notThere
  | some el => do
      let elExists ← read fun s => s.disk.present el.absolutePath
      if !elExists then do
        forget session el.relativePath
        sendOK session .notThere
      else if !el.isDirectory then refuse session .notADir clientError
      else do
        let parent := parentPath (session.userPath ++ path)
        let entry ← saveParent session parent
        let paths ← onDisk (SystemCall.listBelow el.absolutePath)
        let disk ← read ServerState.disk
        let elementsToRemove ← orRaise .standard (paths.mapM fun path =>
          DirectoryEntry.load session.platform session.userPath path disk.tree)
        let count ← onDisk (SystemCall.removeAll el.absolutePath)
        if count = 0 then raise internalError
        else do
          forgetAll session elementsToRemove
          forget session el.relativePath
          resetParent session parent entry
          sendOK session .removed

/-! ## Retrieval -/

/-- The lambda of `_retrieveUserData`: the rows of a machine, as elements. -/
def collectRows (mac : Text) : List Row → ServerProcedure (List (Text × DirectoryEntry))
  | [] => pure []
  | row :: rows => do
      let bytes ← orRaise .standard row.columns.hashBytes
      let hash ← orRaise .standard (Hash.ofBytes bytes)
      let current := DirectoryEntry.make (session.basePath ++ session.relativeRoot mac)
        row.columns.path row.columns.size row.columns.type row.columns.lastWriteTime hash
      let others ← collectRows mac rows
      pure ((mac, current) :: others)

def collectMac (mac : Text) : ServerProcedure (List (Text × DirectoryEntry)) := do
  let rows ← onDatabase (Database.select session.username mac)
  let toSend ← collectRows session mac rows
  onDatabase Database.finish
  pure toSend

def collectMacs : List Text → ServerProcedure (List (Text × DirectoryEntry))
  | [] => pure []
  | mac :: macs => do
      let toSend ← collectMac session mac
      let others ← collectMacs macs
      pure (toSend ++ others)

def sendMKD (path : Text) (element : DirectoryEntry) : ServerProcedure Unit :=
  sendServerMessage
    { version := session.protocolVersion
      type := .MKD
      path
      lastWriteTime := element.lastWriteTime }

def sendSTOR (path : Text) (element : DirectoryEntry) : ServerProcedure Unit :=
  sendServerMessage
    { version := session.protocolVersion
      type := .STOR
      path
      fileSize := element.size
      lastWriteTime := element.lastWriteTime
      hash := element.hash.str }

def sendDATA (data : List Byte) (last : Bool) : ServerProcedure Unit :=
  sendServerMessage { version := session.protocolVersion, type := .DATA, data, last }

/-- The blocks of a file; the last one, which may be empty, is marked. -/
def sendBlocks : List (List Byte) → ServerProcedure Unit
  | [] => pure ()
  | [block] => sendDATA session block true
  | block :: blocks => do
      sendDATA session block false
      sendBlocks blocks

def sendFile (element : DirectoryEntry) (mac : Text) : ServerProcedure Unit := do
  let root := session.relativeRoot mac
  let effective ← loadEntry session (session.basePath ++ root) element.absolutePath
  if element.hash ≠ effective.hash then
    onDatabase (Database.remove session.username mac element.relativePath)
  else do
    sendSTOR session (root ++ element.relativePath) element
    let status ← read fun s => s.disk.status element.absolutePath
    match status with
    | some (.file content _) => sendBlocks session (blocks session.maxDataChunkSize content)
    | some (.dir _) => sendBlocks session [[]] -- it opens, but nothing can be read from it
    | none => raise internalError

/-- One element of the answer to RETR.  An element that is gone is taken out of
the database. -/
def sendElement (mac : Text) (current : DirectoryEntry) : ServerProcedure Unit := do
  let currentExists ← read fun s => s.disk.present current.absolutePath
  if !currentExists then
    onDatabase (Database.remove session.username mac current.relativePath)
  else if current.isDirectory then
    sendMKD session (session.relativeRoot mac ++ current.relativePath) current
  else if current.isRegularFile then sendFile session current mac
  else pure ()

def sendElements : List (Text × DirectoryEntry) → ServerProcedure Unit
  | [] => pure ()
  | element :: others => do
      sendElement session element.1 element.2
      sendElements others

/-- The elements a RETR asks for: of all machines of the user, or of one. -/
def collect (message : ClientMessage) : ServerProcedure (List (Text × DirectoryEntry)) :=
  if message.all then do
    let macs ← onDatabase (Database.getAllMacAddresses session.username)
    collectMacs session macs
  else if message.macAddress = [] then refuse session .retrieve clientError
  else do
    let mac ← orRaise clientError (Validator.validateMacAddress message.macAddress)
    collectMac session mac

def retrieveUserData (message : ClientMessage) : ServerProcedure Unit := do
  let toSend ← collect session message
  sendElements session toSend
  sendOK session .retrieved

/-! ## One message -/

def dispatch (message : ClientMessage) : ServerProcedure Unit :=
  match message.type with
  | .PROB => probe session message
  | .STOR => storeFile session message
  | .DELE => removeFile session message
  | .MKD => makeDir session message
  | .RMD => removeDir session message
  | .RETR => retrieveUserData session message
  | .NOOP | .DATA | .AUTH | .unknown _ =>
      refuse session .unexpected (.protocolManager .unexpected)

/-- The catch clauses of `receive`. -/
def handleException : ServerException → ServerProcedure Unit
  | .protocolManager .unexpected => pure ()
  | .protocolManager .client => pure ()
  | .protocolManager code => raise (.protocolManager code)
  | .socket code => raise (.socket code)
  | .databasePwd => refuse session .exception .databasePwd
  | .database code => refuse session .exception (.database code)
  | .config => refuse session .exception .config
  | .standard => refuse session .exception internalError

def receive : ServerProcedure Unit := do
  let message ← recvMessage
  if message.version ≠ session.protocolVersion then do
    sendVER session
    raise (.protocolManager .version)
  else catching (dispatch session message) (handleException session)

end Handlers

/-! ## A session to run -/

/-- The libraries on the empty file and on the first second of 1970, local time
being an hour ahead. -/
def epochPlatform : Platform where
  sha256 _ := ⟨[0xe3, 0xb0, 0xc4, 0x42, 0x98, 0xfc, 0x1c, 0x14, 0x9a, 0xfb, 0xf4, 0xc8, 0x99,
    0x6f, 0xb9, 0x24, 0x27, 0xae, 0x41, 0xe4, 0x64, 0x9b, 0x93, 0x4c, 0xa4, 0x95, 0x99, 0x1b,
    0x78, 0x52, 0xb8, 0x55], rfl⟩
  putTime _ := "Thursday, 01 January 1970 01:00 UTC".toList
  getTime _ := 0

def epoch : Text := epochPlatform.putTime 0

def emptyFileHash : List Byte := (epochPlatform.sha256 []).str

def annaSession : Session where
  platform := epochPlatform
  protocolVersion := 1
  basePath := "/srv".toList
  temporaryPath := "/tmp".toList
  tempNameSize := 8
  maxDataChunkSize := 15360
  username := "anna".toList
  mac := "1:2:3:4:5:6".toList

/-- The disk of a server that was just set up, with an empty folder for `anna`. -/
def annaDisk : Disk where
  tree := ((((FileTree.bare 0).putDir ["srv".toList] 0).putDir ["tmp".toList] 0).putDir
    ["anna_1-2-3-4-5-6".toList, "srv".toList] 0)
  log := []
  clock _ := 0

/-- A request for a directory. -/
def mkdRequest (path : Text) : ClientMessage :=
  { version := 1, type := .MKD, path, lastWriteTime := epoch }

def rmdRequest (path : Text) : ClientMessage :=
  { version := 1, type := .RMD, path }

/-- The request for an empty file, and its DATA message. -/
def storRequest (path : Text) (fileSize : Nat) : List ClientMessage :=
  [{ version := 1, type := .STOR, path, fileSize, lastWriteTime := epoch, hash := emptyFileHash },
    { version := 1, type := .DATA, last := true }]

/-- A session that was just authenticated. -/
def startSession (disk : Disk) (database : Database) (incoming : List ClientMessage) :
    ServerState where
  disk
  database
  elements := ∅
  recovered := false
  random _ := 0
  connection := { incoming }

end PdsBackup.Server
