import PdsBackup.Client.Database
import PdsBackup.Common.CircularVector
import PdsBackup.Common.Messages
import PdsBackup.Core.Posix

/-!
# The client's protocol manager

The class `ProtocolManager` of the client while it backs up a folder: the events
it makes requests of, the window of those that wait for an answer, and `send`,
`receive` and `recoverFromError`, which share that window.  Exceptions leave the
window as the statements before them made it.
-/

namespace PdsBackup.Client

open Procedure

inductive FileSystemStatus where
  | notAStatus
  | created
  | deleted
  | modified
  | storeSent
  deriving DecidableEq

structure Event where
  element : DirectoryEntry := {}
  type : FileSystemStatus := .notAStatus
  deriving DecidableEq

/-- An event in the window.  The ticket numbers the events in the order `send`
put them there and stays with a successor; the source has no such number. -/
structure Waiting where
  event : Event := {}
  ticket : Nat := 0
  deriving DecidableEq

instance : Inhabited Waiting := ⟨{}⟩

/-- The texts of the element are moved away. -/
instance : MoveFrom Waiting where
  movedFrom waiting :=
    { waiting with
      event :=
        { waiting.event with
          element :=
            { waiting.event.element with
              relativePath := []
              absolutePath := []
              lastWriteTime := [] } } }

inductive ProtocolManagerError where
  | auth
  | internal
  | client
  | serverMessage
  | version
  | unexpected
  | unexpectedCode
  deriving DecidableEq

inductive SocketError where
  | read
  | write
  | closed
  deriving DecidableEq

/-- What can be thrown.  `standard` is a `std::exception` of a regular expression
or of the file system. -/
inductive ClientException where
  | protocolManager (code : ProtocolManagerError)
  | socket (code : SocketError)
  | database (code : DatabaseError)
  | hash
  | standard
  deriving DecidableEq

def ClientException.isSocket : ClientException → Bool
  | .socket _ => true
  | _ => false

/-- The program's settings. -/
structure Settings where
  platform : Platform
  protocolVersion : Int
  pathToWatch : Text
  maxDataChunkSize : Nat

/-- The socket after authentication: the messages still to be read, how many
were read, those that were written, and how many more reads and writes succeed
before the connection fails. -/
structure Connection where
  incoming : List ServerMessage := []
  received : Nat := 0
  written : List ClientMessage := []
  operationsLeft : Option Nat := none

/-- The messages that ask for an answer. -/
def isRequest (message : ClientMessage) : Bool := message.type ≠ .DATA

def Connection.requests (connection : Connection) : List ClientMessage :=
  connection.written.filter isRequest

/-! ## What a run has done

The source keeps no such record; it is what statements about runs refer to. -/

/-- An answer, the event it was applied to, and the request of the same rank. -/
structure Answer where
  waiting : Waiting
  message : ServerMessage
  request : Option ClientMessage

/-- Why an event has left the window. -/
inductive Reason where
  | answered (answer : Answer)
  | dropped (folder : FileTree)

structure Departure where
  waiting : Waiting
  reason : Reason

/-- An operation on the window that has a precondition, with what decides it. -/
inductive WindowCall where
  | push (full : Bool)
  | front (empty : Bool)
  | pop (empty : Bool)
  deriving DecidableEq

def WindowCall.allowed : WindowCall → Bool
  | .push full => !full
  | .front empty => !empty
  | .pop empty => !empty

structure History where
  entered : List Event := []
  answers : List Answer := []
  departures : List Departure := []
  calls : List WindowCall := []

namespace History

def addEntered (event : Event) (history : History) : History :=
  { history with entered := history.entered ++ [event] }

def addAnswer (answer : Answer) (history : History) : History :=
  { history with answers := history.answers ++ [answer] }

def addDeparture (departure : Departure) (history : History) : History :=
  { history with departures := history.departures ++ [departure] }

def addCall (call : WindowCall) (history : History) : History :=
  { history with calls := history.calls ++ [call] }

end History

structure ClientState where
  connection : Connection
  waitingForResponse : CircularVector Waiting
  folder : FileTree
  database : Database
  history : History

abbrev ClientProcedure := Procedure ClientState ClientException

def protocolError {α : Type} (code : ProtocolManagerError) : ClientProcedure α :=
  raise (.protocolManager code)

/-! ## The socket -/

/-- A read or a write of the socket; `error` is raised when it fails. -/
def operate (error : SocketError) : ClientProcedure Unit := do
  let operationsLeft ← read fun s => s.connection.operationsLeft
  if operationsLeft = some 0 then raise (.socket error)
  else modify fun s =>
    { s with
      connection := { s.connection with operationsLeft := operationsLeft.map (· - 1) } }

/-- `recvString` and the decoding of the message. -/
def recvMessage : ClientProcedure ServerMessage := do
  operate .read
  let incoming ← read fun s => s.connection.incoming
  match incoming with
  | [] => raise (.socket .closed)
  | message :: incoming => do
      modify fun s =>
        { s with
          connection := { s.connection with incoming, received := s.connection.received + 1 } }
      pure message

def sendClientMessage (message : ClientMessage) : ClientProcedure Unit := do
  operate .write
  modify fun s =>
    { s with connection := { s.connection with written := s.connection.written ++ [message] } }

/-! ## The window -/

/-- Adds to the record of the run. -/
def note (add : History → History) : ClientProcedure Unit :=
  modify fun s => { s with history := add s.history }

def pushWaiting (waiting : Waiting) : ClientProcedure Unit := do
  let ring ← read ClientState.waitingForResponse
  note (History.addCall (.push ring.full))
  modify fun s => { s with waitingForResponse := s.waitingForResponse.push waiting }

def frontWaiting : ClientProcedure Waiting := do
  let ring ← read ClientState.waitingForResponse
  note (History.addCall (.front ring.empty))
  pure ring.front

def popWaiting : ClientProcedure Unit := do
  let ring ← read ClientState.waitingForResponse
  note (History.addCall (.pop ring.empty))
  modify fun s => { s with waitingForResponse := s.waitingForResponse.pop }

def depart (waiting : Waiting) (reason : Reason) : ClientProcedure Unit :=
  note (History.addDeparture ⟨waiting, reason⟩)

section Settings

variable (settings : Settings)

/-! ## The requests -/

def messagePROB (element : DirectoryEntry) : ClientMessage where
  version := settings.protocolVersion
  type := .PROB
  path := element.relativePath
  lastWriteTime := element.lastWriteTime
  hash := element.hash.bytes

def messageDELE (element : DirectoryEntry) : ClientMessage where
  version := settings.protocolVersion
  type := .DELE
  path := element.relativePath
  hash := element.hash.bytes

def messageSTOR (element : DirectoryEntry) : ClientMessage where
  version := settings.protocolVersion
  type := .STOR
  path := element.relativePath
  fileSize := element.size
  lastWriteTime := element.lastWriteTime
  hash := element.hash.bytes

def messageDATA (block : List Byte) (last : Bool) : ClientMessage where
  version := settings.protocolVersion
  type := .DATA
  data := block
  last

def messageMKD (element : DirectoryEntry) : ClientMessage where
  version := settings.protocolVersion
  type := .MKD
  path := element.relativePath
  lastWriteTime := element.lastWriteTime

def messageRMD (element : DirectoryEntry) : ClientMessage where
  version := settings.protocolVersion
  type := .RMD
  path := element.relativePath

/-- The request `_composeMessage` makes of an event; `none` is its exception. -/
def requestOf (event : Event) : Option ClientMessage :=
  if event.element.isRegularFile then
    match event.type with
    | .modified | .created => some (messagePROB settings event.element)
    | .deleted => some (messageDELE settings event.element)
    | .storeSent => some (messageSTOR settings event.element)
    | .notAStatus => none
  else
    match event.type with
    | .modified | .created => some (messageMKD settings event.element)
    | .deleted => some (messageRMD settings event.element)
    | .storeSent | .notAStatus => none

def composeMessage (event : Event) : ClientProcedure Unit := do
  let message ← orRaise (.protocolManager .client) (requestOf settings event)
  sendClientMessage message

def sendBlocks : List (List Byte) → ClientProcedure Unit
  | [] => pure ()
  | [block] => sendClientMessage (messageDATA settings block true)
  | block :: blocks => do
      sendClientMessage (messageDATA settings block false)
      sendBlocks blocks

def sendFile (element : DirectoryEntry) : ClientProcedure Unit := do
  let status ← read fun s => s.folder.status element.absolutePath
  match status with
  | some (.file content _) => sendBlocks settings (blocks settings.maxDataChunkSize content)
  | some (.dir _) => sendBlocks settings [[]] -- it opens, but nothing can be read from it
  | none => protocolError .client

/-- The check before a file is sent: nothing is at its path any more, or what is
there has another hash. -/
def vanishedOrChanged (element : DirectoryEntry) : ClientProcedure Bool := do
  let folder ← read ClientState.folder
  if (folder.status element.absolutePath).isNone then pure true
  else do
    let current ← orRaise .standard
      (DirectoryEntry.load settings.platform settings.pathToWatch element.absolutePath folder)
    pure (current.hash ≠ element.hash)

/-! ## The methods -/

/-- One turn of the loop in `recoverFromError`. -/
def resend (event : Event) : ClientProcedure Unit :=
  if event.type = .storeSent then do
    let skipped ← vanishedOrChanged settings event.element
    if skipped then pure ()
    else do
      composeMessage settings event
      sendFile settings event.element
  else composeMessage settings event

def resendAll : List Waiting → ClientProcedure Unit
  | [] => pure ()
  | waiting :: others => do
      resend settings waiting.event
      resendAll others

def recoverFromError : ClientProcedure Unit := do
  let ring ← read ClientState.waitingForResponse
  resendAll settings ring.toList

def send (event : Event) : ClientProcedure Bool := do
  let ring ← read ClientState.waitingForResponse
  if ring.full then pure false
  else if !event.element.isRegularFile && !event.element.isDirectory then pure true
  else do
    composeMessage settings event
    let ticket ← read fun s => s.history.entered.length
    note (History.addEntered event)
    pushWaiting { event, ticket }
    pure true

/-- SEND: the file is sent if it is still there. -/
def receiveSEND (waiting : Waiting) (message : ServerMessage) : ClientProcedure Unit :=
  if waiting.event.element.isRegularFile ∧
      (waiting.event.type = .created ∨ waiting.event.type = .modified) then do
    let h ← orRaise .hash (Hash.ofBytes message.hash)
    if waiting.event.element.relativePath ≠ message.path ∨ waiting.event.element.hash ≠ h then
      protocolError .serverMessage
    else do
      popWaiting
      let skipped ← vanishedOrChanged settings waiting.event.element
      if skipped then do
        let folder ← read ClientState.folder
        depart waiting (.dropped folder)
      else do
        let newEvent : Event := { element := waiting.event.element, type := .storeSent }
        composeMessage settings newEvent
        pushWaiting { waiting with event := newEvent }
        sendFile settings waiting.event.element
  else protocolError .serverMessage

def onDatabase (query : Query Unit) : ClientProcedure Unit :=
  within ClientState.database (fun database s => { s with database }) .database query

/-- The confirmed event is entered into the database. -/
def saveConfirmed (event : Event) : ClientProcedure Unit :=
  match event.type with
  | .created | .storeSent => onDatabase (Database.insert event.element)
  | .modified => onDatabase (Database.update event.element)
  | .deleted => onDatabase (Database.remove event.element.relativePath)
  | .notAStatus => pure ()

def receiveOK (answer : Answer) : ClientProcedure Unit :=
  match OkCode.ofCode answer.message.code with
  | some .found | some .created | some .notThere | some .removed => do
      saveConfirmed answer.waiting.event
      popWaiting
      depart answer.waiting (.answered answer)
  | _ => protocolError .unexpectedCode

def receiveERR (answer : Answer) : ClientProcedure Unit :=
  match ErrCode.ofCode answer.message.code with
  | some .notAFile | some .store | some .remove | some .notADir | some .unexpected => do
      popWaiting
      depart answer.waiting (.answered answer)
  | some .exception => protocolError .internal
  | _ => protocolError .unexpectedCode

/-- The switch on the type of a message. -/
def dispatch (answer : Answer) : ClientProcedure Unit :=
  match answer.message.type with
  | .SEND => receiveSEND settings answer.waiting answer.message
  | .OK => receiveOK answer
  | .ERR => receiveERR answer
  | .VER => protocolError .version
  | _ => protocolError .unexpected

def receive : ClientProcedure Unit := do
  let message ← recvMessage
  let waiting ← frontWaiting
  let request ← read fun s => s.connection.requests[s.connection.received - 1]?
  let answer : Answer := { waiting, message, request }
  note (History.addAnswer answer)
  if settings.protocolVersion ≠ message.version then protocolError .version
  else dispatch settings answer

end Settings

end PdsBackup.Client
