import PdsBackup.Client.ProtocolManager
import PdsBackup.Core.SlidingWindow

/-!
# The window of the client

The calls of the protocol manager, seen from the window: a list of waiting
events in place of the ring, the requests written on the connection in place of
the bytes, and what the run has recorded.  Each primitive of the protocol manager
gets a rule that says what it does to this account; `send`, `receive` and
`recoverFromError` are then described by the few ways in which they can end.
-/

namespace PdsBackup.Client

open Procedure

/-! ## Accounts -/

/-- What entering a confirmed event makes of the rows. -/
def savedRows (event : Event) : List Row → List Row :=
  match event.type with
  | .created | .storeSent => Database.insertRow event.element
  | .modified => Database.updateRow event.element
  | .deleted => Database.removeRow event.element.relativePath
  | .notAStatus => id

/-- What can be seen of a client from its window. -/
structure Account where
  limit : Nat
  waiting : List Waiting
  incoming : List ServerMessage
  received : Nat
  requests : List ClientMessage
  database : Database
  history : History

namespace Account

def window (account : Account) : SlidingWindow Waiting ClientMessage where
  waiting := account.waiting
  asked := account.requests
  answered := account.received

def read (incoming : List ServerMessage) (account : Account) : Account :=
  { account with incoming, received := account.received + 1 }

def asks (request : ClientMessage) (account : Account) : Account :=
  { account with requests := account.requests ++ [request] }

def notes (add : History → History) (account : Account) : Account :=
  { account with history := add account.history }

def pushes (waiting : Waiting) (account : Account) : Account :=
  { account.notes (History.addCall (.push false)) with waiting := account.waiting ++ [waiting] }

def pops (others : List Waiting) (account : Account) : Account :=
  { account.notes (History.addCall (.pop false)) with waiting := others }

/-- The rows after a confirmed event was entered into the table. -/
def saves (event : Event) (account : Account) : Account :=
  { account with
    database := { account.database with rows := savedRows event account.database.rows } }

def departs (waiting : Waiting) (reason : Reason) (account : Account) : Account :=
  account.notes (History.addDeparture ⟨waiting, reason⟩)

/-- The answer a message is, when it is read with an event at the head. -/
def answerOf (account : Account) (head : Waiting) (message : ServerMessage) : Answer where
  waiting := head
  message
  request := account.requests[account.received]?

/-- A message is read and the head of the window is looked at. -/
def takes (head : Waiting) (message : ServerMessage) (incoming : List ServerMessage)
    (account : Account) : Account :=
  ((account.read incoming).notes (History.addCall (.front false))).notes
    (History.addAnswer (account.answerOf head message))

end Account

/-- The account of a client, with the folder it reads and what its socket can
still do. -/
structure At (account : Account) (folder : FileTree) (left : Option Nat) (s : ClientState) :
    Prop where
  ring : s.waitingForResponse.toList = account.waiting
  limit : s.waitingForResponse.capacity = account.limit + 1
  incoming : s.connection.incoming = account.incoming
  received : s.connection.received = account.received
  requests : s.connection.requests = account.requests
  database : s.database = account.database
  history : s.history = account.history
  folder : s.folder = folder
  left : s.connection.operationsLeft = left

def ClientState.account (s : ClientState) : Account where
  limit := s.waitingForResponse.capacity - 1
  waiting := s.waitingForResponse.toList
  incoming := s.connection.incoming
  received := s.connection.received
  requests := s.connection.requests
  database := s.database
  history := s.history

theorem ClientState.at_account (s : ClientState) :
    At s.account s.folder s.connection.operationsLeft s where
  ring := rfl
  limit := (Nat.sub_add_cancel s.waitingForResponse.capacity_pos).symm
  incoming := rfl
  received := rfl
  requests := rfl
  database := rfl
  history := rfl
  folder := rfl
  left := rfl

theorem At.account_eq {account : Account} {folder : FileTree} {left : Option Nat}
    {s : ClientState} (hat : At account folder left s) : s.account = account := by
  obtain ⟨limit, waiting, incoming, received, requests, database, history⟩ := account
  simp only [ClientState.account, hat.ring, hat.limit, hat.incoming, hat.received, hat.requests,
    hat.database, hat.history, Nat.add_sub_cancel]

/-- The account a client has, whatever its socket can still do.  A socket that
does not fail stays one. -/
def About (account : Account) (folder : FileTree) (left : Option Nat) (s : ClientState) : Prop :=
  ∃ left', (left = none → left' = none) ∧ At account folder left' s

theorem At.about {account : Account} {folder : FileTree} {left : Option Nat} {s : ClientState}
    (hat : At account folder left s) : About account folder left s := ⟨left, id, hat⟩

theorem About.of_map {account : Account} {folder : FileTree} {left : Option Nat} {s : ClientState}
    (habout : About account folder (left.map (· - 1)) s) : About account folder left s := by
  obtain ⟨left', hleft, hat⟩ := habout
  exact ⟨left', fun hnone => hleft (by rw [hnone]; rfl), hat⟩

/-! ## The primitives -/

section Primitives

variable {account : Account} {folder : FileTree} {left : Option Nat}

theorem At.empty_eq {s : ClientState} (hat : At account folder left s) :
    s.waitingForResponse.empty = decide (account.waiting = []) := by
  rw [← hat.ring, Bool.eq_iff_iff, ← s.waitingForResponse.toList_eq_nil_iff, decide_eq_true_iff]

theorem At.full_eq {s : ClientState} (hat : At account folder left s) :
    s.waitingForResponse.full = decide (account.waiting.length = account.limit) := by
  have hlimit := hat.limit
  rw [Bool.eq_iff_iff, CircularVector.full_eq_true_iff, ← CircularVector.length_toList, hat.ring,
    decide_eq_true_iff]
  omega

theorem meets_operate (error : SocketError) :
    Meets (At account folder left) (operate error)
      (fun _ s => left ≠ some 0 ∧ At account folder (left.map (· - 1)) s)
      (fun exception s =>
        exception = .socket error ∧ left = some 0 ∧ At account folder left s) := by
  intro s hs
  rw [operate, Procedure.read_bind_apply, hs.left]
  by_cases hleft : left = some 0
  · rw [if_pos hleft]
    exact ⟨rfl, hleft, hs⟩
  · rw [if_neg hleft]
    exact ⟨hleft, { hs with left := rfl }⟩

/-- A message is read, or the connection is found broken. -/
theorem meets_recvMessage :
    Meets (At account folder left) recvMessage
      (fun message s => ∃ incoming, account.incoming = message :: incoming ∧ left ≠ some 0 ∧
        At (account.read incoming) folder (left.map (· - 1)) s)
      (fun exception s => exception.isSocket = true ∧
        (left = none → account.incoming = []) ∧ About account folder left s) := by
  rw [recvMessage]
  apply Meets.chain (meets_operate .read)
  · rintro exception s ⟨rfl, hleft, hs⟩
    exact ⟨rfl, fun hnone => by simp [hnone] at hleft, hs.about⟩
  · rintro _ s ⟨hleft, hs⟩
    rw [Procedure.read_bind_apply]
    cases hincoming : account.incoming with
    | nil =>
        rw [hs.incoming, hincoming]
        exact ⟨rfl, fun _ => rfl, hs.about.of_map⟩
    | cons message incoming =>
        rw [hs.incoming, hincoming]
        exact ⟨incoming, rfl, hleft,
          { hs with incoming := rfl, received := congrArg (· + 1) hs.received }⟩

/-- A message is written. -/
theorem meets_sendClientMessage (message : ClientMessage) :
    Meets (At account folder left) (sendClientMessage message)
      (fun _ s => left ≠ some 0 ∧
        At (if isRequest message then account.asks message else account) folder
          (left.map (· - 1)) s)
      (fun exception s =>
        exception = .socket .write ∧ left = some 0 ∧ At account folder left s) := by
  apply Meets.bind (meets_operate .write)
  rintro _ s ⟨hleft, hs⟩
  apply And.intro hleft
  have hrequests : ∀ connection : Connection, connection.requests = account.requests →
      ({ connection with written := connection.written ++ [message] } : Connection).requests =
        (if isRequest message then account.asks message else account).requests := by
    intro connection hconnection
    rw [Connection.requests, List.filter_append, ← Connection.requests, hconnection]
    cases hrequest : isRequest message <;> simp [hrequest, Account.asks]
  have hreqs := hrequests s.connection hs.requests
  cases hrequest : isRequest message with
  | true =>
      rw [hrequest] at hreqs
      exact { hs with requests := hreqs }
  | false =>
      rw [hrequest] at hreqs
      exact { hs with requests := hreqs }

theorem meets_frontWaiting {head : Waiting} {others : List Waiting}
    (hwaiting : account.waiting = head :: others) :
    Meets (At account folder left) frontWaiting
      (fun front s => front = head ∧
        At (account.notes (History.addCall (.front false))) folder left s)
      (fun _ _ => False) := by
  intro s hs
  have hempty : s.waitingForResponse.empty = false := by simp [hs.empty_eq, hwaiting]
  have hfront : s.waitingForResponse.front = head := by
    have htoList := CircularVector.toList_pop hempty
    rw [hs.ring, hwaiting, List.cons.injEq] at htoList
    exact htoList.1.symm
  rw [frontWaiting, Procedure.read_bind_apply, hempty]
  apply And.intro hfront
  exact { hs with history := congrArg (History.addCall (.front false)) hs.history }

theorem meets_popWaiting {head : Waiting} {others : List Waiting}
    (hwaiting : account.waiting = head :: others) :
    Meets (At account folder left) popWaiting
      (fun _ => At (account.pops others) folder left) (fun _ _ => False) := by
  intro s hs
  have hempty : s.waitingForResponse.empty = false := by simp [hs.empty_eq, hwaiting]
  have hpop : s.waitingForResponse.pop.toList = others := by
    have htoList := CircularVector.toList_pop hempty
    rw [hs.ring, hwaiting, List.cons.injEq] at htoList
    exact htoList.2.symm
  rw [popWaiting, Procedure.read_bind_apply, hempty]
  exact { hs with
    ring := hpop
    history := congrArg (History.addCall (.pop false)) hs.history }

theorem meets_pushWaiting (waiting : Waiting) (hroom : account.waiting.length ≠ account.limit) :
    Meets (At account folder left) (pushWaiting waiting)
      (fun _ => At (account.pushes waiting) folder left) (fun _ _ => False) := by
  intro s hs
  have hfull : s.waitingForResponse.full = false := by simp [hs.full_eq, hroom]
  have hpush : (s.waitingForResponse.push waiting).toList = account.waiting ++ [waiting] := by
    rw [CircularVector.toList_push waiting hfull, hs.ring]
  rw [pushWaiting, Procedure.read_bind_apply, hfull]
  exact { hs with
    ring := hpush
    history := congrArg (History.addCall (.push false)) hs.history }

theorem meets_note (add : History → History) :
    Meets (At account folder left) (note add) (fun _ => At (account.notes add) folder left)
      (fun _ _ => False) := fun _ hs =>
  { hs with history := congrArg add hs.history }

theorem meets_onDatabase (f : List Row → List Row) :
    Meets (At account folder left) (onDatabase (Database.mapRows f))
      (fun _ => At { account with database := { account.database with
        rows := f account.database.rows } } folder left)
      (fun exception s => exception.isSocket = false ∧ At account folder left s) := by
  intro s hs
  rw [onDatabase]
  cases hopen : s.database.inTransaction with
  | true =>
      rw [within_of_raised _ _ _ (Database.mapRows_of_open hopen f)]
      exact ⟨rfl, { hs with }⟩
  | false =>
      rw [within_of_returned _ _ _ (Database.mapRows_of_idle hopen f)]
      exact { hs with database := by simp only [hs.database] }

theorem meets_saveConfirmed (event : Event) :
    Meets (At account folder left) (saveConfirmed event)
      (fun _ => At (account.saves event) folder left)
      (fun exception s => exception.isSocket = false ∧ At account folder left s) := by
  rw [saveConfirmed, Account.saves]
  simp only [savedRows]
  cases event.type with
  | notAStatus => exact Meets.pure () fun _ hs => hs
  | created => exact meets_onDatabase _
  | deleted => exact meets_onDatabase _
  | modified => exact meets_onDatabase _
  | storeSent => exact meets_onDatabase _

end Primitives

/-! ## Files -/

theorem isRequest_requestOf {settings : Settings} {event : Event} {request : ClientMessage}
    (hrequest : requestOf settings event = some request) : isRequest request = true := by
  rw [requestOf] at hrequest
  cases hfile : event.element.isRegularFile <;> cases htype : event.type <;>
    simp only [hfile, htype, if_true, Bool.false_eq_true, if_false, Option.some.injEq,
      reduceCtorEq] at hrequest <;>
    · subst hrequest
      rfl

section Files

variable (settings : Settings) {account : Account} {folder : FileTree} {left : Option Nat}

def contentHash (platform : Platform) : Node → Hash
  | .file content _ => platform.sha256 content
  | .dir _ => .zero

/-- What is at the path of an element has the hash of the element. -/
def intact (platform : Platform) (folder : FileTree) (element : DirectoryEntry) : Bool :=
  (folder.status element.absolutePath).any fun node => contentHash platform node = element.hash

theorem meets_vanishedOrChanged (element : DirectoryEntry) :
    Meets (At account folder left) (vanishedOrChanged settings element)
      (fun skipped s => skipped = !intact settings.platform folder element ∧
        At account folder left s)
      (fun exception s => exception = .standard ∧ At account folder left s) := by
  intro s hs
  rw [vanishedOrChanged, Procedure.read_bind_apply, hs.folder]
  cases hstatus : folder.status element.absolutePath with
  | none => exact ⟨by simp [intact, hstatus], hs⟩
  | some node =>
      cases hload : DirectoryEntry.load settings.platform settings.pathToWatch
          element.absolutePath folder with
      | none => exact ⟨rfl, hs⟩
      | some current =>
          obtain ⟨-, -, found, hfound, hdescribes⟩ := DirectoryEntry.load_eq_some hload
          rw [hstatus, Option.some.injEq] at hfound
          subst hfound
          have hhash : current.hash = contentHash settings.platform node := by
            rw [hdescribes.hash]
            cases node <;> rfl
          exact ⟨by simp [intact, hstatus, hhash], hs⟩

theorem meets_sendBlocks (data : List (List Byte)) :
    Meets (At account folder left) (sendBlocks settings data)
      (fun _ => About account folder left)
      (fun exception s => (left = none → exception.isSocket = false) ∧
        About account folder left s) := by
  have hdata : ∀ left' block last, Meets (At account folder left')
      (sendClientMessage (messageDATA settings block last))
      (fun _ s => left' ≠ some 0 ∧ At account folder (left'.map (· - 1)) s)
      (fun exception s =>
        exception = .socket .write ∧ left' = some 0 ∧ At account folder left' s) :=
    fun left' block last => meets_sendClientMessage (messageDATA settings block last)
  have hfail : ∀ left' (exception : ClientException) s, exception = .socket .write ∧ left' = some 0 ∧
      At account folder left' s → (left' = none → exception.isSocket = false) ∧
        About account folder left' s := by
    rintro left' exception s ⟨rfl, rfl, hs⟩
    exact ⟨fun h => absurd h (by simp), hs.about⟩
  induction data generalizing left with
  | nil => exact Meets.pure () fun _ hs => hs.about
  | cons block data ih =>
      cases data with
      | nil =>
          exact (hdata left block true).consequence (fun _ hs => hs)
            (fun _ _ hs => hs.2.about.of_map) (hfail left)
      | cons next data =>
          apply Meets.chain (hdata left block false) (hfail left)
          intro _
          apply Meets.consequence ih (fun _ hs => hs.2)
          · exact fun _ _ hs => hs.of_map
          · rintro exception s ⟨hsocket, hs⟩
            exact ⟨fun hnone => hsocket (by rw [hnone]; rfl), hs.of_map⟩

/-- Sending a file writes no request. -/
theorem meets_sendFile (element : DirectoryEntry) :
    Meets (At account folder left) (sendFile settings element)
      (fun _ => About account folder left)
      (fun exception s => (left = none → exception.isSocket = false) ∧
        About account folder left s) := by
  intro s hs
  rw [sendFile, Procedure.read_bind_apply, hs.folder]
  cases folder.status element.absolutePath with
  | none => exact ⟨fun _ => rfl, hs.about⟩
  | some node =>
      cases node with
      | file content mtime => exact meets_sendBlocks settings _ s hs
      | dir mtime => exact meets_sendBlocks settings _ s hs

/-- The request of an event is written, or nothing. -/
theorem meets_composeMessage (event : Event) :
    Meets (At account folder left) (composeMessage settings event)
      (fun _ s => ∃ request, requestOf settings event = some request ∧ left ≠ some 0 ∧
        At (account.asks request) folder (left.map (· - 1)) s)
      (fun exception s => At account folder left s ∧
        (exception = .socket .write ∧ left = some 0 ∨
          exception = .protocolManager .client ∧ requestOf settings event = none)) := by
  rw [composeMessage]
  cases hrequest : requestOf settings event with
  | none => exact Meets.raise _ fun s hs => ⟨hs, .inr ⟨rfl, rfl⟩⟩
  | some request =>
      have hasks : isRequest request = true := isRequest_requestOf hrequest
      apply (meets_sendClientMessage request).consequence (fun _ hs => hs)
      · rintro _ s ⟨hleft, hs⟩
        rw [if_pos hasks] at hs
        exact ⟨request, rfl, hleft, hs⟩
      · rintro exception s ⟨rfl, hleft, hs⟩
        exact ⟨hs, .inl ⟨rfl, hleft⟩⟩

end Files

/-! ## The ways the methods end -/

/-- The storeSent event that follows an event. -/
def Event.successor (event : Event) : Event := { element := event.element, type := .storeSent }

def Waiting.successor (waiting : Waiting) : Waiting :=
  { waiting with event := waiting.event.successor }

/-- The server asks for the file of the event. -/
def Wanted (event : Event) (message : ServerMessage) : Prop :=
  event.element.isRegularFile = true ∧ (event.type = .created ∨ event.type = .modified) ∧
    event.element.relativePath = message.path ∧ Hash.ofBytes message.hash = some event.element.hash

section Methods

variable (settings : Settings) {account : Account} {folder : FileTree} {left : Option Nat}

/-- What `send` answers and what it leaves. -/
inductive Sending (account : Account) (event : Event) : Bool → Account → Prop
  | full (hfull : account.waiting.length = account.limit) : Sending account event false account
  | unsupported (hfile : event.element.isRegularFile = false)
      (hdir : event.element.isDirectory = false) : Sending account event true account
  | sent {request : ClientMessage} (hrequest : requestOf settings event = some request)
      (hsupported : (event.element.isRegularFile || event.element.isDirectory) = true) :
      Sending account event true
        (((account.asks request).notes (History.addEntered event)).pushes
          { event, ticket := account.history.entered.length })

theorem meets_send (event : Event) :
    Meets (At account folder left) (send settings event)
      (fun accepted s => ∃ next, Sending settings account event accepted next ∧
        About next folder left s)
      (fun exception s => About account folder left s ∧
        (left = none → exception.isSocket = false)) := by
  intro s hs
  rw [send, Procedure.read_bind_apply, hs.full_eq]
  by_cases hfull : account.waiting.length = account.limit
  · rw [decide_eq_true hfull]
    exact ⟨account, .full hfull, hs.about⟩
  rw [decide_eq_false hfull]
  simp only [Bool.false_eq_true, if_false]
  cases hsupported : !event.element.isRegularFile && !event.element.isDirectory with
  | true =>
      rw [Bool.and_eq_true, Bool.not_eq_true', Bool.not_eq_true'] at hsupported
      exact ⟨account, .unsupported hsupported.1 hsupported.2, hs.about⟩
  | false =>
      have hkind : (event.element.isRegularFile || event.element.isDirectory) = true := by
        rw [← Bool.not_or, Bool.not_eq_false'] at hsupported
        exact hsupported
      have hsend : Meets (At account folder left)
          (do
            composeMessage settings event
            let ticket ← Procedure.read fun s => s.history.entered.length
            note (History.addEntered event)
            pushWaiting { event, ticket }
            pure true)
          (fun accepted s => ∃ next, Sending settings account event accepted next ∧
            About next folder left s)
          (fun exception s => About account folder left s ∧
            (left = none → exception.isSocket = false)) := by
        apply Meets.chain (meets_composeMessage settings event)
        · rintro exception t ⟨ht, ⟨rfl, hleft⟩ | ⟨rfl, -⟩⟩
          · exact ⟨ht.about, fun hnone => by simp [hnone] at hleft⟩
          · exact ⟨ht.about, fun _ => rfl⟩
        rintro _ t ⟨request, hrequest, -, ht⟩
        have hticket : t.history.entered.length = account.history.entered.length :=
          congrArg (fun history => history.entered.length) ht.history
        rw [Procedure.read_bind_apply, hticket]
        have hpush : Meets (At (account.asks request) folder (left.map (· - 1)))
            (do
              note (History.addEntered event)
              pushWaiting { event, ticket := account.history.entered.length }
              pure true)
            (fun accepted s => ∃ next, Sending settings account event accepted next ∧
              About next folder left s)
            (fun exception s => About account folder left s ∧
              (left = none → exception.isSocket = false)) := by
          apply Meets.chain (meets_note _) fun _ _ h => h.elim
          intro _
          have hroom : ((account.asks request).notes (History.addEntered event)).waiting.length ≠
              ((account.asks request).notes (History.addEntered event)).limit := hfull
          apply Meets.chain (meets_pushWaiting _ hroom) fun _ _ h => h.elim
          intro _
          exact Meets.pure true fun _ hs => ⟨_, .sent hrequest hkind, hs.about.of_map⟩
        exact hpush t ht
      exact hsend s hs

/-- How `receive` ends when the window is not empty: with an exception or, where
there is none, by returning. -/
inductive Receiving (folder : FileTree) (left : Option Nat) (account : Account) :
    Option ClientException → Account → Prop
  | unread {error : ClientException} (hsocket : error.isSocket = true)
      (hleft : left = none → account.incoming = []) :
      Receiving folder left account (some error) account
  | rejected {head : Waiting} {others : List Waiting} {message : ServerMessage}
      {incoming : List ServerMessage} {error : ClientException}
      (hwaiting : account.waiting = head :: others)
      (hincoming : account.incoming = message :: incoming) (hsocket : error.isSocket = false) :
      Receiving folder left account (some error) (account.takes head message incoming)
  | unreadable {head : Waiting} {others : List Waiting} {message : ServerMessage}
      {incoming : List ServerMessage} (hwaiting : account.waiting = head :: others)
      (hincoming : account.incoming = message :: incoming) :
      Receiving folder left account (some .standard)
        ((account.takes head message incoming).pops others)
  | confirmed {head : Waiting} {others : List Waiting} {message : ServerMessage}
      {incoming : List ServerMessage} (hwaiting : account.waiting = head :: others)
      (hincoming : account.incoming = message :: incoming) (htype : message.type = .OK) :
      Receiving folder left account none
        ((((account.takes head message incoming).saves head.event).pops others).departs head
          (.answered (account.answerOf head message)))
  | refused {head : Waiting} {others : List Waiting} {message : ServerMessage}
      {incoming : List ServerMessage} (hwaiting : account.waiting = head :: others)
      (hincoming : account.incoming = message :: incoming) (htype : message.type = .ERR) :
      Receiving folder left account none
        (((account.takes head message incoming).pops others).departs head
          (.answered (account.answerOf head message)))
  | dropped {head : Waiting} {others : List Waiting} {message : ServerMessage}
      {incoming : List ServerMessage} (hwaiting : account.waiting = head :: others)
      (hincoming : account.incoming = message :: incoming) (htype : message.type = .SEND)
      (hwanted : Wanted head.event message)
      (hintact : intact settings.platform folder head.event.element = false) :
      Receiving folder left account none
        (((account.takes head message incoming).pops others).departs head (.dropped folder))
  | interrupted {head : Waiting} {others : List Waiting} {message : ServerMessage}
      {incoming : List ServerMessage} (hwaiting : account.waiting = head :: others)
      (hincoming : account.incoming = message :: incoming)
      (hversion : settings.protocolVersion = message.version) (htype : message.type = .SEND)
      (hwanted : Wanted head.event message)
      (hintact : intact settings.platform folder head.event.element = true)
      (hleft : left = some 1) :
      Receiving folder left account (some (.socket .write))
        ((account.takes head message incoming).pops others)
  | succeeded {head : Waiting} {others : List Waiting} {message : ServerMessage}
      {incoming : List ServerMessage} {request : ClientMessage} {ending : Option ClientException}
      (hwaiting : account.waiting = head :: others)
      (hincoming : account.incoming = message :: incoming) (htype : message.type = .SEND)
      (hwanted : Wanted head.event message)
      (hintact : intact settings.platform folder head.event.element = true)
      (hrequest : requestOf settings head.successor.event = some request)
      (hsocket : left = none → ∀ error, ending = some error → error.isSocket = false) :
      Receiving folder left account ending
        ((((account.takes head message incoming).pops others).asks request).pushes
          head.successor)

/-- The calls of `receive` that follow a look at the head of the window. -/
def Handles (account : Account) (folder : FileTree) (left : Option Nat)
    (p : ClientProcedure Unit) (start : Account) (left' : Option Nat) : Prop :=
  Meets (At start folder left') p
    (fun _ s => ∃ next, Receiving settings folder left account none next ∧
      About next folder left' s)
    (fun exception s => ∃ next, Receiving settings folder left account (some exception) next ∧
      About next folder left' s)

variable {head : Waiting} {others : List Waiting} {message : ServerMessage}
variable {incoming : List ServerMessage}

theorem handles_protocolError (hwaiting : account.waiting = head :: others)
    (hincoming : account.incoming = message :: incoming) (code : ProtocolManagerError)
    (left' : Option Nat) :
    Handles settings account folder left (protocolError code)
      (account.takes head message incoming) left' :=
  Meets.raise _ fun _ hs => ⟨_, .rejected hwaiting hincoming rfl, hs.about⟩

theorem handles_receiveOK (hwaiting : account.waiting = head :: others)
    (hincoming : account.incoming = message :: incoming) (htype : message.type = .OK)
    (left' : Option Nat) :
    Handles settings account folder left (receiveOK (account.answerOf head message))
      (account.takes head message incoming) left' := by
  have hconfirmed : Handles settings account folder left
      (do
        saveConfirmed head.event
        popWaiting
        depart head (.answered (account.answerOf head message)))
      (account.takes head message incoming) left' := by
    apply Meets.chain (meets_saveConfirmed head.event)
    · rintro exception s ⟨hsocket, hs⟩
      exact ⟨_, .rejected hwaiting hincoming hsocket, hs.about⟩
    intro _
    have hsaved : ((account.takes head message incoming).saves head.event).waiting =
        head :: others := hwaiting
    apply Meets.chain (meets_popWaiting hsaved) fun _ _ h => h.elim
    intro _
    apply (meets_note _).consequence (fun _ hs => hs) _ fun _ _ h => h.elim
    exact fun _ s hs => ⟨_, .confirmed hwaiting hincoming htype, hs.about⟩
  have hunexpected : Handles settings account folder left (protocolError .unexpectedCode)
      (account.takes head message incoming) left' :=
    handles_protocolError settings hwaiting hincoming .unexpectedCode left'
  have hmessage : (account.answerOf head message).message = message := rfl
  rw [receiveOK, hmessage]
  cases OkCode.ofCode message.code with
  | none => exact hunexpected
  | some code =>
      cases code with
      | found => exact hconfirmed
      | created => exact hconfirmed
      | notThere => exact hconfirmed
      | removed => exact hconfirmed
      | authenticated => exact hunexpected
      | retrieved => exact hunexpected

theorem handles_receiveERR (hwaiting : account.waiting = head :: others)
    (hincoming : account.incoming = message :: incoming) (htype : message.type = .ERR)
    (left' : Option Nat) :
    Handles settings account folder left (receiveERR (account.answerOf head message))
      (account.takes head message incoming) left' := by
  have hrefused : Handles settings account folder left
      (do
        popWaiting
        depart head (.answered (account.answerOf head message)))
      (account.takes head message incoming) left' := by
    have htaken : (account.takes head message incoming).waiting = head :: others := hwaiting
    apply Meets.chain (meets_popWaiting htaken) fun _ _ h => h.elim
    intro _
    apply (meets_note _).consequence (fun _ hs => hs) _ fun _ _ h => h.elim
    exact fun _ s hs => ⟨_, .refused hwaiting hincoming htype, hs.about⟩
  have herror : ∀ code, Handles settings account folder left (protocolError code)
      (account.takes head message incoming) left' := fun code =>
    handles_protocolError settings hwaiting hincoming code left'
  have hmessage : (account.answerOf head message).message = message := rfl
  rw [receiveERR, hmessage]
  cases ErrCode.ofCode message.code with
  | none => exact herror _
  | some code =>
      cases code with
      | notAFile => exact hrefused
      | unexpected => exact hrefused
      | store => exact hrefused
      | remove => exact hrefused
      | notADir => exact hrefused
      | auth => exact herror _
      | exception => exact herror _
      | retrieve => exact herror _

/-- A file that is still there becomes the request at the tail. -/
theorem handles_successor (hwaiting : account.waiting = head :: others)
    (hincoming : account.incoming = message :: incoming)
    (hlimit : account.waiting.length ≤ account.limit)
    (hversion : settings.protocolVersion = message.version) (htype : message.type = .SEND)
    (hwanted : Wanted head.event message)
    (hintact : intact settings.platform folder head.event.element = true)
    (hleft : left ≠ some 0) :
    Handles settings account folder left
      (do
        composeMessage settings head.event.successor
        pushWaiting head.successor
        sendFile settings head.event.element)
      ((account.takes head message incoming).pops others) (left.map (· - 1)) := by
  apply Meets.chain (meets_composeMessage settings head.event.successor)
  · rintro exception s ⟨hs, ⟨rfl, hfault⟩ | ⟨rfl, hnone⟩⟩
    · have hone : left = some 1 := by
        cases left with
        | none => simp at hfault
        | some count =>
            simp only [Option.map_some, ne_eq, Option.some.injEq] at hfault hleft ⊢
            omega
      exact ⟨_, .interrupted hwaiting hincoming hversion htype hwanted hintact hone, hs.about⟩
    · have hfile : head.event.successor.element.isRegularFile = true := hwanted.1
      rw [requestOf, if_pos hfile] at hnone
      exact absurd hnone (by simp [Event.successor])
  intro _
  apply Meets.of_exists
  intro request s ⟨hrequest, _, hs⟩
  have hroom : (((account.takes head message incoming).pops others).asks request).waiting.length ≠
      (((account.takes head message incoming).pops others).asks request).limit := by
    show others.length ≠ account.limit
    rw [hwaiting, List.length_cons] at hlimit
    omega
  have hpush : Handles settings account folder left
      (do
        pushWaiting head.successor
        sendFile settings head.event.element)
      (((account.takes head message incoming).pops others).asks request)
      ((left.map (· - 1)).map (· - 1)) := by
    have hnone : left = none → (left.map (· - 1)).map (· - 1) = none := by
      rintro rfl
      rfl
    apply Meets.chain (meets_pushWaiting head.successor hroom) fun _ _ h => h.elim
    intro _
    apply (meets_sendFile settings head.event.element).consequence (fun _ hs => hs)
    · intro _ s hs
      exact ⟨_, .succeeded hwaiting hincoming htype hwanted hintact hrequest (by simp), hs⟩
    · rintro exception s ⟨hsocket, hs⟩
      have hfree : left = none → ∀ error, some exception = some error → error.isSocket = false := by
        rintro hleft error heq
        rw [← Option.some.inj heq]
        exact hsocket (hnone hleft)
      exact ⟨_, .succeeded hwaiting hincoming htype hwanted hintact hrequest hfree, hs⟩
  apply hpush.consequence (fun _ hs => hs) _ _ s hs
  · rintro _ t ⟨next, hnext, ht⟩
    exact ⟨next, hnext, ht.of_map⟩
  · rintro exception t ⟨next, hnext, ht⟩
    exact ⟨next, hnext, ht.of_map⟩

theorem handles_receiveSEND (hwaiting : account.waiting = head :: others)
    (hincoming : account.incoming = message :: incoming)
    (hlimit : account.waiting.length ≤ account.limit)
    (hversion : settings.protocolVersion = message.version) (htype : message.type = .SEND)
    (hleft : left ≠ some 0) :
    Handles settings account folder left (receiveSEND settings head message)
      (account.takes head message incoming) (left.map (· - 1)) := by
  have herror : Handles settings account folder left (protocolError .serverMessage)
      (account.takes head message incoming) (left.map (· - 1)) :=
    handles_protocolError settings hwaiting hincoming .serverMessage _
  rw [receiveSEND]
  apply Meets.ite
  · rintro ⟨hfile, hkind⟩
    cases hhash : Hash.ofBytes message.hash with
    | none => exact Meets.raise _ fun _ hs => ⟨_, .rejected hwaiting hincoming rfl, hs.about⟩
    | some h =>
        apply Meets.ite
        · exact fun _ => herror
        intro hmatch
        rw [not_or, not_not, not_not] at hmatch
        have hwanted : Wanted head.event message :=
          ⟨hfile, hkind, hmatch.1, by rw [hhash, hmatch.2]⟩
        have htaken : (account.takes head message incoming).waiting = head :: others := hwaiting
        apply Meets.chain (meets_popWaiting htaken) fun _ _ h => h.elim
        intro _
        apply Meets.chain (meets_vanishedOrChanged settings head.event.element)
        · rintro exception s ⟨rfl, hs⟩
          exact ⟨_, .unreadable hwaiting hincoming, hs.about⟩
        rintro skipped s ⟨rfl, hs⟩
        cases hintact : intact settings.platform folder head.event.element with
        | false =>
            have hdropped : Handles settings account folder left
                (do
                  let folder ← Procedure.read ClientState.folder
                  depart head (.dropped folder))
                ((account.takes head message incoming).pops others) (left.map (· - 1)) := by
              intro t ht
              rw [Procedure.read_bind_apply, ht.folder]
              exact ⟨_, .dropped hwaiting hincoming htype hwanted hintact,
                (meets_note (History.addDeparture ⟨head, .dropped folder⟩) t ht).about⟩
            exact hdropped s hs
        | true =>
            exact handles_successor settings hwaiting hincoming hlimit hversion htype hwanted
              hintact hleft s hs
  · exact fun _ => herror

/-- How `receive` ends when there is something in the window. -/
theorem meets_receive (hwaiting : account.waiting = head :: others)
    (hlimit : account.waiting.length ≤ account.limit) :
    Meets (At account folder left) (receive settings)
      (fun _ s => ∃ next, Receiving settings folder left account none next ∧
        About next folder left s)
      (fun exception s => ∃ next, Receiving settings folder left account (some exception) next ∧
        About next folder left s) := by
  apply Meets.chain meets_recvMessage
  · rintro exception s ⟨hsocket, hincoming, hs⟩
    exact ⟨_, .unread hsocket hincoming, hs⟩
  intro message
  apply Meets.of_exists
  rintro incoming s ⟨hincoming, hleft, hs⟩
  have hhandled : Handles settings account folder left
      (do
        let waiting ← frontWaiting
        let request ← Procedure.read fun s =>
          s.connection.requests[s.connection.received - 1]?
        let answer : Answer := { waiting, message, request }
        note (History.addAnswer answer)
        if settings.protocolVersion ≠ message.version then protocolError .version
        else dispatch settings answer)
      (account.read incoming) (left.map (· - 1)) := by
    have hread : (account.read incoming).waiting = head :: others := hwaiting
    apply Meets.chain (meets_frontWaiting hread) fun _ _ h => h.elim
    rintro front t ⟨hfront, ht⟩
    rw [hfront]
    have hrequest : t.connection.requests[t.connection.received - 1]? =
        account.requests[account.received]? := by
      rw [ht.requests, ht.received]
      rfl
    rw [Procedure.read_bind_apply, hrequest]
    have hanswer : Handles settings account folder left
        (do
          note (History.addAnswer (account.answerOf head message))
          if settings.protocolVersion ≠ message.version then protocolError .version
          else dispatch settings (account.answerOf head message))
        ((account.read incoming).notes (History.addCall (.front false))) (left.map (· - 1)) := by
      have herror : ∀ code, Handles settings account folder left (protocolError code)
          (account.takes head message incoming) (left.map (· - 1)) := fun code =>
        handles_protocolError settings hwaiting hincoming code _
      apply Meets.chain (meets_note _) fun _ _ h => h.elim
      intro _
      apply Meets.ite
      · exact fun _ => herror _
      intro hversion
      rw [ne_eq, not_not] at hversion
      have hmessage : (account.answerOf head message).message = message := rfl
      rw [dispatch, hmessage]
      cases htype : message.type with
      | SEND =>
          exact handles_receiveSEND settings hwaiting hincoming hlimit hversion htype hleft
      | OK => exact handles_receiveOK settings hwaiting hincoming htype _
      | ERR => exact handles_receiveERR settings hwaiting hincoming htype _
      | VER => exact herror _
      | NOOP => exact herror _
      | MKD => exact herror _
      | STOR => exact herror _
      | DATA => exact herror _
      | unknown number => exact herror _
    exact hanswer t ht
  apply hhandled.consequence (fun _ hs => hs) _ _ s hs
  · rintro _ t ⟨next, hnext, ht⟩
    exact ⟨next, hnext, ht.of_map⟩
  · rintro exception t ⟨next, hnext, ht⟩
    exact ⟨next, hnext, ht.of_map⟩

/-! ## After a reconnection -/

/-- The entry is passed over when the window is re-sent. -/
def skipped (folder : FileTree) (waiting : Waiting) : Bool :=
  waiting.event.type = .storeSent ∧
    intact settings.platform folder waiting.event.element = false

/-- The requests `recoverFromError` makes of a list of entries. -/
def resent (folder : FileTree) (entries : List Waiting) : List ClientMessage :=
  (entries.filter fun waiting => !skipped settings folder waiting).filterMap fun waiting =>
    requestOf settings waiting.event

namespace Account

def asksAll (requests : List ClientMessage) (account : Account) : Account :=
  { account with requests := account.requests ++ requests }

theorem asksAll_nil (account : Account) : account.asksAll [] = account := by
  rw [asksAll, List.append_nil]

end Account

/-- Every entry that is not passed over has a request. -/
def Requested (folder : FileTree) (entries : List Waiting) : Prop :=
  ∀ waiting ∈ entries, skipped settings folder waiting = false →
    (requestOf settings waiting.event).isSome = true

/-- One turn of the loop. -/
theorem meets_resend (waiting : Waiting) :
    Meets (At account folder left) (resend settings waiting.event)
      (fun _ s => (skipped settings folder waiting = false →
          (requestOf settings waiting.event).isSome = true) ∧
        About (account.asksAll (resent settings folder [waiting])) folder left s)
      (fun exception s => (left = none → exception.isSocket = false) ∧
        ∃ requests, About (account.asksAll requests) folder left s) := by
  have hnothing : About account folder left = About (account.asksAll []) folder left := by
    rw [Account.asksAll_nil]
  have hcompose : ∀ (exception : ClientException) s, At account folder left s ∧
      (exception = .socket .write ∧ left = some 0 ∨
        exception = .protocolManager .client ∧ requestOf settings waiting.event = none) →
      (left = none → exception.isSocket = false) ∧
        ∃ requests, About (account.asksAll requests) folder left s := by
    rintro exception s ⟨hs, ⟨rfl, hleft⟩ | ⟨rfl, -⟩⟩
    · exact ⟨fun hnone => by simp [hnone] at hleft, [], hnothing ▸ hs.about⟩
    · exact ⟨fun _ => rfl, [], hnothing ▸ hs.about⟩
  have hresent : ∀ request, requestOf settings waiting.event = some request →
      skipped settings folder waiting = false →
      resent settings folder [waiting] = [request] := by
    intro request hrequest hskipped
    simp [resent, hskipped, hrequest]
  rw [resend]
  apply Meets.ite
  · intro hstored
    apply Meets.chain (meets_vanishedOrChanged settings waiting.event.element)
    · rintro exception s ⟨rfl, hs⟩
      exact ⟨fun _ => rfl, [], hnothing ▸ hs.about⟩
    rintro passed s ⟨rfl, hs⟩
    cases hintact : intact settings.platform folder waiting.event.element with
    | false =>
        have hskipped : skipped settings folder waiting = true := by
          simp [skipped, hstored, hintact]
        have hempty : resent settings folder [waiting] = [] := by simp [resent, hskipped]
        rw [hempty, Account.asksAll_nil]
        exact ⟨fun h => absurd (hskipped.symm.trans h) (by simp), hs.about⟩
    | true =>
        have hskipped : skipped settings folder waiting = false := by
          simp [skipped, hintact]
        have hsent : Meets (At account folder left)
            (do
              composeMessage settings waiting.event
              sendFile settings waiting.event.element)
            (fun _ s => (skipped settings folder waiting = false →
                (requestOf settings waiting.event).isSome = true) ∧
              About (account.asksAll (resent settings folder [waiting])) folder left s)
            (fun exception s => (left = none → exception.isSocket = false) ∧
              ∃ requests, About (account.asksAll requests) folder left s) := by
          apply Meets.chain (meets_composeMessage settings waiting.event) hcompose
          intro _
          apply Meets.of_exists
          rintro request t ⟨hrequest, -, ht⟩
          have hfile := meets_sendFile settings waiting.event.element t ht
          have hasked : account.asks request = account.asksAll [request] := rfl
          cases hrun : sendFile settings waiting.event.element t with
          | returned value t' =>
              rw [hrun] at hfile
              rw [hresent request hrequest hskipped, ← hasked]
              exact ⟨fun _ => by rw [hrequest]; rfl, hfile.of_map⟩
          | raised exception t' =>
              rw [hrun] at hfile
              refine ⟨fun hnone => hfile.1 (by rw [hnone]; rfl), [request], ?_⟩
              rw [← hasked]
              exact hfile.2.of_map
        exact hsent s hs
  · intro hplain
    have hskipped : skipped settings folder waiting = false := by simp [skipped, hplain]
    apply (meets_composeMessage settings waiting.event).consequence (fun _ hs => hs) _ hcompose
    rintro _ t ⟨request, hrequest, -, ht⟩
    rw [hresent request hrequest hskipped]
    exact ⟨fun _ => by rw [hrequest]; rfl, ht.about.of_map⟩

theorem meets_resendAll (entries : List Waiting) :
    Meets (About account folder left) (resendAll settings entries)
      (fun _ s => Requested settings folder entries ∧
        About (account.asksAll (resent settings folder entries)) folder left s)
      (fun exception s => (left = none → exception.isSocket = false) ∧
        ∃ requests, About (account.asksAll requests) folder left s) := by
  induction entries generalizing account with
  | nil =>
      have hnothing : account.asksAll (resent settings folder []) = account :=
        Account.asksAll_nil account
      rw [hnothing]
      exact Meets.pure () fun _ hs => ⟨fun _ hmem => absurd hmem List.not_mem_nil, hs⟩
  | cons waiting others ih =>
      have hturn : Meets (About account folder left) (resend settings waiting.event)
          (fun _ s => (skipped settings folder waiting = false →
              (requestOf settings waiting.event).isSome = true) ∧
            About (account.asksAll (resent settings folder [waiting])) folder left s)
          (fun exception s => (left = none → exception.isSocket = false) ∧
            ∃ requests, About (account.asksAll requests) folder left s) := by
        apply Meets.of_exists
        rintro left' s ⟨hleft, hs⟩
        apply (meets_resend settings waiting).consequence (fun _ hs => hs) _ _ s hs
        · rintro _ t ⟨hsome, left'', hleft', ht⟩
          exact ⟨hsome, left'', fun hnone => hleft' (hleft hnone), ht⟩
        · rintro exception t ⟨hsocket, requests, left'', hleft', ht⟩
          exact ⟨fun hnone => hsocket (hleft hnone), requests, left'',
            fun hnone => hleft' (hleft hnone), ht⟩
      apply Meets.chain hturn fun _ _ h => h
      rintro _ s ⟨hsome, hs⟩
      have happend : ∀ requests, (account.asksAll (resent settings folder [waiting])).asksAll
          requests = account.asksAll (resent settings folder [waiting] ++ requests) := by
        intro requests
        simp only [Account.asksAll, List.append_assoc]
      apply ih.consequence (fun _ hs => hs) _ _ s hs
      · rintro _ t ⟨hothers, ht⟩
        rw [happend] at ht
        have hsplit : resent settings folder [waiting] ++ resent settings folder others =
            resent settings folder (waiting :: others) := by
          simp only [resent]
          rw [← List.filterMap_append, ← List.filter_append]
          rfl
        rw [hsplit] at ht
        apply And.intro _ ht
        intro entry hentry
        rcases List.mem_cons.mp hentry with rfl | hentry
        · exact hsome
        · exact hothers entry hentry
      · rintro exception t ⟨hsocket, requests, ht⟩
        rw [happend] at ht
        exact ⟨hsocket, _, ht⟩

/-- `recoverFromError` leaves the window as it is and writes its requests, less
the entries it passes over. -/
theorem meets_recoverFromError :
    Meets (At account folder left) (recoverFromError settings)
      (fun _ s => Requested settings folder account.waiting ∧
        About (account.asksAll (resent settings folder account.waiting)) folder left s)
      (fun exception s => (left = none → exception.isSocket = false) ∧
        ∃ requests, About (account.asksAll requests) folder left s) := by
  intro s hs
  rw [recoverFromError, Procedure.read_bind_apply, hs.ring]
  exact meets_resendAll settings account.waiting s hs.about

theorem length_resent_le (entries : List Waiting) :
    (resent settings folder entries).length ≤
      (entries.filter fun waiting => !skipped settings folder waiting).length := by
  rw [resent]
  exact List.length_filterMap_le _ _

/-- The requests are those of all entries exactly when none is passed over. -/
theorem resent_eq_iff {entries : List Waiting} (hrequested : Requested settings folder entries) :
    (resent settings folder entries).map some =
        entries.map (fun waiting => requestOf settings waiting.event) ↔
      ∀ waiting ∈ entries, skipped settings folder waiting = false := by
  constructor
  · intro hequal waiting hwaiting
    by_contra hskipped
    have hlengths := congrArg List.length hequal
    rw [List.length_map, List.length_map] at hlengths
    have hle : (resent settings folder entries).length ≤ _ :=
      length_resent_le settings entries
    have hlt : (entries.filter fun waiting => !skipped settings folder waiting).length <
        entries.length := by
      apply List.length_filter_lt_length_iff_exists.mpr
      exact ⟨waiting, hwaiting, by simpa using hskipped⟩
    omega
  · intro hnone
    have hall : (entries.filter fun waiting => !skipped settings folder waiting) = entries :=
      List.filter_eq_self.mpr fun waiting hwaiting => by simp [hnone waiting hwaiting]
    rw [resent, hall]
    clear hall
    induction entries with
    | nil => rfl
    | cons waiting others ih =>
        have hsome := hrequested waiting List.mem_cons_self (hnone waiting List.mem_cons_self)
        obtain ⟨request, hrequest⟩ := Option.isSome_iff_exists.mp hsome
        simp only [List.filterMap_cons, hrequest, List.map_cons]
        rw [ih (fun w hw => hrequested w (List.mem_cons_of_mem _ hw))
            fun w hw => hnone w (List.mem_cons_of_mem _ hw)]

/-! ## With an empty window -/

/-- What was entered stays the same, and no departure and no answer is forgotten. -/
def Recorded (past : History) (s : ClientState) : Prop :=
  s.history.entered = past.entered ∧ past.departures <+: s.history.departures ∧
    past.answers <+: s.history.answers

variable {past : History}

theorem operate_recorded (error : SocketError) :
    Keeps (Recorded past) (operate error) :=
  Keeps.bind (Keeps.read _) fun _ =>
    Keeps.ite (fun _ => Keeps.raise _) fun _ => Keeps.modify _ fun _ hs => hs

theorem sendClientMessage_recorded (message : ClientMessage) :
    Keeps (Recorded past) (sendClientMessage message) :=
  Keeps.bind (operate_recorded _) fun _ => Keeps.modify _ fun _ hs => hs

theorem recvMessage_recorded : Keeps (Recorded past) recvMessage := by
  apply Keeps.bind (operate_recorded _)
  intro _
  apply Keeps.bind (Keeps.read _)
  intro messages
  cases messages with
  | nil => exact Keeps.raise _
  | cons message messages =>
      exact Keeps.bind (Keeps.modify _ fun _ hs => hs) fun _ => Keeps.pure _

theorem note_recorded {add : History → History}
    (hentered : ∀ history, (add history).entered = history.entered)
    (hdepartures : ∀ history, history.departures <+: (add history).departures)
    (hanswers : ∀ history, history.answers <+: (add history).answers) :
    Keeps (Recorded past) (note add) :=
  Keeps.modify _ fun s hs =>
    ⟨(hentered s.history).trans hs.1, hs.2.1.trans (hdepartures s.history),
      hs.2.2.trans (hanswers s.history)⟩

theorem answer_recorded (answer : Answer) :
    Keeps (Recorded past) (note (History.addAnswer answer)) :=
  note_recorded (fun _ => rfl) (fun _ => List.prefix_rfl) fun _ => List.prefix_append _ _

theorem call_recorded (call : WindowCall) :
    Keeps (Recorded past) (note (History.addCall call)) :=
  note_recorded (fun _ => rfl) (fun _ => List.prefix_rfl) fun _ => List.prefix_rfl

theorem popWaiting_recorded : Keeps (Recorded past) popWaiting :=
  Keeps.bind (Keeps.read _) fun _ => Keeps.bind (call_recorded _) fun _ =>
    Keeps.modify _ fun _ hs => hs

theorem depart_recorded (waiting : Waiting) (reason : Reason) :
    Keeps (Recorded past) (depart waiting reason) :=
  note_recorded (fun _ => rfl) (fun _ => List.prefix_append _ _) fun _ => List.prefix_rfl

theorem composeMessage_recorded (event : Event) :
    Keeps (Recorded past) (composeMessage settings event) :=
  Keeps.bind (Keeps.orRaise _ _) fun _ => sendClientMessage_recorded _

theorem sendBlocks_recorded (data : List (List Byte)) :
    Keeps (Recorded past) (sendBlocks settings data) := by
  induction data with
  | nil => exact Keeps.pure ()
  | cons block data ih =>
      cases data with
      | nil => exact sendClientMessage_recorded _
      | cons next data => exact Keeps.bind (sendClientMessage_recorded _) fun _ => ih

theorem sendFile_recorded (element : DirectoryEntry) :
    Keeps (Recorded past) (sendFile settings element) := by
  apply Keeps.bind (Keeps.read _)
  intro status
  cases status with
  | none => exact Keeps.raise _
  | some node =>
      cases node with
      | file content mtime => exact sendBlocks_recorded settings _
      | dir mtime => exact sendBlocks_recorded settings _

theorem vanishedOrChanged_recorded (element : DirectoryEntry) :
    Keeps (Recorded past) (vanishedOrChanged settings element) :=
  Keeps.bind (Keeps.read _) fun _ => Keeps.ite (fun _ => Keeps.pure _) fun _ =>
    Keeps.bind (Keeps.orRaise _ _) fun _ => Keeps.pure _

theorem receiveSEND_recorded (waiting : Waiting) (message : ServerMessage) :
    Keeps (Recorded past) (receiveSEND settings waiting message) := by
  apply Keeps.ite
  · intro _
    apply Keeps.bind (Keeps.orRaise _ _)
    intro _
    apply Keeps.ite fun _ => Keeps.raise _
    intro _
    apply Keeps.bind popWaiting_recorded
    intro _
    apply Keeps.bind (vanishedOrChanged_recorded settings _)
    intro passed
    cases passed with
    | true => exact Keeps.bind (Keeps.read _) fun _ => depart_recorded _ _
    | false =>
        apply Keeps.bind (composeMessage_recorded settings _)
        intro _
        apply Keeps.bind
        · exact Keeps.bind (Keeps.read _) fun _ => Keeps.bind (call_recorded _) fun _ =>
            Keeps.modify _ fun _ hs => hs
        · exact fun _ => sendFile_recorded settings _
  · exact fun _ => Keeps.raise _

theorem onDatabase_recorded (query : Query Unit) :
    Keeps (Recorded past) (onDatabase query) :=
  Meets.within (Meets.anything query) (fun _ _ => trivial) (fun _ _ _ hs _ => hs)
    fun _ _ _ hs _ => hs

theorem saveConfirmed_recorded (event : Event) :
    Keeps (Recorded past) (saveConfirmed event) := by
  rw [saveConfirmed]
  cases event.type with
  | notAStatus => exact Keeps.pure ()
  | created => exact onDatabase_recorded _
  | deleted => exact onDatabase_recorded _
  | modified => exact onDatabase_recorded _
  | storeSent => exact onDatabase_recorded _

/-- Whatever the window holds, `receive` forgets no departure. -/
theorem receive_recorded : Keeps (Recorded past) (receive settings) := by
  have hdeparted : ∀ answer : Answer, Keeps (Recorded past)
      (do
        popWaiting
        depart answer.waiting (.answered answer)) := fun answer =>
    Keeps.bind popWaiting_recorded fun _ => depart_recorded _ _
  have hconfirmed : ∀ answer : Answer, Keeps (Recorded past)
      (do
        saveConfirmed answer.waiting.event
        popWaiting
        depart answer.waiting (.answered answer)) := fun answer =>
    Keeps.bind (saveConfirmed_recorded _) fun _ => hdeparted answer
  apply Keeps.bind recvMessage_recorded
  intro message
  apply Keeps.bind
  · exact Keeps.bind (Keeps.read _) fun _ => Keeps.bind (call_recorded _) fun _ => Keeps.pure _
  intro waiting
  apply Keeps.bind (Keeps.read _)
  intro request
  apply Keeps.bind (answer_recorded _)
  intro _
  apply Keeps.ite fun _ => Keeps.raise _
  intro _
  rw [dispatch]
  cases message.type with
  | SEND => exact receiveSEND_recorded settings _ _
  | OK =>
      rw [receiveOK]
      cases OkCode.ofCode message.code with
      | none => exact Keeps.raise _
      | some code => cases code <;> first | exact hconfirmed _ | exact Keeps.raise _
  | ERR =>
      rw [receiveERR]
      cases ErrCode.ofCode message.code with
      | none => exact Keeps.raise _
      | some code => cases code <;> first | exact hdeparted _ | exact Keeps.raise _
  | VER => exact Keeps.raise _
  | NOOP => exact Keeps.raise _
  | MKD => exact Keeps.raise _
  | STOR => exact Keeps.raise _
  | DATA => exact Keeps.raise _
  | unknown number => exact Keeps.raise _

end Methods

end PdsBackup.Client
