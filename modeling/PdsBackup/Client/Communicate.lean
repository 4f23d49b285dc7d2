import PdsBackup.Client.Window

/-!
# The communication thread

The function `communicate`: the loop that connects, re-sends the window, and then
sends events and receives answers as the socket allows.  A socket exception ends a
connection and leads to the next one; any other exception ends the thread.  What
the watcher, the server, the network and the users of the folder do in between is
part of a run: it may happen at any time.
-/

namespace PdsBackup.Client

open Procedure

/-- Where the thread is. -/
inductive Phase where
  | disconnected
  | connected
  | ended
  deriving DecidableEq

structure System where
  client : ClientState
  eventQueue : List Event
  phase : Phase

/-- What happens: the folder changes, the watcher queues an event, the socket is
about to fail, a message arrives, or the thread takes a turn. -/
inductive Action where
  | change (folder : FileTree)
  | detect (event : Event)
  | weaken (operationsLeft : Option Nat)
  | arrive (message : ServerMessage)
  | connect (operationsLeft : Option Nat)
  | writable
  | readable
  | disconnect

section Settings

variable (settings : Settings)

/-- How the thread goes on after a call, by the exception it ended with. -/
def Phase.after : Option ClientException → Phase
  | none => .connected
  | some exception => if exception.isSocket then .disconnected else .ended

/-- The front of the queue is sent, and popped if it was. -/
def sendFront (event : Event) (others : List Event) (system : System) : System :=
  let exit := send settings event system.client
  { client := exit.state
    eventQueue := match exit with
      | .returned true _ => others
      | _ => event :: others
    phase := Phase.after exit.exception }

/-- A new socket and protocol manager, authenticated, with the old window. -/
def reconnected (operationsLeft : Option Nat) (client : ClientState) : ClientState :=
  { client with connection := { operationsLeft } }

/-- One turn; `none` where the action is not possible. -/
def step (action : Action) (system : System) : Option System :=
  match action, system.phase, system.eventQueue with
  | .change folder, _, _ => some { system with client := { system.client with folder } }
  | .detect event, _, _ => some { system with eventQueue := system.eventQueue ++ [event] }
  | .weaken operationsLeft, _, _ =>
      some { system with
        client := { system.client with
          connection := { system.client.connection with operationsLeft } } }
  | .arrive message, .connected, _ =>
      some { system with
        client := { system.client with
          connection := { system.client.connection with
            incoming := system.client.connection.incoming ++ [message] } } }
  | .connect operationsLeft, .disconnected, _ =>
      let exit := recoverFromError settings (reconnected operationsLeft system.client)
      some { system with client := exit.state, phase := Phase.after exit.exception }
  | .writable, .connected, event :: others =>
      if system.client.waitingForResponse.full then none
      else some (sendFront settings event others system)
  | .readable, .connected, _ =>
      let exit := receive settings system.client
      some { system with client := exit.state, phase := Phase.after exit.exception }
  | .disconnect, .connected, _ =>
      if system.client.waitingForResponse.empty then some { system with phase := .disconnected }
      else none
  | _, _, _ => none

/-- The runs whose actions are all allowed where they happen. -/
inductive Run (allowed : System → Action → Prop) (start : System) :
    List Action → System → Prop
  | start : Run allowed start [] start
  | turn {actions : List Action} {system next : System} {action : Action}
      (hrun : Run allowed start actions system) (hallowed : allowed system action)
      (hstep : step settings action system = some next) :
      Run allowed start (actions ++ [action]) next

variable {settings} {allowed : System → Action → Prop} {start : System}

theorem Run.append {actions more : List Action} {system next : System}
    (hrun : Run settings allowed start actions system)
    (hmore : Run settings allowed system more next) :
    Run settings allowed start (actions ++ more) next := by
  induction hmore with
  | start =>
      rw [List.append_nil]
      exact hrun
  | turn _ hallowed hstep ih =>
      rw [← List.append_assoc]
      exact .turn ih hallowed hstep

variable (settings) in
/-- Takes the actions one by one, each only where the check allows it. -/
def performs (check : System → Action → Bool) : List Action → System → Option System
  | [], system => some system
  | action :: actions, system =>
      if check system action then
        (step settings action system).bind (performs check actions)
      else none

theorem run_of_performs {check : System → Action → Bool}
    (hcheck : ∀ system action, check system action = true → allowed system action)
    {actions : List Action} {next : System}
    (hperforms : performs settings check actions start = some next) :
    Run settings allowed start actions next := by
  induction actions generalizing start with
  | nil =>
      rw [performs, Option.some.injEq] at hperforms
      rw [← hperforms]
      exact .start
  | cons action actions ih =>
      rw [performs] at hperforms
      cases hturn : check start action with
      | false => simp [hturn] at hperforms
      | true =>
          rw [hturn, if_pos rfl, Option.bind_eq_some_iff] at hperforms
          obtain ⟨system, hstep, hrest⟩ := hperforms
          exact (Run.turn .start (hcheck _ _ hturn) hstep).append (ih hrest)

/-- The actions can be taken, and what they lead to passes the test. -/
theorem exists_run_of_performs {check : System → Action → Bool} {test : System → Bool}
    (hcheck : ∀ system action, check system action = true → allowed system action)
    {actions : List Action} (htest : (performs settings check actions start).any test = true) :
    ∃ next, Run settings allowed start actions next ∧ test next = true := by
  cases hperforms : performs settings check actions start with
  | none => simp [hperforms] at htest
  | some next =>
      rw [hperforms, Option.any_some] at htest
      exact ⟨next, run_of_performs hcheck hperforms, htest⟩

/-! ## What an action does -/

theorem About.account_eq {account : Account} {folder : FileTree} {left : Option Nat}
    {s : ClientState} (habout : About account folder left s) : s.account = account := by
  obtain ⟨_, _, hat⟩ := habout
  exact hat.account_eq

theorem About.left_eq_none {account : Account} {folder : FileTree} {s : ClientState}
    (habout : About account folder none s) : s.connection.operationsLeft = none := by
  obtain ⟨_, hleft, hat⟩ := habout
  rw [hat.left]
  exact hleft rfl

/-- The account of a client that has just connected. -/
def Account.fresh (account : Account) : Account :=
  { account with incoming := [], received := 0, requests := [] }

theorem length_waiting_le (s : ClientState) : s.account.waiting.length ≤ s.account.limit := by
  have hlt := s.waitingForResponse.size_lt
  have hlength := s.waitingForResponse.length_toList
  show s.waitingForResponse.toList.length ≤ s.waitingForResponse.capacity - 1
  omega

/-- The socket is found closed where nothing can be read. -/
theorem meets_receive_closed (settings : Settings) {account : Account} {folder : FileTree} {left : Option Nat}
    (hincoming : account.incoming = []) :
    Meets (At account folder left) (receive settings) (fun _ _ => False)
      (fun exception s => exception.isSocket = true ∧ About account folder left s) := by
  apply Meets.chain meets_recvMessage
  · rintro exception s ⟨hsocket, -, hs⟩
    exact ⟨hsocket, hs⟩
  · rintro message s ⟨incoming, hmessage, -⟩
    rw [hincoming] at hmessage
    exact absurd hmessage (by simp)

/-- What an action makes of a system, in terms of the account of the client. -/
inductive Stepped (settings : Settings) (system : System) : Action → System → Prop
  | change {folder : FileTree} {next : System}
      (haccount : next.client.account = system.client.account) (hphase : next.phase = system.phase)
      (hleft : next.client.connection.operationsLeft =
        system.client.connection.operationsLeft) :
      Stepped settings system (.change folder) next
  | detect {event : Event} {next : System} (hclient : next.client = system.client)
      (hphase : next.phase = system.phase) : Stepped settings system (.detect event) next
  | weaken {operationsLeft : Option Nat} {next : System}
      (haccount : next.client.account = system.client.account) (hphase : next.phase = system.phase) :
      Stepped settings system (.weaken operationsLeft) next
  | arrive {message : ServerMessage} {next : System} (hconnected : system.phase = .connected)
      (haccount : next.client.account =
        { system.client.account with
          incoming := system.client.account.incoming ++ [message] })
      (hphase : next.phase = .connected)
      (hleft : next.client.connection.operationsLeft =
        system.client.connection.operationsLeft) :
      Stepped settings system (.arrive message) next
  | connected {operationsLeft : Option Nat} {next : System}
      (hdisconnected : system.phase = .disconnected)
      (hrequested : Requested settings system.client.folder system.client.account.waiting)
      (haccount : next.client.account = system.client.account.fresh.asksAll
        (resent settings system.client.folder system.client.account.waiting))
      (hphase : next.phase = .connected) :
      Stepped settings system (.connect operationsLeft) next
  | unconnected {operationsLeft : Option Nat} {next : System}
      (hdisconnected : system.phase = .disconnected) {requests : List ClientMessage}
      (haccount : next.client.account = system.client.account.fresh.asksAll requests)
      (hphase : next.phase ≠ .connected) :
      Stepped settings system (.connect operationsLeft) next
  | sent {next : System} {event : Event} {accepted : Bool}
      (hconnected : system.phase = .connected)
      (hsending : Sending settings system.client.account event accepted next.client.account)
      (hphase : next.phase = .connected)
      (hleft : system.client.connection.operationsLeft = none →
        next.client.connection.operationsLeft = none) :
      Stepped settings system .writable next
  | unsent {next : System} (hconnected : system.phase = .connected)
      (haccount : next.client.account = system.client.account) (hphase : next.phase ≠ .connected)
      (hleft : system.client.connection.operationsLeft = none → next.phase = .ended) :
      Stepped settings system .writable next
  | closed {next : System} (hconnected : system.phase = .connected)
      (hincoming : system.client.account.incoming = [])
      (haccount : next.client.account = system.client.account)
      (hphase : next.phase = .disconnected) : Stepped settings system .readable next
  | received {next : System} {ending : Option ClientException}
      (hconnected : system.phase = .connected)
      (hreceiving : Receiving settings system.client.folder
        system.client.connection.operationsLeft system.client.account ending next.client.account)
      (hphase : next.phase = Phase.after ending)
      (hleft : system.client.connection.operationsLeft = none →
        next.client.connection.operationsLeft = none) :
      Stepped settings system .readable next
  | unasked {next : System} (hconnected : system.phase = .connected)
      (hincoming : system.client.account.incoming ≠ [])
      (hwaiting : system.client.account.waiting = [])
      (hrecorded : Recorded system.client.history next.client) : Stepped settings system .readable next
  | disconnect {next : System} (hconnected : system.phase = .connected)
      (hclient : next.client = system.client) (hphase : next.phase = .disconnected) :
      Stepped settings system .disconnect next

theorem stepped_connect (operationsLeft : Option Nat) {system : System}
    (hdisconnected : system.phase = .disconnected) :
    Stepped settings system (.connect operationsLeft)
      { system with
        client := (recoverFromError settings (reconnected operationsLeft system.client)).state
        phase := Phase.after
          (recoverFromError settings (reconnected operationsLeft system.client)).exception } := by
  have hat : At system.client.account.fresh system.client.folder operationsLeft
      (reconnected operationsLeft system.client) :=
    (reconnected operationsLeft system.client).at_account
  have hends := meets_recoverFromError settings _ hat
  cases hrun : recoverFromError settings (reconnected operationsLeft system.client) with
  | returned value s =>
      rw [hrun] at hends
      exact .connected hdisconnected hends.1 hends.2.account_eq rfl
  | raised exception s =>
      rw [hrun] at hends
      obtain ⟨-, requests, hs⟩ := hends
      apply Stepped.unconnected hdisconnected hs.account_eq
      cases hsocket : exception.isSocket <;> simp [Exit.exception, Phase.after, hsocket]

theorem stepped_sendFront {event : Event} {others : List Event} {system : System}
    (hconnected : system.phase = .connected) :
    Stepped settings system .writable (sendFront settings event others system) := by
  have hends := meets_send settings event system.client system.client.at_account
  cases hrun : send settings event system.client with
  | returned accepted s =>
      rw [hrun] at hends
      obtain ⟨account, hsending, hs⟩ := hends
      rw [← hs.account_eq] at hsending
      have hclient : (sendFront settings event others system).client = s := by
        rw [sendFront, hrun]
        rfl
      have hphase : (sendFront settings event others system).phase = .connected := by
        rw [sendFront, hrun]
        rfl
      apply Stepped.sent hconnected (hclient ▸ hsending) hphase
      rintro hleft
      rw [hleft] at hs
      rw [hclient]
      exact hs.left_eq_none
  | raised exception s =>
      rw [hrun] at hends
      obtain ⟨hs, hsocket⟩ := hends
      have hclient : (sendFront settings event others system).client = s := by
        rw [sendFront, hrun]
        rfl
      have hphase : (sendFront settings event others system).phase =
          if exception.isSocket then .disconnected else .ended := by
        rw [sendFront, hrun]
        rfl
      apply Stepped.unsent hconnected (hclient ▸ hs.account_eq)
      · rw [hphase]
        cases exception.isSocket <;> simp
      · intro hleft
        rw [hphase, hsocket hleft]
        rfl

theorem stepped_receive {system : System} (hconnected : system.phase = .connected) :
    Stepped settings system .readable
      { system with
        client := (receive settings system.client).state
        phase := Phase.after (receive settings system.client).exception } := by
  by_cases hincoming : system.client.account.incoming = []
  · have hends := meets_receive_closed settings hincoming
      system.client system.client.at_account
    cases hrun : receive settings system.client with
    | returned value s =>
        rw [hrun] at hends
        exact hends.elim
    | raised exception s =>
        rw [hrun] at hends
        obtain ⟨hsocket, hs⟩ := hends
        apply Stepped.closed hconnected hincoming hs.account_eq
        simp [Exit.exception, Phase.after, hsocket]
  cases hwaiting : system.client.account.waiting with
  | nil =>
      apply Stepped.unasked hconnected hincoming hwaiting
      exact (receive_recorded settings).state ⟨rfl, List.prefix_rfl, List.prefix_rfl⟩
  | cons head others =>
      have hends := meets_receive settings hwaiting (length_waiting_le system.client)
        system.client system.client.at_account
      cases hrun : receive settings system.client with
      | returned value s =>
          rw [hrun] at hends
          obtain ⟨account, hreceiving, hs⟩ := hends
          rw [← hs.account_eq] at hreceiving
          apply Stepped.received hconnected hreceiving rfl
          intro hleft
          rw [hleft] at hs
          exact hs.left_eq_none
      | raised exception s =>
          rw [hrun] at hends
          obtain ⟨account, hreceiving, hs⟩ := hends
          rw [← hs.account_eq] at hreceiving
          apply Stepped.received hconnected hreceiving rfl
          intro hleft
          rw [hleft] at hs
          exact hs.left_eq_none

/-- Every action that is possible does one of these things. -/
theorem stepped_of_step {action : Action} {system next : System}
    (hstep : step settings action system = some next) : Stepped settings system action next := by
  cases action with
  | change folder =>
      obtain rfl := Option.some.inj hstep
      exact .change rfl rfl rfl
  | detect event =>
      obtain rfl := Option.some.inj hstep
      exact .detect rfl rfl
  | weaken operationsLeft =>
      obtain rfl := Option.some.inj hstep
      exact .weaken rfl rfl
  | arrive message =>
      cases hphase : system.phase <;> simp only [step, hphase, reduceCtorEq] at hstep
      obtain rfl := Option.some.inj hstep
      exact .arrive hphase rfl rfl rfl
  | connect operationsLeft =>
      cases hphase : system.phase <;> simp only [step, hphase, reduceCtorEq] at hstep
      obtain rfl := Option.some.inj hstep
      exact stepped_connect operationsLeft hphase
  | writable =>
      cases hphase : system.phase <;> cases hqueue : system.eventQueue <;>
        simp only [step, hphase, hqueue, reduceCtorEq] at hstep
      cases hfull : system.client.waitingForResponse.full with
      | true => simp [hfull] at hstep
      | false =>
          rw [hfull] at hstep
          obtain rfl := Option.some.inj hstep
          exact stepped_sendFront hphase
  | readable =>
      cases hphase : system.phase <;> simp only [step, hphase, reduceCtorEq] at hstep
      obtain rfl := Option.some.inj hstep
      exact stepped_receive hphase
  | disconnect =>
      cases hphase : system.phase <;> simp only [step, hphase, reduceCtorEq] at hstep
      cases hempty : system.client.waitingForResponse.empty with
      | false => simp [hempty] at hstep
      | true =>
          rw [hempty] at hstep
          obtain rfl := Option.some.inj hstep
          exact .disconnect hphase rfl rfl

end Settings

/-! ## A client to run -/

/-- The libraries on the empty file and on the first second of 1970. -/
def homePlatform : Platform where
  sha256 _ := (Hash.ofBytes [0xe3, 0xb0, 0xc4, 0x42, 0x98, 0xfc, 0x1c, 0x14, 0x9a, 0xfb, 0xf4,
    0xc8, 0x99, 0x6f, 0xb9, 0x24, 0x27, 0xae, 0x41, 0xe4, 0x64, 0x9b, 0x93, 0x4c, 0xa4, 0x95,
    0x99, 0x1b, 0x78, 0x52, 0xb8, 0x55]).getD .zero
  putTime _ := "Thursday, 01 January 1970 00:00 UTC".toList
  getTime _ := 0

def homeSettings : Settings where
  platform := homePlatform
  protocolVersion := 1
  pathToWatch := "/home".toList
  maxDataChunkSize := 15360

/-- The empty folder that is watched. -/
def homeFolder : FileTree := (FileTree.bare 0).putDir ["home".toList] 0

/-- An empty file below the folder. -/
def fileElement (relativePath : Text) : DirectoryEntry where
  relativePath
  absolutePath := "/home".toList ++ relativePath
  size := 0
  type := .file
  lastWriteTime := homePlatform.putTime 0
  hash := homePlatform.sha256 []

/-- A directory below the folder. -/
def directoryElement (relativePath : Text) : DirectoryEntry where
  relativePath
  absolutePath := "/home".toList ++ relativePath
  type := .directory
  lastWriteTime := homePlatform.putTime 0

/-- A client whose window has room for some entries and holds the given ones. -/
def clientWith (folder : FileTree) (room : Nat) (entries : List Waiting) : ClientState where
  connection := {}
  waitingForResponse := entries.foldl (fun ring waiting => ring.push waiting) (.ofSize room)
  folder
  database := {}
  history := {}

def serverMessage (type : ServerMessage.Type) (code : Nat) : ServerMessage :=
  { version := 1, type, code }

/-- The server wants the file of an element. -/
def sendMessage (element : DirectoryEntry) : ServerMessage :=
  { version := 1, type := .SEND, path := element.relativePath, hash := element.hash.bytes }

end PdsBackup.Client
