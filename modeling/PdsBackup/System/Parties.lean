import PdsBackup.Client.Reports
import PdsBackup.Core.Schedules
import PdsBackup.Server.Agreement
import PdsBackup.Server.Frames

/-!
# Both parties of a connection

A client that backs up its folder, and the session at the other end of its connection.
What one of them writes comes to the other one in the order in which it was written;
apart from that they take their turns in any order.
-/

namespace PdsBackup

open Schedule

/-- A request that was served, and what was sent for it. -/
structure Exchange where
  request : ClientMessage
  sent : List ServerMessage

/-- The two parties.  The record of the exchanges is not kept by the source; it is what
statements about runs refer to. -/
structure Parties where
  client : Client.System
  server : Server.ServerState
  exchanges : List Exchange := []

namespace Parties

/-- Something happens at the client, or the session serves a request. -/
inductive Turn where
  | client (action : Client.Action)
  | serve

/-- What the client writes in a step. -/
def written (before after : Client.System) : List ClientMessage :=
  after.client.connection.written.drop before.client.connection.written.length

section Settings

variable (settings : Client.Settings) (session : Server.Session)

/-- A message that comes to a client that has left the connection is lost. -/
def deliver (sent : List ServerMessage) (client : Client.System) : Client.System :=
  sent.foldl (fun client message =>
    (Client.step settings (.arrive message) client).getD client) client

/-- A step of the client, and what it writes comes to the server. -/
def act (action : Client.Action) (parties : Parties) : Option Parties := do
  let client ← Client.step settings action parties.client
  let incoming := parties.server.connection.incoming ++ written parties.client client
  pure { parties with client, server := parties.server.withIncoming incoming }

/-- A call of `receive` that returns, and what it sends comes to the client. -/
def serve (parties : Parties) : Option Parties :=
  match parties.server.connection.incoming, Server.receive session parties.server with
  | request :: _, .returned _ server =>
      let sent := server.connection.outgoing.drop parties.server.connection.outgoing.length
      some {
        client := deliver settings sent parties.client
        server
        exchanges := parties.exchanges ++ [{ request, sent }] }
  | _, _ => none

/-- One turn; `none` where it is not possible, or where it ends the session. -/
def turn : Turn → Parties → Option Parties
  | .client action => act settings action
  | .serve => serve settings session

/-- The connection does not fail. -/
def Lasting (parties : Parties) : Turn → Prop
  | .client action => Client.Regular parties.client action
  | .serve => True

instance Lasting.decidable (parties : Parties) (action : Turn) :
    Decidable (Lasting parties action) :=
  match action with
  | .client action => Client.Regular.decidable parties.client action
  | .serve => .isTrue trivial

/-- The connection was just opened, and both sides speak the same version. -/
structure Opening (start : Parties) : Prop where
  version : settings.protocolVersion = session.protocolVersion
  client : Client.Opened start.client
  noticed : ∀ event ∈ start.client.eventQueue, Client.Noticed event
  incoming : start.server.connection.incoming = []
  exchanges : start.exchanges = []

/-- What holds as long as the client is on the connection. -/
structure Joined (start parties : Parties) : Prop where
  sound : Client.Sound parties.client
  client : ∃ actions, Client.Run settings Client.Unbroken start.client actions parties.client ∧
    parties.exchanges.map Exchange.sent = (Client.arrivals actions).map fun message => [message]
  answered : ∀ exchange ∈ parties.exchanges, ∃ answer,
    exchange.sent = [answer] ∧ answer.isAnswer = true
  served : parties.exchanges.map Exchange.request =
    parties.client.client.connection.requests.take parties.exchanges.length
  stream : Framed settings.protocolVersion
    (parties.client.client.connection.requests.drop parties.exchanges.length)
    parties.server.connection.incoming

end Settings

section Steps

variable {settings : Client.Settings} {session : Server.Session} {start parties next : Parties}

theorem turn_client {action : Client.Action} (hturn : turn settings session (.client action)
      parties = some next) :
    ∃ client, Client.step settings action parties.client = some client ∧
      next = { parties with
        client
        server := parties.server.withIncoming
          (parties.server.connection.incoming ++ written parties.client client) } := by
  obtain ⟨client, hstep, hnext⟩ := Option.bind_eq_some_iff.mp hturn
  exact ⟨client, hstep, (Option.some.inj hnext).symm⟩

theorem turn_serve (hturn : turn settings session .serve parties = some next) :
    ∃ request pending server sent,
      parties.server.connection.incoming = request :: pending ∧
      Server.receive session parties.server = .returned () server ∧
      sent = server.connection.outgoing.drop parties.server.connection.outgoing.length ∧
      next = {
        client := deliver settings sent parties.client
        server
        exchanges := parties.exchanges ++ [{ request, sent }] } := by
  rw [turn, serve] at hturn
  split at hturn
  · next request pending value server hincoming hreceive =>
      exact ⟨request, pending, server, _, hincoming, hreceive, rfl,
        (Option.some.inj hturn).symm⟩
  · simp at hturn

theorem deliver_phase (sent : List ServerMessage) (client : Client.System) :
    (deliver settings sent client).phase = client.phase := by
  induction sent generalizing client with
  | nil => rfl
  | cons message sent ih =>
      have hone : ((Client.step settings (.arrive message) client).getD client).phase =
          client.phase := by
        cases hstep : Client.step settings (.arrive message) client with
        | none => rfl
        | some system =>
            cases Client.stepped_of_step hstep with
            | arrive hconnected _ hphase => exact hphase.trans hconnected.symm
      exact (ih _).trans hone

/-- The client does not come back to a connection it has left. -/
theorem connected_of_turn {action : Turn} (hlasting : Lasting parties action)
    (hturn : turn settings session action parties = some next)
    (hnext : next.client.phase = .connected) : parties.client.phase = .connected := by
  cases action with
  | client action =>
      obtain ⟨client, hstep, rfl⟩ := turn_client hturn
      exact hlasting.connected hstep hnext
  | serve =>
      obtain ⟨request, pending, server, sent, -, -, -, rfl⟩ := turn_serve hturn
      exact (deliver_phase sent parties.client).symm.trans hnext

/-! ## While the client is on the connection -/

theorem Opening.joined (hopening : Opening settings session start) :
    Joined settings start start := by
  have hrequests : start.client.client.connection.requests = [] := by
    rw [hopening.client.connection]
    rfl
  constructor
  · apply Client.Sound.mk hopening.noticed
    rw [hopening.client.waiting]
    exact fun _ hmem => absurd hmem List.not_mem_nil
  · exact ⟨[], .start, by rw [hopening.exchanges]; rfl⟩
  · rw [hopening.exchanges]
    exact fun _ hmem => absurd hmem List.not_mem_nil
  · rw [hopening.exchanges, hrequests]
    rfl
  · rw [hopening.incoming, hrequests, List.drop_nil]
    exact .nil

namespace Joined

theorem length_le (hjoined : Joined settings start parties) :
    parties.exchanges.length ≤ parties.client.client.connection.requests.length := by
  have hlength := congrArg List.length hjoined.served
  rw [List.length_map, List.length_take] at hlength
  omega

variable (hopened : Client.Opened start.client) (hjoined : Joined settings start parties)
include hopened hjoined

theorem aligned (hconnected : parties.client.phase = .connected) :
    parties.client.client.account.Aligned settings := by
  obtain ⟨actions, hrun, -⟩ := hjoined.client
  exact ((hopened.connected settings).run hrun).kept.aligned hconnected

/-- What was sent for the requests is what the client has taken and what is on its way. -/
theorem sent : parties.exchanges.map Exchange.sent =
    (parties.client.client.history.answers.map Client.Answer.message ++
      parties.client.client.connection.incoming).map fun message => [message] := by
  obtain ⟨actions, hrun, hsent⟩ := hjoined.client
  have hmessages := ((hopened.connected settings).run hrun).ranked.messages
  rw [hsent, ← hmessages]
  rfl

theorem length_exchanges : parties.exchanges.length =
    parties.client.client.connection.received +
      parties.client.client.connection.incoming.length := by
  obtain ⟨actions, hrun, -⟩ := hjoined.client
  have hanswers := ((hopened.connected settings).run hrun).ranked.length
  have hlength := congrArg List.length (hjoined.sent hopened)
  have hreceived : parties.client.client.history.answers.length =
      parties.client.client.connection.received := hanswers
  simp only [List.length_map, List.length_append] at hlength
  omega

/-- The exchange of a rank is that of the request and the message of this rank. -/
theorem exchange_at {rank : Nat} {message : ServerMessage} {request : ClientMessage}
    (hmessage : (parties.client.client.history.answers.map Client.Answer.message ++
      parties.client.client.connection.incoming)[rank]? = some message)
    (hrequest : parties.client.client.connection.requests[rank]? = some request) :
    parties.exchanges[rank]? = some ⟨request, [message]⟩ := by
  have hsentAt : (parties.exchanges.map Exchange.sent)[rank]? = some [message] := by
    rw [hjoined.sent hopened, List.getElem?_map, hmessage]
    rfl
  rw [List.getElem?_map, Option.map_eq_some_iff] at hsentAt
  obtain ⟨exchange, hexchange, hown⟩ := hsentAt
  have hlt := (List.getElem?_eq_some_iff.mp hexchange).1
  have hserved := congrArg (fun requests => requests[rank]?) hjoined.served
  simp only [List.getElem?_map, hexchange, Option.map_some, List.getElem?_take, hlt, if_true,
    hrequest, Option.some.injEq] at hserved
  rw [hexchange, ← hserved, ← hown]

/-- The next request to be served is that of an entry in the window. -/
theorem requested (hconnected : parties.client.phase = .connected) {request : ClientMessage}
    {others : List ClientMessage}
    (hdrop : parties.client.client.connection.requests.drop parties.exchanges.length =
      request :: others) :
    ∃ waiting ∈ parties.client.client.waitingForResponse.toList,
      Client.requestOf settings waiting.event = some request := by
  have hrequests := (hjoined.aligned hopened hconnected).window.requests
  have hmem : some request ∈
      parties.client.client.account.window.waiting.map (Client.asked settings) := by
    rw [hrequests]
    apply List.mem_map_of_mem
    show request ∈ parties.client.client.connection.requests.drop
      parties.client.client.connection.received
    have hunserved : request ∈ (parties.client.client.connection.requests.drop
        parties.client.client.connection.received).drop
          parties.client.client.connection.incoming.length := by
      rw [List.drop_drop, ← hjoined.length_exchanges hopened, hdrop]
      exact List.mem_cons_self
    exact List.mem_of_mem_drop hunserved
  obtain ⟨waiting, hwaiting, hasked⟩ := List.mem_map.mp hmem
  exact ⟨waiting, hwaiting, hasked⟩

/-- Nothing waits for an answer where neither party has anything to read. -/
theorem idle_iff (hconnected : parties.client.phase = .connected) :
    parties.client.client.waitingForResponse.toList = [] ↔
      parties.server.connection.incoming = [] ∧
        parties.client.client.connection.incoming = [] := by
  have hwaiting : parties.client.client.waitingForResponse.toList.length +
      parties.client.client.connection.received =
        parties.client.client.connection.requests.length :=
    (hjoined.aligned hopened hconnected).window.length_waiting
  have hlength := hjoined.length_exchanges hopened
  have hle := hjoined.length_le
  rw [hjoined.stream.eq_nil_iff, List.drop_eq_nil_iff, ← List.length_eq_zero_iff,
    ← List.length_eq_zero_iff]
  omega

end Joined

theorem Joined.acted (hopened : Client.Opened start.client)
    (hjoined : Joined settings start parties) {action : Client.Action} {client : Client.System}
    (hregular : Client.Regular parties.client action)
    (hstep : Client.step settings action parties.client = some client)
    (hconnected : client.phase = .connected) :
    Joined settings start { parties with
      client
      server := parties.server.withIncoming
        (parties.server.connection.incoming ++ written parties.client client) } := by
  obtain ⟨requests, stream, hwritten, hframed, hrequests⟩ :=
    hregular.extends hjoined.sound hstep hconnected
  have hadded : written parties.client client = stream := by
    rw [written, hwritten]
    exact List.drop_left' rfl
  have hle := hjoined.length_le
  constructor
  · exact hjoined.sound.step (hjoined.aligned hopened) hregular hstep
  · obtain ⟨actions, hrun, hsent⟩ := hjoined.client
    refine ⟨actions ++ [action], .turn hrun hregular.unbroken hstep, ?_⟩
    rw [Client.arrivals_append, Client.arrivals_regular hregular, List.append_nil]
    exact hsent
  · exact hjoined.answered
  · show parties.exchanges.map Exchange.request =
      client.client.connection.requests.take parties.exchanges.length
    rw [hrequests, List.take_append_of_le_length hle]
    exact hjoined.served
  · show Framed settings.protocolVersion
      (client.client.connection.requests.drop parties.exchanges.length)
        (parties.server.connection.incoming ++ written parties.client client)
    rw [hrequests, hadded, List.drop_append_of_le_length hle]
    exact hjoined.stream.append hframed

/-! ## A request that is served -/

/-- A request made of an acceptable event is accepted, and it is an operation. -/
theorem accepted_of_acceptable {event : Client.Event} {request : ClientMessage}
    (hacceptable : Client.Acceptable event)
    (hrequest : Client.requestOf settings event = some request) :
    Server.Accepted request ∧ request.operation.isSome = true ∧ request.type ≠ .RETR := by
  have hpath := hacceptable.path
  have htime := hacceptable.time
  rw [Client.requestOf] at hrequest
  cases hfile : event.element.isRegularFile <;> cases htype : event.type <;>
    simp only [hfile, htype, if_true, Bool.false_eq_true, if_false, Option.some.injEq,
      reduceCtorEq] at hrequest <;>
    · subst hrequest
      simp [Server.Accepted, ClientMessage.operation, Client.messagePROB, Client.messageDELE,
        Client.messageSTOR, Client.messageMKD, Client.messageRMD, hpath, htime]

variable (settings) in
theorem deliver_one {client : Client.System} (hconnected : client.phase = .connected)
    (answer : ServerMessage) :
    Client.step settings (.arrive answer) client = some (deliver settings [answer] client) := by
  simp [deliver, Client.step, hconnected]

/-- What a call has sent for the next request. -/
theorem Joined.answers (hopening : Opening settings session start)
    (hjoined : Joined settings start parties) (hconnected : parties.client.phase = .connected)
    {request : ClientMessage} {pending : List ClientMessage} {server : Server.ServerState}
    (hincoming : parties.server.connection.incoming = request :: pending)
    (hreceive : Server.receive session parties.server = .returned () server) :
    ∃ others answer,
      parties.client.client.connection.requests.drop parties.exchanges.length =
          request :: others ∧
        Framed settings.protocolVersion others server.connection.incoming ∧
          answer.isAnswer = true ∧
            server.connection.outgoing = parties.server.connection.outgoing ++ [answer] := by
  have hstream := hjoined.stream
  rw [hincoming] at hstream
  obtain ⟨others, messages, rest, hrequests, rfl, hattached, hrest⟩ := hstream.uncons
  obtain ⟨waiting, hwaiting, hrequest⟩ :=
    hjoined.requested hopening.client hconnected hrequests
  obtain ⟨haccepted, hoperation, hretr⟩ :=
    accepted_of_acceptable (hjoined.sound.window waiting hwaiting) hrequest
  rw [hopening.version] at hattached
  have htaken := Server.receive_takes hincoming hattached haccepted hoperation hreceive
  have hhead : parties.server.connection.incoming.head? = some request := by
    rw [hincoming]
    rfl
  obtain ⟨sent, hsent, hmet⟩ := Server.receive_met hhead hreceive
  rw [Server.Met, if_pos haccepted] at hmet
  obtain ⟨transfers, answer, rfl, hanswer, -, htransfers, -⟩ := hmet
  rw [htransfers hretr] at hsent
  exact ⟨others, answer, hrequests, htaken ▸ hrest, hanswer, hsent⟩

variable (settings session) in
/-- The next request was served with one answer. -/
structure Answered (parties next : Parties) (request : ClientMessage) (answer : ServerMessage) :
    Prop where
  pending : ∃ pending, parties.server.connection.incoming = request :: pending
  returned : Server.receive session parties.server = .returned () next.server
  outgoing : next.server.connection.outgoing = parties.server.connection.outgoing ++ [answer]
  isAnswer : answer.isAnswer = true
  client : next.client = deliver settings [answer] parties.client
  exchanges : next.exchanges = parties.exchanges ++ [⟨request, [answer]⟩]
  stream : ∃ others,
    parties.client.client.connection.requests.drop parties.exchanges.length =
        request :: others ∧
      Framed settings.protocolVersion others next.server.connection.incoming

theorem Joined.answering (hopening : Opening settings session start)
    (hjoined : Joined settings start parties) (hconnected : parties.client.phase = .connected)
    (hturn : turn settings session .serve parties = some next) :
    ∃ request answer, Answered settings session parties next request answer := by
  obtain ⟨request, pending, server, sent, hincoming, hreceive, rfl, rfl⟩ := turn_serve hturn
  obtain ⟨others, answer, hrequests, hframed, hanswer, hsent⟩ :=
    hjoined.answers hopening hconnected hincoming hreceive
  have hone : server.connection.outgoing.drop parties.server.connection.outgoing.length =
      [answer] := by
    rw [hsent]
    exact List.drop_left' rfl
  rw [hone]
  exact ⟨request, answer, ⟨pending, hincoming⟩, hreceive, hsent, hanswer, rfl, rfl, others,
    hrequests, hframed⟩

theorem Joined.serving (hopened : Client.Opened start.client)
    (hjoined : Joined settings start parties) (hconnected : parties.client.phase = .connected)
    {request : ClientMessage} {answer : ServerMessage}
    (hanswered : Answered settings session parties next request answer) :
    Joined settings start next := by
  obtain ⟨others, hrequests, hframed⟩ := hanswered.stream
  have hanswer := hanswered.isAnswer
  have hclient := hanswered.client
  have hexchanges := hanswered.exchanges
  obtain ⟨client, server, exchanges⟩ := next
  simp only at hclient hexchanges hframed
  subst hclient hexchanges
  have hdeliver := deliver_one settings hconnected answer
  have hwritten : (deliver settings [answer] parties.client).client.connection.requests =
      parties.client.client.connection.requests := by
    cases Client.stepped_of_step hdeliver with
    | arrive _ haccount => exact congrArg Client.Account.requests haccount
  have hlength : parties.exchanges.length <
      parties.client.client.connection.requests.length := by
    have hlengths := congrArg List.length hrequests
    rw [List.length_drop, List.length_cons] at hlengths
    omega
  constructor
  · have hsame := hdeliver
    simp only [Client.step, hconnected] at hsame
    rw [← Option.some.inj hsame]
    exact ⟨hjoined.sound.queue, hjoined.sound.window⟩
  · obtain ⟨actions, hrun, harrived⟩ := hjoined.client
    have hunbroken : Client.Unbroken parties.client (.arrive answer) := by
      rw [Client.Unbroken, Client.System.expects, ← hjoined.length_exchanges hopened]
      exact hlength
    refine ⟨actions ++ [.arrive answer], .turn hrun hunbroken hdeliver, ?_⟩
    rw [Client.arrivals_append, List.map_append, List.map_append, harrived]
    rfl
  · exact Client.forall_mem_concat hjoined.answered ⟨answer, rfl, hanswer⟩
  · show (parties.exchanges ++ [_]).map Exchange.request =
      (deliver settings [answer] parties.client).client.connection.requests.take
        (parties.exchanges ++ [_]).length
    rw [hwritten, List.map_append, hjoined.served, List.length_append, List.length_singleton,
      List.take_add, hrequests]
    rfl
  · show Framed settings.protocolVersion
      ((deliver settings [answer] parties.client).client.connection.requests.drop
        (parties.exchanges ++ [_]).length) server.connection.incoming
    rw [hwritten, List.length_append, List.length_singleton, ← List.drop_drop, hrequests]
    exact hframed

theorem Joined.turn (hopening : Opening settings session start)
    (hjoined : Joined settings start parties) (hconnected : parties.client.phase = .connected)
    {action : Turn} (hlasting : Lasting parties action)
    (hturn : Parties.turn settings session action parties = some next)
    (hnext : next.client.phase = .connected) : Joined settings start next := by
  cases action with
  | client action =>
      obtain ⟨client, hstep, rfl⟩ := turn_client hturn
      exact hjoined.acted hopening.client hlasting hstep hnext
  | serve =>
      obtain ⟨request, answer, hanswered⟩ := hjoined.answering hopening hconnected hturn
      exact hjoined.serving hopening.client hconnected hanswered

theorem Opening.run (hopening : Opening settings session start)
    (halong : Along (Parties.turn settings session) Lasting start parties)
    (hconnected : parties.client.phase = .connected) : Joined settings start parties := by
  induction halong with
  | start => exact hopening.joined
  | turn _ hlasting hturn ih =>
      have hbefore := connected_of_turn hlasting hturn hconnected
      exact (ih hbefore).turn hopening hbefore hlasting hturn hconnected

/-! ## What the parties can rely on -/

variable (settings) in
/-- The requests are served in the order in which they were made, each once and with one
answer; the answer a request got is the one that is taken for the event it was made of;
and if neither party has anything to read, nothing waits for an answer. -/
structure InOrder (parties : Parties) : Prop where
  served : parties.exchanges.map Exchange.request =
    parties.client.client.connection.requests.take parties.exchanges.length
  answered : ∀ exchange ∈ parties.exchanges, ∃ answer,
    exchange.sent = [answer] ∧ answer.isAnswer = true
  taken : ∀ (rank : Nat) (answer : Client.Answer),
    parties.client.client.history.answers[rank]? = some answer →
      ∃ request, parties.exchanges[rank]? = some ⟨request, [answer.message]⟩ ∧
        Client.asked settings answer.waiting = some request
  idle : parties.client.client.waitingForResponse.toList = [] ↔
    parties.server.connection.incoming = [] ∧ parties.client.client.connection.incoming = []

/-- In whatever order the parties take their turns, the answers are not crossed. -/
theorem answers_in_order (hopening : Opening settings session start)
    (halong : Along (Parties.turn settings session) Lasting start parties)
    (hconnected : parties.client.phase = .connected) : InOrder settings parties := by
  have hjoined := hopening.run halong hconnected
  obtain ⟨actions, hrun, -⟩ := hjoined.client
  have hstate := (hopening.client.connected settings).run hrun
  constructor
  · exact hjoined.served
  · exact hjoined.answered
  · intro rank answer hanswer
    obtain ⟨request, hown, hasked⟩ :=
      hstate.kept.answers.forall_mem answer (List.mem_of_getElem? hanswer)
    have hrequest : parties.client.client.connection.requests[rank]? = some request :=
      (hstate.ranked.requests rank answer hanswer).symm.trans hown
    have hrank := (List.getElem?_eq_some_iff.mp hanswer).1
    refine ⟨request, hjoined.exchange_at hopening.client ?_ hrequest, hasked⟩
    rw [List.getElem?_append_left (by simpa using hrank), List.getElem?_map, hanswer]
    rfl
  · exact hjoined.idle_iff hopening.client hconnected

end Steps

/-- A client and a server that have nothing yet. -/
def annaParties : Parties where
  client := ⟨Client.clientWith Client.homeFolder 2 [], [], .connected⟩
  server := Server.startSession Server.annaDisk {} []

def annaSettings : Client.Settings := { Client.homeSettings with platform := Server.epochPlatform }

def annaFile : DirectoryEntry :=
  { Client.fileElement "/a".toList with lastWriteTime := Server.epoch }

def annaDirectory : DirectoryEntry :=
  { Client.directoryElement "/b".toList with lastWriteTime := Server.epoch }

/-- A file and a directory are backed up; both requests are made before one is served,
and the directory is confirmed before the file. -/
def backingUp : List Turn :=
  [.client (.change Client.sendingFolder),
    .client (.detect { element := annaFile, type := .created }),
    .client (.detect { element := annaDirectory, type := .created }),
    .client .writable, .client .writable, .serve, .serve, .client .readable, .serve,
    .client .readable, .client .readable]

theorem opening_anna : Opening annaSettings Server.annaSession annaParties where
  version := rfl
  client := Client.opened_clientWith Client.homeFolder 2 []
  noticed := fun _ hmem => absurd hmem List.not_mem_nil
  incoming := rfl
  exchanges := rfl

theorem answers_in_order_anna :
    ∃ parties, Along (turn annaSettings Server.annaSession) Lasting annaParties parties ∧
      parties.exchanges.length = 3 ∧ InOrder annaSettings parties := by
  have hruns : (runs (checked (fun parties action => decide (Lasting parties action))
      (turn annaSettings Server.annaSession)) backingUp annaParties).any (fun parties =>
        parties.exchanges.length == 3 && parties.client.phase = .connected) = true := by
    decide +kernel
  obtain ⟨parties, hparties, htest⟩ := (Option.any_eq_true _ _).mp hruns
  rw [Bool.and_eq_true, beq_iff_eq, decide_eq_true_eq] at htest
  have halong : Along (turn annaSettings Server.annaSession) Lasting annaParties parties :=
    along_of_runs (fun _ _ => of_decide_eq_true) hparties
  exact ⟨parties, halong, htest.1, answers_in_order opening_anna halong htest.2⟩

end Parties

end PdsBackup
