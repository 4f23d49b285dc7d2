import PdsBackup.Client.Pending
import PdsBackup.Server.Bookkeeping
import PdsBackup.System.Parties

/-!
# The ledgers of both parties

The session keeps the elements it has, the client a table of what was confirmed.  Each
answer that is an OK is an operation on both: on the elements when it is sent, and on
the table when it is taken.  The elements lose with a directory what is below it, the
table does not.
-/

namespace PdsBackup

open Schedule

namespace Parties

section Settings

variable {settings : Client.Settings} {session : Server.Session} {unique : Prop}

/-- The request for an event orders its operation. -/
theorem orders_of_acceptable {event : Client.Event} {request : ClientMessage}
    (hacceptable : Client.Acceptable event)
    (hrequest : Client.requestOf settings event = some request) :
    Server.Orders request event.operation := by
  have hfileRecord : event.element.isRegularFile = true →
      event.element.record = fileRecord event.element.hash.bytes := by
    intro hfile
    apply record_of_file
    rwa [DirectoryEntry.isRegularFile, decide_eq_true_eq] at hfile
  have hdirectoryRecord : event.element.isRegularFile = false →
      event.element.record = directoryRecord := by
    intro hfile
    rw [DirectoryEntry.isRegularFile, decide_eq_false_iff_not] at hfile
    obtain ⟨hdirectory, hzero⟩ := hacceptable.kind.resolve_left hfile
    exact record_of_directory hdirectory hzero
  rw [Client.requestOf] at hrequest
  cases hfile : event.element.isRegularFile <;> cases htype : event.type <;>
    simp only [hfile, htype, if_true, Bool.false_eq_true, if_false, Option.some.injEq,
      reduceCtorEq] at hrequest <;> subst hrequest <;>
    refine ⟨?_, hacceptable.path, hacceptable.canonical⟩ <;>
    simp only [Client.Event.operation, htype, hfile, if_true, Bool.false_eq_true, if_false]
  all_goals first
    | rw [hfileRecord hfile]; rfl
    | rw [hdirectoryRecord hfile]; rfl
    | rfl

/-! ## What was confirmed -/

def Exchange.confirmed (exchange : Exchange) : Option Operation :=
  if exchange.sent.any fun message => message.type = .OK then exchange.request.operation
  else none

/-- The operations that were confirmed, in the order in which they were done. -/
def confirmed (exchanges : List Exchange) : List Operation :=
  exchanges.filterMap Exchange.confirmed

theorem confirmed_concat {exchanges : List Exchange} {request : ClientMessage}
    {answer : ServerMessage} {operation : Operation}
    (hoperation : request.operation = some operation) :
    confirmed (exchanges ++ [⟨request, [answer]⟩]) =
      confirmed exchanges ++ if answer.type = .OK then [operation] else [] := by
  rw [confirmed, List.filterMap_append]
  by_cases htype : answer.type = .OK
  · simp [Exchange.confirmed, htype, hoperation, confirmed]
  · simp [Exchange.confirmed, htype, confirmed]

variable (session) in
/-- An OK for a modified element finds its row in the client's table, and an element
that has the time of a directory that is reported is a directory at the server too. -/
def Knowing (parties : Parties) : Turn → Prop
  | .client action => Client.Grounded parties.client action
  | .serve => ∀ request, parties.server.connection.incoming.head? = some request →
      request.type = .MKD →
        Server.DirectoryKnown
          (parties.server.handled session parties.server.connection.incoming.tail)
          request.lastWriteTime request.path

variable (session) in
def Informed (parties : Parties) (action : Turn) : Prop :=
  Lasting parties action ∧ Knowing session parties action

variable (session) in
/-- A check of the two conditions. -/
def permits (parties : Parties) : Turn → Bool
  | .client action => decide (Client.Regular parties.client action) &&
      parties.client.client.waitingForResponse.toList.head?.all fun head =>
        head.event.type ≠ .modified ||
          (Client.Database.rowAt head.event.element.relativePath
            parties.client.client.database.rows).isSome
  | .serve => parties.server.connection.incoming.head?.all fun request =>
      request.type ≠ .MKD ||
        ((parties.server.handled session parties.server.connection.incoming.tail).elements.lookup
          request.path).all fun el =>
            el.lastWriteTime ≠ request.lastWriteTime || el.isDirectory

theorem informed_of_permits {parties : Parties} {action : Turn}
    (hpermits : permits session parties action = true) : Informed session parties action := by
  cases action with
  | client action =>
      rw [permits, Bool.and_eq_true, decide_eq_true_eq] at hpermits
      apply And.intro hpermits.1
      cases action with
      | readable =>
          intro head message hhead _ _ hmodified
          have hrow := hpermits.2
          rw [hhead, Option.all_some, hmodified] at hrow
          simpa using hrow
      | _ => trivial
  | serve =>
      apply And.intro trivial
      intro request hrequest htype el hlookup htime
      rw [permits, hrequest, Option.all_some, htype, hlookup, Option.all_some, htime] at hpermits
      simpa using hpermits

variable (session unique) in
/-- The ledgers are what was confirmed, each as far as its party knows. -/
structure Kept (start parties : Parties) : Prop where
  known : Server.Known session unique parties.server
  settled : Server.Settled False parties.server
  server : parties.server.ledger session =
    (confirmed parties.exchanges).foldl (TableOperation.deep Below) (start.server.ledger session)
  client : parties.client.client.ledger =
    (confirmed (parties.exchanges.take parties.client.client.connection.received)).foldl
      TableOperation.shallow start.client.client.ledger

end Settings

section Steps

variable {settings : Client.Settings} {session : Server.Session} {unique : Prop}
variable {start parties next : Parties}

/-- The exchange of the message that the client reads next. -/
theorem Joined.taking (hopened : Client.Opened start.client)
    (hjoined : Joined settings start parties) (hconnected : parties.client.phase = .connected)
    {head : Client.Waiting} {others : List Client.Waiting} {message : ServerMessage}
    {incoming : List ServerMessage}
    (hwaiting : parties.client.client.account.waiting = head :: others)
    (hincoming : parties.client.client.account.incoming = message :: incoming) :
    ∃ request, Client.requestOf settings head.event = some request ∧
      parties.exchanges.take (parties.client.client.connection.received + 1) =
        parties.exchanges.take parties.client.client.connection.received ++
          [⟨request, [message]⟩] := by
  obtain ⟨request, hrequest, hrank, -⟩ :=
    (hjoined.aligned hopened hconnected).window.request_head hwaiting
  obtain ⟨actions, hrun, -⟩ := hjoined.client
  have hanswers : parties.client.client.history.answers.length =
      parties.client.client.connection.received :=
    ((hopened.connected settings).run hrun).ranked.length
  have hmessage : (parties.client.client.history.answers.map Client.Answer.message ++
      parties.client.client.connection.incoming)[parties.client.client.connection.received]? =
        some message := by
    have hnext : parties.client.client.connection.incoming = message :: incoming := hincoming
    rw [← hanswers, List.getElem?_append_right (Nat.le_of_eq (List.length_map _)), List.length_map,
      Nat.sub_self, hnext]
    rfl
  refine ⟨request, hrequest, ?_⟩
  rw [List.take_add_one, hjoined.exchange_at hopened hmessage hrank]
  rfl

theorem ledger_acted (hopened : Client.Opened start.client)
    (hjoined : Joined settings start parties)
    (hledger : parties.client.client.ledger =
      (confirmed (parties.exchanges.take parties.client.client.connection.received)).foldl
        TableOperation.shallow start.client.client.ledger)
    {action : Client.Action} {client : Client.System}
    (hregular : Client.Regular parties.client action)
    (hgrounded : Client.Grounded parties.client action)
    (hstep : Client.step settings action parties.client = some client)
    (hnext : client.phase = .connected) :
    client.client.ledger =
      (confirmed (parties.exchanges.take client.client.connection.received)).foldl
        TableOperation.shallow start.client.client.ledger := by
  have hconnected := hregular.connected hstep hnext
  have htaken : ∀ {head : Client.Waiting} {others : List Client.Waiting}
      {message : ServerMessage} {incoming : List ServerMessage},
      parties.client.client.account.waiting = head :: others →
      parties.client.client.account.incoming = message :: incoming →
      (confirmed (parties.exchanges.take
          (parties.client.client.connection.received + 1))).foldl
            TableOperation.shallow start.client.client.ledger =
        if message.type = .OK then
          TableOperation.shallow parties.client.client.ledger head.event.operation
        else parties.client.client.ledger := by
    intro head others message incoming hwaiting hincoming
    obtain ⟨request, hrequest, htake⟩ := hjoined.taking hopened hconnected hwaiting hincoming
    have hacceptable : Client.Acceptable head.event := by
      apply hjoined.sound.window head
      show head ∈ parties.client.client.account.waiting
      rw [hwaiting]
      exact List.mem_cons_self
    rw [htake, confirmed_concat (orders_of_acceptable hacceptable hrequest).operation,
      List.foldl_append, ← hledger]
    by_cases htype : message.type = .OK
    · rw [if_pos htype, if_pos htype]
      rfl
    · rw [if_neg htype, if_neg htype]
      rfl
  cases hregular.progressed hjoined.sound (hjoined.aligned hopened) hgrounded hstep hnext with
  | idle hsame _ hreceived =>
      rw [hsame, hreceived]
      exact hledger
  | detected hsame _ hreceived =>
      rw [hsame, hreceived]
      exact hledger
  | confirmed hwaiting hincoming htype hown _ hreceived =>
      rw [hown, hreceived, htaken hwaiting hincoming, if_pos htype]
  | released hwaiting hincoming htype hsame _ hreceived =>
      rw [hsame, hreceived, htaken hwaiting hincoming, if_neg]
      cases htype with
      | inl herror => simp [herror]
      | inr hsend => simp [hsend.1]
  | postponed hwaiting hincoming htype _ _ hsame _ hreceived =>
      rw [hsame, hreceived, htaken hwaiting hincoming, if_neg (by simp [htype])]

theorem Kept.acted (hopened : Client.Opened start.client)
    (hjoined : Joined settings start parties) (hkept : Kept session unique start parties)
    {action : Client.Action} {client : Client.System}
    (hregular : Client.Regular parties.client action)
    (hgrounded : Client.Grounded parties.client action)
    (hstep : Client.step settings action parties.client = some client)
    (hnext : client.phase = .connected) :
    Kept session unique start { parties with
      client
      server := parties.server.withIncoming
        (parties.server.connection.incoming ++ written parties.client client) } := by
  constructor
  · exact hkept.known.withIncoming _
  · exact ⟨⟨hkept.settled.delivered, hkept.settled.recovered⟩, hkept.settled.idle⟩
  · exact (Server.ledger_withIncoming session parties.server _).trans hkept.server
  · exact ledger_acted hopened hjoined hkept.client hregular hgrounded hstep hnext

theorem Kept.served (placement : Server.Placement session) (hcuts : Server.Cuts session)
    (hopened : Client.Opened start.client) (hjoined : Joined settings start parties)
    (hconnected : parties.client.phase = .connected) (hkept : Kept session unique start parties)
    (hknowing : Knowing session parties .serve) {request : ClientMessage} {answer : ServerMessage}
    (hanswered : Answered settings session parties next request answer) :
    Kept session unique start next := by
  obtain ⟨pending, hincoming⟩ := hanswered.pending
  obtain ⟨others, hrequests, -⟩ := hanswered.stream
  obtain ⟨waiting, hwaiting, hrequest⟩ := hjoined.requested hopened hconnected hrequests
  have horders := orders_of_acceptable (hjoined.sound.window waiting hwaiting) hrequest
  have hknown : request.type = .MKD → Server.DirectoryKnown
      (parties.server.handled session pending) request.lastWriteTime request.path := by
    intro htype
    have hat := hknowing request (by rw [hincoming]; rfl) htype
    rwa [hincoming] at hat
  obtain ⟨htracked, hledger⟩ := Server.receive_ledger placement hcuts hkept.known hkept.settled
    hincoming horders hknown hanswered.outgoing hanswered.returned
  constructor
  · exact .inr htracked
  · exact Server.receive_settled hkept.settled hanswered.returned
  · rw [hledger, hanswered.exchanges, confirmed_concat horders.operation, List.foldl_append,
      ← hkept.server]
    by_cases htype : answer.type = .OK
    · rw [if_pos htype, if_pos htype]
      rfl
    · rw [if_neg htype, if_neg htype]
      rfl
  · have hdeliver := deliver_one settings hconnected answer
    rw [← hanswered.client] at hdeliver
    have hlength := hjoined.length_exchanges hopened
    cases Client.stepped_of_step hdeliver with
    | arrive _ haccount =>
        have hdatabase : next.client.client.database = parties.client.client.database :=
          congrArg Client.Account.database haccount
        have hreceived : next.client.client.connection.received =
            parties.client.client.connection.received :=
          congrArg Client.Account.received haccount
        rw [Client.ClientState.ledger, hdatabase, hreceived, hanswered.exchanges,
          List.take_append_of_le_length (by omega)]
        exact hkept.client

/-! ## Where the ledgers agree -/

variable (session unique) in
/-- What is known of the session, and its ledger is that of the client. -/
structure Beginning (start : Parties) : Prop where
  known : Server.Known session unique start.server
  settled : Server.Settled False start.server
  ledger : start.server.ledger session = start.client.client.ledger

theorem Kept.tracked (hkept : Kept session unique start parties)
    (hrecovered : parties.server.recovered = true) :
    Server.Tracked session unique parties.server := by
  cases hkept.known with
  | inl hprepared => simp [hprepared.recovered] at hrecovered
  | inr htracked => exact htracked

theorem Opening.keeps (placement : Server.Placement session) (hcuts : Server.Cuts session)
    (hopening : Opening settings session start) (hbeginning : Beginning session unique start)
    (halong : Along (turn settings session) (Informed session) start parties)
    (hconnected : parties.client.phase = .connected) : Kept session unique start parties := by
  induction halong with
  | start =>
      refine ⟨hbeginning.known, hbeginning.settled, ?_, ?_⟩
      · rw [hopening.exchanges]
        rfl
      · rw [hopening.exchanges, List.take_nil]
        rfl
  | @turn before after action halong hinformed hturn ih =>
      have hbefore := connected_of_turn hinformed.1 hturn hconnected
      have hjoined := hopening.run (halong.mono fun _ _ => And.left) hbefore
      cases action with
      | client action =>
          obtain ⟨client, hstep, rfl⟩ := turn_client hturn
          exact (ih hbefore).acted hopening.client hjoined hinformed.1 hinformed.2 hstep hconnected
      | serve =>
          obtain ⟨request, answer, hanswered⟩ := hjoined.answering hopening hbefore hturn
          exact (ih hbefore).served placement hcuts hopening.client hjoined hbefore hinformed.2
            hanswered

variable (session) in
/-- The session has nothing that the client's table has not, and what it lacks was
below a directory that was removed and has not been confirmed since. -/
structure Agree (parties : Parties) : Prop where
  within : ∀ path record, parties.server.ledger session path = some record →
    parties.client.client.ledger path = some record
  same : ∀ path, ¬ TableOperation.Orphan Below (confirmed parties.exchanges) path →
    parties.server.ledger session path = parties.client.client.ledger path

theorem Kept.agree (hkept : Kept session unique start parties)
    (hbeginning : Beginning session unique start) (hopened : Client.Opened start.client)
    (hjoined : Joined settings start parties) (hconnected : parties.client.phase = .connected)
    (hidle : parties.client.client.waitingForResponse.toList = []) : Agree session parties := by
  have hlength := hjoined.length_exchanges hopened
  rw [((hjoined.idle_iff hopened hconnected).mp hidle).2, List.length_nil, Nat.add_zero] at hlength
  have hserver := hkept.server
  have hclient := hkept.client
  rw [hbeginning.ledger] at hserver
  rw [← hlength, List.take_length] at hclient
  constructor
  · intro path record hrecord
    rw [hserver] at hrecord
    rw [hclient]
    exact TableOperation.shallow_of_deep hrecord
  · intro path horphan
    rw [hserver, hclient]
    exact TableOperation.deep_eq_shallow horphan

/-- Whenever nothing waits for an answer, the ledgers agree. -/
theorem ledgers_agree (placement : Server.Placement session) (hcuts : Server.Cuts session)
    (hopening : Opening settings session start) (hbeginning : Beginning session unique start)
    (halong : Along (turn settings session) (Informed session) start parties)
    (hconnected : parties.client.phase = .connected)
    (hidle : parties.client.client.waitingForResponse.toList = []) : Agree session parties := by
  have hkept := hopening.keeps placement hcuts hbeginning halong hconnected
  have hjoined := hopening.run (halong.mono fun _ _ => And.left) hconnected
  exact hkept.agree hbeginning hopening.client hjoined hconnected hidle

theorem beginning_anna : Beginning Server.annaSession True annaParties where
  known := .inl ⟨rfl, fun _ _ => Nat.zero_le 1, rfl,
    fun _ hrow => absurd hrow List.not_mem_nil⟩
  settled := (Server.startSession_fresh Server.annaDisk {} [] rfl).settled
  ledger := rfl

theorem backing_up_runs :
    ∃ parties, Along (turn annaSettings Server.annaSession) (Informed Server.annaSession)
        annaParties parties ∧
      parties.client.phase = .connected ∧ parties.server.recovered = true ∧
      parties.client.client.waitingForResponse.toList = [] ∧
      Client.Database.rowAt "/a".toList parties.client.client.database.rows =
        some (Client.Row.ofEntry annaFile) ∧
      confirmed parties.exchanges = [.put "/b".toList directoryRecord,
        .put "/a".toList (fileRecord Server.emptyFileHash)] := by
  have hruns : (runs (checked (permits Server.annaSession)
      (turn annaSettings Server.annaSession)) backingUp annaParties).any (fun parties =>
        parties.client.phase = .connected && parties.server.recovered &&
        parties.client.client.waitingForResponse.toList = [] &&
        Client.Database.rowAt "/a".toList parties.client.client.database.rows =
          some (Client.Row.ofEntry annaFile) &&
        confirmed parties.exchanges = [.put "/b".toList directoryRecord,
          .put "/a".toList (fileRecord Server.emptyFileHash)]) = true := by
    decide +kernel
  obtain ⟨parties, hparties, htest⟩ := (Option.any_eq_true _ _).mp hruns
  simp only [Bool.and_eq_true, decide_eq_true_eq, and_assoc] at htest
  exact ⟨parties, along_of_runs (fun _ _ => informed_of_permits) hparties, htest⟩

theorem ledgers_agree_anna :
    ∃ parties, Along (turn annaSettings Server.annaSession) (Informed Server.annaSession)
        annaParties parties ∧ Agree Server.annaSession parties := by
  obtain ⟨parties, halong, hconnected, -, hidle, -⟩ := backing_up_runs
  exact ⟨parties, halong, ledgers_agree Server.annaPlacement
    (Server.cuts_of_literal (by decide +kernel)) opening_anna beginning_anna halong hconnected
    hidle⟩

/-- Whenever nothing waits for an answer, what the client has recorded is on the disk
of the server: the files with the contents that were backed up. -/
theorem recorded_stored (placement : Server.Placement session) (hcuts : Server.Cuts session)
    (hopening : Opening settings session start) (hbeginning : Beginning session unique start)
    (halong : Along (turn settings session) (Informed session) start parties)
    (hconnected : parties.client.phase = .connected)
    (hidle : parties.client.client.waitingForResponse.toList = [])
    (hrecovered : parties.server.recovered = true) {path : Text} {row : Client.Row}
    (hrow : Client.Database.rowAt path parties.client.client.database.rows = some row)
    (horphan : ¬ TableOperation.Orphan Below (confirmed parties.exchanges) path) :
    ∃ node, parties.server.disk.status (session.userPath ++ path) = some node ∧
      node.record session.platform = row.record := by
  have hkept := hopening.keeps placement hcuts hbeginning halong hconnected
  have hjoined := hopening.run (halong.mono fun _ _ => And.left) hconnected
  have hagree := hkept.agree hbeginning hopening.client hjoined hconnected hidle
  apply (hkept.tracked hrecovered).stored
  rw [hagree.same path horphan]
  exact congrArg (Option.map Client.Row.record) hrow

end Steps

theorem recorded_stored_anna :
    ∃ parties node, Along (turn annaSettings Server.annaSession) (Informed Server.annaSession)
        annaParties parties ∧
      parties.server.disk.status (Server.annaSession.userPath ++ "/a".toList) = some node ∧
      node.record Server.epochPlatform = annaFile.record := by
  obtain ⟨parties, halong, hconnected, hrecovered, hidle, hrow, hconfirmed⟩ := backing_up_runs
  have hkept : ¬ TableOperation.Orphan Below (confirmed parties.exchanges) "/a".toList := by
    rintro ⟨before, above, after, hsplit, -, -⟩
    have hswept : TableOperation.sweep above ∈ confirmed parties.exchanges := by
      rw [hsplit]
      exact List.mem_append_right _ List.mem_cons_self
    rw [hconfirmed] at hswept
    simp at hswept
  obtain ⟨node, hnode, hdescribes⟩ := recorded_stored Server.annaPlacement
    (Server.cuts_of_literal (by decide +kernel)) opening_anna beginning_anna halong hconnected
    hidle hrecovered hrow hkept
  exact ⟨parties, node, halong, hnode, hdescribes⟩

end Parties

end PdsBackup
