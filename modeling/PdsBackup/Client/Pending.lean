import PdsBackup.Client.Ledger
import PdsBackup.Client.Reports
import PdsBackup.Common.Operations

/-!
# Events that are pending

The events in the window and in the queue are operations that the table of confirmed
elements does not know of yet.  A regular step of the communication thread reports an
event, or takes the answer for the first pending one: it is confirmed, it is given up,
or it goes back behind the others in the window.
-/

namespace PdsBackup.Client

open Procedure

/-! ## Operations on the table -/

def Row.record (row : Row) : Record where
  type := row.type
  hash := row.hash

/-- What a table says of each path. -/
def records (table : Table) : Text → Option Record := fun path => (table path).map Row.record

def ClientState.ledger (s : ClientState) : Text → Option Record :=
  records (tableOf s.database.rows)

def Event.path (event : Event) : Text := event.element.relativePath

/-- The operation of the request for an event. -/
def Event.operation (event : Event) : Operation :=
  match event.type with
  | .deleted => if event.element.isRegularFile then .drop event.path else .sweep event.path
  | .created | .modified | .storeSent | .notAStatus => .put event.path event.element.record

@[simp] theorem Event.key_operation (event : Event) : event.operation.key = event.path := by
  unfold Event.operation
  cases event.type with
  | deleted => by_cases hfile : event.element.isRegularFile = true <;> simp [hfile] <;> rfl
  | created | modified | storeSent | notAStatus => rfl

theorem Event.operation_successor {event : Event} (hdeleted : event.type ≠ .deleted) :
    event.successor.operation = event.operation := by
  unfold Event.operation
  cases htype : event.type with
  | deleted => exact absurd htype hdeleted
  | created | modified | storeSent | notAStatus => rfl

theorem records_update (table : Table) (path : Text) (row : Option Row) :
    records (Function.update table path row) =
      Function.update (records table) path (row.map Row.record) := by
  funext other
  rw [records, Function.update_apply, Function.update_apply]
  split
  · rfl
  · rfl

/-- What is recorded of a confirmed event is its operation. -/
theorem records_recorded {event : Event} (hstatus : event.type ≠ .notAStatus) (table : Table) :
    records (recorded table event) = TableOperation.shallow (records table) event.operation := by
  rw [TableOperation.shallow, Event.key_operation, recorded, Event.operation]
  cases htype : event.type with
  | notAStatus => exact absurd htype hstatus
  | created | modified | storeSent => exact records_update table _ _
  | deleted =>
      cases event.element.isRegularFile with
      | true => exact records_update table _ _
      | false => exact records_update table _ _

/-! ## What a step makes of the pending events -/

def System.pending (system : System) : List Event :=
  system.client.waitingForResponse.toList.map Waiting.event ++ system.eventQueue

section Settings

variable (settings : Settings)

/-- A regular step, as to the table, the pending events and the answers taken. -/
inductive Progressed (system next : System) : Action → Prop
  | idle {action : Action} (hledger : next.client.ledger = system.client.ledger)
      (hpending : next.pending = system.pending)
      (hreceived : next.client.connection.received = system.client.connection.received) :
      Progressed system next action
  | detected {event : Event} (hledger : next.client.ledger = system.client.ledger)
      (hpending : next.pending = system.pending ++ [event])
      (hreceived : next.client.connection.received = system.client.connection.received) :
      Progressed system next (.detect event)
  | confirmed {head : Waiting} {others : List Waiting} {message : ServerMessage}
      {incoming : List ServerMessage} (hwaiting : system.client.account.waiting = head :: others)
      (hincoming : system.client.account.incoming = message :: incoming)
      (htype : message.type = .OK)
      (hledger : next.client.ledger =
        TableOperation.shallow system.client.ledger head.event.operation)
      (hpending : next.pending = others.map Waiting.event ++ system.eventQueue)
      (hreceived : next.client.connection.received = system.client.connection.received + 1) :
      Progressed system next .readable
  | released {head : Waiting} {others : List Waiting} {message : ServerMessage}
      {incoming : List ServerMessage} (hwaiting : system.client.account.waiting = head :: others)
      (hincoming : system.client.account.incoming = message :: incoming)
      (htype : message.type = .ERR ∨ message.type = .SEND ∧
        intact settings.platform system.client.folder head.event.element = false)
      (hledger : next.client.ledger = system.client.ledger)
      (hpending : next.pending = others.map Waiting.event ++ system.eventQueue)
      (hreceived : next.client.connection.received = system.client.connection.received + 1) :
      Progressed system next .readable
  | postponed {head : Waiting} {others : List Waiting} {message : ServerMessage}
      {incoming : List ServerMessage} (hwaiting : system.client.account.waiting = head :: others)
      (hincoming : system.client.account.incoming = message :: incoming)
      (htype : message.type = .SEND)
      (hintact : intact settings.platform system.client.folder head.event.element = true)
      (hdeleted : head.event.type ≠ .deleted)
      (hledger : next.client.ledger = system.client.ledger)
      (hpending : next.pending =
        others.map Waiting.event ++ head.event.successor :: system.eventQueue)
      (hreceived : next.client.connection.received = system.client.connection.received + 1) :
      Progressed system next .readable

variable {settings} {system next : System}

theorem pending_eq {account : Account} (haccount : system.client.account = account) :
    system.pending = account.waiting.map Waiting.event ++ system.eventQueue := by
  rw [← haccount]
  rfl

theorem ledger_eq {account : Account} (haccount : system.client.account = account) :
    system.client.ledger = records (tableOf account.database.rows) := by
  rw [← haccount]
  rfl

theorem received_eq {account : Account} (haccount : system.client.account = account) :
    system.client.connection.received = account.received := by
  rw [← haccount]
  rfl

theorem progressed_of_account {action : Action}
    (haccount : next.client.account = system.client.account)
    (hqueue : next.eventQueue = system.eventQueue) : Progressed settings system next action := by
  refine .idle (ledger_eq haccount) ?_ (received_eq haccount)
  rw [pending_eq haccount, hqueue]
  rfl

/-- An event that is sent stays pending. -/
theorem progressed_sendFront {event : Event} {others : List Event} (hsound : Sound system)
    (hqueue : system.eventQueue = event :: others) :
    Progressed settings system (sendFront settings event others system) .writable := by
  have hacceptable : Acceptable event :=
    (hsound.queue event (hqueue ▸ List.mem_cons_self)).toAcceptable
  have hends := meets_send settings event system.client system.client.at_account
  cases hrun : send settings event system.client with
  | raised exception s =>
      rw [hrun] at hends
      apply progressed_of_account
      · rw [sendFront, hrun]
        exact hends.1.account_eq
      · rw [sendFront, hrun, hqueue]
  | returned accepted s =>
      rw [hrun] at hends
      obtain ⟨account, hsending, hs⟩ := hends
      cases hsending with
      | full hfull =>
          apply progressed_of_account
          · rw [sendFront, hrun]
            exact hs.account_eq
          · rw [sendFront, hrun, hqueue]
      | unsupported hfile hdirectory =>
          exfalso
          simp only [DirectoryEntry.isRegularFile, DirectoryEntry.isDirectory,
            decide_eq_false_iff_not] at hfile hdirectory
          cases hacceptable.kind with
          | inl hkind => exact hfile hkind
          | inr hkind => exact hdirectory hkind.1
      | sent hrequest =>
          have hclient : (sendFront settings event others system).client = s := by
            rw [sendFront, hrun]
            rfl
          have hothers : (sendFront settings event others system).eventQueue = others := by
            rw [sendFront, hrun]
          have haccount := (congrArg ClientState.account hclient).trans hs.account_eq
          refine .idle (ledger_eq haccount) ?_ (received_eq haccount)
          rw [pending_eq haccount, hothers]
          show (system.client.account.waiting ++ [_]).map Waiting.event ++ others = _
          rw [List.map_append, List.append_assoc, System.pending, hqueue]
          rfl

theorem requestOf_status {event : Event} {request : ClientMessage}
    (hrequest : requestOf settings event = some request) : event.type ≠ .notAStatus := by
  intro htype
  rw [requestOf, htype] at hrequest
  cases hfile : event.element.isRegularFile <;> simp [hfile] at hrequest

theorem progressed_receiving {ending : Option ClientException} {left : Option Nat}
    (haligned : system.client.account.Aligned settings) (hgrounded : Grounded system .readable)
    (hreceiving : Receiving settings system.client.folder left system.client.account ending
      next.client.account) (hqueue : next.eventQueue = system.eventQueue) (hending : ending = none) :
    Progressed settings system next .readable := by
  generalize haccount : next.client.account = account at hreceiving
  cases hreceiving with
  | unread => simp at hending
  | rejected => simp at hending
  | unreadable => simp at hending
  | interrupted => simp at hending
  | @confirmed head others message incoming hwaiting hincoming htype =>
      refine .confirmed hwaiting hincoming htype ?_ ?_ (received_eq haccount)
      · have hhead : system.client.account.waiting.head? = some head := by
          rw [hwaiting]
          rfl
        have hmessage : system.client.account.incoming.head? = some message := by
          rw [hincoming]
          rfl
        have hfounded : Founded system.client.database.rows head.event :=
          hgrounded head message hhead hmessage htype
        obtain ⟨request, hrequest, -⟩ := haligned.window.request_head hwaiting
        calc next.client.ledger
          _ = records (tableOf (savedRows head.event system.client.database.rows)) :=
            ledger_eq haccount
          _ = records (recorded (tableOf system.client.database.rows) head.event) :=
            congrArg records ((tableOf_savedRows_iff _ _).mpr hfounded)
          _ = _ := records_recorded (requestOf_status hrequest) _
      · rw [pending_eq haccount, hqueue]
        rfl
  | refused hwaiting hincoming htype =>
      refine .released hwaiting hincoming (.inl htype) (ledger_eq haccount) ?_
        (received_eq haccount)
      rw [pending_eq haccount, hqueue]
      rfl
  | dropped hwaiting hincoming htype hwanted hintact =>
      refine .released hwaiting hincoming (.inr ⟨htype, hintact⟩) (ledger_eq haccount) ?_
        (received_eq haccount)
      rw [pending_eq haccount, hqueue]
      rfl
  | @succeeded head others message incoming _ _ hwaiting hincoming htype hwanted hintact =>
      have hdeleted : head.event.type ≠ .deleted := by
        intro hdeleted
        cases hwanted.2.1 with
        | inl hcreated => simp [hdeleted] at hcreated
        | inr hmodified => simp [hdeleted] at hmodified
      refine .postponed hwaiting hincoming htype hintact hdeleted (ledger_eq haccount) ?_
        (received_eq haccount)
      rw [pending_eq haccount, hqueue]
      show (others ++ [head.successor]).map Waiting.event ++ system.eventQueue = _
      rw [List.map_append, List.append_assoc]
      rfl

/-- One step. -/
theorem Regular.progressed {action : Action} (hregular : Regular system action)
    (hsound : Sound system)
    (haligned : system.phase = .connected → system.client.account.Aligned settings)
    (hgrounded : Grounded system action) (hstep : step settings action system = some next)
    (hnext : next.phase = .connected) : Progressed settings system next action := by
  have hconnected := hregular.connected hstep hnext
  cases action with
  | change folder =>
      obtain rfl := Option.some.inj hstep
      exact .idle rfl rfl rfl
  | detect event =>
      obtain rfl := Option.some.inj hstep
      exact .detected rfl (List.append_assoc _ _ _).symm rfl
  | writable =>
      cases hqueue : system.eventQueue with
      | nil => simp [step, hconnected, hqueue] at hstep
      | cons event others =>
          simp only [step, hconnected, hqueue] at hstep
          split at hstep
          · simp at hstep
          · obtain rfl := Option.some.inj hstep
            exact progressed_sendFront hsound hqueue
  | readable =>
      have hqueue : next.eventQueue = system.eventQueue := by
        simp only [step, hconnected] at hstep
        obtain rfl := Option.some.inj hstep
        rfl
      cases stepped_of_step hstep with
      | closed _ hincoming => exact absurd hincoming hregular
      | received _ hreceiving hphase =>
          exact progressed_receiving (haligned hconnected) hgrounded hreceiving hqueue
            (eq_none_of_after (hphase ▸ hnext))
      | unasked _ hincoming hwaiting =>
          exact absurd hwaiting ((haligned hconnected).waiting_ne_nil hincoming)
  | arrive message => exact hregular.elim
  | weaken operationsLeft => exact hregular.elim
  | connect operationsLeft => exact hregular.elim
  | disconnect => exact hregular.elim

/-! ## What is due -/

/-- What the table will say when every pending event is confirmed. -/
def System.due (system : System) : Text → Option Record :=
  (system.pending.map Event.operation).foldl TableOperation.shallow system.client.ledger

variable (settings) in
/-- A path whose last pending event the next message gives up, or puts an earlier one
behind it. -/
def System.misses (system : System) : Option Text :=
  match system.client.waitingForResponse.toList, system.client.connection.incoming with
  | head :: others, message :: _ =>
      let path := head.event.path
      let reported := system.eventQueue.any fun event => event.path = path
      let behind := others.any fun waiting => waiting.event.path = path
      let late := message.type = .SEND &&
        intact settings.platform system.client.folder head.event.element
      if message.type ≠ .OK && !reported && (behind == late) then some path else none
  | _, _ => none

theorem due_detected {event : Event} (hledger : next.client.ledger = system.client.ledger)
    (hpending : next.pending = system.pending ++ [event]) :
    next.due = TableOperation.shallow system.due event.operation := by
  rw [System.due, hledger, hpending, List.map_append, List.foldl_append]
  rfl

theorem due_apply (path : Text) : system.due path =
    (TableOperation.lastOn (system.pending.map Event.operation) path).elim
      (system.client.ledger path) TableOperation.outcome :=
  TableOperation.foldl_shallow_apply ..

theorem isSome_lastOn_map {events : List Event} {path : Text}
    (hsome : ∃ event ∈ events, event.path = path) :
    (TableOperation.lastOn (events.map Event.operation) path).isSome = true := by
  obtain ⟨event, hmem, hpath⟩ := hsome
  exact TableOperation.isSome_lastOn
    ⟨event.operation, List.mem_map_of_mem hmem, event.key_operation.trans hpath⟩

theorem lastOn_map_eq_none {events : List Event} {path : Text}
    (hnone : ∀ event ∈ events, event.path ≠ path) :
    TableOperation.lastOn (events.map Event.operation) path = none := by
  apply TableOperation.lastOn_eq_none
  intro operation hoperation
  obtain ⟨event, hmem, rfl⟩ := List.mem_map.mp hoperation
  rw [event.key_operation]
  exact hnone event hmem

/-- Of a path that is not missed the same is due as before. -/
theorem Progressed.due {action : Action} (hprogressed : Progressed settings system next action)
    (hdetect : ∀ event, action ≠ .detect event) {path : Text}
    (hmissed : action = .readable → system.misses settings ≠ some path) :
    next.due path = system.due path := by
  have hpending : ∀ {head : Waiting} {others : List Waiting},
      system.client.account.waiting = head :: others →
      system.pending = head.event :: (others.map Waiting.event ++ system.eventQueue) := by
    intro head others hwaiting
    have hwindow : system.client.waitingForResponse.toList = head :: others := hwaiting
    rw [System.pending, hwindow]
    rfl
  have hkept : ∀ {head : Waiting} {others : List Waiting} {message : ServerMessage}
      {incoming : List ServerMessage}, action = .readable →
      system.client.account.waiting = head :: others →
      system.client.account.incoming = message :: incoming → message.type ≠ .OK →
      head.event.path = path →
      (system.eventQueue.any fun event => event.path = path) = true ∨
        (others.any fun waiting => waiting.event.path = path) =
          !(message.type = .SEND &&
            intact settings.platform system.client.folder head.event.element) := by
    intro head others message incoming hreadable hwaiting hincoming htype hpath
    have hwindow : system.client.waitingForResponse.toList = head :: others := hwaiting
    have hmessages : system.client.connection.incoming = message :: incoming := hincoming
    have hmisses := hmissed hreadable
    simp only [System.misses, hwindow, hmessages, hpath] at hmisses
    cases hreported : system.eventQueue.any fun event => event.path = path with
    | true => exact .inl rfl
    | false =>
        right
        apply Bool.eq_not.mpr
        simpa [hreported, htype] using hmisses
  cases hprogressed with
  | idle hledger hsame =>
      rw [System.due, System.due, hledger, hsame]
  | @detected event => exact absurd rfl (hdetect event)
  | confirmed hwaiting _ _ hledger hrest =>
      rw [System.due, System.due, hledger, hrest, hpending hwaiting]
      rfl
  | @released head others message incoming hwaiting hincoming htype hledger hrest =>
      rw [due_apply, due_apply, hledger, hrest, hpending hwaiting, List.map_cons,
        TableOperation.lastOn_cons, Event.key_operation]
      by_cases hpath : head.event.path = path
      · have hconfirmed : message.type ≠ .OK := by
          cases htype with
          | inl herror => simp [herror]
          | inr hsend => simp [hsend.1]
        have hearly : (message.type = .SEND &&
            intact settings.platform system.client.folder head.event.element) = false := by
          cases htype with
          | inl herror => simp [herror]
          | inr hsend => simp [hsend.2]
        have hlater : ∃ event ∈ others.map Waiting.event ++ system.eventQueue,
            event.path = path := by
          cases hkept rfl hwaiting hincoming hconfirmed hpath with
          | inl hreported =>
              obtain ⟨event, hmem, hown⟩ := List.any_eq_true.mp hreported
              exact ⟨event, List.mem_append_right _ hmem, of_decide_eq_true hown⟩
          | inr hbehind =>
              rw [hearly, Bool.not_false] at hbehind
              obtain ⟨waiting, hmem, hown⟩ := List.any_eq_true.mp hbehind
              exact ⟨waiting.event, List.mem_append_left _ (List.mem_map_of_mem hmem),
                of_decide_eq_true hown⟩
        obtain ⟨operation, hlast⟩ := Option.isSome_iff_exists.mp (isSome_lastOn_map hlater)
        rw [hlast, Option.some_or]
      · rw [if_neg hpath, Option.or_none]
  | @postponed head others message incoming hwaiting hincoming htype hintact hdeleted hledger
      hrest =>
      rw [due_apply, due_apply, hledger, hrest, hpending hwaiting, List.map_append, List.map_cons,
        List.map_cons, List.map_append, TableOperation.lastOn_append, TableOperation.lastOn_cons,
        TableOperation.lastOn_cons, TableOperation.lastOn_append,
        Event.operation_successor hdeleted, Event.key_operation]
      by_cases hpath : head.event.path = path
      · rw [if_pos hpath]
        cases hkept rfl hwaiting hincoming (by simp [htype]) hpath with
        | inl hreported =>
            obtain ⟨event, hmem, hown⟩ := List.any_eq_true.mp hreported
            obtain ⟨operation, hlast⟩ := Option.isSome_iff_exists.mp
              (isSome_lastOn_map ⟨event, hmem, of_decide_eq_true hown⟩)
            rw [hlast]
            rfl
        | inr hbehind =>
            have hnone : ∀ event ∈ others.map Waiting.event, event.path ≠ path := by
              rw [List.forall_mem_map]
              simpa [htype, hintact] using hbehind
            rw [lastOn_map_eq_none hnone, Option.or_none, Option.or_none]
      · rw [if_neg hpath, Option.or_none, Option.or_none]

end Settings

end PdsBackup.Client
