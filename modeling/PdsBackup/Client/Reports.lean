import PdsBackup.Client.Alignment
import PdsBackup.Client.Frames
import PdsBackup.Core.PathText

/-!
# Noticed elements

The watcher reports files and directories.  As long as their paths and times are such
that the server accepts them, so are those of the events in the window, and what a step
of the communication thread writes is whole frames.
-/

namespace PdsBackup.Client

open Procedure

/-- A file or a directory whose path and time are accepted as they are. -/
structure Acceptable (event : Event) : Prop where
  path : Validator.validatePath event.element.relativePath = some event.element.relativePath
  canonical : Canonical event.element.relativePath
  time : Validator.validateLastWriteTime event.element.lastWriteTime = true
  kind : event.element.type = .file ∨
    event.element.type = .directory ∧ event.element.hash = .zero

/-- An event as the watcher makes it. -/
structure Noticed (event : Event) : Prop extends Acceptable event where
  status : event.type ≠ .storeSent

instance Acceptable.decidable (event : Event) : Decidable (Acceptable event) :=
  decidable_of_iff
    (Validator.validatePath event.element.relativePath = some event.element.relativePath ∧
      Canonical event.element.relativePath ∧
      Validator.validateLastWriteTime event.element.lastWriteTime = true ∧
      (event.element.type = .file ∨
        event.element.type = .directory ∧ event.element.hash = .zero))
    ⟨fun h => ⟨h.1, h.2.1, h.2.2.1, h.2.2.2⟩, fun h => ⟨h.path, h.canonical, h.time, h.kind⟩⟩

instance Noticed.decidable (event : Event) : Decidable (Noticed event) :=
  decidable_of_iff (Acceptable event ∧ event.type ≠ .storeSent)
    ⟨fun h => ⟨h.1, h.2⟩, fun h => ⟨h.toAcceptable, h.status⟩⟩

theorem Acceptable.withType {event : Event} (hacceptable : Acceptable event)
    (type : FileSystemStatus) : Acceptable { element := event.element, type } :=
  ⟨hacceptable.path, hacceptable.canonical, hacceptable.time, hacceptable.kind⟩

/-- The events that are queued and those that wait for an answer. -/
structure Sound (system : System) : Prop where
  queue : ∀ event ∈ system.eventQueue, Noticed event
  window : ∀ waiting ∈ system.client.waitingForResponse.toList, Acceptable waiting.event

section Settings

variable {settings : Settings} {system next : System} {account after : Account}

theorem forall_mem_concat {α : Type} {holds : α → Prop} {entries : List α} {entry : α}
    (hentries : ∀ other ∈ entries, holds other) (hentry : holds entry) :
    ∀ other ∈ entries ++ [entry], holds other := by
  intro other hother
  cases List.mem_append.mp hother with
  | inl hold => exact hentries other hold
  | inr hlast => exact List.mem_singleton.mp hlast ▸ hentry

theorem acceptable_sending {event : Event} {accepted : Bool} (hnoticed : Acceptable event)
    (hwindow : ∀ waiting ∈ account.waiting, Acceptable waiting.event)
    (hsending : Sending settings account event accepted after) :
    ∀ waiting ∈ after.waiting, Acceptable waiting.event := by
  cases hsending with
  | full => exact hwindow
  | unsupported => exact hwindow
  | sent => exact forall_mem_concat hwindow hnoticed

theorem acceptable_receiving {folder : FileTree} {left : Option Nat}
    {ending : Option ClientException}
    (hwindow : ∀ waiting ∈ account.waiting, Acceptable waiting.event)
    (hreceiving : Receiving settings folder left account ending after) :
    ∀ waiting ∈ after.waiting, Acceptable waiting.event := by
  have hothers : ∀ {head : Waiting} {others : List Waiting}, account.waiting = head :: others →
      ∀ waiting ∈ others, Acceptable waiting.event := by
    intro head others hwaiting waiting hmem
    exact hwindow waiting (hwaiting ▸ List.mem_cons_of_mem head hmem)
  cases hreceiving with
  | unread => exact hwindow
  | rejected => exact hwindow
  | unreadable hwaiting => exact hothers hwaiting
  | confirmed hwaiting => exact hothers hwaiting
  | refused hwaiting => exact hothers hwaiting
  | dropped hwaiting => exact hothers hwaiting
  | interrupted hwaiting => exact hothers hwaiting
  | @succeeded head others _ _ _ _ hwaiting =>
      apply forall_mem_concat (hothers hwaiting)
      exact (hwindow head (hwaiting ▸ List.mem_cons_self)).withType .storeSent

/-! ## The thread's own actions -/

/-- What happens at the client while the connection lasts: events are reported as the
watcher makes them, and the thread reads when there is something to read. -/
def Regular (system : System) : Action → Prop
  | .change _ => True
  | .detect event => Noticed event
  | .writable => True
  | .readable => system.client.connection.incoming ≠ []
  | .arrive _ => False
  | .weaken _ => False
  | .connect _ => False
  | .disconnect => False

instance Regular.decidable (system : System) (action : Action) :
    Decidable (Regular system action) :=
  match action with
  | .change _ => .isTrue trivial
  | .detect event => inferInstanceAs (Decidable (Noticed event))
  | .writable => .isTrue trivial
  | .readable => inferInstanceAs (Decidable (_ ≠ _))
  | .arrive _ => .isFalse id
  | .weaken _ => .isFalse id
  | .connect _ => .isFalse id
  | .disconnect => .isFalse id

theorem Regular.unbroken {action : Action} (hregular : Regular system action) :
    Unbroken system action := by
  cases action with
  | change folder => trivial
  | detect event => trivial
  | writable => trivial
  | readable => exact hregular
  | arrive message => exact hregular.elim
  | weaken operationsLeft => exact hregular.elim
  | connect operationsLeft => exact hregular.elim
  | disconnect => exact hregular.elim

theorem arrivals_regular {action : Action} (hregular : Regular system action) :
    arrivals [action] = [] := by
  cases action with
  | arrive message => exact hregular.elim
  | _ => rfl

/-- No connection begins in a regular step. -/
theorem Regular.connected {action : Action} (hregular : Regular system action)
    (hstep : step settings action system = some next) (hnext : next.phase = .connected) :
    system.phase = .connected := by
  cases stepped_of_step hstep with
  | change _ hphase => exact hphase ▸ hnext
  | detect _ hphase => exact hphase ▸ hnext
  | weaken => exact hregular.elim
  | arrive => exact hregular.elim
  | connected => exact hregular.elim
  | unconnected => exact hregular.elim
  | sent hconnected => exact hconnected
  | unsent hconnected => exact hconnected
  | closed hconnected => exact hconnected
  | received hconnected => exact hconnected
  | unasked hconnected => exact hconnected
  | disconnect => exact hregular.elim

variable (settings) in
/-- What a step adds to the stream is framed by the requests it makes. -/
def Extends (system next : System) : Prop :=
  ∃ requests stream,
    next.client.connection.written = system.client.connection.written ++ stream ∧
      Framed settings.protocolVersion requests stream ∧
        next.client.connection.requests = system.client.connection.requests ++ requests

theorem extends_of_framed {requests stream : List ClientMessage}
    (hwritten : next.client.connection.written = system.client.connection.written ++ stream)
    (hframed : Framed settings.protocolVersion requests stream) : Extends settings system next := by
  refine ⟨requests, stream, hwritten, hframed, ?_⟩
  rw [Connection.requests, hwritten, List.filter_append, filter_isRequest_framed hframed]
  rfl

theorem extends_of_written
    (hwritten : next.client.connection.written = system.client.connection.written) :
    Extends settings system next := by
  apply extends_of_framed _ .nil
  rw [hwritten, List.append_nil]

theorem extends_sendFront {event : Event} {others : List Event} (hstatus : event.type ≠ .storeSent)
    (hnext : (sendFront settings event others system).phase = .connected) :
    Extends settings system (sendFront settings event others system) := by
  have hexit := eq_none_of_after hnext
  cases hrun : send settings event system.client with
  | raised exception s => simp [hrun, Exit.exception] at hexit
  | returned accepted s =>
      obtain ⟨requests, stream, hwritten, hframed⟩ :=
        (send_writes hstatus system.client.connection.written).returned rfl hrun
      apply extends_of_framed _ hframed
      rw [sendFront, hrun]
      exact hwritten

/-- One step. -/
theorem Regular.extends {action : Action} (hregular : Regular system action)
    (hsound : Sound system) (hstep : step settings action system = some next)
    (hnext : next.phase = .connected) : Extends settings system next := by
  have hconnected := hregular.connected hstep hnext
  cases action with
  | change folder =>
      obtain rfl := Option.some.inj hstep
      exact extends_of_written rfl
  | detect event =>
      obtain rfl := Option.some.inj hstep
      exact extends_of_written rfl
  | writable =>
      cases hqueue : system.eventQueue with
      | nil => simp [step, hconnected, hqueue] at hstep
      | cons event others =>
          simp only [step, hconnected, hqueue] at hstep
          split at hstep
          · simp at hstep
          · obtain rfl := Option.some.inj hstep
            apply extends_sendFront _ hnext
            exact (hsound.queue event (hqueue ▸ List.mem_cons_self)).status
  | readable =>
      simp only [step, hconnected] at hstep
      obtain rfl := Option.some.inj hstep
      have hexit := eq_none_of_after hnext
      cases hrun : receive settings system.client with
      | raised exception s => simp [hrun, Exit.exception] at hexit
      | returned value s =>
          obtain ⟨requests, stream, hwritten, hframed⟩ :=
            (receive_writes system.client.connection.written).returned rfl hrun
          exact extends_of_framed hwritten hframed
  | arrive message => exact hregular.elim
  | weaken operationsLeft => exact hregular.elim
  | connect operationsLeft => exact hregular.elim
  | disconnect => exact hregular.elim

theorem sound_sendFront {event : Event} {others : List Event} (hsound : Sound system)
    (hqueue : system.eventQueue = event :: others) :
    Sound (sendFront settings event others system) := by
  have hothers : ∀ other ∈ others, Noticed other := fun other hother =>
    hsound.queue other (hqueue ▸ List.mem_cons_of_mem event hother)
  have hnoticed : Noticed event := hsound.queue event (hqueue ▸ List.mem_cons_self)
  have hwhole : ∀ other ∈ event :: others, Noticed other := List.forall_mem_cons.mpr
    ⟨hnoticed, hothers⟩
  have hends := meets_send settings event system.client system.client.at_account
  cases hrun : send settings event system.client with
  | returned accepted s =>
      rw [hrun] at hends
      obtain ⟨account, hsending, hs⟩ := hends
      constructor
      · rw [sendFront, hrun]
        cases accepted with
        | false => exact hwhole
        | true => exact hothers
      · rw [sendFront, hrun]
        have hwaiting : s.waitingForResponse.toList = account.waiting :=
          congrArg Account.waiting hs.account_eq
        show ∀ waiting ∈ s.waitingForResponse.toList, Acceptable waiting.event
        rw [hwaiting]
        exact acceptable_sending hnoticed.toAcceptable hsound.window hsending
  | raised exception s =>
      rw [hrun] at hends
      constructor
      · rw [sendFront, hrun]
        exact hwhole
      · rw [sendFront, hrun]
        have hwaiting : s.waitingForResponse.toList = system.client.account.waiting :=
          congrArg Account.waiting hends.1.account_eq
        show ∀ waiting ∈ s.waitingForResponse.toList, Acceptable waiting.event
        rw [hwaiting]
        exact hsound.window

theorem Sound.step {action : Action} (hsound : Sound system)
    (haligned : system.phase = .connected → system.client.account.Aligned settings)
    (hregular : Regular system action) (hstep : step settings action system = some next) :
    Sound next := by
  cases action with
  | change folder =>
      obtain rfl := Option.some.inj hstep
      exact ⟨hsound.queue, hsound.window⟩
  | detect event =>
      obtain rfl := Option.some.inj hstep
      exact ⟨forall_mem_concat hsound.queue hregular, hsound.window⟩
  | writable =>
      cases hphase : system.phase <;> cases hqueue : system.eventQueue <;>
        simp only [Client.step, hphase, hqueue, reduceCtorEq] at hstep
      split at hstep
      · simp at hstep
      · obtain rfl := Option.some.inj hstep
        exact sound_sendFront hsound hqueue
  | readable =>
      have hqueue : next.eventQueue = system.eventQueue := by
        cases hphase : system.phase <;> simp only [Client.step, hphase, reduceCtorEq] at hstep
        obtain rfl := Option.some.inj hstep
        rfl
      constructor
      · rw [hqueue]
        exact hsound.queue
      · cases stepped_of_step hstep with
        | closed _ hincoming => exact absurd hincoming hregular
        | received _ hreceiving => exact acceptable_receiving hsound.window hreceiving
        | unasked hconnected hincoming hwaiting =>
            exact absurd hwaiting ((haligned hconnected).waiting_ne_nil hincoming)
  | arrive message => exact hregular.elim
  | weaken operationsLeft => exact hregular.elim
  | connect operationsLeft => exact hregular.elim
  | disconnect => exact hregular.elim

end Settings

end PdsBackup.Client
