import PdsBackup.Client.Alignment

/-!
# The event queue between two threads

The watcher pushes events into a `TS_Circular_vector` while the communication thread
looks at its front, sends what it sees through a reference, and only then removes
it.  Each of these is a step of its own, and so is everything else that happens to
the client in between.
-/

namespace PdsBackup.Client

open Procedure

instance Event.inhabited : Inhabited Event := ⟨{}⟩

/-- The texts of the element are moved away. -/
instance Event.moveFrom : MoveFrom Event where
  movedFrom event :=
    { event with
      element :=
        { event.element with
          relativePath := []
          absolutePath := []
          lastWriteTime := [] } }

/-- `send` makes requests of files and directories only. -/
def Event.supported (event : Event) : Bool :=
  event.element.isRegularFile || event.element.isDirectory

/-- How far the communication thread is with the front of the queue: the slot that
the reference refers to, and what was there when it was taken. -/
inductive Point where
  | idle
  | peeked (index : Nat) (event : Event)
  | sent (index : Nat) (event : Event)
  deriving DecidableEq

structure Threads where
  client : ClientState
  phase : Phase
  queue : TSCircularVector Event
  stop : Bool
  point : Point
  /-- The events whose `push` or `tryPush` returned true. -/
  accepted : List Event
  /-- The events whose `send` returned true. -/
  handed : List Event

inductive Turn where
  | stop
  | push (event : Event)
  | tryPush (event : Event)
  | front
  | send
  | pop
  | act (action : Action)

/-- What others do to the folder and the connection. -/
def Action.ofEnvironment : Action → Bool
  | .change _ => true
  | .weaken _ => true
  | .arrive _ => true
  | _ => false

/-- What the communication thread does besides sending events. -/
def Action.ofThread : Action → Bool
  | .connect _ => true
  | .readable => true
  | .disconnect => true
  | _ => false

namespace Threads

section Settings

variable (settings : Settings)

/-- The outcome of a push. -/
def pushed (event : Event) (outcome : Bool × TSCircularVector Event) (threads : Threads) :
    Threads :=
  { threads with
    queue := outcome.2
    accepted := if outcome.1 then threads.accepted ++ [event] else threads.accepted }

/-- The call of `send` with what the reference refers to. -/
def sends (index : Nat) (event : Event) (threads : Threads) : Threads :=
  let exit := Client.send settings event threads.client
  { threads with
    client := exit.state
    phase := Phase.after exit.exception
    point := match exit with
      | .returned true _ => .sent index event
      | _ => .idle
    handed := match exit with
      | .returned true _ => threads.handed ++ [event]
      | _ => threads.handed }

/-- The client as it is without a second thread: what was sent is no longer in the
queue. -/
def system (threads : Threads) : System where
  client := threads.client
  eventQueue := match threads.point with
    | .sent _ _ => threads.queue.toList.tail
    | _ => threads.queue.toList
  phase := threads.phase

/-- One step of one of the threads; `none` where it is not possible. -/
def turn (turn : Turn) (threads : Threads) : Option Threads :=
  match turn, threads.phase, threads.point with
  | .stop, _, _ => some { threads with stop := true }
  | .push event, _, _ => (threads.queue.push event threads.stop).map fun outcome =>
      threads.pushed event outcome
  | .tryPush event, _, _ => some (threads.pushed event (threads.queue.tryPush event))
  | .front, .connected, .idle =>
      if threads.client.waitingForResponse.full then none
      else threads.queue.front.bind fun index =>
        threads.queue.slots[index]?.map fun event => { threads with point := .peeked index event }
  | .send, .connected, .peeked index _ =>
      threads.queue.slots[index]?.map fun event => threads.sends settings index event
  | .pop, _, .sent _ _ => threads.queue.pop.map fun queue => { threads with queue, point := .idle }
  | .act action, _, point =>
      if action.ofEnvironment || (action.ofThread && point = .idle) then
        (step settings action threads.system).map fun next =>
          { threads with client := next.client, phase := next.phase }
      else none
  | _, _, _ => none

def turns : List Turn → Threads → Option Threads
  | [], threads => some threads
  | next :: rest, threads => (threads.turn settings next).bind (turns rest)

end Settings

variable {settings : Settings} {threads next : Threads}

/-- Nothing is lost or handed over twice, and what the reference refers to stays as
it was until it is removed. -/
structure HandOver (threads : Threads) : Prop where
  accepted : threads.accepted = threads.handed ++ threads.system.eventQueue
  entered : threads.client.history.entered = threads.handed.filter Event.supported
  referred : ∀ index event,
    threads.point = .peeked index event ∨ threads.point = .sent index event →
      threads.queue.empty = false ∧ index = threads.queue.start ∧
        threads.queue.slots[index]? = some event

/-- The front of a queue that is not empty. -/
theorem queue_eq {ring : TSCircularVector Event} (hempty : ring.empty = false) {event : Event}
    (hslot : ring.slots[ring.start]? = some event) :
    ring.toList = event :: (CircularVector.pop ring).toList := by
  rw [CircularVector.getElem?_start, Option.some.injEq] at hslot
  rw [← hslot]
  exact CircularVector.toList_pop hempty

theorem eventQueue_push {event : Event} (hhand : threads.HandOver)
    (hfull : threads.queue.full = false) :
    { threads with queue := CircularVector.push event threads.queue }.system.eventQueue =
      threads.system.eventQueue ++ [event] := by
  have hpush := CircularVector.toList_push event hfull
  cases hpoint : threads.point with
  | idle => simp only [system, hpoint, hpush]
  | peeked => simp only [system, hpoint, hpush]
  | sent index current =>
      obtain ⟨hempty, rfl, hslot⟩ := hhand.referred index current (.inr hpoint)
      simp only [system, hpoint, hpush]
      rw [queue_eq hempty hslot]
      rfl

theorem HandOver.push {event : Event} (hhand : threads.HandOver)
    (hfull : threads.queue.full = false) :
    HandOver (threads.pushed event (true, CircularVector.push event threads.queue)) := by
  constructor
  · show threads.accepted ++ [event] = threads.handed ++ _
    rw [hhand.accepted, List.append_assoc, ← eventQueue_push hhand hfull]
    rfl
  · exact hhand.entered
  · intro index current hpoint
    obtain ⟨hempty, rfl, hslot⟩ := hhand.referred index current hpoint
    have hfilled : (CircularVector.push event threads.queue).empty = false := by
      rw [← Bool.not_eq_true, ← CircularVector.toList_eq_nil_iff,
        CircularVector.toList_push event hfull]
      simp
    refine ⟨hfilled, rfl, ?_⟩
    rw [← hslot, CircularVector.getElem?_start, ← CircularVector.front_push event hempty]
    exact CircularVector.getElem?_start _

theorem HandOver.outcome {event : Event} {accepted : Bool} {queue : TSCircularVector Event}
    (hhand : threads.HandOver)
    (houtcome : accepted = false ∧ queue = threads.queue ∨
      accepted = true ∧ threads.queue.full = false ∧
        queue = CircularVector.push event threads.queue) :
    HandOver (threads.pushed event (accepted, queue)) := by
  rcases houtcome with ⟨rfl, rfl⟩ | ⟨rfl, hfull, rfl⟩
  · exact hhand
  · exact hhand.push hfull

/-- What `send` answers true for has entered the window if it is supported. -/
theorem entered_of_returned {event : Event} {client s : ClientState} {accepted : Bool}
    (hreturned : send settings event client = .returned accepted s) :
    s.history.entered = client.history.entered ++
      (if accepted then [event].filter Event.supported else []) := by
  have hends := meets_send settings event client client.at_account
  rw [hreturned] at hends
  obtain ⟨account, hsending, habout⟩ := hends
  have haccount : s.history.entered = account.history.entered :=
    congrArg (fun account => account.history.entered) habout.account_eq
  rw [haccount]
  cases hsending with
  | full => exact (List.append_nil _).symm
  | unsupported hfile hdir =>
      rw [if_pos rfl, List.filter_cons_of_neg (by simp [Event.supported, hfile, hdir])]
      exact (List.append_nil _).symm
  | sent _ hsupported =>
      have hkind : event.supported = true := hsupported
      rw [if_pos rfl, List.filter_cons_of_pos hkind]
      rfl

theorem entered_of_raised {event : Event} {client s : ClientState} {exception : ClientException}
    (hraised : send settings event client = .raised exception s) :
    s.history.entered = client.history.entered := by
  have hends := meets_send settings event client client.at_account
  rw [hraised] at hends
  exact congrArg (fun account => account.history.entered) hends.1.account_eq

theorem HandOver.sends {index : Nat} {seen event : Event} (hhand : threads.HandOver)
    (hpoint : threads.point = .peeked index seen)
    (hslot : threads.queue.slots[index]? = some event) :
    HandOver (threads.sends settings index event) := by
  obtain ⟨hempty, rfl, hseen⟩ := hhand.referred index seen (.inl hpoint)
  have hqueue := queue_eq hempty hslot
  have haccepted := hhand.accepted
  simp only [system, hpoint, hqueue] at haccepted
  have hstays : ∀ {client : ClientState} {phase : Phase},
      client.history.entered = threads.client.history.entered →
        HandOver { threads with client, phase, point := .idle } := by
    intro client phase hentered
    constructor
    · show threads.accepted = threads.handed ++ threads.queue.toList
      rw [haccepted, hqueue]
    · exact hentered.trans hhand.entered
    · simp
  cases hsend : Client.send settings event threads.client with
  | raised exception s =>
      rw [Threads.sends, hsend]
      exact hstays (entered_of_raised hsend)
  | returned answer s =>
      have hentered := entered_of_returned hsend
      cases answer with
      | false =>
          rw [Threads.sends, hsend]
          exact hstays (hentered.trans (List.append_nil _))
      | true =>
          rw [Threads.sends, hsend]
          constructor
          · show threads.accepted = (threads.handed ++ [event]) ++ threads.queue.toList.tail
            rw [haccepted, hqueue, List.append_assoc]
            rfl
          · show s.history.entered = (threads.handed ++ [event]).filter Event.supported
            rw [hentered, hhand.entered, List.filter_append]
            rfl
          · intro index current hcurrent
            simp only [reduceCtorEq, false_or, Point.sent.injEq] at hcurrent
            rw [← hcurrent.1, ← hcurrent.2]
            exact ⟨hempty, rfl, hslot⟩

theorem HandOver.front {index : Nat} {event : Event} (hhand : threads.HandOver)
    (hpoint : threads.point = .idle) (hfront : threads.queue.front = some index)
    (hslot : threads.queue.slots[index]? = some event) :
    HandOver { threads with point := .peeked index event } := by
  have haccepted := hhand.accepted
  simp only [system, hpoint] at haccepted
  refine ⟨haccepted, hhand.entered, ?_⟩
  intro other current hcurrent
  simp only [Point.peeked.injEq, reduceCtorEq, or_false] at hcurrent
  rw [← hcurrent.1, ← hcurrent.2]
  cases hempty : threads.queue.empty with
  | true => simp [TSCircularVector.front, hempty] at hfront
  | false =>
      rw [TSCircularVector.front, hempty, if_neg Bool.false_ne_true, Option.some.injEq] at hfront
      exact ⟨rfl, hfront.symm, hslot⟩

theorem HandOver.pop {index : Nat} {event : Event} {queue : TSCircularVector Event}
    (hhand : threads.HandOver) (hpoint : threads.point = .sent index event)
    (hpop : threads.queue.pop = some queue) :
    HandOver { threads with queue, point := .idle } := by
  obtain ⟨hempty, rfl, hslot⟩ := hhand.referred index event (.inr hpoint)
  rw [TSCircularVector.pop, hempty, if_neg Bool.false_ne_true, Option.some.injEq] at hpop
  have haccepted := hhand.accepted
  simp only [system, hpoint, queue_eq hempty hslot, List.tail_cons, hpop] at haccepted
  exact ⟨haccepted, hhand.entered, by simp⟩

/-- What else happens puts nothing into the window. -/
theorem entered_of_step {action : Action} {system after : System}
    (haction : (action.ofEnvironment || action.ofThread) = true)
    (hstep : step settings action system = some after) :
    after.client.history.entered = system.client.history.entered := by
  have hentered : ∀ {account : Account}, after.client.account = account →
      after.client.history.entered = account.history.entered := fun h =>
    congrArg (fun account => account.history.entered) h
  cases stepped_of_step hstep with
  | change haccount => exact hentered haccount
  | detect => simp [Action.ofEnvironment, Action.ofThread] at haction
  | weaken haccount => exact hentered haccount
  | arrive _ haccount => exact hentered haccount
  | connected _ _ haccount => exact hentered haccount
  | unconnected _ haccount => exact hentered haccount
  | sent => simp [Action.ofEnvironment, Action.ofThread] at haction
  | unsent => simp [Action.ofEnvironment, Action.ofThread] at haction
  | closed _ _ haccount => exact hentered haccount
  | received _ hreceiving =>
      rcases hreceiving.taken with ⟨hsame, -, -⟩ | ⟨head, message, htaken⟩
      · exact hentered hsame
      · exact htaken.entered
  | unasked _ _ _ hrecorded => exact hrecorded.1
  | disconnect _ hclient => rw [hclient]

theorem HandOver.act {action : Action} {after : System} (hhand : threads.HandOver)
    (haction : (action.ofEnvironment || action.ofThread) = true)
    (hstep : step settings action threads.system = some after) :
    HandOver { threads with client := after.client, phase := after.phase } := by
  have hentered := entered_of_step haction hstep
  exact ⟨hhand.accepted, hentered.trans hhand.entered, hhand.referred⟩

theorem HandOver.turn {turn : Turn} (hhand : threads.HandOver)
    (hturn : threads.turn settings turn = some next) : next.HandOver := by
  cases turn with
  | stop =>
      obtain rfl := Option.some.inj hturn
      exact ⟨hhand.accepted, hhand.entered, hhand.referred⟩
  | push event =>
      obtain ⟨⟨accepted, queue⟩, hpush, rfl⟩ := Option.map_eq_some_iff.mp hturn
      exact hhand.outcome (TSCircularVector.push_eq_some hpush)
  | tryPush event =>
      obtain rfl := Option.some.inj hturn
      exact hhand.outcome (TSCircularVector.tryPush_eq rfl)
  | front =>
      cases hphase : threads.phase <;> cases hpoint : threads.point <;>
        simp only [Threads.turn, hphase, hpoint, reduceCtorEq] at hturn
      cases hfull : threads.client.waitingForResponse.full with
      | true => simp [hfull] at hturn
      | false =>
          rw [hfull, if_neg Bool.false_ne_true, Option.bind_eq_some_iff] at hturn
          obtain ⟨index, hfront, hslot⟩ := hturn
          obtain ⟨event, hevent, rfl⟩ := Option.map_eq_some_iff.mp hslot
          rw [← hphase]
          exact hhand.front hpoint hfront hevent
  | send =>
      cases hphase : threads.phase <;> cases hpoint : threads.point <;>
        simp only [Threads.turn, hphase, hpoint, reduceCtorEq] at hturn
      obtain ⟨event, hslot, rfl⟩ := Option.map_eq_some_iff.mp hturn
      exact hhand.sends hpoint hslot
  | pop =>
      cases hpoint : threads.point <;> simp only [Threads.turn, hpoint, reduceCtorEq] at hturn
      obtain ⟨queue, hpop, rfl⟩ := Option.map_eq_some_iff.mp hturn
      exact hhand.pop hpoint hpop
  | act action =>
      simp only [Threads.turn] at hturn
      split at hturn
      · rename_i hallowed
        obtain ⟨after, hstep, rfl⟩ := Option.map_eq_some_iff.mp hturn
        apply hhand.act _ hstep
        cases henvironment : action.ofEnvironment <;> simp_all
      · simp at hturn

/-- Nothing has been queued or handed over yet. -/
structure Beginning (threads : Threads) : Prop where
  point : threads.point = .idle
  queue : threads.queue.toList = []
  accepted : threads.accepted = []
  handed : threads.handed = []
  entered : threads.client.history.entered = []

theorem Beginning.handOver (hbeginning : threads.Beginning) : threads.HandOver := by
  constructor
  · rw [hbeginning.accepted, hbeginning.handed, system]
    simp only [hbeginning.point, hbeginning.queue]
    rfl
  · rw [hbeginning.entered, hbeginning.handed]
    rfl
  · simp [hbeginning.point]

theorem HandOver.turns {schedule : List Turn} (hhand : threads.HandOver)
    (hturns : threads.turns settings schedule = some next) : next.HandOver := by
  induction schedule generalizing threads with
  | nil =>
      rw [Threads.turns, Option.some.injEq] at hturns
      exact hturns ▸ hhand
  | cons turn schedule ih =>
      rw [Threads.turns, Option.bind_eq_some_iff] at hturns
      obtain ⟨middle, hturn, hrest⟩ := hturns
      exact ih (hhand.turn hturn) hrest

/-- However the steps of the two threads interleave, what was handed over is the
first part of what was accepted, and the slot that is referred to is as it was. -/
theorem handed_over {schedule : List Turn} (hbeginning : threads.Beginning)
    (hturns : threads.turns settings schedule = some next) :
    next.handed <+: next.accepted ∧ next.HandOver := by
  have hhand := hbeginning.handOver.turns hturns
  exact ⟨hhand.accepted ▸ List.prefix_append _ _, hhand⟩

/-- A client that is not connected, with an empty queue of some size. -/
def startWith (folder : FileTree) (room size : Nat) : Threads where
  client := clientWith folder room []
  phase := .disconnected
  queue := .ofSize size
  stop := false
  point := .idle
  accepted := []
  handed := []

theorem beginning_startWith (folder : FileTree) (room size : Nat) :
    (startWith folder room size).Beginning where
  point := rfl
  queue := CircularVector.toList_of_empty rfl
  accepted := rfl
  handed := rfl
  entered := rfl

/-- The queue has room for one event; the socket fails when it is first sent. -/
def resending (first second : Event) : List Turn :=
  [.tryPush first, .tryPush second, .act (.connect none), .front, .act (.weaken (some 0)), .send,
    .act (.connect none), .front, .tryPush second, .send, .tryPush second, .pop, .push second]

theorem handed_over_resending :
    let first : Event := { element := directoryElement "/a".toList, type := .created }
    let second : Event := { element := directoryElement "/b".toList, type := .created }
    ∃ next, (startWith homeFolder 1 1).turns homeSettings (resending first second) = some next ∧
      next.handed <+: next.accepted ∧ next.HandOver := by
  intro first second
  have hturns : ((startWith homeFolder 1 1).turns homeSettings
      (resending first second)).isSome = true := by
    decide +kernel
  obtain ⟨next, hnext⟩ := Option.isSome_iff_exists.mp hturns
  exact ⟨next, hnext, handed_over (beginning_startWith homeFolder 1 1) hnext⟩

/-! ## One thread's view -/

/-- While it has a front to send, the thread is connected and may send. -/
structure Ready (threads : Threads) : Prop where
  connected : threads.point ≠ .idle → threads.phase = .connected
  room : ∀ index event, threads.point = .peeked index event →
    threads.client.waitingForResponse.full = false

theorem ready_of_idle (hidle : threads.point = .idle) : threads.Ready :=
  ⟨fun hne => absurd hidle hne, by simp [hidle]⟩

theorem eventQueue_of_step {action : Action} {system after : System}
    (haction : (action.ofEnvironment || action.ofThread) = true)
    (hstep : step settings action system = some after) : after.eventQueue = system.eventQueue := by
  cases action with
  | change folder =>
      obtain rfl := Option.some.inj hstep
      rfl
  | weaken operationsLeft =>
      obtain rfl := Option.some.inj hstep
      rfl
  | arrive message =>
      cases hphase : system.phase <;> simp only [step, hphase, reduceCtorEq] at hstep
      obtain rfl := Option.some.inj hstep
      rfl
  | connect operationsLeft =>
      cases hphase : system.phase <;> simp only [step, hphase, reduceCtorEq] at hstep
      obtain rfl := Option.some.inj hstep
      rfl
  | readable =>
      cases hphase : system.phase <;> simp only [step, hphase, reduceCtorEq] at hstep
      obtain rfl := Option.some.inj hstep
      rfl
  | disconnect =>
      cases hphase : system.phase <;> simp only [step, hphase, reduceCtorEq] at hstep
      cases hempty : system.client.waitingForResponse.empty with
      | true =>
          rw [hempty, if_pos rfl] at hstep
          obtain rfl := Option.some.inj hstep
          rfl
      | false => simp [hempty] at hstep
  | detect event => simp [Action.ofEnvironment, Action.ofThread] at haction
  | writable => simp [Action.ofEnvironment, Action.ofThread] at haction

/-- What the environment does leaves the phase and the window as they were. -/
theorem undisturbed_of_step {action : Action} {system after : System}
    (haction : action.ofEnvironment = true) (hstep : step settings action system = some after) :
    after.phase = system.phase ∧ after.client.waitingForResponse = system.client.waitingForResponse := by
  cases action with
  | change folder =>
      obtain rfl := Option.some.inj hstep
      exact ⟨rfl, rfl⟩
  | weaken operationsLeft =>
      obtain rfl := Option.some.inj hstep
      exact ⟨rfl, rfl⟩
  | arrive message =>
      cases hphase : system.phase <;> simp only [step, hphase, reduceCtorEq] at hstep
      obtain rfl := Option.some.inj hstep
      exact ⟨rfl, rfl⟩
  | _ => simp [Action.ofEnvironment] at haction

theorem Ready.turn {turn : Turn} (hready : threads.Ready)
    (hturn : threads.turn settings turn = some next) : next.Ready := by
  cases turn with
  | stop =>
      obtain rfl := Option.some.inj hturn
      exact ⟨hready.connected, hready.room⟩
  | push event =>
      obtain ⟨outcome, -, rfl⟩ := Option.map_eq_some_iff.mp hturn
      exact ⟨hready.connected, hready.room⟩
  | tryPush event =>
      obtain rfl := Option.some.inj hturn
      exact ⟨hready.connected, hready.room⟩
  | front =>
      cases hphase : threads.phase <;> cases hpoint : threads.point <;>
        simp only [Threads.turn, hphase, hpoint, reduceCtorEq] at hturn
      cases hfull : threads.client.waitingForResponse.full with
      | true => simp [hfull] at hturn
      | false =>
          rw [hfull, if_neg Bool.false_ne_true, Option.bind_eq_some_iff] at hturn
          obtain ⟨index, -, hslot⟩ := hturn
          obtain ⟨event, -, rfl⟩ := Option.map_eq_some_iff.mp hslot
          exact ⟨fun _ => rfl, fun _ _ _ => hfull⟩
  | send =>
      cases hphase : threads.phase <;> cases hpoint : threads.point <;>
        simp only [Threads.turn, hphase, hpoint, reduceCtorEq] at hturn
      obtain ⟨event, -, rfl⟩ := Option.map_eq_some_iff.mp hturn
      cases hsend : Client.send settings event threads.client with
      | raised exception s =>
          rw [Threads.sends, hsend]
          exact ready_of_idle rfl
      | returned answer s =>
          rw [Threads.sends, hsend]
          cases answer with
          | false => exact ready_of_idle rfl
          | true => exact ⟨fun _ => rfl, by simp⟩
  | pop =>
      cases hpoint : threads.point <;> simp only [Threads.turn, hpoint, reduceCtorEq] at hturn
      obtain ⟨queue, -, rfl⟩ := Option.map_eq_some_iff.mp hturn
      exact ready_of_idle rfl
  | act action =>
      simp only [Threads.turn] at hturn
      split at hturn
      · rename_i hallowed
        obtain ⟨after, hstep, rfl⟩ := Option.map_eq_some_iff.mp hturn
        cases henvironment : action.ofEnvironment with
        | true =>
            obtain ⟨hphase, hwindow⟩ := undisturbed_of_step henvironment hstep
            exact ⟨fun hne => hphase.trans (hready.connected hne),
              fun index event hpoint => (congrArg _ hwindow).trans (hready.room index event hpoint)⟩
        | false =>
            have hidle : threads.point = .idle := by
              rw [henvironment, Bool.false_or, Bool.and_eq_true, decide_eq_true_eq] at hallowed
              exact hallowed.2
            exact ready_of_idle hidle
      · simp at hturn

theorem simulates_outcome {event : Event} {accepted : Bool} {queue : TSCircularVector Event}
    (hhand : threads.HandOver)
    (houtcome : accepted = false ∧ queue = threads.queue ∨
      accepted = true ∧ threads.queue.full = false ∧
        queue = CircularVector.push event threads.queue) :
    (threads.pushed event (accepted, queue)).system = threads.system ∨
      step settings (.detect event) threads.system =
        some (threads.pushed event (accepted, queue)).system := by
  rcases houtcome with ⟨rfl, rfl⟩ | ⟨rfl, hfull, rfl⟩
  · exact .inl rfl
  · apply Or.inr
    have hqueue : threads.system.eventQueue ++ [event] = _ :=
      (eventQueue_push hhand hfull).symm
    simp only [step, hqueue]
    rfl

theorem step_writable {client : ClientState} {event : Event} {others : List Event}
    (hroom : client.waitingForResponse.full = false) :
    step settings .writable ⟨client, event :: others, .connected⟩ =
      some (sendFront settings event others ⟨client, event :: others, .connected⟩) :=
  if_neg (by simp [hroom])

theorem simulates_sends {index : Nat} {seen event : Event} (hhand : threads.HandOver)
    (hready : threads.Ready) (hpoint : threads.point = .peeked index seen)
    (hslot : threads.queue.slots[index]? = some event) :
    step settings .writable threads.system =
      some (threads.sends settings index event).system := by
  obtain ⟨hempty, rfl, -⟩ := hhand.referred index seen (.inl hpoint)
  have hqueue := queue_eq hempty hslot
  have hconnected := hready.connected (by simp [hpoint])
  have hroom := hready.room _ _ hpoint
  have hsystem : threads.system =
      ⟨threads.client, event :: (CircularVector.pop threads.queue).toList, .connected⟩ := by
    simp only [system, hpoint, hqueue, hconnected]
  rw [hsystem, step_writable hroom]
  cases hsend : Client.send settings event threads.client with
  | raised exception s => simp only [sendFront, Threads.sends, hsend, system, hqueue]
  | returned answer s =>
      cases answer with
      | false => simp only [sendFront, Threads.sends, hsend, system, hqueue]
      | true => simp only [sendFront, Threads.sends, hsend, system, hqueue, List.tail_cons]

/-- Each step of the two threads is a step of the client with one thread, or none. -/
theorem simulates {turn : Turn} (hhand : threads.HandOver) (hready : threads.Ready)
    (hturn : threads.turn settings turn = some next) :
    next.system = threads.system ∨
      ∃ action, step settings action threads.system = some next.system := by
  cases turn with
  | stop =>
      obtain rfl := Option.some.inj hturn
      exact .inl rfl
  | push event =>
      obtain ⟨⟨accepted, queue⟩, hpush, rfl⟩ := Option.map_eq_some_iff.mp hturn
      exact (simulates_outcome hhand (TSCircularVector.push_eq_some hpush)).imp_right
        fun hstep => ⟨_, hstep⟩
  | tryPush event =>
      obtain rfl := Option.some.inj hturn
      exact (simulates_outcome hhand (TSCircularVector.tryPush_eq rfl)).imp_right
        fun hstep => ⟨_, hstep⟩
  | front =>
      cases hphase : threads.phase <;> cases hpoint : threads.point <;>
        simp only [Threads.turn, hphase, hpoint, reduceCtorEq] at hturn
      cases hfull : threads.client.waitingForResponse.full with
      | true => simp [hfull] at hturn
      | false =>
          rw [hfull, if_neg Bool.false_ne_true, Option.bind_eq_some_iff] at hturn
          obtain ⟨index, -, hslot⟩ := hturn
          obtain ⟨event, -, rfl⟩ := Option.map_eq_some_iff.mp hslot
          exact .inl (by simp only [system, hphase, hpoint])
  | send =>
      cases hphase : threads.phase <;> cases hpoint : threads.point <;>
        simp only [Threads.turn, hphase, hpoint, reduceCtorEq] at hturn
      obtain ⟨event, hslot, rfl⟩ := Option.map_eq_some_iff.mp hturn
      exact .inr ⟨.writable, simulates_sends hhand hready hpoint hslot⟩
  | pop =>
      cases hpoint : threads.point <;> simp only [Threads.turn, hpoint, reduceCtorEq] at hturn
      obtain ⟨queue, hpop, rfl⟩ := Option.map_eq_some_iff.mp hturn
      obtain ⟨hempty, rfl, hslot⟩ := hhand.referred _ _ (.inr hpoint)
      rw [TSCircularVector.pop, hempty, if_neg Bool.false_ne_true, Option.some.injEq] at hpop
      rw [← hpop]
      exact .inl (by simp only [system, hpoint, queue_eq hempty hslot, List.tail_cons])
  | act action =>
      simp only [Threads.turn] at hturn
      split at hturn
      · rename_i hallowed
        obtain ⟨after, hstep, rfl⟩ := Option.map_eq_some_iff.mp hturn
        have haction : (action.ofEnvironment || action.ofThread) = true := by
          cases henvironment : action.ofEnvironment <;> simp_all
        apply Or.inr
        apply Exists.intro action
        rw [hstep, Option.some.injEq]
        have hqueue := eventQueue_of_step haction hstep
        cases after with
        | mk client eventQueue phase =>
            rw [show eventQueue = threads.system.eventQueue from hqueue]
            rfl
      · simp at hturn

end Threads

end PdsBackup.Client
