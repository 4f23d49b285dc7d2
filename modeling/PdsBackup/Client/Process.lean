import PdsBackup.Common.CircularVector
import PdsBackup.Core.Monitor
import PdsBackup.Core.Schedules

/-!
# The threads of the client

The main thread recovers the watcher from the database, which pushes an event for each
entry, and then watches the folder; the thread of `communicate` connects while there
is something to do.  Either may have to stop the other: the communication thread sets
a flag and notifies the queue, the destructor of `Thread_guard` sets a flag and joins.

What a connection is used for is not looked into: at any time messages may be
exchanged, the connection may break, or the thread may fail.
-/

namespace PdsBackup.Client

inductive ProcessThread where
  | main
  | communication
  deriving DecidableEq

namespace ProcessThread

/-- The thread that waits to pop. -/
def pops : ProcessThread → Bool
  | main => false
  | communication => true

/-- The thread that waits to push. -/
def pushes : ProcessThread → Bool
  | main => true
  | communication => false

end ProcessThread

/-- Where the main thread is: in `recoverFromDB` with the events that are left, in the
loop of `start`, or in the destructor of `Thread_guard`. -/
inductive MainPhase (κ : Type) where
  | recovering (others : List κ)
  | pushing (event : κ) (others : List κ)
  | watching
  | scanning
  | leaving
  | joining
  | returned
  deriving DecidableEq

/-- Where the communication thread is.  After an error of `select` it does not notify
the queue. -/
inductive CommunicatePhase where
  | checking
  | awaiting
  | connecting
  | connected
  | lost (established : Bool)
  | failing (notifies : Bool)
  | notifying
  | returned
  deriving DecidableEq

/-- What came of an attempt to connect, and of a connection that was lost: whether
there was work left. -/
inductive Attempt where
  | connected
  | refused (pending : Bool)
  | broke (pending : Bool)
  deriving DecidableEq

def Attempt.ofLoss (established pending : Bool) : Attempt :=
  if established then broke pending else refused pending

structure RetryPolicy where
  persist : Bool
  maxConnectionRetries : Nat

structure Process (κ : Type) where
  eventQueue : Monitor ProcessThread (TSCircularVector κ)
  main : MainPhase κ
  communicate : CommunicatePhase
  /-- The length of the queue of messages that wait for a response. -/
  waiting : Nat
  fileWatcherStop : Bool
  communicateStop : Bool
  tries : Nat
  attempts : List Attempt
  gaveUp : Bool

/-- What may happen: a thread goes on, falls asleep or wakes by itself; the watcher
detects an event or raises; a connection is made or refused, used, given up, lost; the
communication thread fails. -/
inductive ProcessAction (κ : Type) where
  | main
  | detect (event : κ)
  | raise
  | communicate
  | connect
  | refuse
  | exchange (sends : Bool) (waiting : Nat)
  | disconnect
  | lose
  | fail (notifies : Bool)
  | sleep (thread : ProcessThread)
  | wake (thread : ProcessThread)

namespace ProcessAction

variable {κ : Type}

/-- What a thread does without an event, a message or a failure. -/
def own : ProcessAction κ → Bool
  | main => true
  | communicate => true
  | connect => true
  | sleep _ => true
  | _ => false

def wakes : ProcessAction κ → Bool
  | wake _ => true
  | _ => false

/-- What may happen any number of times in one round of a loop. -/
def repeats : ProcessAction κ → Bool
  | detect _ => true
  | exchange _ _ => true
  | _ => false

theorem own_counts (action : ProcessAction κ) (hown : action.own = true) :
    action.wakes = false ∧ (!action.repeats) = true := by
  cases action <;> simp_all [own, wakes, repeats]

theorem counted_repeats (action : ProcessAction κ) :
    (if (!action.repeats) = true then 1 else 0) = if action.repeats = true then 0 else 1 := by
  cases action.repeats <;> rfl

end ProcessAction

namespace Process

variable {κ : Type}

def start [Inhabited κ] (known : List κ) (size : Nat) : Process κ where
  eventQueue := .idle (.ofSize size)
  main := .recovering known
  communicate := .checking
  waiting := 0
  fileWatcherStop := false
  communicateStop := false
  tries := 0
  attempts := []
  gaveUp := false

/-- Something is left to be sent or answered. -/
def pending (process : Process κ) : Bool :=
  process.waiting ≠ 0 || !process.eventQueue.object.empty

section Turns

variable (policy : RetryPolicy)

def mainTurn (process : Process κ) : Option (Process κ) :=
  match process.main with
  | .recovering [] => some { process with main := .watching }
  | .recovering (event :: others) =>
      some { process with
        main := .pushing event others
        eventQueue := process.eventQueue.call .main }
  | .pushing event others =>
      match process.eventQueue.object.push event process.fileWatcherStop with
      | none => (process.eventQueue.wait .main).map fun eventQueue => { process with eventQueue }
      | some (true, ring) => (process.eventQueue.serve .main ring ProcessThread.pops).map
          fun eventQueue => { process with eventQueue, main := .recovering others }
      | some (false, ring) => (process.eventQueue.serve .main ring fun _ => false).map
          fun eventQueue => { process with eventQueue, main := .watching }
  | .watching =>
      if process.fileWatcherStop then some { process with main := .leaving }
      else some { process with main := .scanning }
  | .scanning => some { process with main := .watching }
  | .leaving => some { process with main := .joining, communicateStop := true }
  | .joining =>
      if process.communicate = .returned then some { process with main := .returned } else none
  | .returned => none

/-- The handler of the four socket exceptions. -/
def afterLoss (established : Bool) (process : Process κ) : Process κ :=
  let attempts := process.attempts ++ [.ofLoss established process.pending]
  if !process.pending then { process with communicate := .checking, attempts }
  else if policy.persist || process.tries < policy.maxConnectionRetries then
    { process with communicate := .checking, attempts, tries := process.tries + 1 }
  else { process with communicate := .failing true, attempts, gaveUp := true }

def communicateTurn (process : Process κ) : Option (Process κ) :=
  match process.communicate with
  | .checking =>
      if process.communicateStop then some { process with communicate := .returned }
      else if process.waiting = 0 then
        some { process with
          communicate := .awaiting
          eventQueue := process.eventQueue.call .communication }
      else some { process with communicate := .connecting }
  | .awaiting =>
      if process.communicateStop then
        (process.eventQueue.serve .communication process.eventQueue.object fun _ => false).map
          fun eventQueue => { process with eventQueue, communicate := .returned }
      else if process.eventQueue.object.empty then
        (process.eventQueue.wait .communication).map fun eventQueue => { process with eventQueue }
      else
        (process.eventQueue.serve .communication process.eventQueue.object fun _ => false).map
          fun eventQueue => { process with eventQueue, communicate := .connecting }
  | .connecting => none
  | .connected =>
      if process.communicateStop then some { process with communicate := .checking }
      else some process
  | .lost established =>
      if process.waiting = 0 && process.eventQueue.holder.isSome then none
      else some (process.afterLoss policy established)
  | .failing notifies =>
      some { process with
        fileWatcherStop := true
        communicate := if notifies then .notifying else .returned }
  | .notifying =>
      some { process with
        communicate := .returned
        eventQueue := process.eventQueue.notify fun _ => true }
  | .returned => none

variable [MoveFrom κ]

/-- `none` where the action is not possible. -/
def step (action : ProcessAction κ) (process : Process κ) : Option (Process κ) :=
  match action, process.main, process.communicate with
  | .main, _, _ => process.mainTurn
  | .detect event, .scanning, _ =>
      (process.eventQueue.change (process.eventQueue.object.tryPush event).2 fun thread =>
        (process.eventQueue.object.tryPush event).1 && thread.pops).map
          fun eventQueue => { process with eventQueue }
  | .raise, .recovering _, _ => some { process with main := .leaving }
  | .raise, .scanning, _ => some { process with main := .leaving }
  | .communicate, _, _ => process.communicateTurn policy
  | .connect, _, .connecting =>
      some { process with
        communicate := .connected
        tries := 0
        attempts := process.attempts ++ [.connected] }
  | .refuse, _, .connecting => some { process with communicate := .lost false }
  | .exchange false waiting, _, .connected => some { process with waiting }
  | .exchange true waiting, _, .connected =>
      if process.eventQueue.object.empty then none
      else
        (process.eventQueue.change (CircularVector.pop process.eventQueue.object)
          ProcessThread.pushes).map fun eventQueue => { process with eventQueue, waiting }
  | .disconnect, _, .connected =>
      if process.waiting = 0 then some { process with communicate := .checking } else none
  | .lose, _, .connected => some { process with communicate := .lost true }
  | .fail true, _, .checking => some { process with communicate := .failing true }
  | .fail true, _, .connecting => some { process with communicate := .failing true }
  | .fail notifies, _, .connected => some { process with communicate := .failing notifies }
  | .sleep thread, _, _ =>
      (process.eventQueue.sleep thread).map fun eventQueue => { process with eventQueue }
  | .wake thread, _, _ =>
      (process.eventQueue.wake thread).map fun eventQueue => { process with eventQueue }
  | _, _, _ => none

/-- The actions of a schedule, one after the other. -/
def steps (schedule : List (ProcessAction κ)) (process : Process κ) : Option (Process κ) :=
  Schedule.runs (step policy) schedule process

end Turns

abbrev Queue (κ : Type) := Monitor ProcessThread (TSCircularVector κ)

/-- What an action makes of a process. -/
inductive Stepped [MoveFrom κ] (policy : RetryPolicy) (process : Process κ) :
    ProcessAction κ → Process κ → Prop
  | recovered (hmain : process.main = .recovering []) :
      Stepped policy process .main { process with main := .watching }
  | pushes {event : κ} {others : List κ} (hmain : process.main = .recovering (event :: others)) :
      Stepped policy process .main
        { process with
          main := .pushing event others
          eventQueue := process.eventQueue.call .main }
  | waited {event : κ} {others : List κ} {eventQueue : Queue κ}
      (hmain : process.main = .pushing event others)
      (hfull : process.eventQueue.object.full = true) (hgo : process.fileWatcherStop = false)
      (hwait : process.eventQueue.wait .main = some eventQueue) :
      Stepped policy process .main { process with eventQueue }
  | pushed {event : κ} {others : List κ} {eventQueue : Queue κ}
      (hmain : process.main = .pushing event others)
      (hfull : process.eventQueue.object.full = false) (hgo : process.fileWatcherStop = false)
      (hserve : process.eventQueue.serve .main
        (CircularVector.push event process.eventQueue.object) ProcessThread.pops = some eventQueue) :
      Stepped policy process .main { process with eventQueue, main := .recovering others }
  | stopped {event : κ} {others : List κ} {eventQueue : Queue κ}
      (hmain : process.main = .pushing event others) (hstop : process.fileWatcherStop = true)
      (hserve : process.eventQueue.serve .main process.eventQueue.object (fun _ => false) =
        some eventQueue) :
      Stepped policy process .main { process with eventQueue, main := .watching }
  | leaves (hmain : process.main = .watching) (hstop : process.fileWatcherStop = true) :
      Stepped policy process .main { process with main := .leaving }
  | scans (hmain : process.main = .watching) (hgo : process.fileWatcherStop = false) :
      Stepped policy process .main { process with main := .scanning }
  | scanned (hmain : process.main = .scanning) :
      Stepped policy process .main { process with main := .watching }
  | told (hmain : process.main = .leaving) :
      Stepped policy process .main { process with main := .joining, communicateStop := true }
  | joined (hmain : process.main = .joining) (hreturned : process.communicate = .returned) :
      Stepped policy process .main { process with main := .returned }
  | detected {event : κ} {eventQueue : Queue κ} (hmain : process.main = .scanning)
      (hchange : process.eventQueue.change (process.eventQueue.object.tryPush event).2
        (fun thread => (process.eventQueue.object.tryPush event).1 && thread.pops) =
          some eventQueue) :
      Stepped policy process (.detect event) { process with eventQueue }
  | raised (hmain : process.main = .scanning ∨ ∃ others, process.main = .recovering others) :
      Stepped policy process .raise { process with main := .leaving }
  | ended (hphase : process.communicate = .checking) (hstop : process.communicateStop = true) :
      Stepped policy process .communicate { process with communicate := .returned }
  | awaits (hphase : process.communicate = .checking) (hgo : process.communicateStop = false)
      (hwaiting : process.waiting = 0) :
      Stepped policy process .communicate
        { process with
          communicate := .awaiting
          eventQueue := process.eventQueue.call .communication }
  | resumes (hphase : process.communicate = .checking) (hgo : process.communicateStop = false)
      (hwaiting : process.waiting ≠ 0) :
      Stepped policy process .communicate { process with communicate := .connecting }
  | awaitedStop {eventQueue : Queue κ} (hphase : process.communicate = .awaiting)
      (hstop : process.communicateStop = true)
      (hserve : process.eventQueue.serve .communication process.eventQueue.object
        (fun _ => false) = some eventQueue) :
      Stepped policy process .communicate
        { process with eventQueue, communicate := .returned }
  | awaitsMore {eventQueue : Queue κ} (hphase : process.communicate = .awaiting)
      (hgo : process.communicateStop = false)
      (hempty : process.eventQueue.object.empty = true)
      (hwait : process.eventQueue.wait .communication = some eventQueue) :
      Stepped policy process .communicate { process with eventQueue }
  | awaited {eventQueue : Queue κ} (hphase : process.communicate = .awaiting)
      (hgo : process.communicateStop = false)
      (hempty : process.eventQueue.object.empty = false)
      (hserve : process.eventQueue.serve .communication process.eventQueue.object
        (fun _ => false) = some eventQueue) :
      Stepped policy process .communicate
        { process with eventQueue, communicate := .connecting }
  | closed (hphase : process.communicate = .connected)
      (hstop : process.communicateStop = true) :
      Stepped policy process .communicate { process with communicate := .checking }
  | idled (hphase : process.communicate = .connected)
      (hgo : process.communicateStop = false) : Stepped policy process .communicate process
  | settled {established : Bool} (hphase : process.communicate = .lost established)
      (hpending : process.pending = false) :
      Stepped policy process .communicate
        { process with
          communicate := .checking
          attempts := process.attempts ++ [.ofLoss established false] }
  | retries {established : Bool} (hphase : process.communicate = .lost established)
      (hpending : process.pending = true)
      (hretry : policy.persist = true ∨ process.tries < policy.maxConnectionRetries) :
      Stepped policy process .communicate
        { process with
          communicate := .checking
          attempts := process.attempts ++ [.ofLoss established true]
          tries := process.tries + 1 }
  | givesUp {established : Bool} (hphase : process.communicate = .lost established)
      (hpending : process.pending = true) (hpersist : policy.persist = false)
      (htries : policy.maxConnectionRetries ≤ process.tries) :
      Stepped policy process .communicate
        { process with
          communicate := .failing true
          attempts := process.attempts ++ [.ofLoss established true]
          gaveUp := true }
  | stops {notifies : Bool} (hphase : process.communicate = .failing notifies) :
      Stepped policy process .communicate
        { process with
          fileWatcherStop := true
          communicate := if notifies then .notifying else .returned }
  | notified (hphase : process.communicate = .notifying) :
      Stepped policy process .communicate
        { process with
          communicate := .returned
          eventQueue := process.eventQueue.notify fun _ => true }
  | connected (hphase : process.communicate = .connecting) :
      Stepped policy process .connect
        { process with
          communicate := .connected
          tries := 0
          attempts := process.attempts ++ [.connected] }
  | refused (hphase : process.communicate = .connecting) :
      Stepped policy process .refuse { process with communicate := .lost false }
  | received {waiting : Nat} (hphase : process.communicate = .connected) :
      Stepped policy process (.exchange false waiting) { process with waiting }
  | sent {waiting : Nat} {eventQueue : Queue κ} (hphase : process.communicate = .connected)
      (hempty : process.eventQueue.object.empty = false)
      (hchange : process.eventQueue.change (CircularVector.pop process.eventQueue.object)
        ProcessThread.pushes = some eventQueue) :
      Stepped policy process (.exchange true waiting) { process with eventQueue, waiting }
  | disconnected (hphase : process.communicate = .connected) (hwaiting : process.waiting = 0) :
      Stepped policy process .disconnect { process with communicate := .checking }
  | broke (hphase : process.communicate = .connected) :
      Stepped policy process .lose { process with communicate := .lost true }
  | failed {notifies : Bool}
      (hphase : process.communicate = .connected ∨
        notifies = true ∧ (process.communicate = .checking ∨ process.communicate = .connecting)) :
      Stepped policy process (.fail notifies)
        { process with communicate := .failing notifies }
  | slept {thread : ProcessThread} {eventQueue : Queue κ}
      (hsleep : process.eventQueue.sleep thread = some eventQueue) :
      Stepped policy process (.sleep thread) { process with eventQueue }
  | woke {thread : ProcessThread} {eventQueue : Queue κ}
      (hwake : process.eventQueue.wake thread = some eventQueue) :
      Stepped policy process (.wake thread) { process with eventQueue }

section Steps

variable [MoveFrom κ] {policy : RetryPolicy} {process next : Process κ}

theorem stepped_mainTurn (hturn : process.mainTurn = some next) :
    Stepped policy process .main next := by
  cases process with
  | mk eventQueue main communicate waiting fileWatcherStop communicateStop tries attempts gaveUp =>
  cases main with
  | recovering events =>
      cases events with
      | nil => exact Option.some.inj hturn ▸ .recovered rfl
      | cons event others => exact Option.some.inj hturn ▸ .pushes rfl
  | pushing event others =>
      simp only [mainTurn] at hturn
      cases fileWatcherStop with
      | true =>
          simp only [TSCircularVector.push, Bool.not_true, Bool.and_false, Bool.false_eq_true,
            if_false, if_true] at hturn
          obtain ⟨next, hserve, rfl⟩ := Option.map_eq_some_iff.mp hturn
          exact .stopped rfl rfl hserve
      | false =>
          cases hfull : eventQueue.object.full with
          | true =>
              simp only [TSCircularVector.push, hfull, Bool.not_false, Bool.and_self, if_true]
                at hturn
              obtain ⟨next, hwait, rfl⟩ := Option.map_eq_some_iff.mp hturn
              exact .waited rfl hfull rfl hwait
          | false =>
              simp only [TSCircularVector.push, hfull, Bool.false_and, Bool.false_eq_true,
                if_false] at hturn
              obtain ⟨next, hserve, rfl⟩ := Option.map_eq_some_iff.mp hturn
              exact .pushed rfl hfull rfl hserve
  | watching =>
      cases fileWatcherStop with
      | true => exact Option.some.inj hturn ▸ .leaves rfl rfl
      | false => exact Option.some.inj hturn ▸ .scans rfl rfl
  | scanning => exact Option.some.inj hturn ▸ .scanned rfl
  | leaving => exact Option.some.inj hturn ▸ .told rfl
  | joining =>
      simp only [mainTurn] at hturn
      split at hturn
      · rename_i hreturned
        exact Option.some.inj hturn ▸ .joined rfl hreturned
      · cases hturn
  | returned => cases hturn

theorem stepped_afterLoss {established : Bool} (hphase : process.communicate = .lost established) :
    Stepped policy process .communicate (process.afterLoss policy established) := by
  rw [afterLoss]
  cases hpending : process.pending with
  | false => exact .settled hphase hpending
  | true =>
      rw [Bool.not_true, if_neg Bool.false_ne_true]
      split
      · rename_i hretry
        rw [Bool.or_eq_true, decide_eq_true_eq] at hretry
        exact .retries hphase hpending hretry
      · rename_i hretry
        rw [Bool.or_eq_true, decide_eq_true_eq, not_or, Bool.not_eq_true, Nat.not_lt] at hretry
        exact .givesUp hphase hpending hretry.1 hretry.2

theorem stepped_communicateTurn (hturn : process.communicateTurn policy = some next) :
    Stepped policy process .communicate next := by
  cases hphase : process.communicate with
  | checking =>
      simp only [communicateTurn, hphase] at hturn
      split at hturn
      · rename_i hstop
        exact Option.some.inj hturn ▸ .ended hphase hstop
      · rename_i hgo
        rw [Bool.not_eq_true] at hgo
        split at hturn
        · rename_i hwaiting
          exact Option.some.inj hturn ▸ .awaits hphase hgo hwaiting
        · rename_i hwaiting
          exact Option.some.inj hturn ▸ .resumes hphase hgo hwaiting
  | awaiting =>
      simp only [communicateTurn, hphase] at hturn
      split at hturn
      · rename_i hstop
        obtain ⟨eventQueue, hserve, rfl⟩ := Option.map_eq_some_iff.mp hturn
        exact .awaitedStop hphase hstop hserve
      · rename_i hgo
        rw [Bool.not_eq_true] at hgo
        split at hturn
        · rename_i hempty
          obtain ⟨eventQueue, hwait, rfl⟩ := Option.map_eq_some_iff.mp hturn
          rw [← hphase]
          exact .awaitsMore hphase hgo hempty hwait
        · rename_i hempty
          rw [Bool.not_eq_true] at hempty
          obtain ⟨eventQueue, hserve, rfl⟩ := Option.map_eq_some_iff.mp hturn
          exact .awaited hphase hgo hempty hserve
  | connecting => simp [communicateTurn, hphase] at hturn
  | connected =>
      simp only [communicateTurn, hphase] at hturn
      split at hturn
      · rename_i hstop
        exact Option.some.inj hturn ▸ .closed hphase hstop
      · rename_i hgo
        exact Option.some.inj hturn ▸ .idled hphase (Bool.not_eq_true _ ▸ hgo)
  | lost established =>
      simp only [communicateTurn, hphase] at hturn
      split at hturn
      · cases hturn
      · exact Option.some.inj hturn ▸ stepped_afterLoss hphase
  | failing notifies =>
      simp only [communicateTurn, hphase, Option.some.injEq] at hturn
      exact hturn ▸ .stops hphase
  | notifying =>
      simp only [communicateTurn, hphase, Option.some.injEq] at hturn
      exact hturn ▸ .notified hphase
  | returned => simp [communicateTurn, hphase] at hturn

theorem step_eq_some {action : ProcessAction κ} (hstep : process.step policy action = some next) :
    Stepped policy process action next := by
  unfold step at hstep
  split at hstep
  case h_1 => exact stepped_mainTurn hstep
  case h_2 =>
      rename_i hmain
      obtain ⟨eventQueue, hchange, rfl⟩ := Option.map_eq_some_iff.mp hstep
      exact .detected hmain hchange
  case h_3 =>
      rename_i others hmain
      exact Option.some.inj hstep ▸ .raised (.inr ⟨others, hmain⟩)
  case h_4 =>
      rename_i hmain
      exact Option.some.inj hstep ▸ .raised (.inl hmain)
  case h_5 => exact stepped_communicateTurn hstep
  case h_6 hphase => exact Option.some.inj hstep ▸ .connected hphase
  case h_7 hphase => exact Option.some.inj hstep ▸ .refused hphase
  case h_8 hphase => exact Option.some.inj hstep ▸ .received hphase
  case h_9 hphase =>
      split at hstep
      · cases hstep
      · rename_i hempty
        obtain ⟨eventQueue, hchange, rfl⟩ := Option.map_eq_some_iff.mp hstep
        exact .sent hphase (Bool.not_eq_true _ ▸ hempty) hchange
  case h_10 hphase =>
      split at hstep
      · rename_i hwaiting
        exact Option.some.inj hstep ▸ .disconnected hphase hwaiting
      · cases hstep
  case h_11 hphase => exact Option.some.inj hstep ▸ .broke hphase
  case h_12 hphase => exact Option.some.inj hstep ▸ .failed (.inr ⟨rfl, .inl hphase⟩)
  case h_13 hphase => exact Option.some.inj hstep ▸ .failed (.inr ⟨rfl, .inr hphase⟩)
  case h_14 hphase => exact Option.some.inj hstep ▸ .failed (.inl hphase)
  case h_15 =>
      obtain ⟨eventQueue, hsleep, rfl⟩ := Option.map_eq_some_iff.mp hstep
      exact .slept hsleep
  case h_16 =>
      obtain ⟨eventQueue, hwake, rfl⟩ := Option.map_eq_some_iff.mp hstep
      exact .woke hwake
  case h_17 => cases hstep

end Steps

end Process

end PdsBackup.Client
