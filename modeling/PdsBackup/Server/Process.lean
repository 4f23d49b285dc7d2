import PdsBackup.Common.CircularVector
import PdsBackup.Core.Monitor
import PdsBackup.Core.Regex
import PdsBackup.Core.Schedules

/-!
# The threads of the server

The main thread accepts connections and pushes them into a queue, from which the
threads of `single_server` take them.  A thread that meets an exception it cannot
recover from tells the main thread to stop and connects to the server itself, so
that the main thread comes out of `accept`; the main thread then tells the others
to stop, wakes them and joins them.

What a thread does with a connection is not looked into: at any time it may be done
with it, or fail.
-/

namespace PdsBackup.Server

/-- An address and a socket, which is null in a pair that was default-constructed or
moved from. -/
structure Peer where
  address : Text := []
  socket : Option Nat := none
  deriving DecidableEq

instance Peer.inhabited : Inhabited Peer := ⟨{}⟩

instance Peer.moveFrom : MoveFrom Peer where
  movedFrom _ := {}

inductive Thread (count : Nat) where
  | main
  | server (index : Fin count)
  deriving DecidableEq

namespace Thread

variable {count : Nat}

theorem main_ne (index : Fin count) : (main : Thread count) ≠ server index :=
  nofun

/-- The threads that wait to pop. -/
def pops : Thread count → Bool
  | main => false
  | server _ => true

/-- The thread that waits to push. -/
def pushes : Thread count → Bool
  | main => true
  | server _ => false

end Thread

/-- Where the main thread is; the destructor of `Thread_guard` stores the flag,
notifies and joins. -/
inductive MainPhase (κ : Type) where
  | checking
  | accepting
  | accepted (peer : κ)
  | pushing (peer : κ)
  | storing (status : Nat)
  | notifying (status : Nat)
  | joining (status joined : Nat)
  | returned (status : Nat)
  deriving DecidableEq

/-- Where a thread of `single_server` is. -/
inductive ServerPhase where
  | checking
  | taking
  | serving (number : Nat)
  | failed
  | connecting
  | returned
  deriving DecidableEq

structure Process (κ : Type) (count : Nat) where
  sockets : Monitor (Thread count) (TSCircularVector κ)
  main : MainPhase κ
  server : Fin count → ServerPhase
  mainStop : Bool
  serverThreadsStop : Bool
  /-- The connections that wait for `accept`. -/
  pending : Nat
  /-- An exception has left a thread. -/
  terminated : Bool
  /-- The connections that were to be served, in the order of `accept`. -/
  accepted : List κ
  /-- The connections that were taken to be served. -/
  handed : List κ

/-- What may happen: a client connects, `accept` returns or raises, a thread goes on
or falls asleep, a connection is over, a thread fails, a thread cannot connect, or a
thread wakes by itself. -/
inductive ProcessAction (κ : Type) (count : Nat) where
  | arrive
  | accept (peer : κ)
  | refuse
  | turn (thread : Thread count)
  | sleep (thread : Thread count)
  | close (index : Fin count)
  | fail (index : Fin count)
  | unreachable (index : Fin count)
  | wake (thread : Thread count)

/-- What does not depend on a client, on a system call that fails or on luck. -/
def ProcessAction.own {κ : Type} {count : Nat} : ProcessAction κ count → Bool
  | accept _ => true
  | turn _ => true
  | sleep _ => true
  | close _ => true
  | fail _ => true
  | _ => false

def ProcessAction.arrives {κ : Type} {count : Nat} : ProcessAction κ count → Bool
  | arrive => true
  | _ => false

def ProcessAction.wakes {κ : Type} {count : Nat} : ProcessAction κ count → Bool
  | wake _ => true
  | _ => false

namespace Process

variable {κ : Type} {count : Nat}

def start [Inhabited κ] (count size : Nat) : Process κ count where
  sockets := .idle (.ofSize size)
  main := .checking
  server _ := .checking
  mainStop := false
  serverThreadsStop := false
  pending := 0
  terminated := false
  accepted := []
  handed := []

def moved (index : Fin count) (phase : ServerPhase) (process : Process κ count) :
    Process κ count :=
  { process with server := Function.update process.server index phase }

section Turns

variable [MoveFrom κ]

def mainTurn (process : Process κ count) : Option (Process κ count) :=
  match process.main with
  | .checking =>
      if process.mainStop then some { process with main := .storing 1 }
      else some { process with main := .accepting }
  | .accepting => none
  | .accepted peer =>
      if process.mainStop then some { process with main := .storing 0 }
      else
        some { process with
          main := .pushing peer
          accepted := process.accepted ++ [peer]
          sockets := process.sockets.call .main }
  | .pushing peer =>
      match process.sockets.object.push peer false with
      | none => (process.sockets.wait .main).map fun sockets => { process with sockets }
      | some (_, ring) => (process.sockets.serve .main ring Thread.pops).map fun sockets =>
          { process with sockets, main := .checking }
  | .storing status => some { process with main := .notifying status, serverThreadsStop := true }
  | .notifying status =>
      some { process with
        main := .joining status 0
        sockets := process.sockets.notify fun _ => true }
  | .joining status joined =>
      if hjoined : joined < count then
        if process.server ⟨joined, hjoined⟩ = .returned then
          some { process with main := .joining status (joined + 1) }
        else none
      else some { process with main := .returned status }
  | .returned _ => none

def serverTurn (index : Fin count) (process : Process κ count) : Option (Process κ count) :=
  match process.server index with
  | .checking =>
      if process.serverThreadsStop then some (process.moved index .returned)
      else
        some { process.moved index .taking with
          sockets := process.sockets.call (.server index) }
  | .taking =>
      if process.serverThreadsStop then
        (process.sockets.serve (.server index) process.sockets.object fun _ => true).map
          fun sockets => { process.moved index .returned with sockets }
      else
        match process.sockets.object.pop with
        | none => (process.sockets.wait (.server index)).map fun sockets => { process with sockets }
        | some ring => (process.sockets.serve (.server index) ring Thread.pushes).map fun sockets =>
            { process.moved index (.serving process.handed.length) with
              sockets
              handed := process.handed ++ [CircularVector.front process.sockets.object] }
  | .serving _ => none
  | .failed => some { process.moved index .connecting with mainStop := true }
  | .connecting => some { process.moved index .returned with pending := process.pending + 1 }
  | .returned => none

/-- `none` where the action is not possible. -/
def step (action : ProcessAction κ count) (process : Process κ count) :
    Option (Process κ count) :=
  if process.terminated then none
  else
    match action with
    | .arrive => some { process with pending := process.pending + 1 }
    | .accept peer =>
        match process.main, process.pending with
        | .accepting, pending + 1 => some { process with main := .accepted peer, pending }
        | _, _ => none
    | .refuse =>
        match process.main with
        | .accepting => some { process with main := .storing 1 }
        | _ => none
    | .turn .main => process.mainTurn
    | .turn (.server index) => process.serverTurn index
    | .sleep thread => (process.sockets.sleep thread).map fun sockets => { process with sockets }
    | .close index =>
        match process.server index with
        | .serving _ => some (process.moved index .checking)
        | _ => none
    | .fail index =>
        match process.server index with
        | .serving _ => some (process.moved index .failed)
        | _ => none
    | .unreachable index =>
        match process.server index with
        | .connecting => some { process with terminated := true }
        | _ => none
    | .wake thread => (process.sockets.wake thread).map fun sockets => { process with sockets }

/-- The actions of a schedule, one after the other. -/
def steps (schedule : List (ProcessAction κ count)) (process : Process κ count) :
    Option (Process κ count) :=
  Schedule.runs step schedule process

/-- What an action makes of a process. -/
inductive Stepped (process : Process κ count) : ProcessAction κ count → Process κ count → Prop
  | arrived : Stepped process .arrive { process with pending := process.pending + 1 }
  | accepted {peer : κ} {pending : Nat} (hmain : process.main = .accepting)
      (hpending : process.pending = pending + 1) :
      Stepped process (.accept peer) { process with main := .accepted peer, pending }
  | refused (hmain : process.main = .accepting) :
      Stepped process .refuse { process with main := .storing 1 }
  | stopped (hmain : process.main = .checking) (hstop : process.mainStop = true) :
      Stepped process (.turn .main) { process with main := .storing 1 }
  | accepts (hmain : process.main = .checking) (hgo : process.mainStop = false) :
      Stepped process (.turn .main) { process with main := .accepting }
  | dropped {peer : κ} (hmain : process.main = .accepted peer) (hstop : process.mainStop = true) :
      Stepped process (.turn .main) { process with main := .storing 0 }
  | admitted {peer : κ} (hmain : process.main = .accepted peer) (hgo : process.mainStop = false) :
      Stepped process (.turn .main) { process with
        main := .pushing peer
        accepted := process.accepted ++ [peer]
        sockets := process.sockets.call .main }
  | waited {peer : κ} {sockets : Monitor (Thread count) (TSCircularVector κ)}
      (hmain : process.main = .pushing peer) (hfull : process.sockets.object.full = true)
      (hwait : process.sockets.wait .main = some sockets) :
      Stepped process (.turn .main) { process with sockets }
  | pushed {peer : κ} {sockets : Monitor (Thread count) (TSCircularVector κ)}
      (hmain : process.main = .pushing peer) (hfull : process.sockets.object.full = false)
      (hserve : process.sockets.serve .main (CircularVector.push peer process.sockets.object)
        Thread.pops = some sockets) :
      Stepped process (.turn .main) { process with sockets, main := .checking }
  | stored {status : Nat} (hmain : process.main = .storing status) :
      Stepped process (.turn .main)
        { process with main := .notifying status, serverThreadsStop := true }
  | notified {status : Nat} (hmain : process.main = .notifying status) :
      Stepped process (.turn .main) { process with
        main := .joining status 0
        sockets := process.sockets.notify fun _ => true }
  | joined {status joined : Nat} {hjoined : joined < count}
      (hmain : process.main = .joining status joined)
      (hserver : process.server ⟨joined, hjoined⟩ = .returned) :
      Stepped process (.turn .main) { process with main := .joining status (joined + 1) }
  | returned {status joined : Nat} (hmain : process.main = .joining status joined)
      (hjoined : count ≤ joined) :
      Stepped process (.turn .main) { process with main := .returned status }
  | quit {index : Fin count} (hserver : process.server index = .checking)
      (hstop : process.serverThreadsStop = true) :
      Stepped process (.turn (.server index)) (process.moved index .returned)
  | takes {index : Fin count} (hserver : process.server index = .checking)
      (hgo : process.serverThreadsStop = false) :
      Stepped process (.turn (.server index)) { process.moved index .taking with
        sockets := process.sockets.call (.server index) }
  | tookNothing {index : Fin count} {sockets : Monitor (Thread count) (TSCircularVector κ)}
      (hserver : process.server index = .taking) (hstop : process.serverThreadsStop = true)
      (hserve : process.sockets.serve (.server index) process.sockets.object (fun _ => true) =
        some sockets) :
      Stepped process (.turn (.server index)) { process.moved index .returned with sockets }
  | serverWaited {index : Fin count} {sockets : Monitor (Thread count) (TSCircularVector κ)}
      (hserver : process.server index = .taking) (hgo : process.serverThreadsStop = false)
      (hempty : process.sockets.object.empty = true)
      (hwait : process.sockets.wait (.server index) = some sockets) :
      Stepped process (.turn (.server index)) { process with sockets }
  | took {index : Fin count} {sockets : Monitor (Thread count) (TSCircularVector κ)}
      (hserver : process.server index = .taking) (hgo : process.serverThreadsStop = false)
      (hempty : process.sockets.object.empty = false)
      (hserve : process.sockets.serve (.server index) (CircularVector.pop process.sockets.object)
        Thread.pushes = some sockets) :
      Stepped process (.turn (.server index))
        { process.moved index (.serving process.handed.length) with
          sockets
          handed := process.handed ++ [CircularVector.front process.sockets.object] }
  | stopsMain {index : Fin count} (hserver : process.server index = .failed) :
      Stepped process (.turn (.server index))
        { process.moved index .connecting with mainStop := true }
  | connected {index : Fin count} (hserver : process.server index = .connecting) :
      Stepped process (.turn (.server index))
        { process.moved index .returned with pending := process.pending + 1 }
  | slept {thread : Thread count} {sockets : Monitor (Thread count) (TSCircularVector κ)}
      (hsleep : process.sockets.sleep thread = some sockets) :
      Stepped process (.sleep thread) { process with sockets }
  | closed {index : Fin count} {number : Nat} (hserver : process.server index = .serving number) :
      Stepped process (.close index) (process.moved index .checking)
  | failed {index : Fin count} {number : Nat} (hserver : process.server index = .serving number) :
      Stepped process (.fail index) (process.moved index .failed)
  | terminated {index : Fin count} (hserver : process.server index = .connecting) :
      Stepped process (.unreachable index) { process with terminated := true }
  | woke {thread : Thread count} {sockets : Monitor (Thread count) (TSCircularVector κ)}
      (hwake : process.sockets.wake thread = some sockets) :
      Stepped process (.wake thread) { process with sockets }

variable {process next : Process κ count}

theorem stepped_mainTurn (hturn : process.mainTurn = some next) :
    Stepped process (.turn .main) next := by
  cases process with
  | mk sockets main server mainStop stop pending terminated accepted handed =>
  cases main with
  | checking =>
      cases mainStop with
      | true => exact Option.some.inj hturn ▸ .stopped rfl rfl
      | false => exact Option.some.inj hturn ▸ .accepts rfl rfl
  | accepting => cases hturn
  | accepted peer =>
      cases mainStop with
      | true => exact Option.some.inj hturn ▸ .dropped rfl rfl
      | false => exact Option.some.inj hturn ▸ .admitted rfl rfl
  | pushing peer =>
      simp only [mainTurn] at hturn
      cases hfull : sockets.object.full with
      | true =>
          simp only [TSCircularVector.push, hfull, Bool.not_false, Bool.and_self, if_true] at hturn
          obtain ⟨next, hwait, rfl⟩ := Option.map_eq_some_iff.mp hturn
          exact .waited rfl hfull hwait
      | false =>
          simp only [TSCircularVector.push, hfull, Bool.false_and, Bool.false_eq_true, if_false]
            at hturn
          obtain ⟨next, hserve, rfl⟩ := Option.map_eq_some_iff.mp hturn
          exact .pushed rfl hfull hserve
  | storing status => exact Option.some.inj hturn ▸ .stored rfl
  | notifying status => exact Option.some.inj hturn ▸ .notified rfl
  | joining status joined =>
      simp only [mainTurn] at hturn
      split at hturn
      · split at hturn
        · rename_i hserver
          exact Option.some.inj hturn ▸ .joined rfl hserver
        · cases hturn
      · rename_i hjoined
        exact Option.some.inj hturn ▸ .returned rfl (Nat.le_of_not_lt hjoined)
  | returned status => cases hturn

theorem stepped_serverTurn {index : Fin count} (hturn : process.serverTurn index = some next) :
    Stepped process (.turn (.server index)) next := by
  cases hserver : process.server index with
  | checking =>
      simp only [serverTurn, hserver] at hturn
      split at hturn
      · rename_i hstop
        exact Option.some.inj hturn ▸ .quit hserver hstop
      · rename_i hgo
        exact Option.some.inj hturn ▸ .takes hserver (Bool.not_eq_true _ ▸ hgo)
  | taking =>
      simp only [serverTurn, hserver] at hturn
      split at hturn
      · rename_i hstop
        obtain ⟨sockets, hserve, rfl⟩ := Option.map_eq_some_iff.mp hturn
        exact .tookNothing hserver hstop hserve
      · rename_i hgo
        rw [Bool.not_eq_true] at hgo
        cases hempty : process.sockets.object.empty with
        | true =>
            simp only [TSCircularVector.pop, hempty, if_true] at hturn
            obtain ⟨sockets, hwait, rfl⟩ := Option.map_eq_some_iff.mp hturn
            exact .serverWaited hserver hgo hempty hwait
        | false =>
            simp only [TSCircularVector.pop, hempty, Bool.false_eq_true, if_false] at hturn
            obtain ⟨sockets, hserve, rfl⟩ := Option.map_eq_some_iff.mp hturn
            exact .took hserver hgo hempty hserve
  | serving number => simp [serverTurn, hserver] at hturn
  | failed =>
      simp only [serverTurn, hserver, Option.some.injEq] at hturn
      exact hturn ▸ .stopsMain hserver
  | connecting =>
      simp only [serverTurn, hserver, Option.some.injEq] at hturn
      exact hturn ▸ .connected hserver
  | returned => simp [serverTurn, hserver] at hturn

theorem step_eq_some {action : ProcessAction κ count} (hstep : process.step action = some next) :
    process.terminated = false ∧ Stepped process action next := by
  simp only [step] at hstep
  split at hstep
  · cases hstep
  rename_i hterminated
  rw [Bool.not_eq_true] at hterminated
  refine ⟨hterminated, ?_⟩
  cases action with
  | arrive => exact Option.some.inj hstep ▸ .arrived
  | accept peer =>
      simp only at hstep
      split at hstep
      · rename_i hmain hpending
        exact Option.some.inj hstep ▸ .accepted hmain hpending
      · cases hstep
  | refuse =>
      simp only at hstep
      split at hstep
      · rename_i hmain
        exact Option.some.inj hstep ▸ .refused hmain
      · cases hstep
  | turn thread =>
      cases thread with
      | main => exact stepped_mainTurn hstep
      | server index => exact stepped_serverTurn hstep
  | sleep thread =>
      obtain ⟨sockets, hsleep, rfl⟩ := Option.map_eq_some_iff.mp hstep
      exact .slept hsleep
  | close index =>
      simp only at hstep
      split at hstep
      · rename_i hserver
        exact Option.some.inj hstep ▸ .closed hserver
      · cases hstep
  | fail index =>
      simp only at hstep
      split at hstep
      · rename_i hserver
        exact Option.some.inj hstep ▸ .failed hserver
      · cases hstep
  | unreachable index =>
      simp only at hstep
      split at hstep
      · rename_i hserver
        exact Option.some.inj hstep ▸ .terminated hserver
      · cases hstep
  | wake thread =>
      obtain ⟨sockets, hwake, rfl⟩ := Option.map_eq_some_iff.mp hstep
      exact .woke hwake

end Turns

end Process

end PdsBackup.Server
