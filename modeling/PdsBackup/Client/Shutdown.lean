import PdsBackup.Client.Process

/-!
# How the client stops

Where both threads of the client can be at rest, and which stop is answered.  A thread
that has to stop the other one finds it at work, or waiting at the queue: then the
destructor of `Thread_guard` does not wake it, and the notification of the
communication thread comes too early for a main thread that does not sleep yet.
-/

namespace PdsBackup.Client

namespace MainPhase

variable {κ : Type}

def isPushing : MainPhase κ → Bool
  | pushing _ _ => true
  | _ => false

/-- The communication thread has been told to stop. -/
def hasTold : MainPhase κ → Bool
  | joining => true
  | returned => true
  | _ => false

end MainPhase

namespace Process

variable {κ : Type} {size : Nat}

/-- What a thread waits for, the flags apart. -/
def ready : ProcessThread → TSCircularVector κ → Prop
  | .main, ring => ring.full = false
  | .communication, ring => ring.empty = false

/-- The monitor knows where the threads are, and no thread waits that need not. -/
structure Watched (size : Nat) (eventQueue : Queue κ) (main : MainPhase κ)
    (communicate : CommunicatePhase) : Prop where
  main_calls : eventQueue.Calls .main ↔ main.isPushing = true
  communication_calls : eventQueue.Calls .communication ↔ communicate = .awaiting
  blocked : eventQueue.Blocked ready
  capacity : eventQueue.object.capacity = size + 1

/-- What the flags say. -/
structure Flagged (main : MainPhase κ) (communicate : CommunicatePhase)
    (fileWatcherStop communicateStop : Bool) : Prop where
  told : communicateStop = main.hasTold
  stops : fileWatcherStop = true → communicate = .notifying ∨ communicate = .returned
  notifies : communicate = .notifying → fileWatcherStop = true
  ended : communicate = .returned → fileWatcherStop = true ∨ communicateStop = true
  joined : main = .returned → communicate = .returned

section Flagged

variable {main : MainPhase κ} {communicate : CommunicatePhase}
variable {fileWatcherStop communicateStop : Bool}

theorem Flagged.turned {turned : MainPhase κ}
    (hflagged : Flagged main communicate fileWatcherStop communicateStop)
    (htold : main.hasTold = false) (hturned : turned.hasTold = false) :
    Flagged turned communicate fileWatcherStop communicateStop where
  told := by rw [hflagged.told, htold, hturned]
  stops := hflagged.stops
  notifies := hflagged.notifies
  ended := hflagged.ended
  joined hreturned := by
    rw [hreturned] at hturned
    cases hturned

/-- The communication thread moves while nobody has been told to stop by it. -/
theorem Flagged.moved {moved : CommunicatePhase}
    (hflagged : Flagged main communicate fileWatcherStop communicateStop)
    (hbefore : communicate ≠ .notifying ∧ communicate ≠ .returned)
    (hafter : moved ≠ .notifying ∧ moved ≠ .returned) :
    Flagged main moved fileWatcherStop communicateStop where
  told := hflagged.told
  stops hstop := absurd (hflagged.stops hstop) (by simp [hbefore])
  notifies hnotifying := absurd hnotifying hafter.1
  ended hreturned := absurd hreturned hafter.2
  joined hreturned := absurd (hflagged.joined hreturned) hbefore.2

/-- The communication thread has been told to stop. -/
theorem Flagged.returns (hflagged : Flagged main communicate fileWatcherStop true) :
    Flagged main .returned fileWatcherStop true where
  told := hflagged.told
  stops _ := .inr rfl
  notifies := nofun
  ended _ := .inr rfl
  joined _ := rfl

theorem Flagged.fails {notifies : Bool}
    (hflagged : Flagged main (.failing notifies) fileWatcherStop communicateStop) :
    Flagged main (if notifies then .notifying else .returned) true communicateStop where
  told := hflagged.told
  stops _ := by cases notifies <;> simp
  notifies _ := rfl
  ended _ := .inl rfl
  joined hreturned := by cases hflagged.joined hreturned

end Flagged

section Watched

variable {eventQueue next : Queue κ} {main : MainPhase κ} {communicate : CommunicatePhase}
variable {thread : ProcessThread} {ring : TSCircularVector κ} {woken : ProcessThread → Bool}

theorem Watched.turned {turned : MainPhase κ} (hwatched : Watched size eventQueue main communicate)
    (hpushing : main.isPushing = turned.isPushing) :
    Watched size eventQueue turned communicate :=
  ⟨hpushing ▸ hwatched.main_calls, hwatched.communication_calls, hwatched.blocked,
    hwatched.capacity⟩

theorem Watched.moved {moved : CommunicatePhase}
    (hwatched : Watched size eventQueue main communicate) (hbefore : communicate ≠ .awaiting)
    (hafter : moved ≠ .awaiting) : Watched size eventQueue main moved where
  main_calls := hwatched.main_calls
  communication_calls := by
    rw [hwatched.communication_calls]
    simp [hbefore, hafter]
  blocked := hwatched.blocked
  capacity := hwatched.capacity

theorem Watched.pushes (hwatched : Watched size eventQueue main communicate) (event : κ)
    (others : List κ) :
    Watched size (eventQueue.call .main) (.pushing event others) communicate where
  main_calls := by simp [Monitor.calls_call_iff, MainPhase.isPushing]
  communication_calls := by
    rw [Monitor.calls_call_iff, hwatched.communication_calls]
    simp
  blocked := hwatched.blocked.call
  capacity := hwatched.capacity

theorem Watched.awaits (hwatched : Watched size eventQueue main communicate) :
    Watched size (eventQueue.call .communication) main .awaiting where
  main_calls := by
    rw [Monitor.calls_call_iff, hwatched.main_calls]
    simp
  communication_calls := by simp [Monitor.calls_call_iff]
  blocked := hwatched.blocked.call
  capacity := hwatched.capacity

theorem Watched.wait (hwatched : Watched size eventQueue main communicate)
    (hwait : eventQueue.wait thread = some next)
    (hunready : ¬ ready thread eventQueue.object) : Watched size next main communicate where
  main_calls := (Monitor.calls_wait_iff hwait).trans hwatched.main_calls
  communication_calls := (Monitor.calls_wait_iff hwait).trans hwatched.communication_calls
  blocked := hwatched.blocked.wait hwait hunready
  capacity := (Monitor.wait_eq_some hwait).2.2.1 ▸ hwatched.capacity

theorem Watched.sleep (hwatched : Watched size eventQueue main communicate)
    (hsleep : eventQueue.sleep thread = some next) : Watched size next main communicate where
  main_calls := (Monitor.calls_sleep_iff hsleep).trans hwatched.main_calls
  communication_calls := (Monitor.calls_sleep_iff hsleep).trans hwatched.communication_calls
  blocked := hwatched.blocked.sleep hsleep
  capacity := (Monitor.sleep_eq_some hsleep).2.1 ▸ hwatched.capacity

theorem Watched.wake (hwatched : Watched size eventQueue main communicate)
    (hwake : eventQueue.wake thread = some next) : Watched size next main communicate where
  main_calls := (Monitor.calls_wake_iff hwake).trans hwatched.main_calls
  communication_calls := (Monitor.calls_wake_iff hwake).trans hwatched.communication_calls
  blocked := hwatched.blocked.wake hwake
  capacity := by
    rw [(Monitor.wake_eq_some hwake).2]
    exact hwatched.capacity

theorem Watched.change (hwatched : Watched size eventQueue main communicate)
    (hchange : eventQueue.change ring woken = some next)
    (hwoken : ∀ thread, ready thread ring →
      ready thread eventQueue.object ∨ woken thread = true)
    (hcapacity : ring.capacity = eventQueue.object.capacity) :
    Watched size next main communicate where
  main_calls := (Monitor.calls_change_iff hchange).trans hwatched.main_calls
  communication_calls := (Monitor.calls_change_iff hchange).trans hwatched.communication_calls
  blocked := hwatched.blocked.change hchange hwoken
  capacity := by rw [(Monitor.change_eq_some hchange).2.1, hcapacity, hwatched.capacity]

theorem Watched.pushed {turned : MainPhase κ}
    (hwatched : Watched size eventQueue main communicate)
    (hserve : eventQueue.serve .main ring woken = some next)
    (hwoken : ∀ thread, ready thread ring →
      ready thread eventQueue.object ∨ woken thread = true)
    (hcapacity : ring.capacity = eventQueue.object.capacity)
    (hturned : turned.isPushing = false) : Watched size next turned communicate where
  main_calls := by simp [Monitor.calls_serve_iff hserve, hturned]
  communication_calls := by
    rw [Monitor.calls_serve_iff hserve, hwatched.communication_calls]
    simp
  blocked := hwatched.blocked.serve hserve hwoken
  capacity := by rw [(Monitor.serve_eq_some hserve).2.2.1, hcapacity, hwatched.capacity]

theorem Watched.awaited {moved : CommunicatePhase}
    (hwatched : Watched size eventQueue main communicate)
    (hserve : eventQueue.serve .communication eventQueue.object (fun _ => false) = some next)
    (hmoved : moved ≠ .awaiting) : Watched size next main moved where
  main_calls := by
    rw [Monitor.calls_serve_iff hserve, hwatched.main_calls]
    simp
  communication_calls := by simp [Monitor.calls_serve_iff hserve, hmoved]
  blocked := hwatched.blocked.serve hserve fun _ hready => .inl hready
  capacity := by rw [(Monitor.serve_eq_some hserve).2.2.1, hwatched.capacity]

theorem Watched.notify (hwatched : Watched size eventQueue main communicate)
    (woken : ProcessThread → Bool) :
    Watched size (eventQueue.notify woken) main communicate where
  main_calls := (Monitor.calls_notify_iff woken _).trans hwatched.main_calls
  communication_calls := (Monitor.calls_notify_iff woken _).trans hwatched.communication_calls
  blocked := hwatched.blocked.notify woken
  capacity := hwatched.capacity

end Watched

/-- A push that may be refused wakes the thread that pops if it adds something. -/
theorem ready_tryPush (event : κ) (ring : TSCircularVector κ) (thread : ProcessThread)
    (hready : ready thread (ring.tryPush event).2) :
    ready thread ring ∨ ((ring.tryPush event).1 && thread.pops) = true := by
  cases hfull : ring.full with
  | true =>
      simp only [TSCircularVector.tryPush, hfull, if_true] at hready
      exact .inl hready
  | false =>
      simp only [TSCircularVector.tryPush, hfull, Bool.false_eq_true, if_false, Bool.true_and]
      cases thread with
      | main => exact .inl hfull
      | communication => exact .inr rfl

theorem capacity_tryPush (event : κ) (ring : TSCircularVector κ) :
    (ring.tryPush event).2.capacity = ring.capacity := by
  rw [TSCircularVector.tryPush]
  split <;> rfl

variable {policy : RetryPolicy} {process next : Process κ} {action : ProcessAction κ}

/-- What holds of the threads and the queue whatever they do. -/
structure Sound (size : Nat) (process : Process κ) : Prop where
  watched : Watched size process.eventQueue process.main process.communicate
  flagged : Flagged process.main process.communicate process.fileWatcherStop
    process.communicateStop

theorem sound_start [Inhabited κ] (known : List κ) (size : Nat) :
    Sound size (start known size) where
  watched := ⟨by simp [start, Monitor.Calls, Monitor.idle, MainPhase.isPushing],
    by simp [start, Monitor.Calls, Monitor.idle], Monitor.blocked_idle _, rfl⟩
  flagged := ⟨rfl, nofun, nofun, nofun, nofun⟩

section Steps

variable [MoveFrom κ]

theorem Watched.stepped
    (hwatched : Watched size process.eventQueue process.main process.communicate)
    (hstepped : Stepped policy process action next) :
    Watched size next.eventQueue next.main next.communicate := by
  cases hstepped with
  | recovered hmain | leaves hmain | scans hmain | scanned hmain | told hmain | joined hmain =>
      exact hwatched.turned (by rw [hmain]; rfl)
  | raised hmain =>
      apply hwatched.turned
      cases hmain with
      | inl hscanning => rw [hscanning]; rfl
      | inr hrecovering =>
          obtain ⟨others, hrecovering⟩ := hrecovering
          rw [hrecovering]
          rfl
  | pushes hmain => exact hwatched.pushes _ _
  | waited hmain hfull hgo hwait => exact hwatched.wait hwait (by simp [ready, hfull])
  | pushed hmain hfull hgo hserve =>
      refine hwatched.pushed hserve ?_ rfl rfl
      intro thread hready
      cases thread with
      | main => exact .inl hfull
      | communication => exact .inr rfl
  | stopped hmain hstop hserve =>
      exact hwatched.pushed hserve (fun _ hready => .inl hready) rfl rfl
  | detected hmain hchange =>
      exact hwatched.change hchange (ready_tryPush _ _) (capacity_tryPush _ _)
  | awaits hphase => exact hwatched.awaits
  | awaitsMore hphase hgo hempty hwait => exact hwatched.wait hwait (by simp [ready, hempty])
  | awaitedStop hphase hstop hserve => exact hwatched.awaited hserve nofun
  | awaited hphase hgo hempty hserve => exact hwatched.awaited hserve nofun
  | sent hphase hempty hchange =>
      refine hwatched.change hchange ?_ rfl
      intro thread hready
      cases thread with
      | main => exact .inr rfl
      | communication => exact .inl hempty
  | notified hphase =>
      have hmoved : Watched size process.eventQueue process.main .returned :=
        hwatched.moved (by simp [hphase]) nofun
      exact hmoved.notify _
  | ended hphase | resumes hphase | closed hphase | settled hphase | retries hphase
  | givesUp hphase | connected hphase | refused hphase | disconnected hphase | broke hphase =>
      exact hwatched.moved (by simp [hphase]) nofun
  | @stops notifies hphase =>
      apply hwatched.moved (by simp [hphase])
      cases notifies <;> nofun
  | failed hphase =>
      refine hwatched.moved ?_ nofun
      intro hawaiting
      simp [hawaiting] at hphase
  | slept hsleep => exact hwatched.sleep hsleep
  | woke hwake => exact hwatched.wake hwake
  | idled => exact hwatched
  | received => exact hwatched

theorem Flagged.stepped (hflagged : Flagged process.main process.communicate
      process.fileWatcherStop process.communicateStop)
    (hstepped : Stepped policy process action next) :
    Flagged next.main next.communicate next.fileWatcherStop next.communicateStop := by
  cases hstepped with
  | recovered hmain | pushes hmain | pushed hmain | stopped hmain | leaves hmain | scans hmain
  | scanned hmain => exact hflagged.turned (by rw [hmain]; rfl) rfl
  | raised hmain =>
      refine hflagged.turned ?_ rfl
      cases hmain with
      | inl hscanning => rw [hscanning]; rfl
      | inr hrecovering =>
          obtain ⟨others, hrecovering⟩ := hrecovering
          rw [hrecovering]
          rfl
  | told hmain =>
      exact ⟨rfl, hflagged.stops, hflagged.notifies, fun _ => .inr rfl, nofun⟩
  | joined hmain hreturned =>
      refine ⟨?_, hflagged.stops, hflagged.notifies, hflagged.ended, fun _ => hreturned⟩
      rw [hflagged.told, hmain]
      rfl
  | ended hphase hstop | awaitedStop hphase hstop =>
      rw [hstop] at hflagged ⊢
      exact hflagged.returns
  | awaits hphase | resumes hphase | awaited hphase | closed hphase | settled hphase
  | retries hphase | givesUp hphase | connected hphase | refused hphase | disconnected hphase
  | broke hphase => exact hflagged.moved (by simp [hphase]) (by simp)
  | failed hphase =>
      refine hflagged.moved ?_ (by simp)
      rcases hphase with hphase | ⟨-, hphase | hphase⟩ <;> simp [hphase]
  | stops hphase =>
      rw [hphase] at hflagged
      exact hflagged.fails
  | notified hphase =>
      refine ⟨hflagged.told, fun _ => .inr rfl, nofun, fun _ => ?_, fun _ => rfl⟩
      exact .inl (hflagged.notifies hphase)
  | _ => exact hflagged

theorem Sound.step (hsound : Sound size process)
    (hstep : process.step policy action = some next) : Sound size next :=
  ⟨hsound.watched.stepped (step_eq_some hstep), hsound.flagged.stepped (step_eq_some hstep)⟩

theorem Sound.steps {schedule : List (ProcessAction κ)} (hsound : Sound size process)
    (hsteps : process.steps policy schedule = some next) : Sound size next := by
  refine Schedule.runs_keep (Sound size) ?_ (fun action _ => trivial) hsound hsteps
  exact fun action process next _ hsound hstep => hsound.step hstep

end Steps

/-! ## Where the threads rest -/

/-- Nothing can happen by itself. -/
def Stuck [MoveFrom κ] (policy : RetryPolicy) (process : Process κ) : Prop :=
  ∀ action : ProcessAction κ, action.own = true → process.step policy action = none

/-- The main thread waits for a thread that waits for an event. -/
structure Forgotten (process : Process κ) : Prop where
  main : process.main = .joining
  asleep : process.eventQueue.stance .communication = .asleep

/-- The main thread waits for room in the queue, and no thread is left to make it. -/
structure Overfull (size : Nat) (process : Process κ) : Prop where
  asleep : process.eventQueue.stance .main = .asleep
  left : process.communicate = .returned ∨
    size = 0 ∧ process.eventQueue.stance .communication = .asleep

theorem main_outside (hsound : Sound size process) (hmain : process.main.isPushing = false) :
    process.eventQueue.stance .main = .outside := by
  by_contra houtside
  simp [hsound.watched.main_calls.mp houtside] at hmain

theorem awaiting_of_asleep (hsound : Sound size process)
    (hasleep : process.eventQueue.stance .communication = .asleep) :
    process.communicate = .awaiting :=
  hsound.watched.communication_calls.mp (by simp [Monitor.Calls, hasleep])

/-- While the queue has room for one, it cannot be full and empty. -/
theorem size_eq_zero (hsound : Sound size process) (hmain : process.eventQueue.Waits .main)
    (hcommunication : process.eventQueue.Waits .communication) : size = 0 := by
  have hfull : process.eventQueue.object.full = true :=
    Bool.not_eq_false _ ▸ hsound.watched.blocked _ hmain
  have hempty : process.eventQueue.object.empty = true :=
    Bool.not_eq_false _ ▸ hsound.watched.blocked _ hcommunication
  rw [CircularVector.full_eq_true_iff] at hfull
  rw [CircularVector.empty_eq_true_iff] at hempty
  have hcapacity := hsound.watched.capacity
  omega

section Rest

variable [MoveFrom κ]

theorem Stuck.holder (hstuck : Stuck policy process) : process.eventQueue.holder = none := by
  cases hholder : process.eventQueue.holder with
  | none => rfl
  | some thread =>
      have hnone := hstuck (.sleep thread) rfl
      simp [Process.step, Monitor.sleep, hholder] at hnone

theorem Stuck.communication (hsound : Sound size process) (hstuck : Stuck policy process) :
    process.communicate = .returned ∨
      process.eventQueue.stance .communication = .asleep := by
  have hfree := hstuck.holder
  have hturn : process.communicateTurn policy = none := hstuck .communicate rfl
  cases hphase : process.communicate with
  | checking =>
      simp only [communicateTurn, hphase] at hturn
      split at hturn
      · cases hturn
      · split at hturn <;> cases hturn
  | awaiting =>
      cases hstance : process.eventQueue.stance .communication with
      | outside => exact absurd hstance (hsound.watched.communication_calls.mpr hphase)
      | asleep => exact .inr rfl
      | entering =>
          simp only [communicateTurn, hphase, Monitor.serve, Monitor.wait, hfree, hstance,
            and_self, if_true, dite_true] at hturn
          split at hturn
          · simp at hturn
          · split at hturn <;> simp at hturn
  | connecting =>
      have hconnect := hstuck .connect rfl
      simp [Process.step, hphase] at hconnect
  | connected =>
      simp only [communicateTurn, hphase] at hturn
      split at hturn <;> cases hturn
  | lost established => simp [communicateTurn, hphase, hfree] at hturn
  | failing notifies => simp [communicateTurn, hphase] at hturn
  | notifying => simp [communicateTurn, hphase] at hturn
  | returned => exact .inl rfl

theorem Stuck.cases (hsound : Sound size process) (hstuck : Stuck policy process) :
    process.main = .returned ∨ process.Forgotten ∨ Overfull size process := by
  have hfree := hstuck.holder
  have hcommunication := hstuck.communication hsound
  have hturn : process.mainTurn = none := hstuck .main rfl
  cases hmain : process.main with
  | recovering events =>
      rw [mainTurn, hmain] at hturn
      cases events <;> cases hturn
  | pushing event others =>
      have hasleep : process.eventQueue.stance .main = .asleep := by
        cases hstance : process.eventQueue.stance .main with
        | outside => exact absurd hstance (hsound.watched.main_calls.mpr (by rw [hmain]; rfl))
        | asleep => rfl
        | entering =>
            simp only [mainTurn, hmain, Monitor.serve, Monitor.wait, hfree, hstance, and_self,
              if_true, dite_true] at hturn
            split at hturn <;> simp at hturn
      refine .inr (.inr ⟨hasleep, hcommunication.imp_right fun hother => ?_⟩)
      exact ⟨size_eq_zero hsound (.inl hasleep) (.inl hother), hother⟩
  | watching =>
      simp only [mainTurn, hmain] at hturn
      split at hturn <;> cases hturn
  | scanning => simp [mainTurn, hmain] at hturn
  | leaving => simp [mainTurn, hmain] at hturn
  | joining =>
      simp only [mainTurn, hmain] at hturn
      split at hturn
      · cases hturn
      · rename_i hnot
        exact .inr (.inl ⟨hmain, hcommunication.resolve_left hnot⟩)
  | returned => exact .inl rfl

/-- Nothing happens where the main thread cannot go on and the other one rests. -/
theorem stuck_of_rests (hsound : Sound size process)
    (hcommunication : process.communicate = .returned ∨
      process.eventQueue.stance .communication = .asleep)
    (hmain : process.eventQueue.stance .main ≠ .entering) (hturn : process.mainTurn = none) :
    Stuck policy process := by
  have hsleep : ∀ thread, process.eventQueue.sleep thread = none := by
    intro thread
    rw [Monitor.sleep, if_neg]
    intro hholder
    have hentering := process.eventQueue.entering_of_holder thread hholder
    cases thread with
    | main => exact hmain hentering
    | communication =>
        cases hcommunication with
        | inr hasleep => simp [hasleep] at hentering
        | inl hreturned =>
            have hcalls :=
              hsound.watched.communication_calls.mp (by simp [Monitor.Calls, hentering])
            simp [hreturned] at hcalls
  intro action hown
  cases action with
  | main => exact hturn
  | communicate =>
      cases hcommunication with
      | inl hreturned => simp [Process.step, communicateTurn, hreturned]
      | inr hasleep =>
          simp only [Process.step, communicateTurn, awaiting_of_asleep hsound hasleep,
            Monitor.serve, Monitor.wait, hasleep, reduceCtorEq, and_false, if_false, dite_false,
            Option.map_none, ite_self]
  | connect =>
      cases hcommunication with
      | inl hreturned => simp [Process.step, hreturned]
      | inr hasleep => simp [Process.step, awaiting_of_asleep hsound hasleep]
  | sleep thread => exact Option.map_eq_none_iff.mpr (hsleep thread)
  | _ => cases hown

theorem Forgotten.stuck (hsound : Sound size process) (hforgotten : process.Forgotten) :
    Stuck policy process := by
  apply stuck_of_rests hsound (.inr hforgotten.asleep)
  · simp [main_outside hsound (by rw [hforgotten.main]; rfl)]
  · simp [mainTurn, hforgotten.main, awaiting_of_asleep hsound hforgotten.asleep]

theorem Overfull.stuck (hsound : Sound size process) (hoverfull : Overfull size process) :
    Stuck policy process := by
  have hpushing := hsound.watched.main_calls.mp (by simp [Monitor.Calls, hoverfull.asleep])
  apply stuck_of_rests hsound (hoverfull.left.imp_right And.right)
  · simp [hoverfull.asleep]
  · cases hmain : process.main <;> simp [hmain, MainPhase.isPushing] at hpushing
    simp only [mainTurn, hmain, Monitor.serve, Monitor.wait, hoverfull.asleep, reduceCtorEq,
      and_false, if_false, dite_false, Option.map_none]
    split <;> rfl

theorem stuck_of_returned (hsound : Sound size process) (hmain : process.main = .returned) :
    Stuck policy process := by
  apply stuck_of_rests hsound (.inl (hsound.flagged.joined hmain))
  · simp [main_outside hsound (by rw [hmain]; rfl)]
  · simp [mainTurn, hmain]

/-- However the threads got there: they are both at rest exactly in these states. -/
theorem client_stuck_iff [Inhabited κ] {known : List κ} {schedule : List (ProcessAction κ)}
    (hsteps : (start known size).steps policy schedule = some process) :
    Stuck policy process ↔
      process.main = .returned ∨ process.Forgotten ∨ Overfull size process := by
  have hsound := (sound_start known size).steps hsteps
  refine ⟨fun hstuck => hstuck.cases hsound, fun hcases => ?_⟩
  rcases hcases with hreturned | hforgotten | hoverfull
  · exact stuck_of_returned hsound hreturned
  · exact hforgotten.stuck hsound
  · exact hoverfull.stuck hsound

end Rest

/-! ## Which stop is answered -/

end Process

def CommunicatePhase.effort : CommunicatePhase → Nat
  | returned => 0
  | notifying => 1
  | awaiting => 1
  | failing _ => 2
  | checking => 3
  | lost _ => 4
  | connected => 5
  | connecting => 6

def MainPhase.effort {κ : Type} : MainPhase κ → Nat
  | returned => 0
  | joining => 1
  | leaving => 2
  | watching => 3
  | scanning => 4
  | pushing _ _ => 4
  | recovering _ => 5

namespace Process

variable {κ : Type} {size : Nat} {policy : RetryPolicy} {process next : Process κ}
variable {action : ProcessAction κ}

/-- The main thread has told the communication thread, which does not wait. -/
structure ToldOther (size : Nat) (process : Process κ) : Prop where
  sound : Sound size process
  told : process.main.hasTold = true
  awake : ¬ process.eventQueue.Waits .communication

/-- The communication thread has stopped, and the main thread does not wait. -/
structure LeftAlone (size : Nat) (process : Process κ) : Prop where
  sound : Sound size process
  returned : process.communicate = .returned
  stop : process.fileWatcherStop = true
  awake : ¬ process.eventQueue.Waits .main

/-- The thread that is to stop waits. -/
structure Unanswered (size : Nat) (process : Process κ) : Prop where
  sound : Sound size process
  waits : process.main = .joining ∧ process.eventQueue.Waits .communication ∨
    process.communicate = .returned ∧ process.eventQueue.Waits .main

theorem Unanswered.main_ne (hunanswered : Unanswered size process) :
    process.main ≠ .returned := by
  intro hmain
  cases hunanswered.waits with
  | inl hjoining => simp [hmain] at hjoining
  | inr hpushing =>
      have hpush := hunanswered.sound.watched.main_calls.mp hpushing.2.calls
      simp [hmain, MainPhase.isPushing] at hpush

section Steps

variable [MoveFrom κ]

theorem ToldOther.stepped (htold : ToldOther size process)
    (hstep : process.step policy action = some next) (hwakes : action.wakes = false) :
    ToldOther size next ∧
      next.main.effort + next.communicate.effort + (if action.repeats = true then 0 else 1) ≤
        process.main.effort + process.communicate.effort := by
  have hsound := htold.sound.step hstep
  have hstop : process.communicateStop = true := htold.sound.flagged.told.trans htold.told
  have hmain : ∀ {phase : MainPhase κ}, process.main = phase → phase.hasTold = true := by
    rintro phase rfl
    exact htold.told
  have hawake := htold.awake
  cases step_eq_some hstep with
  | recovered hphase | pushes hphase | waited hphase | pushed hphase | stopped hphase
  | leaves hphase | scans hphase | scanned hphase | told hphase | detected hphase =>
      cases hmain hphase
  | raised hphase =>
      rcases hphase with hphase | ⟨others, hphase⟩ <;> cases hmain hphase
  | joined hphase hreturned =>
      refine ⟨⟨hsound, rfl, hawake⟩, ?_⟩
      simp only [hphase, MainPhase.effort, ProcessAction.repeats, Bool.false_eq_true, if_false]
      omega
  | awaits hphase hgo | resumes hphase hgo | awaitsMore hphase hgo | awaited hphase hgo
  | idled hphase hgo => simp [hstop] at hgo
  | ended hphase | closed hphase | settled hphase | retries hphase | givesUp hphase
  | connected hphase | refused hphase | disconnected hphase | broke hphase =>
      refine ⟨⟨hsound, htold.told, hawake⟩, ?_⟩
      simp [hphase, CommunicatePhase.effort, ProcessAction.repeats]
  | awaitedStop hphase _ hserve =>
      refine ⟨⟨hsound, htold.told, fun hwaits => ?_⟩, ?_⟩
      · exact hawake (Monitor.waits_of_serve hserve hwaits).1
      · simp [hphase, CommunicatePhase.effort, ProcessAction.repeats]
  | @stops notifies hphase =>
      refine ⟨⟨hsound, htold.told, hawake⟩, ?_⟩
      cases notifies <;> simp [hphase, CommunicatePhase.effort, ProcessAction.repeats]
  | notified hphase =>
      refine ⟨⟨hsound, htold.told, fun hwaits => ?_⟩, ?_⟩
      · exact hawake (Monitor.waits_of_notify hwaits).1
      · simp [hphase, CommunicatePhase.effort, ProcessAction.repeats]
  | received => exact ⟨⟨hsound, htold.told, hawake⟩, Nat.le_refl _⟩
  | sent hphase hempty hchange =>
      refine ⟨⟨hsound, htold.told, fun hwaits => ?_⟩, Nat.le_refl _⟩
      exact hawake (Monitor.waits_of_change hchange hwaits).1
  | failed hphase =>
      refine ⟨⟨hsound, htold.told, hawake⟩, ?_⟩
      rcases hphase with hphase | ⟨-, hphase | hphase⟩ <;>
        simp [hphase, CommunicatePhase.effort, ProcessAction.repeats]
  | @slept thread eventQueue hsleep =>
      obtain ⟨hholder, -⟩ := Monitor.sleep_eq_some hsleep
      cases thread with
      | communication => exact absurd (.inr hholder) hawake
      | main =>
          have hcalls : process.eventQueue.Calls .main :=
            Monitor.Waits.calls (.inr hholder)
          have hpushing := htold.sound.watched.main_calls.mp hcalls
          cases hphase : process.main <;> simp [hphase, MainPhase.isPushing] at hpushing
          cases hmain hphase
  | woke => cases hwakes

theorem LeftAlone.stepped (halone : LeftAlone size process)
    (hstep : process.step policy action = some next) (hwakes : action.wakes = false) :
    LeftAlone size next ∧
      next.main.effort + next.communicate.effort + (if action.repeats = true then 0 else 1) ≤
        process.main.effort + process.communicate.effort := by
  have hsound := halone.sound.step hstep
  have hreturned := halone.returned
  have hstop := halone.stop
  have hawake := halone.awake
  cases step_eq_some hstep with
  | recovered hphase | leaves hphase | scanned hphase | told hphase | joined hphase =>
      refine ⟨⟨hsound, hreturned, hstop, hawake⟩, ?_⟩
      simp only [hphase, MainPhase.effort, ProcessAction.repeats, Bool.false_eq_true, if_false]
      omega
  | pushes hphase =>
      refine ⟨⟨hsound, hreturned, hstop, fun hwaits => hawake (Monitor.waits_of_call hwaits)⟩, ?_⟩
      simp only [hphase, MainPhase.effort, ProcessAction.repeats, Bool.false_eq_true, if_false]
      omega
  | waited hphase hfull hgo | pushed hphase hfull hgo | scans hphase hgo => simp [hstop] at hgo
  | stopped hphase _ hserve =>
      refine ⟨⟨hsound, hreturned, hstop, fun hwaits => ?_⟩, ?_⟩
      · exact hawake (Monitor.waits_of_serve hserve hwaits).1
      · simp only [hphase, MainPhase.effort, ProcessAction.repeats, Bool.false_eq_true, if_false]
        omega
  | raised hphase =>
      refine ⟨⟨hsound, hreturned, hstop, hawake⟩, ?_⟩
      rcases hphase with hphase | ⟨others, hphase⟩ <;>
        simp only [hphase, MainPhase.effort, ProcessAction.repeats, Bool.false_eq_true, if_false] <;>
        omega
  | detected hphase hchange =>
      refine ⟨⟨hsound, hreturned, hstop, fun hwaits => ?_⟩, Nat.le_refl _⟩
      exact hawake (Monitor.waits_of_change hchange hwaits).1
  | ended hphase | awaits hphase | resumes hphase | awaitedStop hphase | awaitsMore hphase
  | awaited hphase | closed hphase | idled hphase | settled hphase | retries hphase
  | givesUp hphase | stops hphase | notified hphase | connected hphase | refused hphase
  | received hphase | sent hphase | disconnected hphase | broke hphase =>
      simp [hreturned] at hphase
  | failed hphase => simp [hreturned] at hphase
  | @slept thread eventQueue hsleep =>
      obtain ⟨hholder, -⟩ := Monitor.sleep_eq_some hsleep
      cases thread with
      | main => exact absurd (.inr hholder) hawake
      | communication =>
          have hcalls : process.eventQueue.Calls .communication :=
            Monitor.Waits.calls (.inr hholder)
          have hawaiting := halone.sound.watched.communication_calls.mp hcalls
          simp [hreturned] at hawaiting
  | woke => cases hwakes

theorem Unanswered.stepped (hunanswered : Unanswered size process)
    (hstep : process.step policy action = some next) (hwakes : action.wakes = false) :
    Unanswered size next := by
  have hsound := hunanswered.sound.step hstep
  refine ⟨hsound, ?_⟩
  cases hunanswered.waits with
  | inl hjoining =>
      obtain ⟨hmain, hwaits⟩ := hjoining
      have hawaiting := hunanswered.sound.watched.communication_calls.mp hwaits.calls
      cases step_eq_some hstep with
      | recovered hphase | pushes hphase | waited hphase | pushed hphase | stopped hphase
      | leaves hphase | scans hphase | scanned hphase | told hphase | detected hphase =>
          simp [hmain] at hphase
      | raised hphase => simp [hmain] at hphase
      | joined hphase hreturned => simp [hawaiting] at hreturned
      | awaitedStop hphase hstop hserve =>
          obtain ⟨hnone, hentering, -⟩ := Monitor.serve_eq_some hserve
          exact absurd ⟨hnone, hentering⟩ hwaits.not_free
      | awaited hphase hgo hempty hserve =>
          obtain ⟨hnone, hentering, -⟩ := Monitor.serve_eq_some hserve
          exact absurd ⟨hnone, hentering⟩ hwaits.not_free
      | awaitsMore hphase hgo hempty hwait =>
          obtain ⟨hnone, hentering, -⟩ := Monitor.wait_eq_some hwait
          exact absurd ⟨hnone, hentering⟩ hwaits.not_free
      | ended hphase | awaits hphase | resumes hphase | closed hphase | idled hphase
      | settled hphase | retries hphase | givesUp hphase | stops hphase | notified hphase
      | connected hphase | refused hphase | received hphase | sent hphase | disconnected hphase
      | broke hphase => simp [hawaiting] at hphase
      | failed hphase => simp [hawaiting] at hphase
      | slept hsleep => exact .inl ⟨hmain, hwaits.sleep hsleep⟩
      | woke => cases hwakes
  | inr hreturned =>
      obtain ⟨hreturned, hwaits⟩ := hreturned
      have hpushing := hunanswered.sound.watched.main_calls.mp hwaits.calls
      cases step_eq_some hstep with
      | recovered hphase | pushes hphase | leaves hphase | scans hphase | scanned hphase
      | told hphase | joined hphase | detected hphase => rw [hphase] at hpushing; cases hpushing
      | raised hphase =>
          rcases hphase with hphase | ⟨others, hphase⟩ <;> rw [hphase] at hpushing <;>
            cases hpushing
      | waited hphase hfull hgo hwait =>
          obtain ⟨hnone, hentering, -⟩ := Monitor.wait_eq_some hwait
          exact absurd ⟨hnone, hentering⟩ hwaits.not_free
      | pushed hphase hfull hgo hserve =>
          obtain ⟨hnone, hentering, -⟩ := Monitor.serve_eq_some hserve
          exact absurd ⟨hnone, hentering⟩ hwaits.not_free
      | stopped hphase hstop hserve =>
          obtain ⟨hnone, hentering, -⟩ := Monitor.serve_eq_some hserve
          exact absurd ⟨hnone, hentering⟩ hwaits.not_free
      | ended hphase | awaits hphase | resumes hphase | awaitedStop hphase | awaitsMore hphase
      | awaited hphase | closed hphase | idled hphase | settled hphase | retries hphase
      | givesUp hphase | stops hphase | notified hphase | connected hphase | refused hphase
      | received hphase | sent hphase | disconnected hphase | broke hphase =>
          simp [hreturned] at hphase
      | failed hphase => simp [hreturned] at hphase
      | slept hsleep => exact .inr ⟨hreturned, hwaits.sleep hsleep⟩
      | woke => cases hwakes

/-- Unless a thread wakes by itself, the process never returns. -/
def Hangs (policy : RetryPolicy) (process : Process κ) : Prop :=
  ∀ schedule next, process.steps policy schedule = some next →
    (∀ action ∈ schedule, action.wakes = false) → next.main ≠ .returned

/-- Unless a thread wakes by itself, the threads take so many steps at most besides
those that a loop repeats; they can all be taken, and then the process has returned. -/
structure EndsWithin (policy : RetryPolicy) (bound : Nat) (process : Process κ) : Prop where
  length_le : ∀ schedule next, process.steps policy schedule = some next →
    (∀ action ∈ schedule, action.wakes = false) →
      (schedule.filter fun action => !action.repeats).length ≤ bound
  rests : ∀ schedule next, process.steps policy schedule = some next →
    (∀ action ∈ schedule, action.wakes = false) → Stuck policy next → next.main = .returned
  returns : ∃ schedule next, (∀ action ∈ schedule, action.own = true) ∧
    process.steps policy schedule = some next ∧ next.main = .returned

theorem Unanswered.hangs (hunanswered : Unanswered size process) : Hangs policy process := by
  intro schedule next hsteps hwakes
  refine (Schedule.runs_keep (Unanswered size) ?_ hwakes hunanswered hsteps).main_ne
  exact fun action process next hwakes hkept hstep => hkept.stepped hstep hwakes

/-- What uses up what the threads have to do comes to an end. -/
theorem endsWithin {kept : Process κ → Prop} {bound : Nat}
    (hspends : Schedule.Spends (step policy) (fun action => action.wakes = false)
      (fun action => !action.repeats) kept
      fun process => process.main.effort + process.communicate.effort)
    (hrests : ∀ process, kept process → Stuck policy process → process.main = .returned)
    (hkept : kept process)
    (hbound : process.main.effort + process.communicate.effort ≤ bound) :
    EndsWithin policy bound process where
  length_le schedule next hsteps hwakes := by
    have hlength := (Schedule.runs_spend hspends hwakes hkept hsteps).2
    omega
  rests schedule next hsteps hwakes hstuck :=
    hrests next (Schedule.runs_spend hspends hwakes hkept hsteps).1 hstuck
  returns := by
    obtain ⟨schedule, next, hown, hsteps, hnext, hrest⟩ :=
      Schedule.exists_rest (fun action => action.own = true) hspends
        ProcessAction.own_counts hkept
    exact ⟨schedule, next, hown, hsteps, hrests next hnext hrest⟩

theorem ToldOther.endsWithin (htold : ToldOther size process) : EndsWithin policy 7 process := by
  apply Process.endsWithin _ _ htold
  · have hphase : process.main.effort ≤ 1 := by
      have htold := htold.told
      cases hmain : process.main <;> simp [hmain, MainPhase.hasTold] at htold <;>
        simp [MainPhase.effort]
    have hcommunicate : process.communicate.effort ≤ 6 := by
      cases process.communicate <;> simp [CommunicatePhase.effort]
    omega
  · intro action process next hwakes hkept hstep
    rw [ProcessAction.counted_repeats]
    exact hkept.stepped hstep hwakes
  · intro process hkept hstuck
    rcases hstuck.cases hkept.sound with hreturned | hforgotten | hoverfull
    · exact hreturned
    · exact absurd (.inl hforgotten.asleep) hkept.awake
    · have hcalls : process.eventQueue.Calls .main := by simp [Monitor.Calls, hoverfull.asleep]
      have hpushing := hkept.sound.watched.main_calls.mp hcalls
      have htold := hkept.told
      cases hmain : process.main <;>
        simp [hmain, MainPhase.isPushing, MainPhase.hasTold] at hpushing htold

theorem LeftAlone.endsWithin (halone : LeftAlone size process) :
    EndsWithin policy 7 process := by
  apply Process.endsWithin _ _ halone
  · have hphase : process.main.effort ≤ 5 := by
      cases process.main <;> simp [MainPhase.effort]
    rw [halone.returned, CommunicatePhase.effort]
    omega
  · intro action process next hwakes hkept hstep
    rw [ProcessAction.counted_repeats]
    exact hkept.stepped hstep hwakes
  · intro process hkept hstuck
    rcases hstuck.cases hkept.sound with hreturned | hforgotten | hoverfull
    · exact hreturned
    · have hawaiting := awaiting_of_asleep hkept.sound hforgotten.asleep
      simp [hkept.returned] at hawaiting
    · exact absurd (.inl hoverfull.asleep) hkept.awake

/-- When one thread has told the other to stop, the process returns after at most seven
steps, or, if the other thread waits at that moment, never.  The same holds when the
communication thread has stopped by itself. -/
theorem client_stops [Inhabited κ] {known : List κ} {schedule : List (ProcessAction κ)}
    (hsteps : (start known size).steps policy schedule = some process) :
    (process.main = .joining →
      (process.eventQueue.Waits .communication → Hangs policy process) ∧
        (¬ process.eventQueue.Waits .communication → EndsWithin policy 7 process)) ∧
      (process.communicate = .returned → process.communicateStop = false →
        (process.eventQueue.Waits .main → Hangs policy process) ∧
          (¬ process.eventQueue.Waits .main → EndsWithin policy 7 process)) := by
  have hsound := (sound_start known size).steps hsteps
  constructor
  · intro hmain
    constructor
    · exact fun hwaits => Unanswered.hangs ⟨hsound, .inl ⟨hmain, hwaits⟩⟩
    · exact fun hawake => ToldOther.endsWithin ⟨hsound, by rw [hmain]; rfl, hawake⟩
  · intro hreturned hgo
    have hstop : process.fileWatcherStop = true := by
      cases hsound.flagged.ended hreturned with
      | inl hstop => exact hstop
      | inr hstop => simp [hgo] at hstop
    constructor
    · exact fun hwaits => Unanswered.hangs ⟨hsound, .inr ⟨hreturned, hwaits⟩⟩
    · exact fun hawake => LeftAlone.endsWithin ⟨hsound, hreturned, hstop, hawake⟩

end Steps

/-! ## Two ways to hang -/

instance numberMoveFrom : MoveFrom Nat := ⟨id⟩

def onePolicy : RetryPolicy := ⟨false, 1⟩

/-- The watcher raises while the communication thread sleeps. -/
def forgetting : List (ProcessAction Nat) :=
  [.communicate, .communicate, .sleep .communication, .main, .main, .raise, .main]

theorem client_stuck_forgetting : ∃ process,
    (start [] 2).steps onePolicy forgetting = some process ∧ process.Forgotten ∧
      Stuck onePolicy process := by
  have hruns : ((start [] 2).steps onePolicy forgetting).any (fun process =>
      process.main = .joining && process.eventQueue.stance .communication = .asleep) = true := by
    decide
  simp only [Option.any_eq_true, Bool.and_eq_true, decide_eq_true_eq] at hruns
  obtain ⟨process, hsteps, hmain, hasleep⟩ := hruns
  have hforgotten : process.Forgotten := ⟨hmain, hasleep⟩
  exact ⟨process, hsteps, hforgotten, (client_stuck_iff hsteps).mpr (.inr (.inl hforgotten))⟩

/-- The communication thread fails while the main thread has found the queue full but
does not sleep yet. -/
def overtaking : List (ProcessAction Nat) :=
  [.main, .main, .main, .main, .fail true, .communicate, .communicate]

theorem client_hangs_overtaking : ∃ process,
    (start [1, 2] 1).steps onePolicy overtaking = some process ∧
      process.fileWatcherStop = true ∧ Hangs onePolicy process := by
  have hruns : ((start [1, 2] 1).steps onePolicy overtaking).any (fun process =>
      process.communicate = .returned && !process.communicateStop && process.fileWatcherStop &&
        process.eventQueue.holder = some .main) = true := by
    decide
  simp only [Option.any_eq_true, Bool.and_eq_true, decide_eq_true_eq, Bool.not_eq_true'] at hruns
  obtain ⟨process, hsteps, ⟨⟨hreturned, hgo⟩, hstop⟩, hholder⟩ := hruns
  exact ⟨process, hsteps, hstop, ((client_stops hsteps).2 hreturned hgo).1 (.inr hholder)⟩

end Process

end PdsBackup.Client
