import PdsBackup.Server.Process

/-!
# Connections and the threads that serve them

Whatever the threads of the server do in whatever order, the connections are taken
in the order in which they were accepted, each by one thread.
-/

namespace PdsBackup.Server

namespace MainPhase

variable {κ : Type}

/-- The connection that is being pushed. -/
def held : MainPhase κ → List κ
  | pushing peer => [peer]
  | _ => []

/-- The flag of the threads has been stored. -/
def hasStored : MainPhase κ → Bool
  | notifying _ => true
  | joining _ _ => true
  | returned _ => true
  | _ => false

/-- The threads have been notified. -/
def hasNotified : MainPhase κ → Bool
  | joining _ _ => true
  | returned _ => true
  | _ => false

/-- The threads that have been joined. -/
def hasJoined : MainPhase κ → Nat → Prop
  | joining _ joined, index => index < joined
  | returned _, _ => True
  | _, _ => False

end MainPhase

namespace Process

variable {κ : Type} {count size : Nat}

/-- What a thread waits for, the flag apart. -/
def ready : Thread count → TSCircularVector κ → Prop
  | .main, ring => ring.full = false
  | .server _, ring => ring.empty = false

/-- Nothing accepted is lost, and the order is kept. -/
structure Queued (size : Nat) (process : Process κ count) : Prop where
  accepted : process.accepted =
    process.handed ++ process.sockets.object.toList ++ process.main.held
  capacity : process.sockets.object.capacity = size + 1

/-- No two threads serve one connection. -/
structure Apart (server : Fin count → ServerPhase) (handed : List κ) : Prop where
  number_lt : ∀ index number, server index = .serving number → number < handed.length
  unique : ∀ index other number, server index = .serving number →
    server other = .serving number → index = other

/-- The monitor knows where the threads are, and no thread waits that need not. -/
structure Watched (sockets : Monitor (Thread count) (TSCircularVector κ)) (main : MainPhase κ)
    (server : Fin count → ServerPhase) : Prop where
  main_calls : sockets.Calls .main ↔ main.held ≠ []
  server_calls : ∀ index, sockets.Calls (.server index) ↔ server index = .taking
  blocked : sockets.Blocked ready

/-- How far the main thread is with stopping the others. -/
structure Stopping (process : Process κ count) : Prop where
  stored : process.serverThreadsStop = process.main.hasStored
  noticed : process.main.hasNotified = true → process.sockets.AtMostOneWaits
  joined : ∀ index, process.main.hasJoined index.val → process.server index = .returned

/-- How the main thread comes to know that it is to stop. -/
structure Knocking (process : Process κ count) : Prop where
  pending : process.main = .accepting → process.mainStop = true →
    process.pending = 0 → ∃ index, process.server index = .connecting
  told : ∀ index, process.server index = .connecting ∨ process.server index = .returned →
    process.mainStop = true ∨ process.serverThreadsStop = true

section Apart

variable {server : Fin count → ServerPhase} {handed : List κ}

theorem Apart.moved {index : Fin count} {phase : ServerPhase} (hapart : Apart server handed)
    (hphase : ∀ number, phase ≠ .serving number) :
    Apart (Function.update server index phase) handed where
  number_lt other number hother := by
    rw [Function.update_apply] at hother
    split at hother
    · exact absurd hother (hphase number)
    · exact hapart.number_lt other number hother
  unique other another number hother hanother := by
    rw [Function.update_apply] at hother hanother
    split at hother
    · exact absurd hother (hphase number)
    split at hanother
    · exact absurd hanother (hphase number)
    exact hapart.unique other another number hother hanother

/-- The number of the next connection is new. -/
theorem Apart.took (hapart : Apart server handed) (index : Fin count) (peer : κ) :
    Apart (Function.update server index (.serving handed.length)) (handed ++ [peer]) where
  number_lt other number hother := by
    rw [List.length_append, List.length_singleton]
    rw [Function.update_apply] at hother
    split at hother
    · obtain rfl := ServerPhase.serving.inj hother
      exact Nat.lt_succ_self _
    · exact Nat.lt_succ_of_lt (hapart.number_lt other number hother)
  unique other another number hother hanother := by
    rw [Function.update_apply] at hother hanother
    split at hother <;> split at hanother
    · rename_i hown hsame
      exact hown.trans hsame.symm
    · obtain rfl := ServerPhase.serving.inj hother
      exact absurd (hapart.number_lt another _ hanother) (Nat.lt_irrefl _)
    · obtain rfl := ServerPhase.serving.inj hanother
      exact absurd (hapart.number_lt other _ hother) (Nat.lt_irrefl _)
    · exact hapart.unique other another number hother hanother

end Apart

section Watched

variable {sockets next : Monitor (Thread count) (TSCircularVector κ)} {main : MainPhase κ}
variable {server : Fin count → ServerPhase} {ring : TSCircularVector κ}
variable {woken : Thread count → Bool} {thread : Thread count} {index : Fin count}
variable {phase : ServerPhase}

theorem Watched.turned {turned : MainPhase κ} (hwatched : Watched sockets main server)
    (hheld : main.held = turned.held) : Watched sockets turned server :=
  ⟨hheld ▸ hwatched.main_calls, hwatched.server_calls, hwatched.blocked⟩

theorem Watched.moved (hwatched : Watched sockets main server) (hserver : server index ≠ .taking)
    (hphase : phase ≠ .taking) : Watched sockets main (Function.update server index phase) where
  main_calls := hwatched.main_calls
  server_calls other := by
    rw [hwatched.server_calls, Function.update_apply]
    split
    · rename_i hother
      simp [hother, hserver, hphase]
    · rfl
  blocked := hwatched.blocked

theorem Watched.pushes (hwatched : Watched sockets main server) (peer : κ) :
    Watched (sockets.call .main) (.pushing peer) server where
  main_calls := by simp [Monitor.calls_call_iff, MainPhase.held]
  server_calls other := by
    rw [Monitor.calls_call_iff, hwatched.server_calls]
    simp
  blocked := hwatched.blocked.call

theorem Watched.takes (hwatched : Watched sockets main server) (index : Fin count) :
    Watched (sockets.call (.server index)) main (Function.update server index .taking) where
  main_calls := by
    rw [Monitor.calls_call_iff, hwatched.main_calls]
    simp
  server_calls other := by
    rw [Monitor.calls_call_iff, hwatched.server_calls, Function.update_apply]
    split
    · rename_i hother
      simp [hother]
    · rename_i hother
      simp [hother]
  blocked := hwatched.blocked.call

theorem Watched.wait (hwatched : Watched sockets main server)
    (hwait : sockets.wait thread = some next) (hunready : ¬ ready thread sockets.object) :
    Watched next main server where
  main_calls := (Monitor.calls_wait_iff hwait).trans hwatched.main_calls
  server_calls index := (Monitor.calls_wait_iff hwait).trans (hwatched.server_calls index)
  blocked := hwatched.blocked.wait hwait hunready

theorem Watched.sleep (hwatched : Watched sockets main server)
    (hsleep : sockets.sleep thread = some next) : Watched next main server where
  main_calls := (Monitor.calls_sleep_iff hsleep).trans hwatched.main_calls
  server_calls index := (Monitor.calls_sleep_iff hsleep).trans (hwatched.server_calls index)
  blocked := hwatched.blocked.sleep hsleep

theorem Watched.wake (hwatched : Watched sockets main server)
    (hwake : sockets.wake thread = some next) : Watched next main server where
  main_calls := (Monitor.calls_wake_iff hwake).trans hwatched.main_calls
  server_calls index := (Monitor.calls_wake_iff hwake).trans (hwatched.server_calls index)
  blocked := hwatched.blocked.wake hwake

theorem Watched.notify (hwatched : Watched sockets main server) (woken : Thread count → Bool) :
    Watched (sockets.notify woken) main server where
  main_calls := (Monitor.calls_notify_iff woken _).trans hwatched.main_calls
  server_calls index := (Monitor.calls_notify_iff woken _).trans (hwatched.server_calls index)
  blocked := hwatched.blocked.notify woken

theorem Watched.pushed (hwatched : Watched sockets main server)
    (hserve : sockets.serve .main ring woken = some next)
    (hwoken : ∀ thread, ready thread ring → ready thread sockets.object ∨ woken thread = true) :
    Watched next .checking server where
  main_calls := by simp [Monitor.calls_serve_iff hserve, MainPhase.held]
  server_calls index := by
    rw [Monitor.calls_serve_iff hserve, hwatched.server_calls]
    simp
  blocked := hwatched.blocked.serve hserve hwoken

theorem Watched.took (hwatched : Watched sockets main server)
    (hserve : sockets.serve (.server index) ring woken = some next)
    (hwoken : ∀ thread, ready thread ring → ready thread sockets.object ∨ woken thread = true)
    (hphase : phase ≠ .taking) : Watched next main (Function.update server index phase) where
  main_calls := by
    rw [Monitor.calls_serve_iff hserve, hwatched.main_calls]
    simp
  server_calls other := by
    rw [Monitor.calls_serve_iff hserve, hwatched.server_calls, Function.update_apply]
    split
    · rename_i hother
      simp [hother, hphase]
    · rename_i hother
      simp [hother]
  blocked := hwatched.blocked.serve hserve hwoken

end Watched

variable {process next : Process κ count} {action : ProcessAction κ count}

/-- What holds of the threads and the queue whatever they do. -/
structure Sound (size : Nat) (process : Process κ count) : Prop where
  queued : Queued size process
  apart : Apart process.server process.handed
  watched : Watched process.sockets process.main process.server
  stopping : Stopping process
  knocking : Knocking process

theorem sound_start [Inhabited κ] (count size : Nat) :
    Sound size (start count size : Process κ count) where
  queued := ⟨(congrArg (· ++ []) (CircularVector.toList_of_empty rfl)).symm, rfl⟩
  apart := ⟨nofun, nofun⟩
  watched := ⟨by simp [start, Monitor.Calls, Monitor.idle, MainPhase.held],
    by simp [start, Monitor.Calls, Monitor.idle], Monitor.blocked_idle _⟩
  stopping := ⟨rfl, nofun, fun _ => nofun⟩
  knocking := ⟨nofun, by simp [start]⟩

section Steps

variable [MoveFrom κ]

theorem Queued.stepped (hqueued : Queued size process) (hstepped : Stepped process action next) :
    Queued size next := by
  have haccepted := hqueued.accepted
  cases hstepped with
  | accepted hmain | refused hmain | stopped hmain | accepts hmain | dropped hmain | stored hmain
  | notified hmain | joined hmain | returned hmain =>
      rw [hmain] at haccepted
      exact ⟨haccepted, hqueued.capacity⟩
  | admitted hmain hgo =>
      rw [hmain] at haccepted
      refine ⟨?_, hqueued.capacity⟩
      show process.accepted ++ [_] = _
      rw [haccepted]
      exact congrArg (· ++ [_]) (List.append_nil _)
  | waited hmain hfull hwait =>
      have hobject := (Monitor.wait_eq_some hwait).2.2.1
      exact ⟨by rw [← hobject] at haccepted; exact haccepted, hobject ▸ hqueued.capacity⟩
  | pushed hmain hfull hserve =>
      have hobject := (Monitor.serve_eq_some hserve).2.2.1
      rw [hmain] at haccepted
      constructor
      · show process.accepted = process.handed ++ _ ++ []
        rw [haccepted, hobject, CircularVector.toList_push _ hfull, List.append_nil,
          List.append_assoc]
        rfl
      · exact hobject ▸ hqueued.capacity
  | tookNothing hserver hstop hserve =>
      have hobject := (Monitor.serve_eq_some hserve).2.2.1
      exact ⟨by rw [← hobject] at haccepted; exact haccepted, hobject ▸ hqueued.capacity⟩
  | serverWaited hserver hgo hempty hwait =>
      have hobject := (Monitor.wait_eq_some hwait).2.2.1
      exact ⟨by rw [← hobject] at haccepted; exact haccepted, hobject ▸ hqueued.capacity⟩
  | took hserver hgo hempty hserve =>
      have hobject := (Monitor.serve_eq_some hserve).2.2.1
      rw [CircularVector.toList_pop hempty] at haccepted
      constructor
      · show process.accepted = process.handed ++ [_] ++ _ ++ process.main.held
        rw [haccepted, hobject, List.append_assoc process.handed [_]]
        rfl
      · exact hobject ▸ hqueued.capacity
  | slept hsleep =>
      have hobject := (Monitor.sleep_eq_some hsleep).2.1
      exact ⟨by rw [← hobject] at haccepted; exact haccepted, hobject ▸ hqueued.capacity⟩
  | woke hwake =>
      obtain ⟨-, rfl⟩ := Monitor.wake_eq_some hwake
      exact ⟨haccepted, hqueued.capacity⟩
  | _ => exact ⟨haccepted, hqueued.capacity⟩

theorem Apart.stepped (hapart : Apart process.server process.handed)
    (hstepped : Stepped process action next) : Apart next.server next.handed := by
  cases hstepped with
  | quit | stopsMain | connected | closed | failed | takes | tookNothing =>
      exact hapart.moved nofun
  | @took index sockets hserver hgo hempty hserve => exact hapart.took index _
  | _ => exact hapart

theorem Watched.stepped (hwatched : Watched process.sockets process.main process.server)
    (hstepped : Stepped process action next) : Watched next.sockets next.main next.server := by
  have hblocked := hwatched.blocked
  cases hstepped with
  | accepted hmain | refused hmain | stopped hmain | accepts hmain | dropped hmain | stored hmain
  | joined hmain | returned hmain => exact hwatched.turned (by rw [hmain]; rfl)
  | admitted hmain hgo => exact hwatched.pushes _
  | waited hmain hfull hwait => exact hwatched.wait hwait (by simp [ready, hfull])
  | pushed hmain hfull hserve =>
      apply hwatched.pushed hserve
      intro thread hready
      cases thread with
      | main => exact .inl hfull
      | server index => exact .inr rfl
  | notified hmain => exact (hwatched.turned (by rw [hmain]; rfl)).notify _
  | quit hserver | stopsMain hserver | connected hserver | closed hserver | failed hserver =>
      exact hwatched.moved (by simp [hserver]) nofun
  | takes hserver hgo => exact hwatched.takes _
  | tookNothing hserver hstop hserve =>
      exact hwatched.took hserve (fun _ hready => .inl hready) nofun
  | serverWaited hserver hgo hempty hwait => exact hwatched.wait hwait (by simp [ready, hempty])
  | took hserver hgo hempty hserve =>
      refine hwatched.took hserve ?_ nofun
      intro thread hready
      cases thread with
      | main => exact .inr rfl
      | server index => exact .inl hempty
  | slept hsleep => exact hwatched.sleep hsleep
  | woke hwake => exact hwatched.wake hwake
  | _ => exact hwatched

theorem Stepped.returned_of_returned (hstepped : Stepped process action next) {index : Fin count}
    (hreturned : process.server index = .returned) : next.server index = .returned := by
  have hmoved : ∀ {other : Fin count} {phase : ServerPhase}, process.server other ≠ .returned →
      Function.update process.server other phase index = .returned := by
    intro other phase hother
    rw [Function.update_of_ne]
    · exact hreturned
    · rintro rfl
      exact hother hreturned
  cases hstepped with
  | quit hserver | takes hserver | tookNothing hserver | took hserver | stopsMain hserver
  | connected hserver | closed hserver | failed hserver => exact hmoved (by simp [hserver])
  | _ => exact hreturned

theorem Stopping.stepped (hstopping : Stopping process) (hstepped : Stepped process action next) :
    Stopping next := by
  have hstored := hstopping.stored
  have hnoticed := hstopping.noticed
  have hjoined : ∀ index, process.main.hasJoined index.val → next.server index = .returned :=
    fun index hjoined => hstepped.returned_of_returned (hstopping.joined index hjoined)
  have hgoes : process.serverThreadsStop = false → process.main.hasNotified = false := by
    intro hgo
    rw [hgo] at hstored
    cases hmain : process.main <;> simp_all [MainPhase.hasStored, MainPhase.hasNotified]
  cases hstepped with
  | accepted hmain | refused hmain | stopped hmain | accepts hmain | dropped hmain =>
      rw [hmain] at hstored
      exact ⟨hstored, nofun, nofun⟩
  | admitted hmain hgo =>
      rw [hmain] at hstored
      exact ⟨hstored, nofun, nofun⟩
  | waited hmain hfull hwait =>
      refine ⟨hstored, fun hnotified => ?_, hjoined⟩
      simp [hmain, MainPhase.hasNotified] at hnotified
  | pushed hmain hfull hserve =>
      rw [hmain] at hstored
      exact ⟨hstored, nofun, nofun⟩
  | stored hmain => exact ⟨rfl, nofun, nofun⟩
  | notified hmain =>
      rw [hmain] at hstored
      exact ⟨hstored, fun _ => Monitor.atMostOneWaits_notify_all _, fun index => nofun⟩
  | @joined status joined hlt hmain hserver =>
      rw [hmain] at hstored hnoticed hjoined
      refine ⟨hstored, hnoticed, fun index hindex => ?_⟩
      cases Nat.lt_succ_iff_lt_or_eq.mp hindex with
      | inl hbefore => exact hjoined index hbefore
      | inr hlast =>
          obtain rfl : index = ⟨joined, hlt⟩ := Fin.ext hlast
          exact hserver
  | @returned status joined hmain hall =>
      rw [hmain] at hstored hnoticed hjoined
      exact ⟨hstored, hnoticed, fun index _ => hjoined index (Nat.lt_of_lt_of_le index.isLt hall)⟩
  | takes hserver hgo => exact ⟨hstored, fun h => (hnoticed h).call, hjoined⟩
  | tookNothing hserver hstop hserve => exact ⟨hstored, fun h => (hnoticed h).serve hserve, hjoined⟩
  | serverWaited hserver hgo hempty hwait =>
      refine ⟨hstored, fun hnotified => ?_, hjoined⟩
      exact absurd hnotified (by simp [hgoes hgo])
  | took hserver hgo hempty hserve => exact ⟨hstored, fun h => (hnoticed h).serve hserve, hjoined⟩
  | slept hsleep => exact ⟨hstored, fun h => (hnoticed h).sleep hsleep, hjoined⟩
  | woke hwake => exact ⟨hstored, fun h => (hnoticed h).wake hwake, hjoined⟩
  | _ => exact ⟨hstored, hnoticed, hjoined⟩

theorem Knocking.stepped (hknocking : Knocking process) (hstepped : Stepped process action next) :
    Knocking next := by
  have hpending := hknocking.pending
  have htold := hknocking.told
  have hstays : ∀ {other : Fin count} {phase : ServerPhase}, process.server other ≠ .connecting →
      (∃ index, process.server index = .connecting) →
        ∃ index, Function.update process.server other phase index = .connecting := by
    intro other phase hother hsome
    obtain ⟨index, hindex⟩ := hsome
    refine ⟨index, ?_⟩
    rw [Function.update_of_ne]
    · exact hindex
    · rintro rfl
      exact hother hindex
  have hmoved : ∀ {other : Fin count} {phase : ServerPhase} {main stop : Bool},
      (process.mainStop = true → main = true) → (process.serverThreadsStop = true → stop = true) →
      (phase = .connecting ∨ phase = .returned → main = true ∨ stop = true) →
      ∀ index, Function.update process.server other phase index = .connecting ∨
        Function.update process.server other phase index = .returned → main = true ∨ stop = true := by
    intro other phase main stop hmain hstop hphase index hindex
    rw [Function.update_apply] at hindex
    split at hindex
    · exact hphase hindex
    · exact (htold index hindex).imp hmain hstop
  cases hstepped with
  | arrived => exact ⟨nofun, htold⟩
  | accepted | refused | stopped | dropped | admitted | pushed | notified | joined | returned =>
      exact ⟨nofun, htold⟩
  | accepts hmain hgo => exact ⟨fun _ hstop => absurd hstop (by simp [hgo]), htold⟩
  | stored hmain => exact ⟨nofun, fun _ _ => .inr rfl⟩
  | quit hserver hstop =>
      exact ⟨fun hmain hstop hnone => hstays (by simp [hserver]) (hpending hmain hstop hnone),
        hmoved id id fun _ => .inr hstop⟩
  | tookNothing hserver hstop hserve =>
      exact ⟨fun hmain hstop hnone => hstays (by simp [hserver]) (hpending hmain hstop hnone),
        hmoved id id fun _ => .inr hstop⟩
  | takes hserver | took hserver | closed hserver | failed hserver =>
      exact ⟨fun hmain hstop hnone => hstays (by simp [hserver]) (hpending hmain hstop hnone),
        hmoved id id (by simp)⟩
  | @stopsMain index hserver =>
      exact ⟨fun _ _ _ => ⟨index, Function.update_self ..⟩, hmoved (fun _ => rfl) id fun _ => .inl rfl⟩
  | @connected index hserver =>
      exact ⟨nofun, hmoved id id fun _ => htold index (.inl hserver)⟩
  | _ => exact ⟨hpending, htold⟩

theorem Sound.step (hsound : Sound size process)
    (hstep : process.step action = some next) : Sound size next := by
  have hstepped := (step_eq_some hstep).2
  exact ⟨hsound.queued.stepped hstepped, hsound.apart.stepped hstepped,
    hsound.watched.stepped hstepped, hsound.stopping.stepped hstepped,
    hsound.knocking.stepped hstepped⟩

theorem Sound.steps {schedule : List (ProcessAction κ count)} (hsound : Sound size process)
    (hsteps : process.steps schedule = some next) : Sound size next := by
  refine Schedule.runs_keep (Sound size) ?_ (fun action _ => trivial) hsound hsteps
  exact fun action process next _ hsound hstep => hsound.step hstep

/-- However the threads interleave, the admitted connections are the ones handed over,
in their order, then those in the queue, then the one that is being pushed; and no two
threads serve the same. -/
theorem connections_handed_over [Inhabited κ] {schedule : List (ProcessAction κ count)}
    (hsteps : (start count size).steps schedule = some process) :
    process.accepted = process.handed ++ process.sockets.object.toList ++ process.main.held ∧
      process.sockets.object.toList.length ≤ size ∧
      (∀ index number, process.server index = .serving number →
        number < process.handed.length) ∧
      ∀ index other number, process.server index = .serving number →
        process.server other = .serving number → index = other := by
  have hsound := (sound_start count size).steps hsteps
  refine ⟨hsound.queued.accepted, ?_, hsound.apart.number_lt, hsound.apart.unique⟩
  have hlt := process.sockets.object.size_lt
  rw [CircularVector.length_toList]
  have hcapacity := hsound.queued.capacity
  omega

end Steps

end Process

end PdsBackup.Server
