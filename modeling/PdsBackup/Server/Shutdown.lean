import PdsBackup.Server.Dispatch
import Mathlib.Algebra.BigOperators.Fin
import Mathlib.Algebra.Order.BigOperators.Group.Finset

/-!
# How the server stops

Where the threads of the server can all be at rest.  Besides a server that waits for a
client and one that has returned there are two: the main thread cannot push a
connection that nobody will take, because every other thread has failed, and it never
looks at its flag; or a thread fell asleep just when it was to be woken, and the main
thread waits for it.
-/

namespace PdsBackup.Server

variable {κ : Type} {count size : Nat}

namespace Process

variable {process next : Process κ count}

/-- Nothing can happen by itself. -/
def Stuck [MoveFrom κ] (process : Process κ count) : Prop :=
  ∀ action : ProcessAction κ count, action.own = true → process.step action = none

/-- Everyone waits for a client. -/
structure Idle (process : Process κ count) : Prop where
  main : process.main = .accepting
  pending : process.pending = 0
  mainStop : process.mainStop = false
  asleep : ∀ index, process.sockets.stance (.server index) = .asleep

def Over (process : Process κ count) : Prop := ∃ status, process.main = .returned status

/-- A connection waits for room, and no thread is left to make it. -/
structure Overfull (size : Nat) (process : Process κ count) : Prop where
  pushing : ∃ peer, process.main = .pushing peer
  asleep : process.sockets.stance .main = .asleep
  left : ∀ index, process.server index = .returned ∨
    size = 0 ∧ process.sockets.stance (.server index) = .asleep

/-- A thread sleeps that is to be joined. -/
def Forgotten (process : Process κ count) : Prop :=
  ∃ status index, process.main = .joining status index.val ∧
    process.sockets.stance (.server index) = .asleep ∧
    ∀ other, other ≠ index → process.server other = .returned

/-- Where a thread can be that has nothing to do. -/
def Rests (process : Process κ count) (index : Fin count) : Prop :=
  process.server index = .returned ∨ process.sockets.stance (.server index) = .asleep

/-- Nobody holds the mutex where everyone rests. -/
theorem rests_sleep (hsound : Sound size process) (hrests : ∀ index, process.Rests index)
    (hmain : process.sockets.stance .main ≠ .entering) (thread : Thread count) :
    process.sockets.sleep thread = none := by
  rw [Monitor.sleep, if_neg]
  intro hholder
  have hentering := process.sockets.entering_of_holder thread hholder
  cases thread with
  | main => exact hmain hentering
  | server index =>
      cases hrests index with
      | inr hasleep => simp [hasleep] at hentering
      | inl hreturned =>
          have hcalls := (hsound.watched.server_calls index).mp (by simp [Monitor.Calls, hentering])
          simp [hreturned] at hcalls

theorem rests_not_serving (hsound : Sound size process) {index : Fin count}
    (hrests : process.Rests index) (number : Nat) : process.server index ≠ .serving number := by
  cases hrests with
  | inl hreturned => simp [hreturned]
  | inr hasleep =>
      have htaking := (hsound.watched.server_calls index).mp (by simp [Monitor.Calls, hasleep])
      simp [htaking]

theorem main_outside (hsound : Sound size process) (hheld : process.main.held = []) :
    process.sockets.stance .main = .outside := by
  by_contra houtside
  exact hsound.watched.main_calls.mp houtside hheld

/-- While the queue has room for one, a thread cannot wait on either side of it at once. -/
theorem size_eq_zero (hsound : Sound size process) (hmain : process.sockets.Waits .main)
    {index : Fin count} (hserver : process.sockets.Waits (.server index)) : size = 0 := by
  have hfull : process.sockets.object.full = true :=
    Bool.not_eq_false _ ▸ hsound.watched.blocked _ hmain
  have hempty : process.sockets.object.empty = true :=
    Bool.not_eq_false _ ▸ hsound.watched.blocked _ hserver
  rw [CircularVector.full_eq_true_iff] at hfull
  rw [CircularVector.empty_eq_true_iff] at hempty
  have hcapacity := hsound.queued.capacity
  omega

/-- A thread has returned only once something has stopped. -/
theorem mainStop_of_returned (hsound : Sound size process)
    (hstop : process.serverThreadsStop = false) {index : Fin count}
    (hreturned : process.server index = .returned) : process.mainStop = true := by
  cases hsound.knocking.told index (.inr hreturned) with
  | inl hmain => exact hmain
  | inr hserver => simp [hstop] at hserver

section Steps

variable [MoveFrom κ]

theorem Stuck.holder (hstuck : Stuck process) (hterminated : process.terminated = false) :
    process.sockets.holder = none := by
  cases hholder : process.sockets.holder with
  | none => rfl
  | some thread =>
      have hnone := hstuck (.sleep thread) rfl
      simp [Process.step, hterminated, Monitor.sleep, hholder] at hnone

theorem Stuck.rests (hsound : Sound size process) (hstuck : Stuck process)
    (hterminated : process.terminated = false) (index : Fin count) : process.Rests index := by
  have hfree := hstuck.holder hterminated
  have hturn := hstuck (.turn (.server index)) rfl
  have hclose := hstuck (.close index) rfl
  simp only [Process.step, hterminated, Bool.false_eq_true, if_false] at hturn hclose
  cases hserver : process.server index with
  | checking =>
      simp only [serverTurn, hserver] at hturn
      split at hturn <;> cases hturn
  | taking =>
      cases hstance : process.sockets.stance (.server index) with
      | outside => exact absurd hstance ((hsound.watched.server_calls index).mpr hserver)
      | asleep => exact .inr hstance
      | entering =>
          simp only [serverTurn, hserver, Monitor.serve, Monitor.wait, hfree, hstance, and_self,
            if_true, dite_true] at hturn
          split at hturn
          · simp at hturn
          · split at hturn <;> simp at hturn
  | serving number => simp [hserver] at hclose
  | failed => simp [serverTurn, hserver] at hturn
  | connecting => simp [serverTurn, hserver] at hturn
  | returned => exact .inl hserver

theorem rests_serverTurn (hsound : Sound size process) {index : Fin count}
    (hrests : process.Rests index) : process.serverTurn index = none := by
  cases hrests with
  | inl hreturned => simp [serverTurn, hreturned]
  | inr hasleep =>
      have htaking := (hsound.watched.server_calls index).mp (by simp [Monitor.Calls, hasleep])
      simp only [serverTurn, htaking, Monitor.serve, Monitor.wait, hasleep, reduceCtorEq, and_false,
        if_false, dite_false, Option.map_none]
      split
      · rfl
      · split <;> rfl

/-- Nothing happens where the main thread cannot go on and everyone else rests. -/
theorem stuck_of_rests (hsound : Sound size process) (hrests : ∀ index, process.Rests index)
    (hmain : process.sockets.stance .main ≠ .entering) (hturn : process.mainTurn = none)
    (haccept : process.main = .accepting → process.pending = 0) : Stuck process := by
  intro action hown
  cases hterminated : process.terminated with
  | true => simp [Process.step, hterminated]
  | false =>
      simp only [Process.step, hterminated, Bool.false_eq_true, if_false]
      cases action with
      | accept peer =>
          simp only
          split
          · rename_i haccepting hpending
            simp [haccept haccepting] at hpending
          · rfl
      | turn thread =>
          cases thread with
          | main => exact hturn
          | server index => exact rests_serverTurn hsound (hrests index)
      | sleep thread => exact Option.map_eq_none_iff.mpr (rests_sleep hsound hrests hmain thread)
      | close index =>
          simp only
          split
          · rename_i hserver
            exact absurd hserver (rests_not_serving hsound (hrests index) _)
          · rfl
      | fail index =>
          simp only
          split
          · rename_i hserver
            exact absurd hserver (rests_not_serving hsound (hrests index) _)
          · rfl
      | _ => simp [ProcessAction.own] at hown

theorem Stuck.cases [Inhabited κ] (hsound : Sound size process) (hstuck : Stuck process)
    (hterminated : process.terminated = false) :
    process.Idle ∨ process.Over ∨ Overfull size process ∨ process.Forgotten := by
  have hrests := hstuck.rests hsound hterminated
  have hfree := hstuck.holder hterminated
  have hturn : process.mainTurn = none := by
    have hnone := hstuck (.turn .main) rfl
    simpa only [Process.step, hterminated, Bool.false_eq_true, if_false] using hnone
  cases hmain : process.main with
  | checking =>
      simp only [mainTurn, hmain] at hturn
      split at hturn <;> cases hturn
  | accepting =>
      have hpending : process.pending = 0 := by
        have hnone := hstuck (.accept default) rfl
        simp only [Process.step, hterminated, Bool.false_eq_true, if_false, hmain] at hnone
        cases hpending : process.pending with
        | zero => rfl
        | succ pending => simp [hpending] at hnone
      have hstop : process.serverThreadsStop = false := by
        rw [hsound.stopping.stored, hmain]
        rfl
      have hmainStop : process.mainStop = false := by
        cases hmainStop : process.mainStop with
        | false => rfl
        | true =>
            obtain ⟨index, hindex⟩ := hsound.knocking.pending hmain hmainStop hpending
            cases hrests index with
            | inl hreturned => simp [hindex] at hreturned
            | inr hasleep =>
                have htaking :=
                  (hsound.watched.server_calls index).mp (by simp [Monitor.Calls, hasleep])
                simp [hindex] at htaking
      refine .inl ⟨hmain, hpending, hmainStop, fun index => ?_⟩
      cases hrests index with
      | inr hasleep => exact hasleep
      | inl hreturned =>
          have htrue := mainStop_of_returned hsound hstop hreturned
          simp [hmainStop] at htrue
  | accepted peer =>
      simp only [mainTurn, hmain] at hturn
      split at hturn <;> cases hturn
  | pushing peer =>
      have hasleep : process.sockets.stance .main = .asleep := by
        cases hstance : process.sockets.stance .main with
        | outside =>
            exact absurd hstance (hsound.watched.main_calls.mpr (by simp [hmain, MainPhase.held]))
        | asleep => rfl
        | entering =>
            simp only [mainTurn, hmain, Monitor.serve, Monitor.wait, hfree, hstance, and_self,
              if_true, dite_true] at hturn
            split at hturn <;> simp at hturn
      refine .inr (.inr (.inl ⟨⟨peer, hmain⟩, hasleep, fun index => ?_⟩))
      cases hrests index with
      | inl hreturned => exact .inl hreturned
      | inr hserver => exact .inr ⟨size_eq_zero hsound (.inl hasleep) (.inl hserver), hserver⟩
  | storing status => simp [mainTurn, hmain] at hturn
  | notifying status => simp [mainTurn, hmain] at hturn
  | joining status joined =>
      simp only [mainTurn, hmain] at hturn
      split at hturn
      · rename_i hjoined
        split at hturn
        · cases hturn
        · rename_i hserver
          have hasleep := (hrests ⟨joined, hjoined⟩).resolve_left hserver
          refine .inr (.inr (.inr ⟨status, ⟨joined, hjoined⟩, hmain, hasleep, fun other hother => ?_⟩))
          cases hrests other with
          | inl hreturned => exact hreturned
          | inr hanother =>
              have hone := hsound.stopping.noticed (by simp [hmain, MainPhase.hasNotified])
              have hsame := hone _ _ (.inl hanother) (.inl hasleep)
              exact absurd (Thread.server.inj hsame) hother
      · cases hturn
  | returned status => exact .inr (.inl ⟨status, hmain⟩)

theorem Idle.stuck (hsound : Sound size process) (hidle : process.Idle) : Stuck process := by
  apply stuck_of_rests hsound fun index => .inr (hidle.asleep index)
  · simp [main_outside hsound (by rw [hidle.main]; rfl)]
  · simp [mainTurn, hidle.main]
  · exact fun _ => hidle.pending

theorem Over.stuck (hsound : Sound size process) (hover : process.Over) : Stuck process := by
  obtain ⟨status, hmain⟩ := hover
  apply stuck_of_rests hsound
  · exact fun index => .inl (hsound.stopping.joined index (by rw [hmain]; exact trivial))
  · simp [main_outside hsound (by rw [hmain]; rfl)]
  · simp [mainTurn, hmain]
  · simp [hmain]

theorem Overfull.stuck (hsound : Sound size process) (hoverfull : Overfull size process) :
    Stuck process := by
  obtain ⟨peer, hmain⟩ := hoverfull.pushing
  apply stuck_of_rests hsound
  · exact fun index => (hoverfull.left index).imp_right And.right
  · simp [hoverfull.asleep]
  · simp only [mainTurn, hmain, Monitor.serve, Monitor.wait, hoverfull.asleep, reduceCtorEq,
      and_false, if_false, dite_false, Option.map_none]
    split <;> rfl
  · simp [hmain]

theorem Forgotten.stuck (hsound : Sound size process) (hforgotten : process.Forgotten) :
    Stuck process := by
  obtain ⟨status, index, hmain, hasleep, hothers⟩ := hforgotten
  have htaking := (hsound.watched.server_calls index).mp (by simp [Monitor.Calls, hasleep])
  apply stuck_of_rests hsound
  · intro other
    by_cases hother : other = index
    · exact .inr (hother ▸ hasleep)
    · exact .inl (hothers other hother)
  · simp [main_outside hsound (by rw [hmain]; rfl)]
  · simp [mainTurn, hmain, htaking]
  · simp [hmain]

/-- However the threads got there: they are all at rest exactly in these states. -/
theorem server_stuck_iff [Inhabited κ] {schedule : List (ProcessAction κ count)}
    (hsteps : (start count size).steps schedule = some process)
    (hterminated : process.terminated = false) :
    Stuck process ↔
      process.Idle ∨ process.Over ∨ Overfull size process ∨ process.Forgotten := by
  have hsound := (sound_start count size).steps hsteps
  refine ⟨fun hstuck => hstuck.cases hsound hterminated, fun hcases => ?_⟩
  rcases hcases with hidle | hover | hoverfull | hforgotten
  · exact hidle.stuck hsound
  · exact hover.stuck hsound
  · exact hoverfull.stuck hsound
  · exact hforgotten.stuck hsound

end Steps

/-! ## Stopping comes to an end -/

end Process

def MainPhase.effort (count : Nat) : MainPhase κ → Nat
  | returned _ => 0
  | joining _ joined => count - joined + 1
  | notifying _ => 3 * count + 5
  | storing _ => 3 * count + 6
  | checking => 3 * count + 7
  | accepted _ => 3 * count + 7
  | accepting => 3 * count + 8
  | pushing _ => 5 * count + 12

/-- The main thread has left its loop. -/
def MainPhase.hasLeft : MainPhase κ → Bool
  | storing _ => true
  | notifying _ => true
  | joining _ _ => true
  | returned _ => true
  | _ => false

def ServerPhase.effort (count : Nat) : ServerPhase → Nat
  | returned => 0
  | connecting => 1
  | failed => 2
  | taking => 2 * count + 3
  | checking => 2 * count + 6
  | serving _ => 2 * count + 7

namespace Process

/-- What a thread may still have to do, which is less if it rests. -/
def serverEffort (process : Process κ count) (index : Fin count) : Nat :=
  (process.server index).effort count + process.sockets.effort (.server index)

/-- What else there is to do: each connection in the queue will be taken. -/
def otherEffort (process : Process κ count) : Nat :=
  process.main.effort count + process.sockets.effort .main +
    5 * process.sockets.object.size + if process.terminated then 0 else 1

/-- A bound on what the threads do before they rest, once they are to stop. -/
def effort (process : Process κ count) : Nat :=
  process.otherEffort + ∑ index, process.serverEffort index

/-- Somebody wants the server to stop. -/
def Requested (process : Process κ count) : Prop :=
  process.mainStop = true ∨ process.main.hasLeft = true

theorem sum_of_others {count : Nat} {before after : Fin count → Nat} {more : Nat} (index : Fin count)
    (hothers : ∀ other, other ≠ index → after other ≤ before other + more) :
    ∑ other, after other + before index ≤ ∑ other, before other + after index + count * more := by
  classical
  have hsum : ∑ other ∈ Finset.univ.erase index, after other ≤
      ∑ other ∈ Finset.univ.erase index, before other + count * more := by
    calc ∑ other ∈ Finset.univ.erase index, after other
        ≤ ∑ other ∈ Finset.univ.erase index, (before other + more) :=
          Finset.sum_le_sum fun other hother => hothers other (Finset.ne_of_mem_erase hother)
      _ = ∑ other ∈ Finset.univ.erase index, before other +
            (Finset.univ.erase index).card * more := by
          rw [Finset.sum_add_distrib, Finset.sum_const, smul_eq_mul]
      _ ≤ _ := by
          apply Nat.add_le_add_left
          apply Nat.mul_le_mul_right
          calc (Finset.univ.erase index).card ≤ Finset.univ.card := Finset.card_erase_le
            _ = count := Finset.card_fin count
  have hafter := Finset.add_sum_erase Finset.univ after (Finset.mem_univ index)
  have hbefore := Finset.add_sum_erase Finset.univ before (Finset.mem_univ index)
  omega

variable {process next : Process κ count} {action : ProcessAction κ count}

theorem effort_lt_of_server (index : Fin count) (more : Nat)
    (hothers : ∀ other, other ≠ index →
      next.serverEffort other ≤ process.serverEffort other + more)
    (hown : next.otherEffort + next.serverEffort index + count * more <
      process.otherEffort + process.serverEffort index) : next.effort < process.effort := by
  have hsum := sum_of_others index hothers
  rw [effort, effort]
  omega

theorem effort_lt_of_main (more : Nat)
    (hservers : ∀ index, next.serverEffort index ≤ process.serverEffort index + more)
    (hother : next.otherEffort + count * more < process.otherEffort) :
    next.effort < process.effort := by
  have hsum : ∑ index, next.serverEffort index ≤
      ∑ index, process.serverEffort index + count * more := by
    calc ∑ index, next.serverEffort index
        ≤ ∑ index, (process.serverEffort index + more) :=
          Finset.sum_le_sum fun index _ => hservers index
      _ = _ := by simp [Finset.sum_add_distrib]
  rw [effort, effort]
  omega

theorem serverEffort_le {index : Fin count} {more : Nat}
    (hserver : next.server index = process.server index)
    (hsockets : next.sockets.effort (.server index) ≤
      process.sockets.effort (.server index) + more) :
    next.serverEffort index ≤ process.serverEffort index + more := by
  rw [serverEffort, serverEffort, hserver]
  omega

theorem server_moved_of_ne {index other : Fin count} {phase : ServerPhase} (hother : other ≠ index) :
    (process.moved index phase).server other = process.server other :=
  Function.update_of_ne hother ..

section Steps

variable [MoveFrom κ]

theorem Stepped.effort_lt (hsound : Sound size process) (hrequested : process.Requested)
    (hterminated : process.terminated = false) (hstepped : Stepped process action next)
    (harrives : action.arrives = false) (hwakes : action.wakes = false) :
    next.effort < process.effort := by
  cases hstepped with
  | arrived => cases harrives
  | woke => cases hwakes
  | accepted hmain | refused hmain | stopped hmain | dropped hmain | stored hmain
  | returned hmain =>
      apply effort_lt_of_main 0
      · exact fun _ => Nat.le_refl _
      · simp only [otherEffort, hmain, MainPhase.effort]
        omega
  | joined hmain =>
      apply effort_lt_of_main 0
      · exact fun _ => Nat.le_refl _
      · simp only [otherEffort, hmain, MainPhase.effort]
        omega
  | accepts hmain hgo => simp [Requested, hgo, hmain, MainPhase.hasLeft] at hrequested
  | admitted hmain hgo => simp [Requested, hgo, hmain, MainPhase.hasLeft] at hrequested
  | waited hmain hfull hwait =>
      apply effort_lt_of_main 0
      · exact fun index => serverEffort_le rfl
          (Nat.le_of_eq (Monitor.effort_wait_of_ne hwait (Thread.main_ne index).symm))
      · have heffort := Monitor.effort_wait hwait
        have hobject := (Monitor.wait_eq_some hwait).2.2.1
        simp only [otherEffort, hobject]
        omega
  | pushed hmain hfull hserve =>
      apply effort_lt_of_main 2
      · exact fun index => serverEffort_le rfl (Monitor.effort_serve_of_ne hserve (Thread.main_ne index).symm)
      · have heffort := Monitor.effort_serve hserve
        have hobject := (Monitor.serve_eq_some hserve).2.2.1
        simp only [otherEffort, hobject, hmain, MainPhase.effort,
          CircularVector.size_push _ hfull]
        omega
  | notified hmain =>
      apply effort_lt_of_main 2
      · exact fun index => serverEffort_le rfl (Monitor.effort_notify_le _ _)
      · have heffort : (process.sockets.notify fun _ => true).effort .main ≤ _ :=
          Monitor.effort_notify_le _ _
        simp only [otherEffort, hmain, MainPhase.effort, Monitor.notify] at heffort ⊢
        omega
  | @quit index hserver | @closed index number hserver | @failed index number hserver =>
      apply effort_lt_of_server index 0
      · exact fun other hother => serverEffort_le (server_moved_of_ne hother) (Nat.le_refl _)
      · simp only [serverEffort, Function.update_self, otherEffort, moved, hserver,
          ServerPhase.effort, hterminated, Bool.false_eq_true, if_false]
        omega
  | @stopsMain index hserver | @connected index hserver =>
      apply effort_lt_of_server index 0
      · exact fun other hother => serverEffort_le (server_moved_of_ne hother) (Nat.le_refl _)
      · simp only [serverEffort, Function.update_self, otherEffort, moved, hserver,
          ServerPhase.effort, hterminated, Bool.false_eq_true, if_false]
        omega
  | @takes index hserver hgo =>
      have houtside : process.sockets.stance (.server index) = .outside := by
        by_contra hcalls
        simp [(hsound.watched.server_calls index).mp hcalls] at hserver
      have hown := Monitor.effort_call houtside
      have hmain : (process.sockets.call (.server index)).effort .main = _ :=
        Monitor.effort_call_of_ne (Thread.main_ne index)
      apply effort_lt_of_server index 0
      · exact fun other hother => serverEffort_le (server_moved_of_ne hother)
          (Nat.le_of_eq (Monitor.effort_call_of_ne (by simp [hother])))
      · simp only [serverEffort, Function.update_self, otherEffort, moved, hserver, hown, hmain,
          ServerPhase.effort, hterminated, Bool.false_eq_true, if_false, Monitor.object_call]
        omega
  | @tookNothing index sockets hserver hstop hserve =>
      have hown := Monitor.effort_serve hserve
      have hmain := Monitor.effort_serve_of_ne hserve (Thread.main_ne index)
      have hobject := (Monitor.serve_eq_some hserve).2.2.1
      apply effort_lt_of_server index 2
      · exact fun other hother => serverEffort_le (server_moved_of_ne hother)
          (Monitor.effort_serve_of_ne hserve (by simp [hother]))
      · simp only [serverEffort, Function.update_self, otherEffort, moved, hserver, hobject,
          ServerPhase.effort, hterminated, Bool.false_eq_true, if_false, if_true] at hmain ⊢
        omega
  | @serverWaited index sockets hserver hgo hempty hwait =>
      have hown := Monitor.effort_wait hwait
      have hmain := Monitor.effort_wait_of_ne hwait (Thread.main_ne index)
      have hobject := (Monitor.wait_eq_some hwait).2.2.1
      apply effort_lt_of_server index 0
      · exact fun other hother => serverEffort_le rfl
          (Nat.le_of_eq (Monitor.effort_wait_of_ne hwait (by simp [hother])))
      · simp only [serverEffort, otherEffort, hobject, hmain, hterminated, Bool.false_eq_true,
          if_false]
        omega
  | @took index sockets hserver hgo hempty hserve =>
      have hown := Monitor.effort_serve hserve
      have hmain := Monitor.effort_serve_of_ne hserve (Thread.main_ne index)
      have hobject := (Monitor.serve_eq_some hserve).2.2.1
      have hsize := CircularVector.size_pop hempty
      apply effort_lt_of_server index 0
      · exact fun other hother => serverEffort_le (server_moved_of_ne hother)
          (Monitor.effort_serve_of_ne hserve (by simp [hother]))
      · simp only [serverEffort, Function.update_self, otherEffort, moved, hserver, hobject,
          ServerPhase.effort, hterminated, Bool.false_eq_true, if_false, Thread.pushes, if_true]
          at hmain ⊢
        omega
  | @slept thread sockets hsleep =>
      have hown := Monitor.effort_sleep hsleep
      have hobject := (Monitor.sleep_eq_some hsleep).2.1
      cases thread with
      | main =>
          apply effort_lt_of_main 0
          · exact fun index => serverEffort_le rfl
              (Nat.le_of_eq (Monitor.effort_sleep_of_ne hsleep (Thread.main_ne index).symm))
          · simp only [otherEffort, hobject, hterminated, Bool.false_eq_true, if_false]
            omega
      | server index =>
          have hmain :=
            Monitor.effort_sleep_of_ne hsleep (Thread.main_ne index)
          apply effort_lt_of_server index 0
          · exact fun other hother => serverEffort_le rfl
              (Nat.le_of_eq (Monitor.effort_sleep_of_ne hsleep (by simp [hother])))
          · simp only [serverEffort, otherEffort, hobject, hmain, hterminated, Bool.false_eq_true,
              if_false]
            omega
  | @terminated index hserver =>
      apply effort_lt_of_main 0
      · exact fun _ => Nat.le_refl _
      · simp only [otherEffort, hterminated, Bool.false_eq_true, if_false, if_true]
        omega

/-- A stop is not taken back, and from then on no connection is admitted; once the
flag of the threads is stored, none is taken. -/
theorem Stepped.requested (hrequested : process.Requested)
    (hstepped : Stepped process action next) :
    next.Requested ∧ next.accepted = process.accepted := by
  cases hstepped with
  | accepts hmain hgo => simp [Requested, hgo, hmain, MainPhase.hasLeft] at hrequested
  | admitted hmain hgo => simp [Requested, hgo, hmain, MainPhase.hasLeft] at hrequested
  | accepted hmain | pushed hmain =>
      rw [Requested, hmain] at hrequested
      exact ⟨hrequested.imp_right nofun, rfl⟩
  | refused hmain | stopped hmain | dropped hmain | stored hmain | notified hmain
  | returned hmain => exact ⟨.inr rfl, rfl⟩
  | joined hmain => exact ⟨.inr rfl, rfl⟩
  | stopsMain => exact ⟨.inl rfl, rfl⟩
  | _ => exact ⟨hrequested, rfl⟩

theorem Stepped.handed_of_stop (hstop : process.serverThreadsStop = true)
    (hstepped : Stepped process action next) :
    next.serverThreadsStop = true ∧ next.handed = process.handed := by
  cases hstepped with
  | stored => exact ⟨rfl, rfl⟩
  | took hserver hgo => simp [hstop] at hgo
  | _ => exact ⟨hstop, rfl⟩

/-- A stop uses up what the threads have to do, unless a thread wakes by itself. -/
theorem spends_requested (size : Nat) :
    Schedule.Spends (step : ProcessAction κ count → _) (fun action => action.wakes = false)
      (fun action => !action.arrives) (fun process => Sound size process ∧ process.Requested)
      effort := by
  intro action process next hwakes hkept hstep
  obtain ⟨hterminated, hstepped⟩ := step_eq_some hstep
  refine ⟨⟨hkept.1.step hstep, (hstepped.requested hkept.2).1⟩, ?_⟩
  cases harrives : action.arrives with
  | true =>
      cases action <;> cases harrives
      cases hstepped
      exact Nat.le_refl _
  | false =>
      have hlt : next.effort + 1 ≤ process.effort :=
        hstepped.effort_lt hkept.1 hkept.2 hterminated harrives hwakes
      simpa [harrives] using hlt

theorem steps_requested {schedule : List (ProcessAction κ count)} (hrequested : process.Requested)
    (hsteps : process.steps schedule = some next) :
    next.Requested ∧ next.accepted = process.accepted := by
  refine Schedule.runs_keep (fun middle => middle.Requested ∧ middle.accepted = process.accepted)
    ?_ (fun action _ => trivial) ⟨hrequested, rfl⟩ hsteps
  intro action middle next _ hkept hstep
  obtain ⟨hnext, haccepted⟩ := (step_eq_some hstep).2.requested hkept.1
  exact ⟨hnext, haccepted.trans hkept.2⟩

theorem steps_stored {schedule : List (ProcessAction κ count)}
    (hstop : process.serverThreadsStop = true) (hsteps : process.steps schedule = some next) :
    next.serverThreadsStop = true ∧ next.handed = process.handed := by
  refine Schedule.runs_keep
    (fun middle => middle.serverThreadsStop = true ∧ middle.handed = process.handed)
    ?_ (fun action _ => trivial) ⟨hstop, rfl⟩ hsteps
  intro action middle next _ hkept hstep
  obtain ⟨hnext, hhanded⟩ := (step_eq_some hstep).2.handed_of_stop hkept.1
  exact ⟨hnext, hhanded.trans hkept.2⟩

/-- Once the server is to stop it admits no connection, and hands none over once the
threads are told.  Whatever the order, its threads come to rest, unless one wakes by
itself, and then it has returned, or hangs in one of two ways. -/
theorem server_shutdown_ends [Inhabited κ] {schedule more : List (ProcessAction κ count)}
    (hsteps : (start count size).steps schedule = some process) (hrequested : process.Requested)
    (hmore : process.steps more = some next) :
    ((∀ action ∈ more, action.wakes = false) →
        (more.filter fun action => !action.arrives).length ≤ process.effort) ∧
      next.accepted = process.accepted ∧
      (process.serverThreadsStop = true → next.handed = process.handed) ∧
      (Stuck next → next.terminated = false →
        next.Over ∨ Overfull size next ∨ next.Forgotten) := by
  have hsound := (sound_start count size).steps hsteps
  have hnext := steps_requested hrequested hmore
  refine ⟨fun hwakes => ?_, hnext.2, fun hstop => (steps_stored hstop hmore).2,
    fun hstuck hterminated => ?_⟩
  · have hspent := Schedule.runs_spend (spends_requested size) hwakes ⟨hsound, hrequested⟩ hmore
    exact Nat.le_trans (Nat.le_add_right _ _) hspent.2
  cases hstuck.cases (hsound.steps hmore) hterminated with
  | inr hcases => exact hcases
  | inl hidle =>
      have hnot := hnext.1
      simp [Requested, hidle.main, hidle.mainStop, MainPhase.hasLeft] at hnot

end Steps

/-! ## The two ways to hang -/

def client (number : Nat) : Peer := { socket := some number }

/-- `accept` raises while a thread has found the queue empty but does not sleep yet. -/
def forgetting : List (ProcessAction Peer 2) :=
  [.turn (.server 0), .turn (.server 0), .turn .main, .refuse, .turn .main, .turn .main,
    .sleep (.server 0), .turn (.server 1)]

theorem stuck_forgetting : ∃ process,
    (start 2 1).steps forgetting = some process ∧ Stuck process ∧ process.Forgotten := by
  have hruns : ((start 2 1).steps forgetting).any (fun process =>
      process.terminated = false && process.main = .joining 1 0 &&
        process.sockets.stance (.server 0) = .asleep && process.server 1 = .returned) = true := by
    decide
  simp only [Option.any_eq_true, Bool.and_eq_true, decide_eq_true_eq] at hruns
  obtain ⟨process, hsteps, ⟨⟨hterminated, hmain⟩, hasleep⟩, hreturned⟩ := hruns
  have hforgotten : process.Forgotten := by
    refine ⟨1, 0, hmain, hasleep, fun other hother => ?_⟩
    obtain rfl : other = 1 := by omega
    exact hreturned
  exact ⟨process, hsteps, (server_stuck_iff hsteps hterminated).mpr (.inr (.inr (.inr hforgotten))),
    hforgotten⟩

/-- Three clients connect to a server with one thread and room for one. -/
def crowding : List (ProcessAction Peer 1) :=
  [.arrive, .arrive, .arrive, .turn .main, .accept (client 0), .turn .main, .turn .main,
    .turn (.server 0), .turn (.server 0), .turn .main, .accept (client 1), .turn .main, .turn .main,
    .turn .main, .accept (client 2), .turn .main, .turn .main, .sleep .main]

theorem handed_over_crowding : ∃ process,
    (start 1 1).steps crowding = some process ∧ process.server 0 = .serving 0 ∧
      process.accepted = process.handed ++ process.sockets.object.toList ++ process.main.held ∧
        process.accepted.length = 3 := by
  have hruns : ((start 1 1).steps crowding).any (fun process =>
      process.server 0 = .serving 0 && process.accepted.length = 3) = true := by
    decide
  simp only [Option.any_eq_true, Bool.and_eq_true, decide_eq_true_eq] at hruns
  obtain ⟨process, hsteps, hserving, hlength⟩ := hruns
  exact ⟨process, hsteps, hserving, (connections_handed_over hsteps).1, hlength⟩

/-- The thread fails; nobody takes what is in the queue any more. -/
theorem shutdown_crowding : ∃ process next,
    (start 1 1).steps (crowding ++ [.fail 0, .turn (.server 0)]) = some process ∧
      process.steps [.turn (.server 0)] = some next ∧ Overfull 1 next ∧
        next.accepted = process.accepted := by
  have hruns : ((start 1 1).steps (crowding ++ [.fail 0, .turn (.server 0)])).any (fun process =>
      process.mainStop && (process.steps [.turn (.server 0)]).any (fun next =>
        next.main = .pushing (client 2) && next.sockets.stance .main = .asleep &&
          next.server 0 = .returned)) = true := by
    decide
  simp only [Option.any_eq_true, Bool.and_eq_true, decide_eq_true_eq] at hruns
  obtain ⟨process, hsteps, hstop, next, hmore, ⟨hmain, hasleep⟩, hreturned⟩ := hruns
  have hends := server_shutdown_ends hsteps (.inl hstop) hmore
  refine ⟨process, next, hsteps, hmore, ⟨⟨_, hmain⟩, hasleep, fun index => .inl ?_⟩, hends.2.1⟩
  obtain rfl : index = 0 := by omega
  exact hreturned

end Process

end PdsBackup.Server
