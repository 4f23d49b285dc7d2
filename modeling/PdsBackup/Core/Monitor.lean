import Mathlib.Logic.Function.Basic
import Mathlib.Tactic.Common

/-!
# Monitors

Threads share an object that a mutex guards.  A thread that cannot be served yet
gives up the mutex and falls asleep on a condition variable until it is notified;
then it tries again.  Between the moment it finds that it has to wait and the moment
it sleeps it holds the mutex: whoever changes the object under the mutex cannot come
in between, but whoever changes something else can, and its notification is lost.
-/

namespace PdsBackup

/-- Where a thread is in its call. -/
inductive Stance where
  | outside
  | entering
  | asleep
  deriving DecidableEq

def Stance.notified (woken : Bool) : Stance → Stance
  | .asleep => if woken then .entering else .asleep
  | stance => stance

/-- A call that is served takes one step, so only a thread that is about to fall
asleep is ever seen to hold the mutex. -/
structure Monitor (ι σ : Type) where
  object : σ
  stance : ι → Stance
  holder : Option ι
  entering_of_holder : ∀ i, holder = some i → stance i = .entering

namespace Monitor

variable {ι σ : Type}

/-- Nobody has called yet. -/
def idle (object : σ) : Monitor ι σ where
  object
  stance _ := .outside
  holder := none
  entering_of_holder _ := nofun

/-- The thread has the mutex and finds that it has to wait. -/
def wait (i : ι) (monitor : Monitor ι σ) : Option (Monitor ι σ) :=
  if hfree : monitor.holder = none ∧ monitor.stance i = .entering then
    some
      { object := monitor.object
        stance := monitor.stance
        holder := some i
        entering_of_holder := fun _ hholder => Option.some.inj hholder ▸ hfree.2 }
  else none

/-- A thread has the mutex for a change that it never waits for. -/
def change (object : σ) (woken : ι → Bool) (monitor : Monitor ι σ) : Option (Monitor ι σ) :=
  if monitor.holder = none then
    some
      { object
        stance := fun j => (monitor.stance j).notified (woken j)
        holder := none
        entering_of_holder := nofun }
  else none

/-- Wakes who sleeps, whether or not the mutex is held. -/
def notify (woken : ι → Bool) (monitor : Monitor ι σ) : Monitor ι σ where
  object := monitor.object
  stance i := (monitor.stance i).notified (woken i)
  holder := monitor.holder
  entering_of_holder i hholder := by
    rw [monitor.entering_of_holder i hholder]
    rfl

section Threads

variable [DecidableEq ι]

def call (i : ι) (monitor : Monitor ι σ) : Monitor ι σ where
  object := monitor.object
  stance := Function.update monitor.stance i .entering
  holder := monitor.holder
  entering_of_holder j hholder := by
    by_cases hj : j = i
    · rw [hj, Function.update_self]
    · rw [Function.update_of_ne hj]
      exact monitor.entering_of_holder j hholder

def sleep (i : ι) (monitor : Monitor ι σ) : Option (Monitor ι σ) :=
  if monitor.holder = some i then
    some
      { object := monitor.object
        stance := Function.update monitor.stance i .asleep
        holder := none
        entering_of_holder := nofun }
  else none

/-- The thread has the mutex, changes the object, notifies and leaves. -/
def serve (i : ι) (object : σ) (woken : ι → Bool) (monitor : Monitor ι σ) :
    Option (Monitor ι σ) :=
  if monitor.holder = none ∧ monitor.stance i = .entering then
    some
      { object
        stance := Function.update (fun j => (monitor.stance j).notified (woken j)) i .outside
        holder := none
        entering_of_holder := nofun }
  else none

/-- A thread may wake without having been notified. -/
def wake (i : ι) (monitor : Monitor ι σ) : Option (Monitor ι σ) :=
  if monitor.stance i = .asleep then some (monitor.call i) else none

end Threads

/-- The thread is in a call. -/
def Calls (monitor : Monitor ι σ) (i : ι) : Prop := monitor.stance i ≠ .outside

/-- The thread sleeps, or will before anyone else has the mutex. -/
def Waits (monitor : Monitor ι σ) (i : ι) : Prop :=
  monitor.stance i = .asleep ∨ monitor.holder = some i

/-- Whoever waits has to. -/
def Blocked (ready : ι → σ → Prop) (monitor : Monitor ι σ) : Prop :=
  ∀ i, monitor.Waits i → ¬ ready i monitor.object

def AtMostOneWaits (monitor : Monitor ι σ) : Prop :=
  ∀ i j, monitor.Waits i → monitor.Waits j → i = j

variable {ready : ι → σ → Prop} {monitor next : Monitor ι σ} {object : σ} {woken : ι → Bool}

/-- A thread that waits is not served. -/
theorem Waits.not_free {i : ι} (hwaits : monitor.Waits i) :
    ¬ (monitor.holder = none ∧ monitor.stance i = .entering) := by
  intro hfree
  cases hwaits with
  | inl hasleep => simp [hasleep] at hfree
  | inr hholder => simp [hholder] at hfree

theorem Waits.calls {i : ι} (hwaits : monitor.Waits i) : monitor.Calls i := by
  cases hwaits with
  | inl hasleep => simp [Calls, hasleep]
  | inr hholder => simp [Calls, monitor.entering_of_holder i hholder]

theorem not_waits_idle (object : σ) (i : ι) : ¬ (idle object : Monitor ι σ).Waits i := by
  intro hwaits
  exact hwaits.calls rfl

theorem blocked_idle (object : σ) : Blocked ready (idle object : Monitor ι σ) :=
  fun i hwaits => absurd hwaits (not_waits_idle object i)

/-! ## Who waits after a step -/

theorem waits_of_notify {j : ι} (hwaits : (monitor.notify woken).Waits j) :
    monitor.Waits j ∧ (monitor.stance j = .asleep → woken j = false) := by
  cases hwaits with
  | inr hholder =>
      refine ⟨.inr hholder, fun hasleep => ?_⟩
      simp [monitor.entering_of_holder j hholder] at hasleep
  | inl hasleep =>
      change (monitor.stance j).notified (woken j) = .asleep at hasleep
      cases hstance : monitor.stance j <;> cases hwoken : woken j <;>
        simp [Stance.notified, hstance, hwoken] at hasleep
      exact ⟨.inl hstance, fun _ => rfl⟩

theorem Stance.notified_eq_outside_iff (woken : Bool) (stance : Stance) :
    stance.notified woken = .outside ↔ stance = .outside := by
  cases stance <;> cases woken <;> simp [Stance.notified]

theorem calls_notify_iff (woken : ι → Bool) (j : ι) :
    (monitor.notify woken).Calls j ↔ monitor.Calls j :=
  not_congr (Stance.notified_eq_outside_iff _ _)

/-- Whoever still waits was about to fall asleep when everyone was woken. -/
theorem holder_of_notify_all {j : ι} (hwaits : (monitor.notify fun _ => true).Waits j) :
    monitor.holder = some j := by
  cases waits_of_notify hwaits with
  | intro hbefore hasleep =>
      cases hbefore with
      | inl hstance => exact absurd (hasleep hstance) (by simp)
      | inr hholder => exact hholder

theorem wait_eq_some {i : ι} (hwait : monitor.wait i = some next) :
    monitor.holder = none ∧ monitor.stance i = .entering ∧ next.object = monitor.object ∧
      next.stance = monitor.stance ∧ next.holder = some i := by
  rw [wait] at hwait
  split at hwait
  · rename_i hfree
    obtain rfl := Option.some.inj hwait
    exact ⟨hfree.1, hfree.2, rfl, rfl, rfl⟩
  · cases hwait

theorem waits_of_wait {i j : ι} (hwait : monitor.wait i = some next) (hwaits : next.Waits j) :
    monitor.Waits j ∨ j = i := by
  obtain ⟨-, -, -, hstance, hholder⟩ := wait_eq_some hwait
  cases hwaits with
  | inl hasleep => exact .inl (.inl (hstance ▸ hasleep))
  | inr hown => exact .inr (Option.some.inj (hown.symm.trans hholder))

theorem change_eq_some (hchange : monitor.change object woken = some next) :
    monitor.holder = none ∧ next.object = object ∧
      next.stance = (fun j => (monitor.stance j).notified (woken j)) ∧ next.holder = none := by
  rw [change] at hchange
  split at hchange
  · rename_i hfree
    obtain rfl := Option.some.inj hchange
    exact ⟨hfree, rfl, rfl, rfl⟩
  · cases hchange

theorem calls_change_iff {j : ι} (hchange : monitor.change object woken = some next) :
    next.Calls j ↔ monitor.Calls j := by
  rw [Calls, (change_eq_some hchange).2.2.1]
  exact not_congr (Stance.notified_eq_outside_iff _ _)

theorem waits_of_change {j : ι} (hchange : monitor.change object woken = some next)
    (hwaits : next.Waits j) : monitor.Waits j ∧ woken j = false := by
  obtain ⟨-, -, hstance, hnone⟩ := change_eq_some hchange
  cases hwaits with
  | inr hown => simp [hnone] at hown
  | inl hasleep =>
      rw [hstance] at hasleep
      cases hbefore : monitor.stance j <;> cases hwoken : woken j <;>
        simp [Stance.notified, hbefore, hwoken] at hasleep
      exact ⟨.inl hbefore, rfl⟩

theorem calls_wait_iff {i j : ι} (hwait : monitor.wait i = some next) :
    next.Calls j ↔ monitor.Calls j := by
  rw [Calls, (wait_eq_some hwait).2.2.2.1, Calls]

section Threads

variable [DecidableEq ι] {i j : ι}

theorem object_call : (monitor.call i).object = monitor.object := rfl

theorem calls_call_iff : (monitor.call i).Calls j ↔ monitor.Calls j ∨ j = i := by
  change Function.update monitor.stance i .entering j ≠ .outside ↔ _
  by_cases hj : j = i
  · simp [hj]
  · simp [Calls, hj]

theorem waits_of_call (hwaits : (monitor.call i).Waits j) : monitor.Waits j := by
  cases hwaits with
  | inr hholder => exact .inr hholder
  | inl hasleep =>
      change Function.update monitor.stance i .entering j = .asleep at hasleep
      by_cases hj : j = i
      · simp [hj] at hasleep
      · rw [Function.update_of_ne hj] at hasleep
        exact .inl hasleep

theorem sleep_eq_some (hsleep : monitor.sleep i = some next) :
    monitor.holder = some i ∧ next.object = monitor.object ∧
      next.stance = Function.update monitor.stance i .asleep ∧ next.holder = none := by
  rw [sleep] at hsleep
  split at hsleep
  · rename_i hholder
    obtain rfl := Option.some.inj hsleep
    exact ⟨hholder, rfl, rfl, rfl⟩
  · cases hsleep

theorem calls_sleep_iff (hsleep : monitor.sleep i = some next) : next.Calls j ↔ monitor.Calls j := by
  obtain ⟨hholder, -, hstance, -⟩ := sleep_eq_some hsleep
  rw [Calls, hstance, Calls]
  by_cases hj : j = i
  · simp [hj, monitor.entering_of_holder i hholder]
  · rw [Function.update_of_ne hj]

theorem waits_of_sleep (hsleep : monitor.sleep i = some next) (hwaits : next.Waits j) :
    monitor.Waits j := by
  obtain ⟨hholder, -, hstance, hnone⟩ := sleep_eq_some hsleep
  cases hwaits with
  | inr hown => simp [hnone] at hown
  | inl hasleep =>
      by_cases hj : j = i
      · exact .inr (hj ▸ hholder)
      · rw [hstance, Function.update_of_ne hj] at hasleep
        exact .inl hasleep

/-- Falling asleep ends nobody's wait. -/
theorem Waits.sleep (hwaits : monitor.Waits j) (hsleep : monitor.sleep i = some next) :
    next.Waits j := by
  obtain ⟨hholder, -, hstance, -⟩ := sleep_eq_some hsleep
  by_cases hj : j = i
  · exact .inl (by rw [hstance, hj, Function.update_self])
  · cases hwaits with
    | inl hasleep => exact .inl (by rw [hstance, Function.update_of_ne hj, hasleep])
    | inr hown => exact absurd (Option.some.inj (hown.symm.trans hholder)) hj

theorem serve_eq_some (hserve : monitor.serve i object woken = some next) :
    monitor.holder = none ∧ monitor.stance i = .entering ∧ next.object = object ∧
      next.stance =
        Function.update (fun j => (monitor.stance j).notified (woken j)) i .outside ∧
      next.holder = none := by
  rw [serve] at hserve
  split at hserve
  · rename_i hfree
    obtain rfl := Option.some.inj hserve
    exact ⟨hfree.1, hfree.2, rfl, rfl, rfl⟩
  · cases hserve

theorem calls_serve_iff (hserve : monitor.serve i object woken = some next) :
    next.Calls j ↔ monitor.Calls j ∧ j ≠ i := by
  obtain ⟨-, -, -, hstance, -⟩ := serve_eq_some hserve
  rw [Calls, hstance, Calls]
  by_cases hj : j = i
  · simp [hj]
  · rw [Function.update_of_ne hj, Ne, Stance.notified_eq_outside_iff]
    simp [hj]

theorem waits_of_serve (hserve : monitor.serve i object woken = some next)
    (hwaits : next.Waits j) : monitor.Waits j ∧ woken j = false ∧ j ≠ i := by
  obtain ⟨-, -, -, hstance, hnone⟩ := serve_eq_some hserve
  cases hwaits with
  | inr hown => simp [hnone] at hown
  | inl hasleep =>
      by_cases hj : j = i
      · simp [hstance, hj] at hasleep
      · rw [hstance, Function.update_of_ne hj] at hasleep
        cases hbefore : monitor.stance j <;> cases hwoken : woken j <;>
          simp [Stance.notified, hbefore, hwoken] at hasleep
        exact ⟨.inl hbefore, rfl, hj⟩

theorem wake_eq_some (hwake : monitor.wake i = some next) :
    monitor.stance i = .asleep ∧ next = monitor.call i := by
  rw [wake] at hwake
  split at hwake
  · rename_i hasleep
    exact ⟨hasleep, (Option.some.inj hwake).symm⟩
  · cases hwake

end Threads

theorem calls_wake_iff [DecidableEq ι] {i j : ι} (hwake : monitor.wake i = some next) :
    next.Calls j ↔ monitor.Calls j := by
  obtain ⟨hasleep, rfl⟩ := wake_eq_some hwake
  rw [calls_call_iff]
  refine ⟨fun h => h.elim id fun hj => ?_, .inl⟩
  simp [Calls, hj, hasleep]

/-! ## No notification is lost under the mutex -/

theorem Blocked.wait {i : ι} (hblocked : monitor.Blocked ready) (hwait : monitor.wait i = some next)
    (hunready : ¬ ready i monitor.object) : next.Blocked ready := by
  intro j hwaits
  rw [(wait_eq_some hwait).2.2.1]
  cases waits_of_wait hwait hwaits with
  | inl hbefore => exact hblocked j hbefore
  | inr hj => exact hj ▸ hunready

theorem Blocked.change (hblocked : monitor.Blocked ready)
    (hchange : monitor.change object woken = some next)
    (hwoken : ∀ j, ready j object → ready j monitor.object ∨ woken j = true) :
    next.Blocked ready := by
  intro j hwaits hready
  obtain ⟨hbefore, hnot⟩ := waits_of_change hchange hwaits
  rw [(change_eq_some hchange).2.1] at hready
  cases hwoken j hready with
  | inl hold => exact hblocked j hbefore hold
  | inr hyes => simp [hnot] at hyes

theorem Blocked.notify (hblocked : monitor.Blocked ready) (woken : ι → Bool) :
    (monitor.notify woken).Blocked ready :=
  fun j hwaits => hblocked j (waits_of_notify hwaits).1

section Threads

variable [DecidableEq ι] {i : ι}

theorem Blocked.call (hblocked : monitor.Blocked ready) : (monitor.call i).Blocked ready :=
  fun j hwaits => hblocked j (waits_of_call hwaits)

theorem Blocked.sleep (hblocked : monitor.Blocked ready) (hsleep : monitor.sleep i = some next) :
    next.Blocked ready := by
  intro j hwaits
  rw [(sleep_eq_some hsleep).2.1]
  exact hblocked j (waits_of_sleep hsleep hwaits)

/-- A change that makes others ready wakes them. -/
theorem Blocked.serve (hblocked : monitor.Blocked ready)
    (hserve : monitor.serve i object woken = some next)
    (hwoken : ∀ j, ready j object → ready j monitor.object ∨ woken j = true) :
    next.Blocked ready := by
  intro j hwaits hready
  obtain ⟨hbefore, hnot, -⟩ := waits_of_serve hserve hwaits
  rw [(serve_eq_some hserve).2.2.1] at hready
  cases hwoken j hready with
  | inl hold => exact hblocked j hbefore hold
  | inr hyes => simp [hnot] at hyes

theorem Blocked.wake (hblocked : monitor.Blocked ready) (hwake : monitor.wake i = some next) :
    next.Blocked ready := by
  rw [(wake_eq_some hwake).2]
  exact hblocked.call

end Threads

/-! ## One notification can be lost outside of it -/

/-- When everyone is woken, at most the holder of the mutex falls asleep after all. -/
theorem atMostOneWaits_notify_all (monitor : Monitor ι σ) :
    (monitor.notify fun _ => true).AtMostOneWaits := fun _ _ hi hj =>
  Option.some.inj ((holder_of_notify_all hi).symm.trans (holder_of_notify_all hj))

section Threads

variable [DecidableEq ι] {i : ι}

theorem AtMostOneWaits.call (hone : monitor.AtMostOneWaits) : (monitor.call i).AtMostOneWaits :=
  fun j k hj hk => hone j k (waits_of_call hj) (waits_of_call hk)

theorem AtMostOneWaits.sleep (hone : monitor.AtMostOneWaits)
    (hsleep : monitor.sleep i = some next) : next.AtMostOneWaits :=
  fun j k hj hk => hone j k (waits_of_sleep hsleep hj) (waits_of_sleep hsleep hk)

theorem AtMostOneWaits.serve (hone : monitor.AtMostOneWaits)
    (hserve : monitor.serve i object woken = some next) : next.AtMostOneWaits :=
  fun j k hj hk => hone j k (waits_of_serve hserve hj).1 (waits_of_serve hserve hk).1

theorem AtMostOneWaits.wake (hone : monitor.AtMostOneWaits)
    (hwake : monitor.wake i = some next) : next.AtMostOneWaits := by
  rw [(wake_eq_some hwake).2]
  exact hone.call

end Threads

/-! ## A call comes to rest -/

section Effort

variable [DecidableEq ι] {i j : ι}

/-- The steps a thread can take before it rests, unless it is woken. -/
def effort (monitor : Monitor ι σ) (i : ι) : Nat :=
  match monitor.stance i with
  | .entering => if monitor.holder = some i then 1 else 2
  | _ => 0

theorem effort_le (monitor : Monitor ι σ) (i : ι) : monitor.effort i ≤ 2 := by
  rw [effort]
  split
  · split <;> omega
  · omega

theorem effort_notify_le (woken : ι → Bool) (j : ι) :
    (monitor.notify woken).effort j ≤ monitor.effort j + 2 :=
  Nat.le_trans (effort_le _ j) (Nat.le_add_left 2 _)

theorem effort_call (houtside : monitor.stance i = .outside) : (monitor.call i).effort i = 2 := by
  have hholder : monitor.holder ≠ some i := by
    intro hholder
    simp [monitor.entering_of_holder i hholder] at houtside
  simp [effort, call, hholder]

theorem effort_call_of_ne (hj : j ≠ i) : (monitor.call i).effort j = monitor.effort j := by
  have hstance : (monitor.call i).stance j = monitor.stance j := Function.update_of_ne hj ..
  rw [effort, hstance]
  rfl

theorem effort_wait (hwait : monitor.wait i = some next) :
    monitor.effort i = 2 ∧ next.effort i = 1 := by
  obtain ⟨hnone, hentering, -, hstance, hholder⟩ := wait_eq_some hwait
  simp [effort, hnone, hentering, hstance, hholder]

theorem effort_wait_of_ne (hwait : monitor.wait i = some next) (hj : j ≠ i) :
    next.effort j = monitor.effort j := by
  obtain ⟨hnone, -, -, hstance, hholder⟩ := wait_eq_some hwait
  simp [effort, hnone, hstance, hholder, hj.symm]

theorem effort_sleep (hsleep : monitor.sleep i = some next) :
    monitor.effort i = 1 ∧ next.effort i = 0 := by
  obtain ⟨hholder, -, hstance, -⟩ := sleep_eq_some hsleep
  simp [effort, hholder, hstance, monitor.entering_of_holder i hholder]

theorem effort_sleep_of_ne (hsleep : monitor.sleep i = some next) (hj : j ≠ i) :
    next.effort j = monitor.effort j := by
  obtain ⟨hholder, -, hstance, hnone⟩ := sleep_eq_some hsleep
  simp [effort, hholder, hstance, hnone, hj, hj.symm]

theorem effort_serve (hserve : monitor.serve i object woken = some next) :
    monitor.effort i = 2 ∧ next.effort i = 0 := by
  obtain ⟨hnone, hentering, -, hstance, -⟩ := serve_eq_some hserve
  simp [effort, hnone, hentering, hstance]

/-- Only those that are woken have more to do. -/
theorem effort_serve_of_ne (hserve : monitor.serve i object woken = some next) (hj : j ≠ i) :
    next.effort j ≤ monitor.effort j + if woken j = true then 2 else 0 := by
  obtain ⟨hfree, -, -, hstance, hnone⟩ := serve_eq_some hserve
  have hsame : next.stance j = (monitor.stance j).notified (woken j) := by
    rw [hstance, Function.update_of_ne hj]
  cases hbefore : monitor.stance j <;> cases hwoken : woken j <;>
    simp [effort, hfree, hnone, hsame, hbefore, Stance.notified, hwoken]

end Effort

end Monitor

end PdsBackup
