import PdsBackup.Client.Shutdown

/-!
# When the client gives up

The counter of retries against the attempts there were.  An attempt is only made while
something is left to do, whatever the other thread does in between, so every refusal
counts; a connection that is made starts the count again.
-/

namespace PdsBackup.Client

/-- How many attempts have failed, with work left, since the last connection. -/
def Attempt.failures (attempts : List Attempt) : Nat :=
  attempts.foldl (fun count attempt =>
    match attempt with
    | connected => 0
    | refused pending => if pending then count + 1 else count
    | broke pending => if pending then count + 1 else count) 0

namespace Attempt

@[simp] theorem failures_append_connected (attempts : List Attempt) :
    failures (attempts ++ [connected]) = 0 := by
  simp [failures]

@[simp] theorem failures_append_ofLoss (attempts : List Attempt) (established pending : Bool) :
    failures (attempts ++ [ofLoss established pending]) =
      failures attempts + if pending then 1 else 0 := by
  cases established <;> cases pending <;> simp [failures, ofLoss]

end Attempt

namespace Process

variable {κ : Type} {policy : RetryPolicy} {process next : Process κ} {action : ProcessAction κ}

/-- Whoever connects, or was refused, has something to do. -/
def Working (process : Process κ) : Prop :=
  process.communicate = .connecting ∨ process.communicate = .lost false →
    process.pending = true

/-- The counter of a thread that has not given up, and where it is if it has. -/
structure Counted (policy : RetryPolicy) (communicate : CommunicatePhase) (tries : Nat)
    (attempts : List Attempt) (gaveUp : Bool) : Prop where
  failures : Attempt.failures attempts = tries + if gaveUp then 1 else 0
  tries_le : policy.persist = false → tries ≤ policy.maxConnectionRetries
  stopping : gaveUp = true → policy.persist = false ∧ policy.maxConnectionRetries ≤ tries ∧
    (communicate = .failing true ∨ communicate = .notifying ∨ communicate = .returned)
  established : communicate = .connected ∨ communicate = .lost true → tries = 0
  refused : .refused false ∉ attempts
  last : gaveUp = true → 0 < policy.maxConnectionRetries →
    attempts.getLast? = some (.refused true)

section Counted

variable {communicate : CommunicatePhase} {tries : Nat} {attempts : List Attempt} {gaveUp : Bool}

/-- The thread has not given up where it goes on. -/
theorem Counted.goes (hcounted : Counted policy communicate tries attempts gaveUp)
    (hphase : communicate ≠ .failing true ∧ communicate ≠ .notifying ∧
      communicate ≠ .returned) : gaveUp = false := by
  cases gaveUp with
  | false => rfl
  | true => exact absurd (hcounted.stopping rfl).2.2 (by simp [hphase])

theorem Counted.moved {moved : CommunicatePhase}
    (hcounted : Counted policy communicate tries attempts gaveUp) (hgoes : gaveUp = false)
    (hmoved : moved = .connected ∨ moved = .lost true → tries = 0) :
    Counted policy moved tries attempts gaveUp where
  failures := hcounted.failures
  tries_le := hcounted.tries_le
  stopping hgave := by simp [hgoes] at hgave
  established := hmoved
  refused := hcounted.refused
  last := hcounted.last

theorem Counted.connected (hcounted : Counted policy communicate tries attempts gaveUp)
    (hgoes : gaveUp = false) :
    Counted policy .connected 0 (attempts ++ [.connected]) gaveUp where
  failures := by simp [hgoes]
  tries_le _ := Nat.zero_le _
  stopping hgave := by simp [hgoes] at hgave
  established _ := rfl
  refused := by simpa using hcounted.refused
  last hgave := by simp [hgoes] at hgave

theorem Counted.settled {established : Bool}
    (hcounted : Counted policy communicate tries attempts gaveUp) (hgoes : gaveUp = false)
    (hestablished : established = true) :
    Counted policy .checking tries (attempts ++ [.ofLoss established false]) gaveUp where
  failures := by simpa using hcounted.failures
  tries_le := hcounted.tries_le
  stopping hgave := by simp [hgoes] at hgave
  established := by simp
  refused := by simpa [hestablished, Attempt.ofLoss] using hcounted.refused
  last hgave := by simp [hgoes] at hgave

theorem Counted.retries {established : Bool}
    (hcounted : Counted policy communicate tries attempts gaveUp) (hgoes : gaveUp = false)
    (hretry : policy.persist = true ∨ tries < policy.maxConnectionRetries) :
    Counted policy .checking (tries + 1) (attempts ++ [.ofLoss established true]) gaveUp where
  failures := by simp [hcounted.failures, hgoes]
  tries_le hpersist := hretry.resolve_left (by simp [hpersist])
  stopping hgave := by simp [hgoes] at hgave
  established := by simp
  refused := by cases established <;> simpa [Attempt.ofLoss] using hcounted.refused
  last hgave := by simp [hgoes] at hgave

theorem Counted.givesUp {established : Bool}
    (hcounted : Counted policy (.lost established) tries attempts gaveUp)
    (hpersist : policy.persist = false) (htries : policy.maxConnectionRetries ≤ tries) :
    Counted policy (.failing true) tries (attempts ++ [.ofLoss established true]) true where
  failures := by simp [hcounted.failures, hcounted.goes (by simp)]
  tries_le := hcounted.tries_le
  stopping _ := ⟨hpersist, htries, .inl rfl⟩
  established := by simp
  refused := by cases established <;> simpa [Attempt.ofLoss] using hcounted.refused
  last _ hpositive := by
    cases established with
    | false => simp [Attempt.ofLoss]
    | true =>
        have hnone := hcounted.established (.inr rfl)
        omega

theorem Counted.stops {moved : CommunicatePhase}
    (hcounted : Counted policy communicate tries attempts gaveUp)
    (hmoved : gaveUp = true → moved = .notifying ∨ moved = .returned)
    (hstopping : moved ≠ .connected ∧ ∀ established, moved ≠ .lost established) :
    Counted policy moved tries attempts gaveUp where
  failures := hcounted.failures
  tries_le := hcounted.tries_le
  stopping hgave :=
    ⟨(hcounted.stopping hgave).1, (hcounted.stopping hgave).2.1, .inr (hmoved hgave)⟩
  established hphase := by simp [hstopping] at hphase
  refused := hcounted.refused
  last := hcounted.last

end Counted

theorem counted_start [Inhabited κ] (known : List κ) (size : Nat) :
    Counted policy (start known size).communicate (start known size).tries
      (start known size).attempts (start known size).gaveUp where
  failures := rfl
  tries_le _ := Nat.zero_le _
  stopping := nofun
  established := by simp [start]
  refused := by simp [start]
  last := nofun

/-- A queue that is not emptied leaves something to do. -/
theorem pending_of_ring (process : Process κ) {ring : TSCircularVector κ} {eventQueue : Queue κ}
    (hobject : eventQueue.object = ring)
    (hring : process.eventQueue.object.empty = false → ring.empty = false)
    (hpending : process.pending = true) :
    (process.waiting ≠ 0 || !eventQueue.object.empty) = true := by
  rw [pending, Bool.or_eq_true] at hpending
  rw [Bool.or_eq_true, hobject]
  refine hpending.imp_right fun hsome => ?_
  rw [Bool.not_eq_true'] at hsome ⊢
  exact hring hsome

theorem empty_push (event : κ) {ring : CircularVector κ} (hfull : ring.full = false) :
    (ring.push event).empty = false := by
  have hsize := CircularVector.size_push event hfull
  rw [← Bool.not_eq_true, CircularVector.empty_eq_true_iff]
  omega

section Steps

variable [MoveFrom κ]

theorem Working.stepped (hworking : Working process)
    (hstepped : Stepped policy process action next) : Working next := by
  have hkeeps : ∀ {eventQueue : Queue κ}, eventQueue.object = process.eventQueue.object →
      process.communicate = .connecting ∨ process.communicate = .lost false →
        (process.waiting ≠ 0 || !eventQueue.object.empty) = true := fun hobject hphase =>
    pending_of_ring process hobject id (hworking hphase)
  cases hstepped with
  | pushes hmain => exact hkeeps rfl
  | waited hmain hfull hgo hwait => exact hkeeps (Monitor.wait_eq_some hwait).2.2.1
  | pushed hmain hfull hgo hserve =>
      exact fun hphase => pending_of_ring process (Monitor.serve_eq_some hserve).2.2.1
        (fun _ => empty_push _ hfull) (hworking hphase)
  | stopped hmain hstop hserve => exact hkeeps (Monitor.serve_eq_some hserve).2.2.1
  | @detected event eventQueue hmain hchange =>
      refine fun hphase =>
        pending_of_ring process (Monitor.change_eq_some hchange).2.1 ?_ (hworking hphase)
      intro hempty
      rw [TSCircularVector.tryPush]
      split
      · exact hempty
      · rename_i hfull
        exact empty_push _ (Bool.not_eq_true _ ▸ hfull)
  | resumes hphase hgo hwaiting => exact fun _ => by simp [pending, hwaiting]
  | awaited hphase hgo hempty hserve =>
      intro _
      simp only [pending, (Monitor.serve_eq_some hserve).2.2.1, hempty, Bool.not_false,
        Bool.or_true]
  | awaitsMore hphase hgo hempty hwait => exact hkeeps (Monitor.wait_eq_some hwait).2.2.1
  | refused hphase => exact fun _ => hworking (.inl hphase)
  | received hphase | sent hphase => exact fun hnot => by simp [hphase] at hnot
  | @stops notifies hphase => exact fun hnot => by cases notifies <;> simp at hnot
  | slept hsleep => exact hkeeps (Monitor.sleep_eq_some hsleep).2.1
  | woke hwake =>
      obtain ⟨-, rfl⟩ := Monitor.wake_eq_some hwake
      exact hkeeps rfl
  | recovered | leaves | scans | scanned | told | joined | raised | idled => exact hworking
  | _ => exact fun hnot => by simp at hnot

theorem Counted.stepped (hworking : Working process)
    (hcounted : Counted policy process.communicate process.tries process.attempts process.gaveUp)
    (hstepped : Stepped policy process action next) :
    Counted policy next.communicate next.tries next.attempts next.gaveUp := by
  cases hstepped with
  | ended hphase | awaitedStop hphase | awaits hphase | resumes hphase | awaited hphase
  | closed hphase | disconnected hphase | refused hphase =>
      exact hcounted.moved (hcounted.goes (by simp [hphase])) (by simp)
  | @settled established hphase hpending =>
      apply hcounted.settled (hcounted.goes (by simp [hphase]))
      cases established with
      | true => rfl
      | false =>
          have hsome := hworking (.inr hphase)
          simp [hpending] at hsome
  | retries hphase hpending hretry =>
      exact hcounted.retries (hcounted.goes (by simp [hphase])) hretry
  | givesUp hphase hpending hpersist htries =>
      rw [hphase] at hcounted
      exact hcounted.givesUp hpersist htries
  | @stops notifies hphase =>
      apply hcounted.stops
      · intro hgave
        cases notifies <;> simp
      · cases notifies <;> simp
  | notified hphase => exact hcounted.stops (fun _ => .inr rfl) (by simp)
  | connected hphase => exact hcounted.connected (hcounted.goes (by simp [hphase]))
  | broke hphase =>
      exact hcounted.moved (hcounted.goes (by simp [hphase]))
        fun _ => hcounted.established (.inl hphase)
  | failed hphase =>
      refine hcounted.moved (hcounted.goes ?_) (by simp)
      rcases hphase with hphase | ⟨-, hphase | hphase⟩ <;> simp [hphase]
  | _ => exact hcounted

/-- Whatever the other thread does, the communication thread has given up exactly when
it is not to persist and more attempts than the allowed retries have failed since the
last connection; it never tries without anything to do, and what makes it give up is a
refusal if it may retry at all. -/
theorem client_gives_up_iff [Inhabited κ] {known : List κ} {size : Nat}
    {schedule : List (ProcessAction κ)}
    (hsteps : (start known size).steps policy schedule = some process) :
    (process.gaveUp = true ↔ policy.persist = false ∧
        policy.maxConnectionRetries < Attempt.failures process.attempts) ∧
      .refused false ∉ process.attempts ∧
      (process.gaveUp = true → 0 < policy.maxConnectionRetries →
        process.attempts.getLast? = some (.refused true)) := by
  have hkept := Schedule.runs_keep
    (fun middle => Working middle ∧
      Counted policy middle.communicate middle.tries middle.attempts middle.gaveUp)
    (fun action middle next _ hkept hstep =>
      ⟨hkept.1.stepped (step_eq_some hstep), hkept.2.stepped hkept.1 (step_eq_some hstep)⟩)
    (fun action _ => trivial) ⟨by simp [Working, start], counted_start known size⟩ hsteps
  have hcounted := hkept.2
  have hfailures := hcounted.failures
  refine ⟨⟨fun hgave => ?_, fun hmany => ?_⟩, hcounted.refused, hcounted.last⟩
  · obtain ⟨hpersist, htries, -⟩ := hcounted.stopping hgave
    rw [hgave, if_pos rfl] at hfailures
    exact ⟨hpersist, by omega⟩
  · by_contra hgoes
    have htries := hcounted.tries_le hmany.1
    rw [if_neg hgoes] at hfailures
    omega

end Steps

/-- A server that refuses; one retry is allowed. -/
def refusing : List (ProcessAction Nat) :=
  [.main, .main, .communicate, .communicate, .refuse, .communicate, .communicate, .communicate,
    .refuse, .communicate]

theorem client_gives_up_refusing : ∃ process,
    (start [1] 1).steps ⟨false, 1⟩ refusing = some process ∧ process.gaveUp = true := by
  have hruns : ((start [1] 1).steps ⟨false, 1⟩ refusing).any (fun process =>
      process.attempts = [.refused true, .refused true]) = true := by
    decide
  simp only [Option.any_eq_true, decide_eq_true_eq] at hruns
  obtain ⟨process, hsteps, hattempts⟩ := hruns
  refine ⟨process, hsteps, (client_gives_up_iff hsteps).1.mpr ⟨rfl, ?_⟩⟩
  rw [hattempts]
  decide

end Process

end PdsBackup.Client
