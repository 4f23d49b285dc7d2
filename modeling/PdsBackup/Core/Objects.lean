import Mathlib.Tactic.Common

/-!
# Objects and what they answer

An object serves calls one at a time: a call has a response and a next state, or
cannot be served yet and leaves the object alone.  Two objects that keep a
relation between their states answer every sequence of calls alike.  An object
of a program can also fail; one that is related to an object that cannot fail
never does.
-/

namespace PdsBackup

/-- Objects with states `σ` that answer calls `ω` with responses `ρ`. -/
abbrev Service (ω ρ σ : Type) := ω → σ → Option (ρ × σ)

/-- The same, where serving a call may fail with an `ε`. -/
abbrev FailingService (ε ω ρ σ : Type) := ω → σ → Except ε (Option (ρ × σ))

namespace Service

variable {ω ρ σ τ : Type}

/-- One response for each call, `none` where it could not be served. -/
def responses (serve : Service ω ρ σ) : List ω → σ → List (Option ρ)
  | [], _ => []
  | call :: calls, s =>
      match serve call s with
      | none => none :: responses serve calls s
      | some (response, next) => some response :: responses serve calls next

/-- Every call is served by both with one response, or by neither. -/
def Refines (relation : σ → τ → Prop) (serve : Service ω ρ σ) (spec : Service ω ρ τ) : Prop :=
  ∀ call s t, relation s t →
    (serve call s = none ∧ spec call t = none) ∨
      ∃ response s' t', serve call s = some (response, s') ∧
        spec call t = some (response, t') ∧ relation s' t'

theorem Refines.responses {relation : σ → τ → Prop} {serve : Service ω ρ σ}
    {spec : Service ω ρ τ} (hrefines : Refines relation serve spec) (calls : List ω) {s : σ} {t : τ}
    (hstates : relation s t) : serve.responses calls s = spec.responses calls t := by
  induction calls generalizing s t with
  | nil => rfl
  | cons call calls ih =>
      rw [Service.responses, Service.responses]
      cases hrefines call s t hstates with
      | inl hnone => rw [hnone.1, hnone.2, ih hstates]
      | inr hsome =>
          obtain ⟨response, s', t', hserve, hspec, hnext⟩ := hsome
          rw [hserve, hspec]
          exact congrArg (some response :: ·) (ih hnext)

end Service

namespace FailingService

variable {ε ω ρ σ τ : Type}

/-- The responses, if no call fails. -/
def responses (serve : FailingService ε ω ρ σ) : List ω → σ → Except ε (List (Option ρ))
  | [], _ => .ok []
  | call :: calls, s => do
      match ← serve call s with
      | none => return none :: (← responses serve calls s)
      | some (response, next) => return some response :: (← responses serve calls next)

/-- No call fails, and each is served as the other object serves it. -/
def Follows (relation : σ → τ → Prop) (serve : FailingService ε ω ρ σ) (spec : Service ω ρ τ) :
    Prop :=
  ∀ call s t, relation s t →
    (serve call s = .ok none ∧ spec call t = none) ∨
      ∃ response s' t', serve call s = .ok (some (response, s')) ∧
        spec call t = some (response, t') ∧ relation s' t'

theorem Follows.responses {relation : σ → τ → Prop} {serve : FailingService ε ω ρ σ}
    {spec : Service ω ρ τ} (hfollows : Follows relation serve spec) (calls : List ω) {s : σ} {t : τ}
    (hstates : relation s t) : serve.responses calls s = .ok (spec.responses calls t) := by
  induction calls generalizing s t with
  | nil => rfl
  | cons call calls ih =>
      rw [FailingService.responses, Service.responses]
      cases hfollows call s t hstates with
      | inl hnone =>
          rw [hnone.1, hnone.2, ih hstates]
          rfl
      | inr hsome =>
          obtain ⟨response, s', t', hserve, hspec, hnext⟩ := hsome
          rw [hserve, hspec]
          show (do return some response :: (← serve.responses calls s')) = _
          rw [ih hnext]
          rfl

theorem responses_cons_some {serve : FailingService ε ω ρ σ} {call : ω} {calls : List ω} {s next : σ}
    {response : ρ} (hserve : serve call s = .ok (some (response, next))) {fault : ε}
    (hfault : serve.responses calls next = .error fault) :
    serve.responses (call :: calls) s = .error fault := by
  rw [responses, hserve]
  show (do return some response :: (← serve.responses calls next)) = _
  rw [hfault]
  rfl

theorem responses_cons_error {serve : FailingService ε ω ρ σ} {call : ω} {calls : List ω} {s : σ}
    {fault : ε} (hserve : serve call s = .error fault) :
    serve.responses (call :: calls) s = .error fault := by
  rw [responses, hserve]
  rfl

/-- No sequence of calls makes an object fail. -/
def Safe (serve : FailingService ε ω ρ σ) (s : σ) : Prop :=
  ∀ calls, ∃ responses, serve.responses calls s = .ok responses

theorem Follows.safe {relation : σ → τ → Prop} {serve : FailingService ε ω ρ σ}
    {spec : Service ω ρ τ} (hfollows : Follows relation serve spec) {s : σ} {t : τ}
    (hstates : relation s t) : serve.Safe s :=
  fun calls => ⟨_, hfollows.responses calls hstates⟩

theorem not_safe {serve : FailingService ε ω ρ σ} {s : σ} {calls : List ω} {fault : ε}
    (hfault : serve.responses calls s = .error fault) : ¬ serve.Safe s := by
  intro hsafe
  cases hsafe calls with
  | intro responses hresponses =>
      rw [hfault] at hresponses
      cases hresponses

theorem not_safe_of_call {serve : FailingService ε ω ρ σ} {call : ω} {s : σ} {fault : ε}
    (hserve : serve call s = .error fault) : ¬ serve.Safe s :=
  not_safe (show serve.responses [call] s = _ from responses_cons_error hserve)

/-- Rounds of two calls take an object from stage to stage, and at the last one
the first call fails. -/
theorem not_safe_of_rounds {serve : FailingService ε ω ρ σ} (first second : ω)
    (stage : Nat → σ → Prop) (last : Nat) (fault : ε)
    (hround : ∀ n s, n < last → stage n s → ∃ response middle response' next,
      serve first s = .ok (some (response, middle)) ∧
        serve second middle = .ok (some (response', next)) ∧ stage (n + 1) next)
    (hlast : ∀ s, stage last s → serve first s = .error fault) {s : σ} (hs : stage 0 s) :
    ¬ serve.Safe s := by
  have hcalls : ∀ rounds, rounds ≤ last → ∀ s, stage (last - rounds) s →
      ∃ calls, serve.responses calls s = .error fault := by
    intro rounds
    induction rounds with
    | zero =>
        intro _ s hs
        exact ⟨[first], responses_cons_error (hlast s hs)⟩
    | succ rounds ih =>
        intro hrounds s hs
        obtain ⟨response, middle, response', next, hfirst, hsecond, hnext⟩ :=
          hround (last - (rounds + 1)) s (by omega) hs
        rw [show last - (rounds + 1) + 1 = last - rounds by omega] at hnext
        obtain ⟨calls, hcalls⟩ := ih (by omega) next hnext
        exact ⟨first :: second :: calls,
          responses_cons_some hfirst (responses_cons_some hsecond hcalls)⟩
  obtain ⟨calls, hcalls⟩ := hcalls last (Nat.le_refl last) s (by rwa [Nat.sub_self])
  exact not_safe hcalls

end FailingService

end PdsBackup
