import Mathlib.Tactic.Common

/-!
# Schedules

A system takes actions one after the other, each only where it is possible.  What every
step keeps, every schedule keeps; where every counted step uses up some of a measure, a
schedule has only so many of them, and the system comes to rest.
-/

namespace PdsBackup

namespace Schedule

variable {α σ : Type} {step : α → σ → Option σ}

def runs (step : α → σ → Option σ) : List α → σ → Option σ
  | [], s => some s
  | action :: schedule, s => (step action s).bind (runs step schedule)

variable {schedule : List α} {s s' : σ}

theorem runs_cons_eq_some {action : α} (hruns : runs step (action :: schedule) s = some s') :
    ∃ middle, step action s = some middle ∧ runs step schedule middle = some s' :=
  Option.bind_eq_some_iff.mp hruns

/-- What the allowed steps keep. -/
theorem runs_keep {allowed : α → Prop} (kept : σ → Prop)
    (hstep : ∀ action s s', allowed action → kept s → step action s = some s' → kept s')
    (hallowed : ∀ action ∈ schedule, allowed action) (hkept : kept s)
    (hruns : runs step schedule s = some s') : kept s' := by
  induction schedule generalizing s with
  | nil => exact Option.some.inj hruns ▸ hkept
  | cons action schedule ih =>
      obtain ⟨middle, hfirst, hrest⟩ := runs_cons_eq_some hruns
      apply ih (fun other hother => hallowed other (List.mem_cons_of_mem action hother)) _ hrest
      exact hstep action s middle (hallowed action List.mem_cons_self) hkept hfirst

section Measure

variable {allowed : α → Prop} {counted : α → Bool} {kept : σ → Prop} {measure : σ → Nat}

/-- What an allowed step keeps and uses up. -/
def Spends (step : α → σ → Option σ) (allowed : α → Prop) (counted : α → Bool)
    (kept : σ → Prop) (measure : σ → Nat) : Prop :=
  ∀ action s s', allowed action → kept s → step action s = some s' →
    kept s' ∧ measure s' + (if counted action = true then 1 else 0) ≤ measure s

theorem runs_spend (hspends : Spends step allowed counted kept measure)
    (hallowed : ∀ action ∈ schedule, allowed action) (hkept : kept s)
    (hruns : runs step schedule s = some s') :
    kept s' ∧ (schedule.filter counted).length + measure s' ≤ measure s := by
  induction schedule generalizing s with
  | nil =>
      obtain rfl := Option.some.inj hruns
      exact ⟨hkept, Nat.le_of_eq (Nat.zero_add _)⟩
  | cons action schedule ih =>
      obtain ⟨middle, hfirst, hrest⟩ := runs_cons_eq_some hruns
      obtain ⟨hmiddle, hless⟩ :=
        hspends action s middle (hallowed action List.mem_cons_self) hkept hfirst
      obtain ⟨hnext, hbound⟩ :=
        ih (fun other hother => hallowed other (List.mem_cons_of_mem action hother)) hmiddle hrest
      refine ⟨hnext, ?_⟩
      cases hcounted : counted action with
      | true =>
          rw [List.filter_cons_of_pos hcounted, List.length_cons]
          simp only [hcounted, if_true] at hless
          omega
      | false =>
          rw [List.filter_cons_of_neg (by simp [hcounted])]
          omega

/-- Taking own actions while there are any leads to a state where there is none. -/
theorem exists_rest (own : α → Prop) (hspends : Spends step allowed counted kept measure)
    (hown : ∀ action, own action → allowed action ∧ counted action = true) (hkept : kept s) :
    ∃ schedule s', (∀ action ∈ schedule, own action) ∧ runs step schedule s = some s' ∧
      kept s' ∧ ∀ action, own action → step action s' = none := by
  induction hmeasure : measure s using Nat.strongRecOn generalizing s with
  | ind bound ih =>
      by_cases hrests : ∀ action, own action → step action s = none
      · exact ⟨[], s, by simp, rfl, hkept, hrests⟩
      · push Not at hrests
        obtain ⟨action, haction, hsome⟩ := hrests
        obtain ⟨middle, hmiddle⟩ := Option.ne_none_iff_exists'.mp hsome
        obtain ⟨hallowed, hcounted⟩ := hown action haction
        obtain ⟨hnext, hless⟩ := hspends action s middle hallowed hkept hmiddle
        rw [if_pos hcounted] at hless
        obtain ⟨schedule, s', hall, hruns, hrest⟩ := ih (measure middle) (by omega) hnext rfl
        refine ⟨action :: schedule, s', ?_, ?_, hrest⟩
        · intro other hother
          cases List.mem_cons.mp hother with
          | inl hsame => exact hsame ▸ haction
          | inr hlater => exact hall other hlater
        · rw [runs, hmiddle]
          exact hruns

end Measure

/-! ## Where the state decides what is allowed -/

section Along

variable {allowed weaker : σ → α → Prop} {start : σ}

/-- The states that can be reached when each action is taken only where it is allowed. -/
inductive Along (step : α → σ → Option σ) (allowed : σ → α → Prop) (start : σ) : σ → Prop
  | start : Along step allowed start start
  | turn {s s' : σ} {action : α} (halong : Along step allowed start s)
      (hallowed : allowed s action) (hstep : step action s = some s') :
      Along step allowed start s'

theorem Along.mono (hweaker : ∀ s action, allowed s action → weaker s action)
    (halong : Along step allowed start s) : Along step weaker start s := by
  induction halong with
  | start => exact .start
  | turn _ hallowed hstep ih => exact .turn ih (hweaker _ _ hallowed) hstep

theorem Along.trans {middle : σ} (hfirst : Along step allowed start middle)
    (hsecond : Along step allowed middle s) : Along step allowed start s := by
  induction hsecond with
  | start => exact hfirst
  | turn _ hallowed hstep ih => exact .turn ih hallowed hstep

/-- The step where a check succeeds. -/
def checked (check : σ → α → Bool) (step : α → σ → Option σ) (action : α) (s : σ) : Option σ :=
  if check s action then step action s else none

theorem along_of_runs {check : σ → α → Bool}
    (hcheck : ∀ s action, check s action = true → allowed s action)
    (hruns : runs (checked check step) schedule start = some s) : Along step allowed start s := by
  induction schedule generalizing start with
  | nil =>
      obtain rfl := Option.some.inj hruns
      exact .start
  | cons action schedule ih =>
      obtain ⟨middle, hfirst, hrest⟩ := runs_cons_eq_some hruns
      rw [checked] at hfirst
      split at hfirst
      · next hpassed =>
          exact (Along.turn .start (hcheck _ _ hpassed) hfirst).trans (ih hrest)
      · simp at hfirst

end Along

end Schedule

end PdsBackup
