import Mathlib.Tactic.Common

/-!
# Imperative procedures that may throw

A call of an imperative routine either returns a value or raises an exception,
and in both cases it leaves a state: what was done before the exception was
raised stays done.  This module gives such routines a monad, the inversion
lemmas that take a finished call apart, and the rules of a small program logic
with a postcondition for each of the two ways to end.
-/

namespace PdsBackup

/-- How a call ends, with the state it leaves. -/
inductive Exit (σ ε α : Type) where
  | returned (value : α) (state : σ)
  | raised (exception : ε) (state : σ)
  deriving DecidableEq

namespace Exit

variable {σ ε α : Type}

/-- The state left behind, however the call ended. -/
def state : Exit σ ε α → σ
  | .returned _ state => state
  | .raised _ state => state

def returns : Exit σ ε α → Bool
  | .returned .. => true
  | .raised .. => false

def exception : Exit σ ε α → Option ε
  | .returned .. => none
  | .raised exception _ => some exception

theorem eq_returned_of_returns {exit : Exit σ ε Unit} (hreturns : exit.returns = true) :
    exit = .returned () exit.state := by
  cases exit with
  | returned value s => rfl
  | raised exception s => simp [returns] at hreturns

@[simp] theorem state_returned (value : α) (s : σ) :
    (Exit.returned value s : Exit σ ε α).state = s := rfl

@[simp] theorem state_raised (exception : ε) (s : σ) :
    (Exit.raised exception s : Exit σ ε α).state = s := rfl

end Exit

/-- A routine over states `σ` with exceptions `ε`. -/
def Procedure (σ ε α : Type) := σ → Exit σ ε α

namespace Procedure

variable {σ ε α β γ : Type}

instance : Monad (Procedure σ ε) where
  pure value := fun s => .returned value s
  bind p f := fun s =>
    match p s with
    | .returned value s' => f value s'
    | .raised exception s' => .raised exception s'

def raise (exception : ε) : Procedure σ ε α := fun s => .raised exception s

def read (f : σ → α) : Procedure σ ε α := fun s => .returned (f s) s

def modify (f : σ → σ) : Procedure σ ε Unit := fun s => .returned () (f s)

/-- `try p catch handler`: the handler starts from the state the exception left. -/
def catching (p : Procedure σ ε α) (handler : ε → Procedure σ ε α) :
    Procedure σ ε α := fun s =>
  match p s with
  | .returned value s' => .returned value s'
  | .raised exception s' => handler exception s'

/-- The value of an optional result; `exception` is raised when there is none. -/
def orRaise (exception : ε) : Option α → Procedure σ ε α
  | some value => pure value
  | none => raise exception

/-- A routine that works on a part of the state. -/
def within {τ ε' : Type} (get : σ → τ) (set : τ → σ → σ) (wrap : ε' → ε)
    (p : Procedure τ ε' α) : Procedure σ ε α := fun s =>
  match p (get s) with
  | .returned value part => .returned value (set part s)
  | .raised exception part => .raised (wrap exception) (set part s)

/-- Goes on only where a check succeeds. -/
def ensure (exception : ε) (condition : Bool) : Procedure σ ε Unit :=
  if condition then pure () else raise exception

/-- A statement under a condition. -/
def when (condition : Bool) (p : Procedure σ ε Unit) : Procedure σ ε Unit :=
  if condition then p else pure ()

@[simp] theorem pure_apply (value : α) (s : σ) :
    (pure value : Procedure σ ε α) s = .returned value s := rfl

@[simp] theorem raise_apply (exception : ε) (s : σ) :
    (raise exception : Procedure σ ε α) s = .raised exception s := rfl

@[simp] theorem read_apply (f : σ → α) (s : σ) :
    (read f : Procedure σ ε α) s = .returned (f s) s := rfl

@[simp] theorem modify_apply (f : σ → σ) (s : σ) :
    (modify f : Procedure σ ε Unit) s = .returned () (f s) := rfl

@[simp] theorem orRaise_some (exception : ε) (value : α) :
    (orRaise exception (some value) : Procedure σ ε α) = pure value := rfl

@[simp] theorem orRaise_none (exception : ε) :
    (orRaise exception none : Procedure σ ε α) = raise exception := rfl

@[simp] theorem ensure_true (exception : ε) :
    (ensure exception true : Procedure σ ε Unit) = pure () := rfl

@[simp] theorem when_true (p : Procedure σ ε Unit) : when true p = p := rfl

@[simp] theorem when_false (p : Procedure σ ε Unit) : when false p = pure () := rfl

@[simp] theorem ensure_false (exception : ε) :
    (ensure exception false : Procedure σ ε Unit) = raise exception := rfl

theorem bind_apply (p : Procedure σ ε α) (f : α → Procedure σ ε β) (s : σ) :
    (p >>= f) s =
      match p s with
      | .returned value s' => f value s'
      | .raised exception s' => .raised exception s' := rfl

theorem bind_of_returned {p : Procedure σ ε α} {f : α → Procedure σ ε β}
    {s s' : σ} {value : α} (hp : p s = .returned value s') :
    (p >>= f) s = f value s' := by
  rw [bind_apply, hp]

theorem bind_of_raised {p : Procedure σ ε α} {f : α → Procedure σ ε β}
    {s s' : σ} {exception : ε} (hp : p s = .raised exception s') :
    (p >>= f) s = .raised exception s' := by
  rw [bind_apply, hp]

@[simp] theorem pure_bind_apply (value : α) (f : α → Procedure σ ε β) (s : σ) :
    ((pure value : Procedure σ ε α) >>= f) s = f value s := rfl

@[simp] theorem raise_bind_apply (exception : ε) (f : α → Procedure σ ε β) (s : σ) :
    ((raise exception : Procedure σ ε α) >>= f) s = .raised exception s := rfl

@[simp] theorem read_bind_apply (g : σ → α) (f : α → Procedure σ ε β) (s : σ) :
    ((read g : Procedure σ ε α) >>= f) s = f (g s) s := rfl

@[simp] theorem modify_bind_apply (g : σ → σ) (f : Unit → Procedure σ ε β) (s : σ) :
    ((modify g : Procedure σ ε Unit) >>= f) s = f () (g s) := rfl

/-- A sequence returns exactly when both of its parts do. -/
theorem bind_returned_iff {p : Procedure σ ε α} {f : α → Procedure σ ε β}
    {s s'' : σ} {value : β} :
    (p >>= f) s = .returned value s'' ↔
      ∃ middle s', p s = .returned middle s' ∧ f middle s' = .returned value s'' := by
  rw [bind_apply]
  cases hp : p s with
  | returned middle s' => simp
  | raised exception s' => simp

theorem catching_apply (p : Procedure σ ε α) (handler : ε → Procedure σ ε α) (s : σ) :
    catching p handler s =
      match p s with
      | .returned value s' => .returned value s'
      | .raised exception s' => handler exception s' := rfl

section Within

variable {τ ε' : Type} (get : σ → τ) (set : τ → σ → σ) (wrap : ε' → ε)
variable {p : Procedure τ ε' α} {s : σ} {part : τ}

theorem within_of_returned {value : α} (hp : p (get s) = .returned value part) :
    within get set wrap p s = .returned value (set part s) := by
  rw [within, hp]

theorem within_of_raised {exception : ε'} (hp : p (get s) = .raised exception part) :
    within get set wrap p s = .raised (wrap exception) (set part s) := by
  rw [within, hp]

end Within

/-! ## Program logic -/

/-- From a state in `pre`, the call ends in `post` when it returns and in `err`
when it raises. -/
def Meets (pre : σ → Prop) (p : Procedure σ ε α) (post : α → σ → Prop)
    (err : ε → σ → Prop) : Prop :=
  ∀ s, pre s →
    match p s with
    | .returned value s' => post value s'
    | .raised exception s' => err exception s'

namespace Meets

variable {pre pre' : σ → Prop} {p : Procedure σ ε α}
variable {post post' : α → σ → Prop} {err err' : ε → σ → Prop}

/-- Nothing is promised. -/
theorem anything (p : Procedure σ ε α) :
    Meets (fun _ => True) p (fun _ _ => True) fun _ _ => True := by
  intro s _
  cases p s <;> trivial

theorem returned (h : Meets pre p post err) {s s' : σ} {value : α} (hpre : pre s)
    (hp : p s = .returned value s') : post value s' := by
  have hends := h s hpre
  rwa [hp] at hends

theorem raised (h : Meets pre p post err) {s s' : σ} {exception : ε} (hpre : pre s)
    (hp : p s = .raised exception s') : err exception s' := by
  have hends := h s hpre
  rwa [hp] at hends

theorem consequence (h : Meets pre p post err) (hpre : ∀ s, pre' s → pre s)
    (hpost : ∀ value s, post value s → post' value s)
    (herr : ∀ exception s, err exception s → err' exception s) :
    Meets pre' p post' err' := by
  intro s hs
  have hends := h s (hpre s hs)
  cases hp : p s with
  | returned value s' =>
      rw [hp] at hends
      exact hpost value s' hends
  | raised exception s' =>
      rw [hp] at hends
      exact herr exception s' hends

/-- A routine that never raises returns. -/
theorem returns (h : Meets pre p post fun _ _ => False) {s : σ} (hs : pre s) :
    ∃ value s', p s = .returned value s' ∧ post value s' := by
  have hends := h s hs
  cases hp : p s with
  | returned value s' =>
      rw [hp] at hends
      exact ⟨value, s', rfl, hends⟩
  | raised exception s' =>
      rw [hp] at hends
      exact hends.elim

/-- Two promises about one routine. -/
theorem and (h : Meets pre p post err) (h' : Meets pre' p post' err') :
    Meets (fun s => pre s ∧ pre' s) p (fun value s => post value s ∧ post' value s)
      fun exception s => err exception s ∧ err' exception s := by
  rintro s ⟨hs, hs'⟩
  have hends := h s hs
  have hends' := h' s hs'
  cases hp : p s with
  | returned value s' =>
      rw [hp] at hends hends'
      exact ⟨hends, hends'⟩
  | raised exception s' =>
      rw [hp] at hends hends'
      exact ⟨hends, hends'⟩

theorem pure (value : α) (h : ∀ s, pre s → post value s) :
    Meets pre (Pure.pure value : Procedure σ ε α) post err := h

theorem raise (exception : ε) (h : ∀ s, pre s → err exception s) :
    Meets pre (Procedure.raise exception : Procedure σ ε α) post err := h

theorem read (f : σ → α) (h : ∀ s, pre s → post (f s) s) :
    Meets pre (Procedure.read f : Procedure σ ε α) post err := h

theorem modify {post : Unit → σ → Prop} (f : σ → σ) (h : ∀ s, pre s → post () (f s)) :
    Meets pre (Procedure.modify f : Procedure σ ε Unit) post err := h

theorem orRaise (exception : ε) (value : Option α)
    (hsome : ∀ result, value = some result → ∀ s, pre s → post result s)
    (hnone : value = none → ∀ s, pre s → err exception s) :
    Meets pre (Procedure.orRaise exception value : Procedure σ ε α) post err := by
  cases value with
  | none => exact hnone rfl
  | some result => exact hsome result rfl

/-- The rule for sequences: the middle condition is what the first part promises. -/
theorem bind {middle : α → σ → Prop} {f : α → Procedure σ ε β} {post : β → σ → Prop}
    (hp : Meets pre p middle err) (hf : ∀ value, Meets (middle value) (f value) post err) :
    Meets pre (p >>= f) post err := by
  intro s hs
  have hfirst := hp s hs
  rw [bind_apply]
  cases hcall : p s with
  | returned value s' =>
      rw [hcall] at hfirst
      exact hf value s' hfirst
  | raised exception s' =>
      rw [hcall] at hfirst
      exact hfirst

/-- The rule for sequences with the first part's own promise about exceptions. -/
theorem chain {middle : α → σ → Prop} {f : α → Procedure σ ε β} {post : β → σ → Prop}
    (hp : Meets pre p middle err') (herr : ∀ exception s, err' exception s → err exception s)
    (hf : ∀ value, Meets (middle value) (f value) post err) : Meets pre (p >>= f) post err :=
  bind (hp.consequence (fun _ hs => hs) (fun _ _ hs => hs) herr) hf

theorem of_exists {ι : Sort*} {pre : ι → σ → Prop} (h : ∀ index, Meets (pre index) p post err) :
    Meets (fun s => ∃ index, pre index s) p post err := by
  rintro s ⟨index, hs⟩
  exact h index s hs

/-- A fact that is known beforehand is not about the state. -/
theorem given {fact : Prop} (h : fact → Meets pre p post err) :
    Meets (fun s => pre s ∧ fact) p post err := fun s hs => h hs.2 s hs.1

/-- A sequence goes on with the value of an optional result. -/
theorem bind_orRaise {exception : ε} {value : Option α} {f : α → Procedure σ ε β}
    {post : β → σ → Prop} (hnone : ∀ s, pre s → err exception s)
    (hsome : ∀ result, value = some result → Meets pre (f result) post err) :
    Meets pre (Procedure.orRaise exception value >>= f) post err := by
  cases value with
  | none => exact hnone
  | some result => exact hsome result rfl

/-- A routine may be followed one starting state at a time. -/
theorem of_each (h : ∀ start, pre start → Meets (fun s => s = start) p post err) :
    Meets pre p post err :=
  fun s hs => h s hs s rfl

theorem at_state (h : Meets pre p post err) {start : σ} (hstart : pre start) :
    Meets (fun s => s = start) p post err := by
  rintro s rfl
  exact h s hstart

/-- Running a sequence from a known state: its first part returns. -/
theorem then_returned {f : α → Procedure σ ε β} {post : β → σ → Prop} {start middle : σ}
    {value : α} (hrun : p start = .returned value middle)
    (hrest : Meets (fun s => s = middle) (f value) post err) :
    Meets (fun s => s = start) (p >>= f) post err := by
  rintro s rfl
  rw [bind_of_returned hrun]
  exact hrest middle rfl

/-- Running a sequence from a known state: its first part raises. -/
theorem then_raised {f : α → Procedure σ ε β} {post : β → σ → Prop} {start middle : σ}
    {exception : ε} (hrun : p start = .raised exception middle) (herr : err exception middle) :
    Meets (fun s => s = start) (p >>= f) post err := by
  rintro s rfl
  rw [bind_of_raised hrun]
  exact herr

theorem ends_returned {start middle : σ} {value : α} (hrun : p start = .returned value middle)
    (hpost : post value middle) : Meets (fun s => s = start) p post err := by
  rintro s rfl
  rw [hrun]
  exact hpost

theorem ends_raised {start middle : σ} {exception : ε}
    (hrun : p start = .raised exception middle) (herr : err exception middle) :
    Meets (fun s => s = start) p post err := by
  rintro s rfl
  rw [hrun]
  exact herr

theorem ensure {post : Unit → σ → Prop} (exception : ε) (condition : Bool)
    (htrue : condition = true → ∀ s, pre s → post () s)
    (hfalse : condition = false → ∀ s, pre s → err exception s) :
    Meets pre (Procedure.ensure exception condition : Procedure σ ε Unit) post err := by
  cases condition with
  | true => exact htrue rfl
  | false => exact hfalse rfl

theorem when {post : Unit → σ → Prop} {q : Procedure σ ε Unit} (condition : Bool)
    (htrue : condition = true → Meets pre q post err)
    (hfalse : condition = false → ∀ s, pre s → post () s) :
    Meets pre (Procedure.when condition q) post err := by
  cases condition with
  | true => exact htrue rfl
  | false => exact hfalse rfl

theorem within {τ ε' : Type} {get : σ → τ} {set : τ → σ → σ} {wrap : ε' → ε}
    {q : Procedure τ ε' α} {preq : τ → Prop} {postq : α → τ → Prop} {errq : ε' → τ → Prop}
    (hq : Meets preq q postq errq) (hpre : ∀ s, pre s → preq (get s))
    (hpost : ∀ value part s, pre s → postq value part → post value (set part s))
    (herr : ∀ exception part s, pre s → errq exception part →
      err (wrap exception) (set part s)) :
    Meets pre (Procedure.within get set wrap q) post err := by
  intro s hs
  have hends := hq (get s) (hpre s hs)
  cases hrun : q (get s) with
  | returned value part =>
      rw [hrun] at hends
      rw [within_of_returned get set wrap hrun]
      exact hpost value part s hs hends
  | raised exception part =>
      rw [hrun] at hends
      rw [within_of_raised get set wrap hrun]
      exact herr exception part s hs hends

theorem ite {condition : Prop} [Decidable condition] {q : Procedure σ ε α}
    (hthen : condition → Meets pre p post err)
    (helse : ¬ condition → Meets pre q post err) :
    Meets pre (if condition then p else q) post err := by
  by_cases hcondition : condition
  · rw [if_pos hcondition]
    exact hthen hcondition
  · rw [if_neg hcondition]
    exact helse hcondition

theorem catching {middle : ε → σ → Prop} {handler : ε → Procedure σ ε α}
    (hp : Meets pre p post middle)
    (hhandler : ∀ exception, Meets (middle exception) (handler exception) post err) :
    Meets pre (Procedure.catching p handler) post err := by
  intro s hs
  have hfirst := hp s hs
  rw [catching_apply]
  cases hcall : p s with
  | returned value s' =>
      rw [hcall] at hfirst
      exact hfirst
  | raised exception s' =>
      rw [hcall] at hfirst
      exact hhandler exception s' hfirst

end Meets

/-- A condition the call neither needs help to establish nor can destroy: it
survives a normal return and an exception alike. -/
def Keeps (inv : σ → Prop) (p : Procedure σ ε α) : Prop :=
  Meets inv p (fun _ => inv) (fun _ => inv)

namespace Keeps

variable {inv : σ → Prop} {p : Procedure σ ε α}

theorem state (h : Keeps inv p) {s : σ} (hs : inv s) : inv (p s).state := by
  have hends := h s hs
  cases hp : p s with
  | returned value s' => simpa [hp] using hends
  | raised exception s' => simpa [hp] using hends

/-- More may be promised of a return. -/
theorem of_meets {post : α → σ → Prop} (h : Meets inv p post fun _ => inv)
    (hpost : ∀ value s, post value s → inv s) : Keeps inv p :=
  h.consequence (fun _ hs => hs) hpost fun _ _ hs => hs

theorem pure (value : α) : Keeps inv (Pure.pure value : Procedure σ ε α) :=
  Meets.pure value fun _ hs => hs

theorem raise (exception : ε) : Keeps inv (Procedure.raise exception : Procedure σ ε α) :=
  Meets.raise exception fun _ hs => hs

theorem read (f : σ → α) : Keeps inv (Procedure.read f : Procedure σ ε α) :=
  Meets.read f fun _ hs => hs

theorem modify (f : σ → σ) (h : ∀ s, inv s → inv (f s)) :
    Keeps inv (Procedure.modify f : Procedure σ ε Unit) :=
  Meets.modify f h

theorem orRaise (exception : ε) (value : Option α) :
    Keeps inv (Procedure.orRaise exception value : Procedure σ ε α) :=
  Meets.orRaise exception value (fun _ _ _ hs => hs) fun _ _ hs => hs

theorem ensure (exception : ε) (condition : Bool) :
    Keeps inv (Procedure.ensure exception condition : Procedure σ ε Unit) :=
  Meets.ensure exception condition (fun _ _ hs => hs) fun _ _ hs => hs

theorem when {q : Procedure σ ε Unit} (condition : Bool) (hq : condition = true → Keeps inv q) :
    Keeps inv (Procedure.when condition q) :=
  Meets.when condition hq fun _ _ hs => hs

theorem bind {f : α → Procedure σ ε β} (hp : Keeps inv p) (hf : ∀ value, Keeps inv (f value)) :
    Keeps inv (p >>= f) :=
  Meets.bind hp hf

theorem ite {condition : Prop} [Decidable condition] {q : Procedure σ ε α}
    (hthen : condition → Keeps inv p) (helse : ¬ condition → Keeps inv q) :
    Keeps inv (if condition then p else q) :=
  Meets.ite hthen helse

theorem catching {handler : ε → Procedure σ ε α} (hp : Keeps inv p)
    (hhandler : ∀ exception, Keeps inv (handler exception)) :
    Keeps inv (Procedure.catching p handler) :=
  Meets.catching hp hhandler

/-- How a call ends after a first part that keeps a condition. -/
theorem bind_exit {Q : Exit σ ε β → Prop} {f : α → Procedure σ ε β} {s : σ}
    (hp : Keeps inv p) (hs : inv s) (hraised : ∀ exception s', inv s' → Q (.raised exception s'))
    (hf : ∀ value s', inv s' → Q (f value s')) : Q ((p >>= f) s) := by
  have hends := hp s hs
  rw [bind_apply]
  cases hrun : p s with
  | returned value s' =>
      rw [hrun] at hends
      exact hf value s' hends
  | raised exception s' =>
      rw [hrun] at hends
      exact hraised exception s' hends

end Keeps

/-- From a known state, the routine ends in the condition if it returns. -/
def Yields (s : σ) (p : Procedure σ ε α) (post : σ → Prop) : Prop :=
  Meets (fun s' => s' = s) p (fun _ => post) fun _ _ => True

namespace Yields

variable {s middle : σ} {post : σ → Prop} {p q : Procedure σ ε α}

theorem returns {value : α} (hrun : p s = .returned value middle) (hpost : post middle) :
    Yields s p post := Meets.ends_returned hrun hpost

theorem raises {exception : ε} (hrun : p s = .raised exception middle) : Yields s p post :=
  Meets.ends_raised hrun trivial

theorem then_returned {f : α → Procedure σ ε β} {value : α}
    (hrun : p s = .returned value middle) (hrest : Yields middle (f value) post) :
    Yields s (p >>= f) post := Meets.then_returned hrun hrest

theorem then_raised {f : α → Procedure σ ε β} {exception : ε}
    (hrun : p s = .raised exception middle) : Yields s (p >>= f) post :=
  Meets.then_raised hrun trivial

theorem read {g : σ → α} {f : α → Procedure σ ε β} (hf : Yields s (f (g s)) post) :
    Yields s (Procedure.read g >>= f) post := then_returned rfl hf

theorem orRaise {exception : ε} {value : Option α} {f : α → Procedure σ ε β}
    (hf : ∀ result, value = some result → Yields s (f result) post) :
    Yields s (Procedure.orRaise exception value >>= f) post := by
  cases value with
  | none => exact then_raised rfl
  | some result => exact then_returned rfl (hf result rfl)

theorem ensure {exception : ε} {condition : Bool} {f : Unit → Procedure σ ε β}
    (hf : condition = true → Yields s (f ()) post) :
    Yields s (Procedure.ensure exception condition >>= f) post := by
  cases condition with
  | false => exact then_raised rfl
  | true => exact then_returned rfl (hf rfl)

theorem ite {condition : Prop} [Decidable condition] (hthen : condition → Yields s p post)
    (helse : ¬ condition → Yields s q post) :
    Yields s (if condition then p else q) post := Meets.ite hthen helse

end Yields

/-! ## One call after another -/

/-- A routine so many times; the first exception ends it. -/
def times : Nat → Procedure σ ε α → Procedure σ ε Unit
  | 0, _ => pure ()
  | count + 1, p => do
      let _ ← p
      times count p

/-- When every turn takes an item off a list of items, so many turns take so many. -/
theorem times_takes {ι : Type} (inv : List ι → σ → Prop) {p : Procedure σ ε α}
    (hturn : ∀ item items s value s', inv (item :: items) s → p s = .returned value s' →
      inv items s')
    {before after : List ι} {s s' : σ} (hs : inv (before ++ after) s)
    (hrun : times before.length p s = .returned () s') : inv after s' := by
  induction before generalizing s with
  | nil =>
      simp only [times, pure_apply, List.length_nil, Exit.returned.injEq, true_and] at hrun
      exact hrun ▸ hs
  | cons item before ih =>
      obtain ⟨value, middle, hfirst, hrest⟩ := bind_returned_iff.mp hrun
      exact ih (hturn item (before ++ after) s value middle hs hfirst) hrest

/-! ## What a routine does not see -/

/-- The routine runs the same from a state that was changed so, and the change stays. -/
def Ignores (change : σ → σ) (p : Procedure σ ε α) : Prop :=
  ∀ s, p (change s) = match p s with
    | .returned value s' => .returned value (change s')
    | .raised exception s' => .raised exception (change s')

namespace Ignores

variable {change : σ → σ} {p : Procedure σ ε α}

theorem state (h : Ignores change p) (s : σ) : (p (change s)).state = change (p s).state := by
  rw [h s]
  cases p s with
  | returned value s' => rfl
  | raised exception s' => rfl

theorem pure (value : α) : Ignores change (Pure.pure value : Procedure σ ε α) := fun _ => rfl

theorem raise (exception : ε) : Ignores change (Procedure.raise exception : Procedure σ ε α) :=
  fun _ => rfl

theorem read {f : σ → α} (hf : ∀ s, f (change s) = f s) :
    Ignores change (Procedure.read f : Procedure σ ε α) := fun s =>
  congrArg (fun value => Exit.returned value (change s)) (hf s)

theorem modify {f : σ → σ} (hf : ∀ s, f (change s) = change (f s)) :
    Ignores change (Procedure.modify f : Procedure σ ε Unit) := fun s =>
  congrArg (Exit.returned ()) (hf s)

theorem orRaise (exception : ε) (value : Option α) :
    Ignores change (Procedure.orRaise exception value : Procedure σ ε α) := by
  cases value with
  | none => exact raise exception
  | some result => exact pure result

theorem bind {f : α → Procedure σ ε β} (hp : Ignores change p)
    (hf : ∀ value, Ignores change (f value)) : Ignores change (p >>= f) := by
  intro s
  rw [bind_apply, bind_apply, hp s]
  cases p s with
  | returned value s' => exact hf value s'
  | raised exception s' => rfl

theorem ite {condition : Prop} [Decidable condition] {q : Procedure σ ε α}
    (hthen : Ignores change p) (helse : Ignores change q) :
    Ignores change (if condition then p else q) := by
  by_cases hcondition : condition
  · rw [if_pos hcondition]
    exact hthen
  · rw [if_neg hcondition]
    exact helse

/-- Work on a part of the state that is not changed. -/
theorem within {τ ε' : Type} {get : σ → τ} {set : τ → σ → σ} {wrap : ε' → ε}
    (q : Procedure τ ε' α) (hget : ∀ s, get (change s) = get s)
    (hset : ∀ part s, set part (change s) = change (set part s)) :
    Ignores change (Procedure.within get set wrap q) := by
  intro s
  unfold Procedure.within
  rw [hget s]
  cases q (get s) with
  | returned value part => exact congrArg (Exit.returned value) (hset part s)
  | raised exception part => exact congrArg (Exit.raised (wrap exception)) (hset part s)

end Ignores

end Procedure

end PdsBackup
