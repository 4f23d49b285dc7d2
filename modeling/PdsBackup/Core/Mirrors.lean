import PdsBackup.Core.Procedure

/-!
# A routine seen through a part of its state

A routine of a large state may do to a part of that state what a routine of the
part alone does: it returns exactly if the other one does, with the same value,
and leaves the same part.  What it does to the rest can be kept in a condition.
How it fails is of no account.
-/

namespace PdsBackup

variable {σ τ ε ε' α β : Type}

/-- Two calls end in the same way, as far as a part of the state goes. -/
inductive Exit.Mirrors (get : σ → τ) (post : α → σ → Prop) : Exit σ ε α → Exit τ ε' α → Prop where
  | returned {value : α} {s : σ} (hpost : post value s) :
      Mirrors get post (.returned value s) (.returned value (get s))
  | raised {exception : ε} {s : σ} {exception' : ε'} {t : τ} :
      Mirrors get post (.raised exception s) (.raised exception' t)

/-- One of the two returns exactly if the other one does. -/
theorem Exit.Mirrors.returned_iff {get : σ → τ} {post : α → σ → Prop} {exit : Exit σ ε α}
    {other : Exit τ ε' α} (h : exit.Mirrors get post other) (value : α) (part : τ) :
    other = .returned value part ↔ ∃ s, exit = .returned value s ∧ get s = part := by
  cases h with
  | returned hpost => simp [eq_comm, and_assoc]
  | raised => simp

namespace Procedure

theorem bind_bind {γ : Type} (p : Procedure σ ε α) (f : α → Procedure σ ε β)
    (g : β → Procedure σ ε γ) : p >>= f >>= g = p >>= fun value => f value >>= g := by
  funext s
  rw [bind_apply, bind_apply, bind_apply]
  cases p s <;> rfl

theorem returns_bind_iff {p : Procedure σ ε α} {f : α → Procedure σ ε β} {s : σ} :
    ((p >>= f) s).returns = true ↔
      ∃ value s', p s = .returned value s' ∧ (f value s').returns = true := by
  rw [bind_apply]
  cases hp : p s with
  | returned value s' => simp
  | raised exception s' => simp [Exit.returns]

/-- The routine never returns. -/
def Fails (p : Procedure σ ε α) : Prop := ∀ s, ∃ exception s', p s = .raised exception s'

theorem Fails.raise (exception : ε) : Fails (Procedure.raise exception : Procedure σ ε α) :=
  fun s => ⟨exception, s, rfl⟩

theorem Fails.before {p : Procedure σ ε α} (hp : Fails p) (f : α → Procedure σ ε β) :
    Fails (p >>= f) := by
  intro s
  obtain ⟨exception, s', hraised⟩ := hp s
  exact ⟨exception, s', bind_of_raised hraised⟩

theorem Fails.after (p : Procedure σ ε α) {f : α → Procedure σ ε β} (hf : ∀ value, Fails (f value)) :
    Fails (p >>= f) := by
  intro s
  rw [bind_apply]
  cases p s with
  | returned value s' => exact hf value s'
  | raised exception s' => exact ⟨exception, s', rfl⟩

def Mirrors (get : σ → τ) (pre : σ → Prop) (p : Procedure σ ε α) (q : Procedure τ ε' α)
    (post : α → σ → Prop) : Prop :=
  ∀ s, pre s → (p s).Mirrors get post (q (get s))

namespace Mirrors

variable {get : σ → τ} {pre pre' : σ → Prop} {p : Procedure σ ε α} {q : Procedure τ ε' α}
variable {post post' : α → σ → Prop}

theorem consequence (h : Mirrors get pre p q post) (hpre : ∀ s, pre' s → pre s)
    (hpost : ∀ value s, post value s → post' value s) : Mirrors get pre' p q post' := by
  intro s hs
  have hends := h s (hpre s hs)
  generalize p s = exit, q (get s) = other at hends
  cases hends with
  | returned hends => exact .returned (hpost _ _ hends)
  | raised => exact .raised

theorem pure (value : α) (h : ∀ s, pre s → post value s) :
    Mirrors get pre (Pure.pure value : Procedure σ ε α) (Pure.pure value : Procedure τ ε' α) post :=
  fun s hs => .returned (h s hs)

theorem raise (exception : ε) (exception' : ε') :
    Mirrors get pre (Procedure.raise exception : Procedure σ ε α)
      (Procedure.raise exception' : Procedure τ ε' α) post :=
  fun _ _ => .raised

/-- The rule for sequences. -/
theorem bind {middle : α → σ → Prop} {f : α → Procedure σ ε β} {g : α → Procedure τ ε' β}
    {post : β → σ → Prop} (hp : Mirrors get pre p q middle)
    (hf : ∀ value, Mirrors get (middle value) (f value) (g value) post) :
    Mirrors get pre (p >>= f) (q >>= g) post := by
  intro s hs
  have hends := hp s hs
  rw [bind_apply, bind_apply]
  generalize p s = exit, q (get s) = other at hends
  cases hends with
  | returned hmiddle => exact hf _ _ hmiddle
  | raised => exact .raised

/-- What is read of the rest is known. -/
theorem read_bind {γ : Type} {f : σ → γ} {g : γ → Procedure σ ε α} {value : γ}
    (hvalue : ∀ s, pre s → f s = value) (hrest : Mirrors get pre (g value) q post) :
    Mirrors get pre (Procedure.read f >>= g) q post := by
  intro s hs
  rw [read_bind_apply, hvalue s hs]
  exact hrest s hs

/-- A step that leaves the part alone. -/
theorem step {γ : Type} {r : Procedure σ ε γ} {g : γ → Procedure σ ε α} (value : γ)
    (middle : σ → Prop)
    (hr : ∀ s, pre s → ∃ s', r s = .returned value s' ∧ get s' = get s ∧ middle s')
    (hrest : Mirrors get middle (g value) q post) : Mirrors get pre (r >>= g) q post := by
  intro s hs
  obtain ⟨s', hreturned, hpart, hmiddle⟩ := hr s hs
  rw [bind_of_returned hreturned, ← hpart]
  exact hrest s' hmiddle

/-- Steps that follow, and leave the part alone. -/
theorem bind_left {middle : α → σ → Prop} {f : α → Procedure σ ε α} (hp : Mirrors get pre p q middle)
    (hf : ∀ value s, middle value s →
      ∃ s', f value s = .returned value s' ∧ get s' = get s ∧ post value s') :
    Mirrors get pre (p >>= f) q post := by
  intro s hs
  have hends := hp s hs
  rw [bind_apply]
  generalize p s = exit, q (get s) = other at hends
  cases hends with
  | @returned value s hmiddle =>
      obtain ⟨s', hreturned, hpart, hpost⟩ := hf value s hmiddle
      show Exit.Mirrors get post (f value s) _
      rw [hreturned, ← hpart]
      exact .returned hpost
  | raised => exact .raised

theorem bind_orRaise {γ : Type} {exception : ε} {exception' : ε'} {value : Option γ}
    {f : γ → Procedure σ ε α} {g : γ → Procedure τ ε' α}
    (hsome : ∀ result, value = some result → Mirrors get pre (f result) (g result) post) :
    Mirrors get pre (Procedure.orRaise exception value >>= f)
      (Procedure.orRaise exception' value >>= g) post := by
  cases value with
  | none => exact fun _ _ => .raised
  | some result => exact hsome result rfl

theorem bind_ensure {exception : ε} {exception' : ε'} {condition : Bool}
    {f : Unit → Procedure σ ε α} {g : Unit → Procedure τ ε' α}
    (htrue : Mirrors get pre (f ()) (g ()) post) :
    Mirrors get pre (Procedure.ensure exception condition >>= f)
      (Procedure.ensure exception' condition >>= g) post := by
  cases condition with
  | false => exact fun _ _ => .raised
  | true => exact htrue

theorem when {post : Unit → σ → Prop} {p : Procedure σ ε Unit} {q : Procedure τ ε' Unit}
    (condition : Bool) (htrue : Mirrors get pre p q post) (hfalse : ∀ s, pre s → post () s) :
    Mirrors get pre (Procedure.when condition p) (Procedure.when condition q) post := by
  cases condition with
  | true => exact htrue
  | false => exact pure () hfalse

theorem ite {condition : Prop} [Decidable condition] {p' : Procedure σ ε α}
    {q' : Procedure τ ε' α} (hthen : condition → Mirrors get pre p q post)
    (helse : ¬ condition → Mirrors get pre p' q' post) :
    Mirrors get pre (if condition then p else p') (if condition then q else q') post := by
  by_cases hcondition : condition
  · rw [if_pos hcondition, if_pos hcondition]
    exact hthen hcondition
  · rw [if_neg hcondition, if_neg hcondition]
    exact helse hcondition

/-- A routine of the part, as it is called from both sides. -/
theorem within {π : Type} {r : Procedure τ π α} {set : τ → σ → σ} {wrap : π → ε}
    {wrap' : π → ε'} (hget : ∀ part s, get (set part s) = part)
    (hpost : ∀ value part s, pre s → r (get s) = .returned value part → post value (set part s)) :
    Mirrors get pre (Procedure.within get set wrap r)
      (Procedure.within id (fun part _ => part) wrap' r) post := by
  intro s hs
  rw [Procedure.within, Procedure.within, id]
  cases hr : r (get s) with
  | returned value part =>
      have hends : Exit.Mirrors get post (.returned value (set part s) : Exit σ ε α)
          (.returned value (get (set part s)) : Exit τ ε' α) :=
        .returned (hpost value part s hs hr)
      rw [hget] at hends
      exact hends
  | raised exception part => exact .raised

/-- An exception is not handled. -/
theorem catching {handler : ε → Procedure σ ε α} (hp : Mirrors get pre p q post)
    (hhandler : ∀ exception, Fails (handler exception)) :
    Mirrors get pre (Procedure.catching p handler) q post := by
  intro s hs
  have hends := hp s hs
  rw [catching_apply]
  generalize p s = exit, q (get s) = other at hends
  cases hends with
  | returned hpost => exact .returned hpost
  | @raised exception s _ _ =>
      obtain ⟨exception', s', hraised⟩ := hhandler exception s
      show Exit.Mirrors get post (handler exception s) _
      rw [hraised]
      exact .raised

/-- Both fail. -/
theorem of_fails (hp : Fails p) (hq : Fails q) : Mirrors get pre p q post := by
  intro s _
  obtain ⟨exception, s', hraised⟩ := hp s
  obtain ⟨exception', t', hraised'⟩ := hq (get s)
  rw [hraised, hraised']
  exact .raised

end Mirrors

end Procedure

end PdsBackup
