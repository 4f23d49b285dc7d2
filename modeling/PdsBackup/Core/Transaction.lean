import PdsBackup.Core.Procedure

/-!
# Methods that run in a transaction of their own

A connection to a database and the methods that prepare one statement, begin a
transaction, run the statement and end the transaction by hand.  A transaction
cannot be begun while one is open, and only its end closes it.  Every call of
the database may fail; the first failure is thrown and nothing after it happens.

The rows of a `SELECT` are handed to code of the caller, which works on a state
of its own and may throw as well.
-/

namespace PdsBackup.Transaction

open Procedure

/-- A connection, with the state the caller's code works on. -/
structure State (τ κ : Type) where
  table : τ
  inTransaction : Bool := false
  caller : κ

/-- The calls of one method that fail for reasons of their own; `step` is by the
number of steps before. -/
structure Faults where
  prepare : Bool := false
  begin : Bool := false
  step : Nat → Bool := fun _ => false
  finish : Bool := false

/-- What a method throws when a call fails. -/
structure Codes (ε : Type) where
  prepare : ε
  step : ε
  finish : ε

section Methods

variable {τ κ ε α ρ : Type} (codes : Codes ε) (faults : Faults)

def State.opened (s : State τ κ) : State τ κ := { s with inTransaction := true }

def State.closed (s : State τ κ) : State τ κ := { s with inTransaction := false }

def transaction (body : Procedure (State τ κ) ε α) : Procedure (State τ κ) ε α := do
  ensure codes.prepare !faults.prepare
  let inTransaction ← read State.inTransaction
  ensure codes.prepare (!faults.begin && !inTransaction)
  modify State.opened
  let value ← body
  ensure codes.finish !faults.finish
  modify State.closed
  pure value

/-- The one step of a statement that writes.  A table may refuse the change. -/
def write (accepts : τ → Bool) (change : τ → τ) : Procedure (State τ κ) ε Unit := do
  let table ← read State.table
  ensure codes.step (!faults.step 0 && accepts table)
  modify fun s => { s with table := change s.table }

/-- Code of the caller. -/
def foreign (p : Procedure κ ε α) : Procedure (State τ κ) ε α :=
  Procedure.within State.caller (fun caller s => { s with caller }) id p

/-- The steps of a `SELECT`: one for each row, which is visited, and the one that
finds no more rows. -/
def forEach (visit : α → ρ → Procedure κ ε α) : Nat → α → List ρ → Procedure (State τ κ) ε α
  | steps, value, [] => do
      ensure codes.step !faults.step steps
      pure value
  | steps, value, row :: rows => do
      ensure codes.step !faults.step steps
      let value ← foreign (visit value row)
      forEach visit (steps + 1) value rows

def select (rows : τ → List ρ) (start : α) (visit : α → ρ → Procedure κ ε α) :
    Procedure (State τ κ) ε α := do
  let table ← read State.table
  forEach codes faults visit 0 start (rows table)

/-- A `SELECT` that is left at its first row. -/
def selectFirst (rows : τ → List ρ) : Procedure (State τ κ) ε (Option ρ) := do
  let table ← read State.table
  ensure codes.step !faults.step 0
  pure (rows table).head?

/-- A method whose statement writes. -/
def writing (accepts : τ → Bool) (change : τ → τ) : Procedure (State τ κ) ε Unit :=
  transaction codes faults (write codes faults accepts change)

/-- A method whose statement reads. -/
def reading (rows : τ → List ρ) (start : α) (visit : α → ρ → Procedure κ ε α) :
    Procedure (State τ κ) ε α :=
  transaction codes faults (select codes faults rows start visit)

end Methods

/-- The visits alone. -/
def visitAll {κ ε α ρ : Type} (visit : α → ρ → Procedure κ ε α) :
    α → List ρ → Procedure κ ε α
  | value, [] => pure value
  | value, row :: rows => do
      let value ← visit value row
      visitAll visit value rows

/-! ## How a transaction ends -/

section Ends

variable {τ κ ε α ρ : Type} {codes : Codes ε} {faults : Faults} {s : State τ κ}
variable {body : Procedure (State τ κ) ε α}

/-- A body leaves the transaction open, and a table it knows how to leave. -/
structure Stays (tables : τ → τ → Prop) (body : Procedure (State τ κ) ε α) : Prop where
  inTransaction : ∀ s, (body s).state.inTransaction = s.inTransaction
  table : ∀ s, tables s.table (body s).state.table

theorem transaction_of_prepare (hfault : faults.prepare = true) :
    transaction codes faults body s = .raised codes.prepare s := by
  simp [transaction, hfault]

theorem transaction_of_begin (hprepare : faults.prepare = false)
    (hfault : faults.begin = true ∨ s.inTransaction = true) :
    transaction codes faults body s = .raised codes.prepare s := by
  have hcheck : (!faults.begin && !s.inTransaction) = false := by
    cases hfault with
    | inl hbegin => rw [hbegin, Bool.not_true, Bool.false_and]
    | inr hopen => rw [hopen, Bool.not_true, Bool.and_false]
  simp only [transaction, hprepare, Bool.not_false, ensure_true, pure_bind_apply,
    read_bind_apply, hcheck, ensure_false, raise_bind_apply]

section Begun

variable (hprepare : faults.prepare = false) (hbegin : faults.begin = false)
variable (hidle : s.inTransaction = false)

include hprepare hbegin hidle

theorem transaction_begun :
    transaction codes faults body s =
      (do
        let value ← body
        ensure codes.finish !faults.finish
        modify State.closed
        pure value : Procedure (State τ κ) ε α) s.opened := by
  simp only [transaction, hprepare, hbegin, hidle, Bool.not_false, Bool.and_self, ensure_true,
    pure_bind_apply, read_bind_apply, modify_bind_apply]

theorem transaction_of_raised {exception : ε} {s' : State τ κ}
    (hbody : body s.opened = .raised exception s') :
    transaction codes faults body s = .raised exception s' := by
  rw [transaction_begun hprepare hbegin hidle]
  exact bind_of_raised hbody

theorem transaction_of_finish {value : α} {s' : State τ κ}
    (hbody : body s.opened = .returned value s') (hfinish : faults.finish = true) :
    transaction codes faults body s = .raised codes.finish s' := by
  rw [transaction_begun hprepare hbegin hidle, bind_of_returned hbody, hfinish]
  rfl

theorem transaction_of_returned {value : α} {s' : State τ κ}
    (hbody : body s.opened = .returned value s') (hfinish : faults.finish = false) :
    transaction codes faults body s = .returned value s'.closed := by
  rw [transaction_begun hprepare hbegin hidle, bind_of_returned hbody, hfinish]
  rfl

end Begun

/-- Nothing fails between the begin and the end of the transaction. -/
def RunsThrough (faults : Faults) (body : Procedure (State τ κ) ε α) (s : State τ κ) : Prop :=
  (body s.opened).returns = true ∧ faults.finish = false

/-- A method leaves a transaction open exactly when it has begun one and does not
run through. -/
theorem transaction_closes_iff {tables : τ → τ → Prop} (hstays : Stays tables body)
    (hidle : s.inTransaction = false) :
    (transaction codes faults body s).state.inTransaction = false ↔
      (faults.prepare = false → faults.begin = false → RunsThrough faults body s) := by
  cases hprepare : faults.prepare with
  | true => simp [transaction_of_prepare hprepare, hidle]
  | false =>
      cases hbegin : faults.begin with
      | true => simp [transaction_of_begin hprepare (.inl hbegin), hidle]
      | false =>
          have hopen : (body s.opened).state.inTransaction = true :=
            hstays.inTransaction s.opened
          cases hbody : body s.opened with
          | raised exception s' =>
              rw [hbody] at hopen
              rw [transaction_of_raised hprepare hbegin hidle hbody]
              simp only [Exit.state] at hopen ⊢
              simp [RunsThrough, hbody, Exit.returns, hopen]
          | returned value s' =>
              rw [hbody] at hopen
              cases hfinish : faults.finish with
              | true =>
                  rw [transaction_of_finish hprepare hbegin hidle hbody hfinish]
                  simp only [Exit.state] at hopen ⊢
                  simp [RunsThrough, hfinish, hopen]
              | false =>
                  rw [transaction_of_returned hprepare hbegin hidle hbody hfinish]
                  simp [RunsThrough, hbody, Exit.returns, hfinish, State.closed]

/-- However it ends, a method leaves the table alone or leaves one its body may leave. -/
theorem transaction_table {tables : τ → τ → Prop} (hstays : Stays tables body)
    (hsame : ∀ table, tables table table) :
    tables s.table (transaction codes faults body s).state.table := by
  cases hprepare : faults.prepare with
  | true =>
      rw [transaction_of_prepare hprepare]
      exact hsame s.table
  | false =>
      by_cases hbegin : faults.begin = true ∨ s.inTransaction = true
      · rw [transaction_of_begin hprepare hbegin]
        exact hsame s.table
      · simp only [not_or, Bool.not_eq_true] at hbegin
        have htable := hstays.table s.opened
        cases hbody : body s.opened with
        | raised exception s' =>
            rw [transaction_of_raised hprepare hbegin.1 hbegin.2 hbody]
            rwa [hbody] at htable
        | returned value s' =>
            rw [hbody] at htable
            cases hfinish : faults.finish with
            | true => rwa [transaction_of_finish hprepare hbegin.1 hbegin.2 hbody hfinish]
            | false => rwa [transaction_of_returned hprepare hbegin.1 hbegin.2 hbody hfinish]

end Ends

/-! ## The two kinds of statements -/

section Statements

variable {τ κ ε α ρ : Type} {codes : Codes ε} {faults : Faults} {s : State τ κ}

theorem write_apply (accepts : τ → Bool) (change : τ → τ) :
    write codes faults accepts change s =
      if faults.step 0 = false ∧ accepts s.table = true then
        .returned () { s with table := change s.table }
      else .raised codes.step s := by
  cases hstep : faults.step 0 <;> cases haccepts : accepts s.table <;>
    simp [write, hstep, haccepts]

theorem write_stays (accepts : τ → Bool) (change : τ → τ) :
    Stays (fun table left => left = table ∨ accepts table = true ∧ left = change table)
      (write codes faults accepts change : Procedure (State τ κ) ε Unit) where
  inTransaction s := by
    rw [write_apply]
    split <;> rfl
  table s := by
    rw [write_apply]
    split
    · next hdone => exact .inr ⟨hdone.2, rfl⟩
    · exact .inl rfl

theorem write_returns_iff (accepts : τ → Bool) (change : τ → τ) :
    (write codes faults accepts change s).returns = true ↔
      faults.step 0 = false ∧ accepts s.table = true := by
  rw [write_apply]
  by_cases hdone : faults.step 0 = false ∧ accepts s.table = true
  · simp [Exit.returns, hdone]
  · simp [Exit.returns, hdone]

theorem foreign_of_returned {p : Procedure κ ε α} {value : α} {caller : κ}
    (hp : p s.caller = .returned value caller) :
    foreign p s = .returned value { s with caller } :=
  within_of_returned _ _ _ hp

theorem foreign_of_raised {p : Procedure κ ε α} {exception : ε} {caller : κ}
    (hp : p s.caller = .raised exception caller) :
    foreign p s = .raised exception { s with caller } :=
  within_of_raised _ _ _ hp

/-- A write is done and committed, or it is not done or not committed. -/
theorem writing_cases (accepts : τ → Bool) (change : τ → τ) (hidle : s.inTransaction = false) :
    (accepts s.table = true ∧
        writing codes faults accepts change s =
          .returned () { s with table := change s.table }) ∨
      ∃ exception s', writing codes faults accepts change s = .raised exception s' ∧
        (s'.inTransaction = true ∨ s'.table = s.table) := by
  cases hprepare : faults.prepare with
  | true => exact .inr ⟨_, _, transaction_of_prepare hprepare, .inr rfl⟩
  | false =>
      cases hbegin : faults.begin with
      | true => exact .inr ⟨_, _, transaction_of_begin hprepare (.inl hbegin), .inr rfl⟩
      | false =>
          by_cases hstep : faults.step 0 = false ∧ accepts s.opened.table = true
          · have hwrite : write codes faults accepts change s.opened =
                .returned () { s.opened with table := change s.table } := by
              rw [write_apply, if_pos hstep]
              rfl
            cases hfinish : faults.finish with
            | true =>
                exact .inr ⟨_, _,
                  transaction_of_finish hprepare hbegin hidle hwrite hfinish, .inl rfl⟩
            | false =>
                refine .inl ⟨hstep.2, ?_⟩
                rw [writing, transaction_of_returned hprepare hbegin hidle hwrite hfinish]
                simp [State.closed, State.opened, hidle]
          · have hwrite : write codes faults accepts change s.opened =
                .raised codes.step s.opened := by
              rw [write_apply, if_neg hstep]
            exact .inr ⟨_, _, transaction_of_raised hprepare hbegin hidle hwrite, .inl rfl⟩

variable (visit : α → ρ → Procedure κ ε α)

theorem forEach_of_fault {steps : Nat} (hfault : faults.step steps = true) (value : α)
    (rows : List ρ) : forEach codes faults visit steps value rows s = .raised codes.step s := by
  cases rows <;> simp [forEach, hfault]

theorem forEach_nil {steps : Nat} (hstep : faults.step steps = false) (value : α) :
    forEach codes faults visit steps value [] s = .returned value s := by
  simp [forEach, hstep]

theorem forEach_cons {steps : Nat} (hstep : faults.step steps = false) (value : α) (row : ρ)
    (rows : List ρ) :
    forEach codes faults visit steps value (row :: rows) s =
      (foreign (visit value row) >>= fun value =>
        forEach codes faults visit (steps + 1) value rows) s := by
  simp [forEach, hstep]

/-- Visits change nothing but the state of the caller. -/
theorem forEach_frame (steps : Nat) (value : α) (rows : List ρ) (s : State τ κ) :
    (forEach codes faults visit steps value rows s).state.inTransaction = s.inTransaction ∧
      (forEach codes faults visit steps value rows s).state.table = s.table := by
  induction rows generalizing steps value s with
  | nil =>
      cases hstep : faults.step steps with
      | true => simp [forEach_of_fault visit hstep]
      | false => simp [forEach_nil visit hstep]
  | cons row rows ih =>
      cases hstep : faults.step steps with
      | true => simp [forEach_of_fault visit hstep]
      | false =>
          rw [forEach_cons visit hstep]
          cases hvisit : visit value row s.caller with
          | raised exception caller =>
              rw [bind_of_raised (foreign_of_raised hvisit)]
              exact ⟨rfl, rfl⟩
          | returned next caller =>
              rw [bind_of_returned (foreign_of_returned hvisit)]
              exact ih (steps + 1) next { s with caller }

theorem select_stays (rows : τ → List ρ) (start : α) :
    Stays (fun table left => left = table)
      (select codes faults rows start visit : Procedure (State τ κ) ε α) where
  inTransaction s := (forEach_frame visit 0 start (rows s.table) s).1
  table s := (forEach_frame visit 0 start (rows s.table) s).2

/-- A `SELECT` runs through when each of its steps does and no visit throws. -/
theorem forEach_returns_iff (steps : Nat) (value : α) (rows : List ρ) (s : State τ κ) :
    (forEach codes faults visit steps value rows s).returns = true ↔
      (∀ step ≤ rows.length, faults.step (steps + step) = false) ∧
        (visitAll visit value rows s.caller).returns = true := by
  induction rows generalizing steps value s with
  | nil =>
      cases hstep : faults.step steps with
      | true => simp [forEach_of_fault visit hstep, Exit.returns, hstep]
      | false => simp [forEach_nil visit hstep, Exit.returns, hstep, visitAll]
  | cons row rows ih =>
      have hsteps : (∀ step ≤ (row :: rows).length, faults.step (steps + step) = false) ↔
          faults.step steps = false ∧
            ∀ step ≤ rows.length, faults.step (steps + 1 + step) = false := by
        constructor
        · intro hall
          refine ⟨hall 0 (Nat.zero_le _), fun step hle => ?_⟩
          have hnext := hall (step + 1) (by simpa using hle)
          rwa [show steps + 1 + step = steps + (step + 1) by omega]
        · rintro ⟨hzero, hall⟩ step hle
          cases step with
          | zero => exact hzero
          | succ step =>
              have hnext := hall step (by simpa using hle)
              rwa [show steps + (step + 1) = steps + 1 + step by omega]
      rw [hsteps]
      cases hstep : faults.step steps with
      | true => simp [forEach_of_fault visit hstep, Exit.returns]
      | false =>
          rw [forEach_cons visit hstep, visitAll]
          cases hvisit : visit value row s.caller with
          | raised exception caller =>
              rw [bind_of_raised (foreign_of_raised hvisit), bind_of_raised hvisit]
              simp [Exit.returns]
          | returned next caller =>
              rw [bind_of_returned (foreign_of_returned hvisit), bind_of_returned hvisit]
              simpa using ih (steps + 1) next { s with caller }

/-- Without faults a `SELECT` is the visits of its rows. -/
theorem forEach_of_returned {steps : Nat} {value result : α} {rows : List ρ} {caller : κ}
    (hsteps : ∀ step, faults.step step = false)
    (hvisits : visitAll visit value rows s.caller = .returned result caller) :
    forEach codes faults visit steps value rows s = .returned result { s with caller } := by
  induction rows generalizing steps value s with
  | nil =>
      simp only [visitAll, pure_apply, Exit.returned.injEq] at hvisits
      rw [forEach_nil visit (hsteps steps), hvisits.1, ← hvisits.2]
  | cons row rows ih =>
      rw [visitAll, bind_returned_iff] at hvisits
      obtain ⟨next, caller', hvisit, hrest⟩ := hvisits
      rw [forEach_cons visit (hsteps steps), bind_of_returned (foreign_of_returned hvisit)]
      exact ih (s := { s with caller := caller' }) hrest

theorem selectFirst_apply (rows : τ → List ρ) :
    selectFirst codes faults rows s =
      if faults.step 0 = false then .returned (rows s.table).head? s
      else .raised codes.step s := by
  cases hstep : faults.step 0 <;> simp [selectFirst, hstep]

theorem selectFirst_stays (rows : τ → List ρ) :
    Stays (fun table left => left = table)
      (selectFirst codes faults rows : Procedure (State τ κ) ε (Option ρ)) where
  inTransaction s := by
    rw [selectFirst_apply]
    split <;> rfl
  table s := by
    rw [selectFirst_apply]
    split <;> rfl

theorem selectFirst_returns_iff (rows : τ → List ρ) :
    (selectFirst codes faults rows s).returns = true ↔ faults.step 0 = false := by
  rw [selectFirst_apply]
  cases hstep : faults.step 0 <;> simp [Exit.returns]

/-! ## Which methods leave the connection usable -/

/-- A method that does not begin its transaction changes nothing. -/
def Faults.beforehand (faults : Faults) : Prop := faults.prepare = true ∨ faults.begin = true

/-- No transaction is open and the table is as it was or as the method leaves it,
and as it was if the method threw. -/
structure Usable (change : τ → τ) (s : State τ κ) (exit : Exit (State τ κ) ε α) : Prop where
  closed : exit.state.inTransaction = false
  table : exit.state.table = s.table ∨ exit.state.table = change s.table
  thrown : exit.returns = false → exit.state.table = s.table

/-- What is made of the value that is returned does not matter. -/
theorem usable_map {β : Type} {change : τ → τ} {p : Procedure (State τ κ) ε α} (f : α → β) :
    Usable change s ((p >>= fun value => pure (f value)) s) ↔ Usable change s (p s) := by
  rw [bind_apply]
  cases p s with
  | returned value s' =>
      exact ⟨fun h => ⟨h.closed, h.table, h.thrown⟩, fun h => ⟨h.closed, h.table, h.thrown⟩⟩
  | raised exception s' =>
      exact ⟨fun h => ⟨h.closed, h.table, h.thrown⟩, fun h => ⟨h.closed, h.table, h.thrown⟩⟩

/-- Nor does a computation that follows. -/
theorem usable_then {β : Type} {p : Procedure (State τ κ) ε α}
    {f : α → Procedure (State τ κ) ε β} (htable : (p s).state.table = s.table)
    (hf : ∀ value s, (f value s).state = s) :
    Usable id s ((p >>= f) s) ↔ Usable id s (p s) := by
  have hstate : ((p >>= f) s).state = (p s).state := by
    rw [bind_apply]
    cases p s with
    | returned value s' => exact hf value s'
    | raised exception s' => rfl
  constructor
  · intro husable
    exact ⟨hstate ▸ husable.closed, .inl htable, fun _ => htable⟩
  · intro husable
    have htable' : ((p >>= f) s).state.table = s.table := by rw [hstate, htable]
    exact ⟨hstate.symm ▸ husable.closed, .inl htable', fun _ => htable'⟩

theorem transaction_usable_iff {change : τ → τ} {body : Procedure (State τ κ) ε α}
    (hstays : Stays (fun table left => left = table ∨ left = change table) body)
    (hidle : s.inTransaction = false) :
    Usable change s (transaction codes faults body s) ↔
      faults.beforehand ∨ RunsThrough faults body s := by
  have hcloses : (transaction codes faults body s).state.inTransaction = false ↔
      faults.prepare = false → faults.begin = false → RunsThrough faults body s :=
    transaction_closes_iff hstays hidle
  have htable : (transaction codes faults body s).state.table = s.table ∨
      (transaction codes faults body s).state.table = change s.table :=
    transaction_table hstays fun _ => .inl rfl
  constructor
  · intro husable
    by_cases hbefore : faults.beforehand
    · exact .inl hbefore
    · simp only [Faults.beforehand, not_or, Bool.not_eq_true] at hbefore
      exact .inr (hcloses.mp husable.closed hbefore.1 hbefore.2)
  · rintro (hbefore | hthrough)
    · have hsame : transaction codes faults body s = .raised codes.prepare s := by
        cases hprepare : faults.prepare with
        | true => exact transaction_of_prepare hprepare
        | false =>
            apply transaction_of_begin hprepare
            exact .inl (hbefore.resolve_left (by simp [hprepare]))
      rw [hsame]
      exact ⟨hidle, .inl rfl, fun _ => rfl⟩
    · refine ⟨hcloses.mpr fun _ _ => hthrough, htable, ?_⟩
      intro hthrown
      cases hprepare : faults.prepare with
      | true => rw [transaction_of_prepare hprepare]; rfl
      | false =>
          cases hbegin : faults.begin with
          | true => rw [transaction_of_begin hprepare (.inl hbegin)]; rfl
          | false =>
              cases hbody : body s.opened with
              | raised exception s' => simp [RunsThrough, hbody, Exit.returns] at hthrough
              | returned value s' =>
                  rw [transaction_of_returned hprepare hbegin hidle hbody hthrough.2] at hthrown
                  simp [Exit.returns] at hthrown

/-- A method that writes needs its one step to succeed, the table to accept the
change, and the transaction to end. -/
theorem writing_usable_iff {accepts : τ → Bool} {change : τ → τ}
    (hidle : s.inTransaction = false) :
    Usable change s (writing codes faults accepts change s) ↔
      faults.beforehand ∨
        faults.step 0 = false ∧ accepts s.table = true ∧ faults.finish = false := by
  have hstays : Stays (fun table left => left = table ∨ left = change table)
      (write codes faults accepts change : Procedure (State τ κ) ε Unit) :=
    ⟨(write_stays accepts change).inTransaction, fun s =>
      ((write_stays accepts change).table s).imp_right And.right⟩
  rw [writing, transaction_usable_iff hstays hidle, RunsThrough, write_returns_iff, and_assoc]
  rfl

/-- A method that reads needs every step to succeed, no visit to throw, and the
transaction to end. -/
theorem reading_usable_iff {rows : τ → List ρ} {start : α} (hidle : s.inTransaction = false) :
    Usable id s (reading codes faults rows start visit s) ↔
      faults.beforehand ∨
        (∀ step ≤ (rows s.table).length, faults.step step = false) ∧
          (visitAll visit start (rows s.table) s.caller).returns = true ∧
          faults.finish = false := by
  have hstays : Stays (fun table left => left = table ∨ left = id table)
      (select codes faults rows start visit : Procedure (State τ κ) ε α) :=
    ⟨(select_stays visit rows start).inTransaction, fun s =>
      .inl ((select_stays visit rows start).table s)⟩
  have hreturns : (select codes faults rows start visit s.opened).returns = true ↔ _ :=
    forEach_returns_iff visit 0 start (rows s.table) s.opened
  rw [reading, transaction_usable_iff hstays hidle, RunsThrough, hreturns, and_assoc]
  simp only [Nat.zero_add]
  rfl

theorem selectFirst_usable_iff {rows : τ → List ρ} (hidle : s.inTransaction = false) :
    Usable id s (transaction codes faults (selectFirst codes faults rows) s) ↔
      faults.beforehand ∨ faults.step 0 = false ∧ faults.finish = false := by
  have hstays : Stays (fun table left => left = table ∨ left = id table)
      (selectFirst codes faults rows : Procedure (State τ κ) ε (Option ρ)) :=
    ⟨(selectFirst_stays rows).inTransaction, fun s => .inl ((selectFirst_stays rows).table s)⟩
  rw [transaction_usable_iff hstays hidle, RunsThrough, selectFirst_returns_iff]

/-! ## Where no call fails -/

theorem selectFirst_of_idle (hidle : s.inTransaction = false) (rows : τ → List ρ) :
    transaction codes {} (selectFirst codes {} rows) s = .returned (rows s.table).head? s := by
  have hselect : selectFirst codes {} rows s.opened = .returned (rows s.table).head? s.opened := by
    rw [selectFirst_apply, if_pos rfl]
    rfl
  rw [transaction_of_returned rfl rfl hidle hselect rfl, State.closed, State.opened, ← hidle]

theorem writing_of_idle {accepts : τ → Bool} (hidle : s.inTransaction = false)
    (haccepts : accepts s.table = true) (change : τ → τ) :
    writing codes {} accepts change s = .returned () { s with table := change s.table } := by
  have hwrite : write codes {} accepts change s.opened =
      .returned () { s.opened with table := change s.table } := by
    rw [write_apply, if_pos ⟨rfl, haccepts⟩]
    rfl
  rw [writing, transaction_of_returned rfl rfl hidle hwrite rfl]
  simp [State.closed, State.opened, hidle]

theorem reading_of_idle {rows : τ → List ρ} {start result : α} {caller : κ}
    (hidle : s.inTransaction = false)
    (hvisits : visitAll visit start (rows s.table) s.caller = .returned result caller) :
    reading codes {} rows start visit s = .returned result { s with caller } := by
  have hselect : select codes {} rows start visit s.opened =
      .returned result { s.opened with caller } :=
    forEach_of_returned (s := s.opened) visit (fun _ => rfl) hvisits
  rw [reading, transaction_of_returned rfl rfl hidle hselect rfl]
  simp [State.closed, State.opened, hidle]

end Statements

/-! ## Sequences of calls -/

/-- Each call finds the state that the one before it left. -/
def Along {σ C : Type*} (next : C → σ → σ) (holds : C → σ → Prop) : List C → σ → Prop
  | [], _ => True
  | call :: calls, s => holds call s ∧ Along next holds calls (next call s)

/-- Two properties of calls that agree as long as one of them has held. -/
theorem along_iff {σ C : Type*} {next : C → σ → σ} {holds other : C → σ → Prop}
    {inv : σ → Prop} (hiff : ∀ call s, inv s → (holds call s ↔ other call s))
    (hkeeps : ∀ call s, inv s → holds call s → inv (next call s)) {calls : List C} {s : σ}
    (hs : inv s) : Along next holds calls s ↔ Along next other calls s := by
  induction calls generalizing s with
  | nil => exact Iff.rfl
  | cons call calls ih =>
      constructor
      · rintro ⟨hcall, hcalls⟩
        exact ⟨(hiff call s hs).mp hcall, (ih (hkeeps call s hs hcall)).mp hcalls⟩
      · rintro ⟨hcall, hcalls⟩
        have hholds := (hiff call s hs).mpr hcall
        exact ⟨hholds, (ih (hkeeps call s hs hholds)).mpr hcalls⟩

end PdsBackup.Transaction
