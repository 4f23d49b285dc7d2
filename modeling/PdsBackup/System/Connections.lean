import PdsBackup.Client.SavedFiles
import PdsBackup.Server.Accounts
import PdsBackup.Server.SavedFiles

/-!
# Connections after a failure

Sequences of calls of the methods of the three database classes, each class on one
connection.  A method that throws after it has begun its transaction never ends it,
and every later method fails to begin its own.
-/

namespace PdsBackup

open Procedure Transaction

namespace Server.SavedFiles

variable {κ ε : Type}

inductive Call (κ ε : Type) where
  | forAll (username mac : Text) (f : Visit → Procedure κ ε Unit)
  | insert (username mac path type : Text) (size : Nat) (lastWriteTime : Text)
      (hash : List Byte)
  | remove (username mac path : Text)
  | removeAll (username : Text)
  | removeAllOf (username mac : Text)
  | getAllMacAddresses (username : Text)
  | update (username mac path type : Text) (size : Nat) (lastWriteTime : Text)
      (hash : List Byte)

namespace Call

def run (call : Call κ ε) (faults : Faults) : Method κ ε Unit :=
  match call with
  | forAll username mac f => SavedFiles.forAll faults username mac f
  | insert username mac path type size lastWriteTime hash =>
      insertValues faults username mac path type size lastWriteTime hash
  | remove username mac path => SavedFiles.remove faults username mac path
  | removeAll username => SavedFiles.removeAll faults username
  | removeAllOf username mac => SavedFiles.removeAllOf faults username mac
  | getAllMacAddresses username => do
      let _ ← SavedFiles.getAllMacAddresses faults username
      pure ()
  | update username mac path type size lastWriteTime hash =>
      updateValues faults username mac path type size lastWriteTime hash

/-- What the call leaves of the table when it succeeds. -/
def change : Call κ ε → List Row → List Row
  | forAll .. => id
  | insert username mac path type size lastWriteTime hash => fun rows =>
      rows ++ [Row.ofValues username mac path type size lastWriteTime hash]
  | remove username mac path => List.filter fun row => !row.isAt username mac path
  | removeAll username => List.filter fun row => !decide (row.username = username)
  | removeAllOf username mac => List.filter fun row => !row.isOf username mac
  | getAllMacAddresses _ => id
  | update username mac path type size lastWriteTime hash => List.map fun row =>
      if row.isAt username mac path then row.set type size lastWriteTime hash else row

/-- Nothing fails in the call once its transaction has begun: no step, no end of a
transaction, no row that cannot be read, no function of the caller. -/
def Completes (call : Call κ ε) (faults : Faults) (s : State (List Row) κ) : Prop :=
  faults.finish = false ∧
    match call with
    | forAll username mac f =>
        (∀ step ≤ (s.table.filter (Row.isOf username mac)).length, faults.step step = false) ∧
          (visitAll (fun _ row => visitRow (ε := DatabaseError) f (Row.visit row)) ()
            (s.table.filter (Row.isOf username mac)) s.caller).returns = true
    | getAllMacAddresses username =>
        ∀ step ≤ (((s.table.filter fun row => row.username = username).map
          Row.mac).eraseDups).length, faults.step step = false
    | _ => faults.step 0 = false

end Call

theorem visitAll_pure {κ ε α ρ : Type} (f : α → ρ → α) (start : α) (rows : List ρ)
    (caller : κ) :
    (visitAll (fun value row => (pure (f value row) : Procedure κ ε α)) start rows
      caller).returns = true := by
  induction rows generalizing start with
  | nil => rfl
  | cons row rows ih => exact ih (f start row)

theorem call_usable_iff {call : Call κ ε} {faults : Faults} {s : State (List Row) κ}
    (hidle : s.inTransaction = false) :
    Usable call.change s (call.run faults s) ↔ faults.beforehand ∨ call.Completes faults s := by
  cases call with
  | forAll username mac f =>
      refine (reading_usable_iff _ hidle).trans (or_congr_right ?_)
      rw [Call.Completes, ← and_assoc, and_comm]
  | insert username mac path type size lastWriteTime hash =>
      refine (writing_usable_iff hidle).trans (or_congr_right ?_)
      simp [Call.Completes, and_comm]
  | remove username mac path =>
      refine (writing_usable_iff hidle).trans (or_congr_right ?_)
      simp [Call.Completes, and_comm]
  | removeAll username =>
      refine (writing_usable_iff hidle).trans (or_congr_right ?_)
      simp [Call.Completes, and_comm]
  | removeAllOf username mac =>
      refine (writing_usable_iff hidle).trans (or_congr_right ?_)
      simp [Call.Completes, and_comm]
  | getAllMacAddresses username =>
      refine (usable_map _).trans ((reading_usable_iff _ hidle).trans (or_congr_right ?_))
      rw [Call.Completes, visitAll_pure (fun macAddrs mac => macAddrs ++ [cString mac])]
      simp [and_comm]
  | update username mac path type size lastWriteTime hash =>
      refine (writing_usable_iff hidle).trans (or_congr_right ?_)
      simp [Call.Completes, and_comm]

end Server.SavedFiles

namespace Server.Passwords

variable {κ ε : Type} {sha256 : List Byte → Hash}

/-- A call, with the salt the random number generator gives it, if it does. -/
inductive Call (κ ε : Type) where
  | getHash (username : Text)
  | addUser (salt : Option Salt) (username password : Text)
  | updateUser (salt : Option Salt) (username password : Text)
  | removeUser (username : Text)
  | forAll (f : Text → Procedure κ ε Unit)

namespace Call

def run (sha256 : List Byte → Hash) (call : Call κ ε) (faults : Faults) : Method κ ε Unit :=
  match call with
  | getHash username => do
      let _ ← Passwords.getHash faults username
      pure ()
  | addUser salt username password => Passwords.addUser sha256 faults salt username password
  | updateUser salt username password => Passwords.updateUser sha256 faults salt username password
  | removeUser username => Passwords.removeUser faults username
  | forAll f => Passwords.forAll faults f

/-- What the call leaves of the table when it succeeds. -/
def change (sha256 : List Byte → Hash) : Call κ ε → List PasswordRow → List PasswordRow
  | addUser (some salt) username password => fun rows => rows ++
      [{ username
         salt := stringToHex salt.bytes
         hash := stringToHex (saltedHash sha256 password salt.bytes).str }]
  | updateUser (some salt) username password => List.map fun row =>
      if row.username = username then
        { row with
          salt := stringToHex salt.bytes
          hash := stringToHex (saltedHash sha256 password salt.bytes).str }
      else row
  | removeUser username => List.filter fun row => row.username ≠ username
  | _ => id

/-- The call fails for want of a salt. -/
def Unsalted : Call κ ε → Prop
  | addUser none _ _ => True
  | updateUser none _ _ => True
  | _ => False

/-- Nothing fails in the call once its transaction has begun: no step, no end of a
transaction, no user that is there already, no function of the caller. -/
def Completes (call : Call κ ε) (faults : Faults) (s : State (List PasswordRow) κ) : Prop :=
  faults.finish = false ∧
    match call with
    | addUser _ username _ => faults.step 0 = false ∧ ∀ row ∈ s.table, row.username ≠ username
    | forAll f =>
        (∀ step ≤ s.table.length, faults.step step = false) ∧
          (visitAll (fun _ username => Procedure.within id (fun caller _ => caller)
              (Thrown.callback (ε := DatabaseErrorPwd)) (f username)) ()
            (s.table.map fun row => cString row.username) s.caller).returns = true
    | _ => faults.step 0 = false

end Call

theorem call_usable_iff {call : Call κ ε} {faults : Faults} {s : State (List PasswordRow) κ}
    (hidle : s.inTransaction = false) :
    Usable (call.change sha256) s (call.run sha256 faults s) ↔
      (faults.beforehand ∨ call.Unsalted) ∨ call.Completes faults s := by
  cases call with
  | getHash username =>
      have hdecoded : Usable id s ((Passwords.getHash faults username : Method κ ε _) s) ↔ _ :=
        usable_then (transaction_table (selectFirst_stays _) fun _ => rfl) readAccount_state
      refine (usable_map _).trans (hdecoded.trans ((selectFirst_usable_iff hidle).trans ?_))
      simp [Call.Completes, Call.Unsalted, and_comm]
  | addUser salt username password =>
      cases salt with
      | none => exact iff_of_true ⟨hidle, .inl rfl, fun _ => rfl⟩ (.inl (.inr trivial))
      | some salt =>
          refine (writing_usable_iff hidle).trans ?_
          simp [Call.Completes, Call.Unsalted, List.all_eq_true, and_comm, and_left_comm]
  | updateUser salt username password =>
      cases salt with
      | none => exact iff_of_true ⟨hidle, .inl rfl, fun _ => rfl⟩ (.inl (.inr trivial))
      | some salt =>
          refine (writing_usable_iff hidle).trans ?_
          simp [Call.Completes, Call.Unsalted, and_comm]
  | removeUser username =>
      refine (writing_usable_iff hidle).trans ?_
      simp [Call.Completes, Call.Unsalted, and_comm]
  | forAll f =>
      refine (reading_usable_iff _ hidle).trans ?_
      rw [List.length_map, ← and_assoc, and_comm]
      simp [Call.Completes, Call.Unsalted]

end Server.Passwords

namespace Client.SavedFiles

variable {κ ε : Type}

inductive Call (κ ε : Type) where
  | forAll (f : Visit → Procedure κ ε Unit)
  | insert (path type : Text) (size : Nat) (lastWriteTime : Text) (hash : List Byte)
  | remove (path : Text)
  | update (path type : Text) (size : Nat) (lastWriteTime : Text) (hash : List Byte)

namespace Call

def run (call : Call κ ε) (faults : Faults) : Method κ ε Unit :=
  match call with
  | forAll f => SavedFiles.forAll faults f
  | insert path type size lastWriteTime hash =>
      insertValues faults path type size lastWriteTime hash
  | remove path => SavedFiles.remove faults path
  | update path type size lastWriteTime hash =>
      updateValues faults path type size lastWriteTime hash

/-- What the call leaves of the table when it succeeds. -/
def change : Call κ ε → List Row → List Row
  | forAll _ => id
  | insert path type size lastWriteTime hash => fun rows =>
      Database.removeRow path rows ++ [Row.ofValues path type size lastWriteTime hash]
  | remove path => Database.removeRow path
  | update path type size lastWriteTime hash => List.map fun row =>
      if row.path = path then row.set type size lastWriteTime hash else row

/-- Nothing fails in the call once its transaction has begun. -/
def Completes (call : Call κ ε) (faults : Faults) (s : State (List Row) κ) : Prop :=
  faults.finish = false ∧
    match call with
    | forAll f =>
        (∀ step ≤ s.table.length, faults.step step = false) ∧
          (visitAll (fun _ row => visitRow (ε := DatabaseError) f (Row.visit row)) () s.table
            s.caller).returns = true
    | _ => faults.step 0 = false

end Call

theorem call_usable_iff {call : Call κ ε} {faults : Faults} {s : State (List Row) κ}
    (hidle : s.inTransaction = false) :
    Usable call.change s (call.run faults s) ↔ faults.beforehand ∨ call.Completes faults s := by
  cases call with
  | forAll f =>
      refine (reading_usable_iff _ hidle).trans (or_congr_right ?_)
      rw [Call.Completes, ← and_assoc, and_comm]
      rfl
  | insert path type size lastWriteTime hash =>
      refine (writing_usable_iff hidle).trans (or_congr_right ?_)
      simp [Call.Completes, and_comm]
  | remove path =>
      refine (writing_usable_iff hidle).trans (or_congr_right ?_)
      simp [Call.Completes, and_comm]
  | update path type size lastWriteTime hash =>
      refine (writing_usable_iff hidle).trans (or_congr_right ?_)
      simp [Call.Completes, and_comm]

end Client.SavedFiles

/-! ## Sequences of calls on a fresh connection -/

section Sequences

variable {κ ε τ Call : Type}

/-- The state a call leaves, however it ends. -/
def leave (run : Call → Faults → Procedure (State τ κ) ε Unit) (call : Call × Faults)
    (s : State τ κ) : State τ κ :=
  (run call.1 call.2 s).state

/-- After the call the connection is as after no call or as after a successful one. -/
def LeavesUsable (run : Call → Faults → Procedure (State τ κ) ε Unit) (change : Call → τ → τ)
    (call : Call × Faults) (s : State τ κ) : Prop :=
  Usable (change call.1) s (run call.1 call.2 s)

/-- Along a sequence, every call leaves the connection usable exactly when every call
meets the condition under which it does so on a connection without a transaction. -/
theorem along_usable_iff {run : Call → Faults → Procedure (State τ κ) ε Unit}
    {change : Call → τ → τ} {harmless : Call × Faults → State τ κ → Prop}
    (hcall : ∀ call faults s, s.inTransaction = false →
      (Usable (change call) s (run call faults s) ↔ harmless (call, faults) s))
    (calls : List (Call × Faults)) (table : τ) (caller : κ) :
    Along (leave run) (LeavesUsable run change) calls { table, caller } ↔
      Along (leave run) harmless calls { table, caller } :=
  @along_iff _ _ _ _ _ (fun s => s.inTransaction = false)
    (fun call s hidle => hcall call.1 call.2 s hidle) (fun _ _ _ husable => husable.closed) _ _ rfl

/-- In every sequence of calls on a connection of one of the three classes, every call
leaves it usable exactly when no call fails between the begin and the end of its
transaction. -/
theorem connections_usable_iff (sha256 : List Byte → Hash) :
    (∀ (calls : List (Server.SavedFiles.Call κ ε × Faults)) (table : List Server.Row)
        (caller : κ),
      Along (leave Server.SavedFiles.Call.run)
          (LeavesUsable Server.SavedFiles.Call.run Server.SavedFiles.Call.change) calls
          { table, caller } ↔
        Along (leave Server.SavedFiles.Call.run)
          (fun call s => call.2.beforehand ∨ call.1.Completes call.2 s) calls
          { table, caller }) ∧
    (∀ (calls : List (Server.Passwords.Call κ ε × Faults)) (table : List Server.PasswordRow)
        (caller : κ),
      Along (leave (Server.Passwords.Call.run sha256))
          (LeavesUsable (Server.Passwords.Call.run sha256)
            (Server.Passwords.Call.change sha256)) calls { table, caller } ↔
        Along (leave (Server.Passwords.Call.run sha256))
          (fun call s => (call.2.beforehand ∨ call.1.Unsalted) ∨ call.1.Completes call.2 s) calls
          { table, caller }) ∧
    (∀ (calls : List (Client.SavedFiles.Call κ ε × Faults)) (table : List Client.Row)
        (caller : κ),
      Along (leave Client.SavedFiles.Call.run)
          (LeavesUsable Client.SavedFiles.Call.run Client.SavedFiles.Call.change) calls
          { table, caller } ↔
        Along (leave Client.SavedFiles.Call.run)
          (fun call s => call.2.beforehand ∨ call.1.Completes call.2 s) calls
          { table, caller }) :=
  ⟨along_usable_iff fun _ _ _ hidle => Server.SavedFiles.call_usable_iff hidle,
    along_usable_iff fun _ _ _ hidle => Server.Passwords.call_usable_iff hidle,
    along_usable_iff fun _ _ _ hidle => Client.SavedFiles.call_usable_iff hidle⟩

end Sequences

/-- A user is added who is there already. -/
def addedTwice : List (Server.Passwords.Call Unit Empty × Faults) :=
  [(.addUser (some Server.zeroSalt) "anna".toList "a".toList, {}),
    (.addUser (some Server.zeroSalt) "anna".toList "a".toList, {})]

/-- The second call leaves its transaction open, and a following `getHash` of the
user there is throws. -/
theorem not_connections_usable :
    ¬ Along (leave (Server.Passwords.Call.run Server.saltedPlatform.sha256))
        (LeavesUsable (Server.Passwords.Call.run Server.saltedPlatform.sha256)
          (Server.Passwords.Call.change Server.saltedPlatform.sha256)) addedTwice
        { table := [], caller := () } ∧
      ((Server.Passwords.getHash {} "anna".toList : Server.Passwords.Method Unit Empty _)
        (addedTwice.foldl (fun s call => leave
          (Server.Passwords.Call.run Server.saltedPlatform.sha256) call s)
          { table := [], caller := () })).exception = some (.database .prepare) := by
  refine ⟨?_, by decide +kernel⟩
  rintro ⟨-, hsecond, -⟩
  exact absurd hsecond.closed (by decide +kernel)

end PdsBackup
