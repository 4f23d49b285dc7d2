import PdsBackup.Server.Passwords

/-!
# The life of an account

A run of the server's main function adds, updates or removes one user on a
connection of its own.  Over any sequence of such runs, those that fail included,
`authenticate` lets in exactly the users there are, each with the password that
was last set.

SHA-256 is only asked to tell the inputs apart that this sequence hashes.
-/

namespace PdsBackup.Server

open Procedure Transaction

inductive AccountOperation where
  | addUser (username password : Text)
  | updateUser (username password : Text)
  | removeUser (username : Text)

/-- One run of the program: what it is asked to do, the salt the random number
generator gives it, if it does, and the calls of SQLite that fail. -/
structure Attempt where
  operation : AccountOperation
  salt : Option Salt
  faults : Faults := {}

def AccountOperation.password : AccountOperation → Option Text
  | .addUser _ password => some password
  | .updateUser _ password => some password
  | .removeUser _ => none

namespace Attempt

variable (sha256 : List Byte → Hash)

def run (attempt : Attempt) : Passwords.Method Unit Empty Unit :=
  match attempt.operation with
  | .addUser username password =>
      Passwords.addUser sha256 attempt.faults attempt.salt username password
  | .updateUser username password =>
      Passwords.updateUser sha256 attempt.faults attempt.salt username password
  | .removeUser username => Passwords.removeUser attempt.faults username

def exit (attempt : Attempt) (table : List PasswordRow) :=
  attempt.run sha256 { table, caller := () }

/-- The table once the connection is closed: an open transaction is rolled back. -/
def leaves (attempt : Attempt) (table : List PasswordRow) : List PasswordRow :=
  if (attempt.exit sha256 table).state.inTransaction then table
  else (attempt.exit sha256 table).state.table

def succeeds (attempt : Attempt) (table : List PasswordRow) : Bool :=
  (attempt.exit sha256 table).returns

end Attempt

/-- The table, and the passwords that were last set: by the last successful
`addUser` or `updateUser` since the last successful `removeUser`. -/
structure Accounts where
  table : List PasswordRow := []
  password : Text → Option Text := fun _ => none

namespace Accounts

variable (sha256 : List Byte → Hash)

def sets (operation : AccountOperation) (password : Text → Option Text) : Text → Option Text :=
  match operation with
  | .addUser username new => Function.update password username (some new)
  | .updateUser username new => Function.update password username (some new)
  | .removeUser username => Function.update password username none

def after (accounts : Accounts) (attempt : Attempt) : Accounts where
  table := attempt.leaves sha256 accounts.table
  password :=
    if attempt.succeeds sha256 accounts.table then sets attempt.operation accounts.password
    else accounts.password

/-- The accounts after a sequence of runs on a new database. -/
def afterAll (attempts : List Attempt) : Accounts := attempts.foldl (after sha256) {}

def userExists (accounts : Accounts) (username : Text) : Prop :=
  ∃ row ∈ accounts.table, row.username = username

end Accounts

/-- What is hashed when a password is tried after a sequence of runs. -/
def hashedInputs (attempts : List Attempt) (tried : Text) : List (List Byte) :=
  textBytes tried :: attempts.flatMap fun attempt =>
    match attempt.salt, attempt.operation.password with
    | some salt, some password =>
        [textBytes password ++ salt.bytes, textBytes tried ++ salt.bytes]
    | _, _ => []

/-! ## What a run leaves -/

section Runs

variable {sha256 : List Byte → Hash}

theorem saltedHash_eq (password : Text) (salt : List Byte) :
    Passwords.saltedHash sha256 password salt = sha256 (textBytes password ++ salt) := rfl

def accountRow (sha256 : List Byte → Hash) (username password : Text) (salt : Salt) :
    PasswordRow where
  username
  salt := stringToHex salt.bytes
  hash := stringToHex (sha256 (textBytes password ++ salt.bytes)).str

/-- A run that succeeds has made its change; one that fails has made none that lasts. -/
theorem leaves_of_writing {attempt : Attempt} {table : List PasswordRow}
    {code : DatabaseErrorPwd} {accepts : List PasswordRow → Bool}
    {change : List PasswordRow → List PasswordRow}
    (hrun : attempt.exit sha256 table =
      writing (Passwords.codes code) attempt.faults accepts change { table, caller := () }) :
    attempt.succeeds sha256 table = true ∧ accepts table = true ∧
        attempt.leaves sha256 table = change table ∨
      attempt.succeeds sha256 table = false ∧ attempt.leaves sha256 table = table := by
  rw [Attempt.succeeds, Attempt.leaves, hrun]
  have hcases := @writing_cases _ Unit (Thrown DatabaseErrorPwd Empty) (Passwords.codes code)
    attempt.faults { table, caller := () } accepts change rfl
  rcases hcases with ⟨haccepts, hdone⟩ | ⟨exception, s', hfailed, hlost⟩
  · rw [hdone]
    exact .inl ⟨rfl, haccepts, rfl⟩
  · rw [hfailed]
    refine .inr ⟨rfl, ?_⟩
    cases hopen : s'.inTransaction with
    | true => simp [hopen]
    | false => simpa [hopen] using hlost

/-- A run without a salt fails before it reaches the database. -/
theorem leaves_of_raised {attempt : Attempt} {table : List PasswordRow}
    {exception : Thrown DatabaseErrorPwd Empty}
    (hrun : attempt.exit sha256 table = .raised exception { table, caller := () }) :
    attempt.succeeds sha256 table = false ∧ attempt.leaves sha256 table = table := by
  rw [Attempt.succeeds, Attempt.leaves, hrun]
  exact ⟨rfl, rfl⟩

/-- Every row holds a salt and the salted hash of the password its user last set. -/
def Accounts.Hold (sha256 : List Byte → Hash) (used : Text → Salt → Prop)
    (accounts : Accounts) : Prop :=
  ∀ row ∈ accounts.table, ∃ password salt, used password salt ∧
    accounts.password row.username = some password ∧
    row = accountRow sha256 row.username password salt

variable {used : Text → Salt → Prop} {accounts : Accounts} {attempt : Attempt}

theorem hold_addUser {username password : Text} (hold : accounts.Hold sha256 used)
    (hoperation : attempt.operation = .addUser username password)
    (hused : ∀ salt, attempt.salt = some salt → used password salt) :
    (accounts.after sha256 attempt).Hold sha256 used := by
  cases hsalt : attempt.salt with
  | none =>
      have hrun : attempt.exit sha256 accounts.table =
          .raised .rng { table := accounts.table, caller := () } := by
        simp only [Attempt.exit, Attempt.run, hoperation, Passwords.addUser, hsalt]
        rfl
      obtain ⟨hfails, hleaves⟩ := leaves_of_raised hrun
      rw [Accounts.after, hfails, hleaves]
      exact hold
  | some salt =>
      have hrun : attempt.exit sha256 accounts.table =
          writing (Passwords.codes .insert) attempt.faults
            (fun rows => rows.all fun row => row.username ≠ username)
            (fun rows => rows ++ [accountRow sha256 username password salt])
            { table := accounts.table, caller := () } := by
        simp only [Attempt.exit, Attempt.run, hoperation, Passwords.addUser, hsalt]
        rfl
      rcases leaves_of_writing hrun with ⟨hsucceeds, hnew, hleaves⟩ | ⟨hfails, hleaves⟩
      · rw [Accounts.after, hsucceeds, hleaves, if_pos rfl, hoperation]
        intro row hrow
        rw [List.mem_append, List.mem_singleton] at hrow
        cases hrow with
        | inl hrow =>
            have hother : row.username ≠ username := by
              simpa using List.all_eq_true.mp hnew row hrow
            obtain ⟨old, oldSalt, hold', hset, hrowEq⟩ := hold row hrow
            exact ⟨old, oldSalt, hold', (Function.update_of_ne hother _ _).trans hset, hrowEq⟩
        | inr hrow =>
            subst hrow
            exact ⟨password, salt, hused salt hsalt, Function.update_self .., rfl⟩
      · rw [Accounts.after, hfails, hleaves]
        exact hold

theorem hold_updateUser {username password : Text} (hold : accounts.Hold sha256 used)
    (hoperation : attempt.operation = .updateUser username password)
    (hused : ∀ salt, attempt.salt = some salt → used password salt) :
    (accounts.after sha256 attempt).Hold sha256 used := by
  cases hsalt : attempt.salt with
  | none =>
      have hrun : attempt.exit sha256 accounts.table =
          .raised .rng { table := accounts.table, caller := () } := by
        simp only [Attempt.exit, Attempt.run, hoperation, Passwords.updateUser, hsalt]
        rfl
      obtain ⟨hfails, hleaves⟩ := leaves_of_raised hrun
      rw [Accounts.after, hfails, hleaves]
      exact hold
  | some salt =>
      have hrun : attempt.exit sha256 accounts.table =
          writing (Passwords.codes .update) attempt.faults (fun _ => true)
            (List.map fun row => if row.username = username then
              { row with
                salt := (accountRow sha256 username password salt).salt
                hash := (accountRow sha256 username password salt).hash } else row)
            { table := accounts.table, caller := () } := by
        simp only [Attempt.exit, Attempt.run, hoperation, Passwords.updateUser, hsalt]
        rfl
      rcases leaves_of_writing hrun with ⟨hsucceeds, -, hleaves⟩ | ⟨hfails, hleaves⟩
      · rw [Accounts.after, hsucceeds, hleaves, if_pos rfl, hoperation]
        intro row hrow
        obtain ⟨before, hbefore, rfl⟩ := List.mem_map.mp hrow
        by_cases hown : before.username = username
        · rw [if_pos hown]
          refine ⟨password, salt, hused salt hsalt, ?_, ?_⟩
          · simp only [hown]
            exact Function.update_self ..
          · rfl
        · rw [if_neg hown]
          obtain ⟨old, oldSalt, hold', hset, hrowEq⟩ := hold before hbefore
          exact ⟨old, oldSalt, hold', (Function.update_of_ne hown _ _).trans hset, hrowEq⟩
      · rw [Accounts.after, hfails, hleaves]
        exact hold

theorem hold_removeUser {username : Text} (hold : accounts.Hold sha256 used)
    (hoperation : attempt.operation = .removeUser username) :
    (accounts.after sha256 attempt).Hold sha256 used := by
  have hrun : attempt.exit sha256 accounts.table =
      writing (Passwords.codes .remove) attempt.faults (fun _ => true)
        (List.filter fun row => row.username ≠ username)
        { table := accounts.table, caller := () } := by
    simp only [Attempt.exit, Attempt.run, hoperation, Passwords.removeUser]
  rcases leaves_of_writing hrun with ⟨hsucceeds, -, hleaves⟩ | ⟨hfails, hleaves⟩
  · rw [Accounts.after, hsucceeds, hleaves, if_pos rfl, hoperation]
    intro row hrow
    rw [List.mem_filter, decide_eq_true_eq] at hrow
    obtain ⟨old, oldSalt, hold', hset, hrowEq⟩ := hold row hrow.1
    exact ⟨old, oldSalt, hold', (Function.update_of_ne hrow.2 _ _).trans hset, hrowEq⟩
  · rw [Accounts.after, hfails, hleaves]
    exact hold

theorem hold_after (hold : accounts.Hold sha256 used)
    (hused : ∀ password salt, attempt.operation.password = some password →
      attempt.salt = some salt → used password salt) :
    (accounts.after sha256 attempt).Hold sha256 used := by
  cases hoperation : attempt.operation with
  | addUser username password =>
      exact hold_addUser hold hoperation fun salt => hused password salt (by rw [hoperation]; rfl)
  | updateUser username password =>
      exact hold_updateUser hold hoperation
        fun salt => hused password salt (by rw [hoperation]; rfl)
  | removeUser username => exact hold_removeUser hold hoperation

/-- Over a sequence of runs the rows stay true. -/
theorem hold_afterAll {attempts : List Attempt}
    (hused : ∀ attempt ∈ attempts, ∀ password salt, attempt.operation.password = some password →
      attempt.salt = some salt → used password salt) :
    (Accounts.afterAll sha256 attempts).Hold sha256 used := by
  have hfold : ∀ attempts : List Attempt, ∀ accounts : Accounts, accounts.Hold sha256 used →
      (∀ attempt ∈ attempts, ∀ password salt, attempt.operation.password = some password →
        attempt.salt = some salt → used password salt) →
      (attempts.foldl (Accounts.after sha256) accounts).Hold sha256 used := by
    intro attempts
    induction attempts with
    | nil => exact fun _ hold _ => hold
    | cons attempt attempts ih =>
        intro accounts hold hused
        exact ih _ (hold_after hold (hused attempt List.mem_cons_self))
          fun other hother => hused other (List.mem_cons_of_mem attempt hother)
  exact hfold attempts {} (fun row hrow => absurd hrow List.not_mem_nil) hused

end Runs

/-! ## Who is let in -/

section Authentication

variable {κ ε : Type} {sha256 : List Byte → Hash}

theorem getHash_of_absent {s : State (List PasswordRow) κ} {username : Text}
    (hidle : s.inTransaction = false) (habsent : ∀ row ∈ s.table, row.username ≠ username) :
    (Passwords.getHash {} username : Passwords.Method κ ε _) s = .returned ([], .zero) s := by
  have hnone : s.table.filter (fun row => row.username = username) = [] := by
    rw [List.filter_eq_nil_iff]
    intro row hrow
    simpa using habsent row hrow
  rw [Passwords.getHash, bind_of_returned (selectFirst_of_idle hidle _), hnone]
  rfl

theorem getHash_of_hold {s : State (List PasswordRow) κ} {row : PasswordRow}
    {rows : List PasswordRow} {username password : Text} {salt : Salt}
    (hidle : s.inTransaction = false)
    (hrows : s.table.filter (fun row => row.username = username) = row :: rows)
    (hrow : row = accountRow sha256 row.username password salt) :
    (Passwords.getHash {} username : Passwords.Method κ ε _) s =
      .returned (salt.bytes, sha256 (textBytes password ++ salt.bytes)) s := by
  have hsalt : cString row.salt = stringToHex salt.bytes := by
    rw [hrow]
    exact cString_eq_self (nul_notMem_hex salt.bytes)
  have hhash : cString row.hash =
      stringToHex (sha256 (textBytes password ++ salt.bytes)).str := by
    rw [hrow]
    exact cString_eq_self (nul_notMem_hex _)
  have hnonempty : ∀ input : List Byte, input.length = 32 → stringToHex input ≠ [] := by
    intro input hlength hempty
    cases input with
    | nil => simp at hlength
    | cons byte rest => simp [stringToHex] at hempty
  have hsalted : stringToHex salt.bytes ≠ [] := hnonempty _ salt.size
  have hhashed : stringToHex (sha256 (textBytes password ++ salt.bytes)).str ≠ [] :=
    hnonempty _ (Hash.size _)
  rw [Passwords.getHash, bind_of_returned (selectFirst_of_idle hidle _), hrows]
  simp [Passwords.readAccount, hsalt, hhash, hsalted, hhashed, hexToString_stringToHex]

variable {session : Session} {message : ClientMessage} {incoming : List ClientMessage}
variable {s : ServerState} {gate : Gate}

/-- What `authenticate` does with an acceptable message: everything hangs on the
salt and the hash that are found. -/
theorem authenticate_of_getHash (hidle : gate.inTransaction = false)
    (hincoming : gate.caller.connection.incoming = message :: incoming)
    (hsends : gate.caller.connection.sendsLeft = none)
    (hversion : message.version = session.protocolVersion) (htype : message.type = .AUTH)
    (husername : Validator.validateUsername message.username = true)
    (hmac : (Validator.validateMacAddress message.macAddress).isSome = true)
    (hpassword : Validator.validatePassword message.password = true)
    {salt : List Byte} {hash : Hash}
    (hget : ∀ gate' : Gate, gate'.table = gate.table → gate'.inTransaction = false →
      (Passwords.getHash {} message.username : Passwords.Method ServerState ServerException _)
        gate' = .returned (salt, hash) gate') :
    if session.platform.sha256 (textBytes message.password ++ salt) = hash then
      (authenticate session {} gate).returns = true
    else (authenticate session {} gate).exception = some (.protocolManager .auth) := by
  obtain ⟨mac, hmac⟩ := Option.isSome_iff_exists.mp hmac
  have hrecv : recvMessage gate.caller = .returned message
      { gate.caller with connection := { gate.caller.connection with incoming } } := by
    simp [recvMessage, hincoming]
  have hgate := hget { gate with
    caller := { gate.caller with connection := { gate.caller.connection with incoming } } } rfl hidle
  rw [authenticate, bind_of_returned (foreign_of_returned hrecv)]
  simp only [hversion, htype, ne_eq, not_true, if_false, husername, hpassword, hmac, ensure_true,
    pure_bind_apply, orRaise_some]
  rw [bind_of_returned (within_of_returned id _ throwPwd hgate)]
  simp only [saltedHash_eq]
  by_cases hsame : session.platform.sha256 (textBytes message.password ++ salt) = hash
  · simp [hsame, foreign, sendOK, sendServerMessage, hsends, Procedure.within, bind_apply,
      Exit.returns]
  · simp [hsame, foreign, sendERR, sendServerMessage, hsends, Procedure.within, bind_apply,
      Exit.exception]

theorem mem_hashedInputs {attempts : List Attempt} {attempt : Attempt} {tried password : Text}
    {salt : Salt} (hattempt : attempt ∈ attempts) (hsalt : attempt.salt = some salt)
    (hset : attempt.operation.password = some password) :
    textBytes password ++ salt.bytes ∈ hashedInputs attempts tried ∧
      textBytes tried ++ salt.bytes ∈ hashedInputs attempts tried := by
  constructor <;>
  · apply List.mem_cons_of_mem
    rw [List.mem_flatMap]
    exact ⟨attempt, hattempt, by simp [hsalt, hset]⟩

/-- After any sequence of runs, `authenticate` accepts a user and a password
exactly when the user is there and the password is the one that was last set. -/
theorem authenticate_accepts_iff {attempts : List Attempt}
    (hincoming : s.connection.incoming = message :: incoming)
    (hsends : s.connection.sendsLeft = none)
    (hversion : message.version = session.protocolVersion) (htype : message.type = .AUTH)
    (husername : Validator.validateUsername message.username = true)
    (hmac : (Validator.validateMacAddress message.macAddress).isSome = true)
    (hpassword : Validator.validatePassword message.password = true)
    (hdistinct : ∀ input ∈ hashedInputs attempts message.password,
      ∀ other ∈ hashedInputs attempts message.password,
        session.platform.sha256 input = session.platform.sha256 other → input = other)
    (hzero : ∀ input ∈ hashedInputs attempts message.password,
      session.platform.sha256 input ≠ .zero) :
    ((authenticate session {}
        { table := (Accounts.afterAll session.platform.sha256 attempts).table
          caller := s }).returns = true ↔
      (Accounts.afterAll session.platform.sha256 attempts).userExists message.username ∧
        (Accounts.afterAll session.platform.sha256 attempts).password message.username =
          some message.password) ∧
      ((authenticate session {}
          { table := (Accounts.afterAll session.platform.sha256 attempts).table
            caller := s }).returns = false →
        (authenticate session {}
          { table := (Accounts.afterAll session.platform.sha256 attempts).table
            caller := s }).exception = some (.protocolManager .auth)) := by
  have hold : Accounts.Hold session.platform.sha256
      (fun password salt =>
        textBytes password ++ salt.bytes ∈ hashedInputs attempts message.password ∧
          textBytes message.password ++ salt.bytes ∈ hashedInputs attempts message.password)
      (Accounts.afterAll session.platform.sha256 attempts) :=
    hold_afterAll fun attempt hattempt password salt hset hsalt =>
      mem_hashedInputs hattempt hsalt hset
  generalize Accounts.afterAll session.platform.sha256 attempts = accounts at hold ⊢
  have hrefused : ∀ exit : Exit Gate ServerException Session,
      exit.exception = some (.protocolManager .auth) → exit.returns = false := by
    intro exit hexit
    cases exit with
    | returned value state => simp [Exit.exception] at hexit
    | raised exception state => rfl
  cases hrows : accounts.table.filter (fun row => row.username = message.username) with
  | nil =>
      have habsent : ∀ row ∈ accounts.table, row.username ≠ message.username := by
        intro row hrow
        simpa using List.filter_eq_nil_iff.mp hrows row hrow
      have hends := @authenticate_of_getHash _ _ _ { table := accounts.table, caller := s } rfl
        hincoming hsends hversion htype husername hmac hpassword _ _
        fun gate' htable hidle => getHash_of_absent hidle (by rwa [htable])
      rw [List.append_nil, if_neg (hzero _ List.mem_cons_self)] at hends
      refine ⟨?_, fun _ => hends⟩
      rw [hrefused _ hends]
      simp only [Bool.false_eq_true, false_iff, not_and]
      rintro ⟨row, hrow, hname⟩
      exact absurd hname (habsent row hrow)
  | cons row rows =>
      have hmem : row ∈ accounts.table.filter fun row => row.username = message.username := by
        rw [hrows]
        exact List.mem_cons_self
      rw [List.mem_filter, decide_eq_true_eq] at hmem
      obtain ⟨password, salt, hused, hset, hrow⟩ := hold row hmem.1
      rw [hmem.2] at hset
      have hends := @authenticate_of_getHash _ _ _ { table := accounts.table, caller := s } rfl
        hincoming hsends hversion htype husername hmac hpassword _ _
        fun gate' htable hidle =>
          getHash_of_hold hidle (by rw [htable]; exact hrows) hrow
      have hsame : session.platform.sha256 (textBytes message.password ++ salt.bytes) =
          session.platform.sha256 (textBytes password ++ salt.bytes) ↔
            password = message.password := by
        constructor
        · intro heq
          have hinputs := hdistinct _ hused.2 _ hused.1 heq
          exact (textBytes_injective (List.append_cancel_right hinputs)).symm
        · rintro rfl
          rfl
      rw [hset, Option.some.injEq, ← hsame]
      have hexists : accounts.userExists message.username := ⟨row, hmem.1, hmem.2⟩
      split at hends
      · next heq => simp [hends, heq, hexists]
      · next hne => simp [hrefused _ hends, hends, hne]

/-- SHA-256 on the inputs of the example: `a`, and `a` and `b` followed by 32 zeros. -/
def saltedPlatform : Platform where
  sha256 input :=
    if input = textBytes "a".toList then ⟨letterDigest, letterDigest_length⟩
    else if input = textBytes "a".toList ++ List.replicate 32 0 then ⟨[0xdf, 0x2a, 0x0a, 0xd6,
      0x94, 0x36, 0x10, 0x6e, 0x96, 0x99, 0x44, 0x36, 0xa8, 0x07, 0x94, 0xec, 0x39, 0x35, 0xfb,
      0x93, 0x92, 0x42, 0xeb, 0x50, 0xbe, 0x09, 0x0e, 0x78, 0x97, 0x7b, 0x31, 0x58], rfl⟩
    else ⟨[0xdb, 0x15, 0xac, 0x81, 0x16, 0x2f, 0x6f, 0x40, 0xdf, 0x62, 0x1d, 0xb3, 0x72, 0xd3,
      0xc5, 0x65, 0x1b, 0x11, 0xfa, 0x8c, 0x1e, 0x30, 0xc9, 0xc5, 0xb8, 0xcb, 0x93, 0x44, 0x85,
      0xe1, 0x51, 0x67], rfl⟩
  putTime := epochPlatform.putTime
  getTime := epochPlatform.getTime

def zeroSalt : Salt := ⟨List.replicate 32 0, rfl⟩

/-- `anna` is added with one password and gets another one. -/
def changedPassword : List Attempt :=
  [{ operation := .addUser "anna".toList "b".toList, salt := some zeroSalt },
    { operation := .updateUser "anna".toList "a".toList, salt := some zeroSalt }]

def authMessage : ClientMessage :=
  { version := 1
    type := .AUTH
    username := "anna".toList
    password := "a".toList
    macAddress := "1:2:3:4:5:6".toList }

theorem authenticate_accepts_changed :
    ((authenticate { annaSession with platform := saltedPlatform } {}
        { table := (Accounts.afterAll saltedPlatform.sha256 changedPassword).table
          caller := startSession annaDisk {} [authMessage] }).returns = true ↔
      (Accounts.afterAll saltedPlatform.sha256 changedPassword).userExists "anna".toList ∧
        (Accounts.afterAll saltedPlatform.sha256 changedPassword).password "anna".toList =
          some "a".toList) :=
  (@authenticate_accepts_iff { annaSession with platform := saltedPlatform } authMessage []
    (startSession annaDisk {} [authMessage]) changedPassword rfl rfl rfl rfl (by decide +kernel)
    (by decide +kernel) (by decide +kernel) (by decide +kernel) (by decide +kernel)).1

end Authentication

end PdsBackup.Server
