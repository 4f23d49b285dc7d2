import PdsBackup.Common.Visits
import PdsBackup.Server.ProtocolManager

/-!
# Accounts

The class `Database_pwd` and `authenticate`.  The table `passwords` keeps for each
user a random salt and the hash of the password followed by the salt, both in
hexadecimal notation.  The server's main function writes it, one method a run of
the program; every session reads it once.
-/

namespace PdsBackup

/-- The bytes a `std::string` has for a text. -/
def textBytes (text : Text) : List Byte :=
  (text.flatMap String.utf8EncodeChar).map fun byte => ⟨byte.toNat, byte.toNat_lt⟩

theorem textBytes_injective : Function.Injective textBytes := by
  intro text other heq
  have hbyte : Function.Injective fun byte : UInt8 => (⟨byte.toNat, byte.toNat_lt⟩ : Byte) :=
    fun a b hab => UInt8.toNat_inj.mp (Fin.mk.inj hab)
  have hencoded : text.utf8Encode = other.utf8Encode := by
    rw [List.utf8Encode, List.utf8Encode, List.map_injective_iff.mpr hbyte heq]
  have hdecoded := congrArg ByteArray.utf8Decode? hencoded
  rw [List.utf8Decode?_utf8Encode, List.utf8Decode?_utf8Encode] at hdecoded
  simpa using hdecoded

namespace Validator

def passwordPattern : Text :=
  "^[a-zA-Z0-9~`!@#$%^&*()_\\-+=\x7b[\x7d\\]|\\\\:;\"'<,>.?/]+$".toList

def validatePassword (password : Text) : Bool := matchesPattern passwordPattern password

end Validator

namespace Server

open Procedure Transaction

inductive DatabaseErrorPwd where
  | path
  | open'
  | create
  | read
  | insert
  | update
  | remove
  | prepare
  | finalize
  deriving DecidableEq

def saltSize : Nat := 32

structure Salt where
  bytes : List Byte
  size : bytes.length = saltSize
  deriving DecidableEq

/-- A row of `passwords`, less its identifier.  The username is unique. -/
structure PasswordRow where
  username : Text
  salt : Text
  hash : Text
  deriving DecidableEq

namespace Passwords

variable {κ ε : Type} (sha256 : List Byte → Hash) (faults : Faults)

abbrev Method (κ ε α : Type) :=
  Procedure (State (List PasswordRow) κ) (Thrown DatabaseErrorPwd ε) α

def codes (step : DatabaseErrorPwd) : Codes (Thrown DatabaseErrorPwd ε) where
  prepare := .database .prepare
  step := .database step
  finish := .database .finalize

/-- The hash of a password followed by a salt. -/
def saltedHash (password : Text) (salt : List Byte) : Hash :=
  ((({} : HashMaker).update (textBytes password)).update salt).get sha256

/-- What `getHash` makes of the row it finds: no salt and the zero hash of none. -/
def readAccount (row : Option PasswordRow) : Method κ ε (List Byte × Hash) :=
  let saltHex := (row.map fun row => cString row.salt).getD []
  let hashHex := (row.map fun row => cString row.hash).getD []
  if saltHex = [] ∨ hashHex = [] then pure ([], .zero)
  else do
    let salt ← orRaise .invalidArgument (hexToString saltHex)
    let bytes ← orRaise .invalidArgument (hexToString hashHex)
    let hash ← orRaise .hash (Hash.ofBytes bytes)
    pure (salt, hash)

def getHash (username : Text) : Method κ ε (List Byte × Hash) := do
  let row ← transaction (codes .read) faults
    (selectFirst (codes .read) faults (List.filter fun row => row.username = username))
  readAccount row

theorem readAccount_state (row : Option PasswordRow) (s : State (List PasswordRow) κ) :
    ((readAccount row : Method κ ε _) s).state = s := by
  simp only [readAccount]
  split
  · rfl
  · simp only [bind_apply]
    cases hexToString ((row.map fun row => cString row.salt).getD []) with
    | none => rfl
    | some salt =>
        cases hexToString ((row.map fun row => cString row.hash).getD []) with
        | none => rfl
        | some bytes =>
            simp only [orRaise_some, pure_apply]
            cases Hash.ofBytes bytes <;> rfl

/-- A user there is already breaks the `UNIQUE` constraint. -/
def addUser (salt : Option Salt) (username password : Text) : Method κ ε Unit := do
  let salt ← orRaise .rng salt
  writing (codes .insert) faults (fun rows => rows.all fun row => row.username ≠ username)
    fun rows => rows ++
      [{ username
         salt := stringToHex salt.bytes
         hash := stringToHex (saltedHash sha256 password salt.bytes).str }]

/-- Where there is no such user nothing is updated, and nothing fails. -/
def updateUser (salt : Option Salt) (username password : Text) : Method κ ε Unit := do
  let salt ← orRaise .rng salt
  writing (codes .update) faults (fun _ => true) (List.map fun row =>
    if row.username = username then
      { row with
        salt := stringToHex salt.bytes
        hash := stringToHex (saltedHash sha256 password salt.bytes).str }
    else row)

def removeUser (username : Text) : Method κ ε Unit :=
  writing (codes .remove) faults (fun _ => true)
    (List.filter fun row => row.username ≠ username)

def forAll (f : Text → Procedure κ ε Unit) : Method κ ε Unit :=
  reading (codes .read) faults (List.map fun row => cString row.username) () fun _ username =>
    Procedure.within id (fun caller _ => caller) .callback (f username)

end Passwords

/-! ## Authentication -/

/-- The part of the server a session is authenticated with: a connection to the
table of passwords, and the session itself. -/
abbrev Gate := State (List PasswordRow) ServerState

/-- The exceptions of the class as the session sees them. -/
def throwPwd : Thrown DatabaseErrorPwd ServerException → ServerException
  | .database _ => .databasePwd
  | _ => .standard

def authenticate (session : Session) (faults : Faults) : Procedure Gate ServerException Session := do
  let message ← foreign recvMessage
  if message.version ≠ session.protocolVersion then do
    foreign (sendVER session)
    raise (.protocolManager .version)
  else if message.type ≠ .AUTH then do
    foreign (sendERR session .unexpected)
    raise (.protocolManager .unexpected)
  else do
    ensure clientError (Validator.validateUsername message.username)
    let mac ← orRaise clientError (Validator.validateMacAddress message.macAddress)
    ensure clientError (Validator.validatePassword message.password)
    let (salt, hash) ← Procedure.within id (fun gate _ => gate) throwPwd
      (Passwords.getHash faults message.username)
    if Passwords.saltedHash session.platform.sha256 message.password salt ≠ hash then do
      foreign (sendERR session .auth)
      raise (.protocolManager .auth)
    else do
      foreign (sendOK session .authenticated)
      pure { session with username := message.username, mac }

end Server

end PdsBackup
