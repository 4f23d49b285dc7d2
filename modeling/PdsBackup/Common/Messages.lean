import PdsBackup.Core.FileTree

/-!
# Messages

The messages of both directions as they are decoded, with the defaults of absent
fields.  The type of a message is an open enumeration: a number without a name
is kept.
-/

namespace PdsBackup

inductive ClientMessage.Type where
  | NOOP
  | PROB
  | STOR
  | DELE
  | MKD
  | RMD
  | DATA
  | AUTH
  | RETR
  | unknown (number : Nat)
  deriving DecidableEq

structure ClientMessage where
  version : Int := 0
  type : ClientMessage.Type := .NOOP
  path : Text := []
  fileSize : Nat := 0
  lastWriteTime : Text := []
  hash : List Byte := []
  data : List Byte := []
  username : Text := []
  password : Text := []
  macAddress : Text := []
  last : Bool := false
  all : Bool := false
  deriving DecidableEq

inductive ServerMessage.Type where
  | NOOP
  | OK
  | SEND
  | ERR
  | VER
  | MKD
  | STOR
  | DATA
  | unknown (number : Nat)
  deriving DecidableEq

structure ServerMessage where
  version : Int := 0
  type : ServerMessage.Type := .NOOP
  path : Text := []
  hash : List Byte := []
  fileSize : Nat := 0
  lastWriteTime : Text := []
  code : Nat := 0
  newVersion : Int := 0
  data : List Byte := []
  last : Bool := false
  deriving DecidableEq

inductive OkCode where
  | found
  | created
  | notThere
  | removed
  | authenticated
  | retrieved
  deriving DecidableEq

/-- `static_cast<int>` of the enumeration. -/
def OkCode.code : OkCode → Nat
  | .found => 0
  | .created => 1
  | .notThere => 2
  | .removed => 3
  | .authenticated => 4
  | .retrieved => 5

inductive ErrCode where
  | notAFile
  | unexpected
  | store
  | remove
  | notADir
  | auth
  | exception
  | retrieve
  deriving DecidableEq

/-- `static_cast<int>` of the enumeration. -/
def ErrCode.code : ErrCode → Nat
  | .notAFile => 0
  | .unexpected => 1
  | .store => 2
  | .remove => 3
  | .notADir => 4
  | .auth => 5
  | .exception => 6
  | .retrieve => 7

/-- The names of the codes are read back from their numbers. -/
def OkCode.ofCode (code : Nat) : Option OkCode :=
  [.found, .created, .notThere, .removed, .authenticated, .retrieved].find? fun ok =>
    ok.code = code

def ErrCode.ofCode (code : Nat) : Option ErrCode :=
  [.notAFile, .unexpected, .store, .remove, .notADir, .auth, .exception, .retrieve].find?
    fun err => err.code = code

theorem OkCode.ofCode_code (ok : OkCode) : OkCode.ofCode ok.code = some ok := by
  cases ok <;> rfl

theorem ErrCode.ofCode_code (err : ErrCode) : ErrCode.ofCode err.code = some err := by
  cases err <;> rfl

/-- The messages that conclude a request. -/
def ServerMessage.isAnswer (message : ServerMessage) : Bool :=
  message.type = .OK ∨ message.type = .SEND ∨ message.type = .ERR

end PdsBackup
