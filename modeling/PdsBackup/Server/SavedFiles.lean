import PdsBackup.Common.Visits
import PdsBackup.Server.Database

/-!
# The methods of the server's database, call by call

Each method of `server::Database` with the calls of SQLite it makes, any of which
may fail.  Where none does, a method is the change of the rows that
`Server.Database` describes.
-/

namespace PdsBackup.Server

open Procedure Transaction

namespace Row

/-- The row `insert` binds its parameters to. -/
def ofValues (username mac path type : Text) (size : Nat) (lastWriteTime : Text)
    (hash : List Byte) : Row where
  username
  mac
  path
  type
  size := size % 2 ^ 64
  lastWriteTime
  hash := stringToHex hash

/-- What `update` leaves of a row. -/
def set (type : Text) (size : Nat) (lastWriteTime : Text) (hash : List Byte) (row : Row) : Row :=
  { row with
    type
    size := size % 2 ^ 64
    lastWriteTime
    hash := stringToHex hash }

def visit (row : Row) : Option Visit :=
  readColumns row.path row.type row.size row.lastWriteTime row.hash

end Row

namespace SavedFiles

variable {κ ε : Type} (faults : Faults)

abbrev Method (κ ε α : Type) := Procedure (State (List Row) κ) (Thrown DatabaseError ε) α

def codes (step : DatabaseError) : Codes (Thrown DatabaseError ε) where
  prepare := .database .prepare
  step := .database step
  finish := .database .finalize

def forAll (username mac : Text) (f : Visit → Procedure κ ε Unit) : Method κ ε Unit :=
  reading (codes .read) faults (List.filter (Row.isOf username mac)) ()
    fun _ row => visitRow f row.visit

def insertValues (username mac path type : Text) (size : Nat) (lastWriteTime : Text)
    (hash : List Byte) : Method κ ε Unit :=
  writing (codes .insert) faults (fun _ => true) fun rows =>
    rows ++ [Row.ofValues username mac path type size lastWriteTime hash]

def insert (username mac : Text) (entry : DirectoryEntry) : Method κ ε Unit :=
  insertValues faults username mac entry.relativePath entry.typeName entry.size
    entry.lastWriteTime entry.hash.str

def remove (username mac path : Text) : Method κ ε Unit :=
  writing (codes .remove) faults (fun _ => true) (List.filter fun row => !row.isAt username mac path)

/-- `removeAll` of a user. -/
def removeAll (username : Text) : Method κ ε Unit :=
  writing (codes .remove) faults (fun _ => true) (List.filter fun row => !decide (row.username = username))

/-- `removeAll` of a user and a mac address. -/
def removeAllOf (username mac : Text) : Method κ ε Unit :=
  writing (codes .remove) faults (fun _ => true) (List.filter fun row => !row.isOf username mac)

def getAllMacAddresses (username : Text) : Method κ ε (List Text) :=
  reading (codes .read) faults
    (fun rows => ((rows.filter fun row => row.username = username).map Row.mac).eraseDups) []
    fun macAddrs mac => pure (macAddrs ++ [cString mac])

def updateValues (username mac path type : Text) (size : Nat) (lastWriteTime : Text)
    (hash : List Byte) : Method κ ε Unit :=
  writing (codes .update) faults (fun _ => true) (List.map fun row =>
    if row.isAt username mac path then row.set type size lastWriteTime hash else row)

def update (username mac : Text) (entry : DirectoryEntry) : Method κ ε Unit :=
  updateValues faults username mac entry.relativePath entry.typeName entry.size
    entry.lastWriteTime entry.hash.str

/-! ## Where no call fails -/

section Whole

variable (username mac path : Text) (entry : DirectoryEntry)

/-- A `Database` as a connection. -/
def connection (database : Database) (caller : κ) : State (List Row) κ where
  table := database.rows
  inTransaction := database.inTransaction
  caller

theorem insert_eq {database : Database} (hidle : database.inTransaction = false) (caller : κ) :
    (insert {} username mac entry : Method κ ε Unit) (connection database caller) =
      .returned () (connection (Database.insert username mac entry database).state caller) := by
  rw [insert, insertValues, writing_of_idle (s := connection database caller) hidle rfl, Database.insert,
    Database.mapRows_of_idle hidle]
  rfl

theorem update_eq {database : Database} (hidle : database.inTransaction = false) (caller : κ) :
    (update {} username mac entry : Method κ ε Unit) (connection database caller) =
      .returned () (connection (Database.update username mac entry database).state caller) := by
  rw [update, updateValues, writing_of_idle (s := connection database caller) hidle rfl, Database.update,
    Database.mapRows_of_idle hidle]
  rfl

theorem remove_eq {database : Database} (hidle : database.inTransaction = false) (caller : κ) :
    (remove {} username mac path : Method κ ε Unit) (connection database caller) =
      .returned () (connection (Database.remove username mac path database).state caller) := by
  rw [remove, writing_of_idle (s := connection database caller) hidle rfl, Database.remove, Database.mapRows_of_idle hidle]
  rfl

/-- What `forAll` calls its function with. -/
theorem forAll_gather {s : State (List Row) (List Visit)} {visits : List Visit}
    (hidle : s.inTransaction = false)
    (hread : (s.table.filter (Row.isOf username mac)).mapM Row.visit = some visits) :
    (forAll {} username mac gather : Method (List Visit) ε Unit) s =
      .returned () { s with caller := s.caller ++ visits } := by
  exact reading_of_idle _ hidle (visitAll_gather hread s.caller)

end Whole

end SavedFiles

end PdsBackup.Server
