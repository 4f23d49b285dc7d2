import PdsBackup.Client.Database
import PdsBackup.Common.Visits

/-!
# The methods of the client's database, call by call

Each method of `client::Database` with the calls of SQLite it makes, any of which
may fail.  Where none does, a method is the change of the rows that
`Client.Database` describes.
-/

namespace PdsBackup.Client

open Procedure Transaction

namespace Row

/-- The row `insert` binds its parameters to. -/
def ofValues (path type : Text) (size : Nat) (lastWriteTime : Text) (hash : List Byte) :
    Row where
  path
  type
  size := size % 2 ^ 64
  lastWriteTime
  hash := stringToHex hash

/-- What `update` leaves of a row. -/
def set (type : Text) (size : Nat) (lastWriteTime : Text) (hash : List Byte) (row : Row) : Row :=
  { row with
    type
    size := size % 2 ^ 64
    lastWriteTime
    hash := stringToHex hash }

def visit (row : Row) : Option Visit :=
  readColumns row.path row.type row.size row.lastWriteTime row.hash

end Row

namespace SavedFiles

variable {κ ε : Type} (faults : Faults)

abbrev Method (κ ε α : Type) := Procedure (State (List Row) κ) (Thrown DatabaseError ε) α

def codes (step : DatabaseError) : Codes (Thrown DatabaseError ε) where
  prepare := .database .prepare
  step := .database step
  finish := .database .finalize

def forAll (f : Visit → Procedure κ ε Unit) : Method κ ε Unit :=
  reading (codes .read) faults id () fun _ row => visitRow f row.visit

/-- `INSERT OR REPLACE`: the path is unique. -/
def insertValues (path type : Text) (size : Nat) (lastWriteTime : Text) (hash : List Byte) :
    Method κ ε Unit :=
  writing (codes .insert) faults (fun _ => true) fun rows =>
    Database.removeRow path rows ++ [Row.ofValues path type size lastWriteTime hash]

def insert (entry : DirectoryEntry) : Method κ ε Unit :=
  insertValues faults entry.relativePath entry.typeName entry.size entry.lastWriteTime
    entry.hash.str

def remove (path : Text) : Method κ ε Unit := writing (codes .remove) faults (fun _ => true) (Database.removeRow path)

def updateValues (path type : Text) (size : Nat) (lastWriteTime : Text) (hash : List Byte) :
    Method κ ε Unit :=
  writing (codes .update) faults (fun _ => true) (List.map fun row =>
    if row.path = path then row.set type size lastWriteTime hash else row)

def update (entry : DirectoryEntry) : Method κ ε Unit :=
  updateValues faults entry.relativePath entry.typeName entry.size entry.lastWriteTime
    entry.hash.str

/-! ## Where no call fails -/

section Whole

variable (path : Text) (entry : DirectoryEntry)

/-- A `Database` as a connection. -/
def connection (database : Database) (caller : κ) : State (List Row) κ where
  table := database.rows
  inTransaction := database.inTransaction
  caller

theorem insert_eq {database : Database} (hidle : database.inTransaction = false) (caller : κ) :
    (insert {} entry : Method κ ε Unit) (connection database caller) =
      .returned () (connection (Database.insert entry database).state caller) := by
  rw [insert, insertValues, writing_of_idle (s := connection database caller) hidle rfl, Database.insert,
    Database.mapRows_of_idle hidle]
  rfl

/-- The row an update leaves is the row of the element: its path is the same. -/
theorem updateRow_eq (entry : DirectoryEntry) (rows : List Row) :
    rows.map (fun row => if row.path = entry.relativePath then
      row.set entry.typeName entry.size entry.lastWriteTime entry.hash.str else row) =
        Database.updateRow entry rows := by
  apply List.map_congr_left
  intro row _
  by_cases hpath : row.path = entry.relativePath
  · simp [hpath, Row.set, Row.ofEntry]
  · simp [hpath]

theorem update_eq {database : Database} (hidle : database.inTransaction = false) (caller : κ) :
    (update {} entry : Method κ ε Unit) (connection database caller) =
      .returned () (connection (Database.update entry database).state caller) := by
  rw [update, updateValues, writing_of_idle (s := connection database caller) hidle rfl, Database.update,
    Database.mapRows_of_idle hidle, connection, updateRow_eq]
  rfl

theorem remove_eq {database : Database} (hidle : database.inTransaction = false) (caller : κ) :
    (remove {} path : Method κ ε Unit) (connection database caller) =
      .returned () (connection (Database.remove path database).state caller) := by
  rw [remove, writing_of_idle (s := connection database caller) hidle rfl, Database.remove, Database.mapRows_of_idle hidle]
  rfl

/-- What `forAll` calls its function with. -/
theorem forAll_gather {s : State (List Row) (List Visit)} {visits : List Visit}
    (hidle : s.inTransaction = false) (hread : s.table.mapM Row.visit = some visits) :
    (forAll {} gather : Method (List Visit) ε Unit) s =
      .returned () { s with caller := s.caller ++ visits } := by
  exact reading_of_idle _ hidle (visitAll_gather hread s.caller)

end Whole

end SavedFiles

end PdsBackup.Client
