import Mathlib.Algebra.Group.Nat.Defs
import PdsBackup.Common.DirectoryEntry
import PdsBackup.Core.Procedure

/-!
# The client's database

The table `savedFiles` of the client: the elements the server has confirmed, at
most one for each path.  Every method runs in a transaction of its own, which
SQLite refuses to begin while another one is open.
-/

namespace PdsBackup.Client

open Procedure

inductive DatabaseError where
  | path
  | open'
  | create
  | read
  | insert
  | update
  | remove
  | prepare
  | finalize
  deriving DecidableEq

/-- A row of `savedFiles`, less its identifier.  `size` is the 64-bit pattern. -/
structure Row where
  path : Text
  type : Text
  size : Nat
  lastWriteTime : Text
  hash : Text
  deriving DecidableEq

structure Database where
  rows : List Row := []
  inTransaction : Bool := false
  deriving DecidableEq

abbrev Query := Procedure Database DatabaseError

def Row.ofEntry (entry : DirectoryEntry) : Row where
  path := entry.relativePath
  type := entry.typeName
  size := entry.size % 2 ^ 64
  lastWriteTime := entry.lastWriteTime
  hash := stringToHex entry.hash.str

namespace Database

/-- `BEGIN TRANSACTION` and what follows in it. -/
def mapRows (f : List Row → List Row) : Query Unit := do
  let inTransaction ← read Database.inTransaction
  ensure .prepare !inTransaction
  modify fun database => { database with rows := f database.rows }

/-- `INSERT OR REPLACE`: the path is unique. -/
def insertRow (entry : DirectoryEntry) (rows : List Row) : List Row :=
  (rows.filter fun row => row.path ≠ entry.relativePath) ++ [Row.ofEntry entry]

def removeRow (path : Text) (rows : List Row) : List Row := rows.filter fun row => row.path ≠ path

def updateRow (entry : DirectoryEntry) (rows : List Row) : List Row :=
  rows.map fun row => if row.path = entry.relativePath then Row.ofEntry entry else row

def insert (entry : DirectoryEntry) : Query Unit := mapRows (insertRow entry)

def remove (path : Text) : Query Unit := mapRows (removeRow path)

def update (entry : DirectoryEntry) : Query Unit := mapRows (updateRow entry)

/-! ## What the statements do -/

section Statements

variable {database : Database}

theorem mapRows_of_idle (hidle : database.inTransaction = false) (f : List Row → List Row) :
    mapRows f database = .returned () { database with rows := f database.rows } := by
  simp [mapRows, bind_apply, hidle]

theorem mapRows_of_open (hopen : database.inTransaction = true) (f : List Row → List Row) :
    mapRows f database = .raised .prepare database := by
  simp [mapRows, bind_apply, hopen]

end Statements

/-- The row at a path; no other row has that path. -/
def rowAt (path : Text) (rows : List Row) : Option Row := rows.find? fun row => row.path = path

theorem rowAt_cons (path : Text) (row : Row) (rows : List Row) :
    rowAt path (row :: rows) = if row.path = path then some row else rowAt path rows := by
  rw [rowAt, List.find?_cons]
  by_cases hpath : row.path = path
  · simp [hpath]
  · simp [hpath, rowAt]

theorem rowAt_append (path : Text) (rows others : List Row) :
    rowAt path (rows ++ others) = (rowAt path rows).or (rowAt path others) :=
  List.find?_append

theorem rowAt_removeRow (removed path : Text) (rows : List Row) :
    rowAt path (removeRow removed rows) = if path = removed then none else rowAt path rows := by
  induction rows with
  | nil => simp [rowAt, removeRow]
  | cons row rows ih =>
      rw [rowAt_cons]
      by_cases hrow : row.path = removed
      · have hskip : removeRow removed (row :: rows) = removeRow removed rows := by
          simp [removeRow, hrow]
        rw [hskip, ih, hrow]
        by_cases hpath : path = removed
        · rw [if_pos hpath, if_pos hpath]
        · rw [if_neg hpath, if_neg hpath, if_neg fun heq => hpath heq.symm]
      · have hkeep : removeRow removed (row :: rows) = row :: removeRow removed rows := by
          simp [removeRow, hrow]
        rw [hkeep, rowAt_cons, ih]
        by_cases hpath : row.path = path
        · rw [if_pos hpath, if_pos hpath, if_neg fun heq => hrow (hpath.trans heq)]
        · rw [if_neg hpath, if_neg hpath]

theorem rowAt_insertRow (entry : DirectoryEntry) (path : Text) (rows : List Row) :
    rowAt path (insertRow entry rows) =
      if path = entry.relativePath then some (Row.ofEntry entry) else rowAt path rows := by
  show rowAt path (removeRow entry.relativePath rows ++ [Row.ofEntry entry]) = _
  rw [rowAt_append, rowAt_removeRow, rowAt_cons]
  by_cases hpath : path = entry.relativePath
  · have hown : (Row.ofEntry entry).path = path := hpath.symm
    rw [if_pos hpath, if_pos hpath, Option.none_or, if_pos hown]
  · have hown : (Row.ofEntry entry).path ≠ path := fun heq => hpath heq.symm
    rw [if_neg hpath, if_neg hpath, if_neg hown]
    exact Option.or_none

/-- An update leaves a path without a row as it is. -/
theorem rowAt_updateRow (entry : DirectoryEntry) (path : Text) (rows : List Row) :
    rowAt path (updateRow entry rows) =
      if path = entry.relativePath then (rowAt path rows).map fun _ => Row.ofEntry entry
      else rowAt path rows := by
  induction rows with
  | nil => simp [rowAt, updateRow]
  | cons row rows ih =>
      have hcons : updateRow entry (row :: rows) =
          (if row.path = entry.relativePath then Row.ofEntry entry else row) ::
            updateRow entry rows := rfl
      rw [hcons, rowAt_cons, rowAt_cons, ih]
      by_cases hrow : row.path = entry.relativePath
      · have hpaths : (Row.ofEntry entry).path = row.path := hrow.symm
        rw [if_pos hrow, hpaths]
        by_cases hpath : row.path = path
        · rw [if_pos hpath, if_pos hpath, if_pos (hpath.symm.trans hrow)]
          rfl
        · rw [if_neg hpath, if_neg hpath]
      · rw [if_neg hrow]
        by_cases hpath : row.path = path
        · rw [if_pos hpath, if_pos hpath, if_neg fun heq => hrow (hpath.trans heq)]
        · rw [if_neg hpath, if_neg hpath]

end Database

end PdsBackup.Client
