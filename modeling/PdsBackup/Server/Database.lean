import Mathlib.Algebra.Group.Nat.Defs
import PdsBackup.Common.DirectoryEntry

/-!
# The server's database

The table `savedFiles` as SQLite keeps it: rows in the order of their
identifiers, no key besides the identifier.  Every method runs in a transaction
of its own, which SQLite refuses to begin while another one is open.
-/

namespace PdsBackup.Server

open Procedure

inductive DatabaseError where
  | path
  | open'
  | create
  | read
  | insert
  | update
  | remove
  | prepare
  | finalize
  deriving DecidableEq

/-- A row of `savedFiles`, less its identifier.  `size` is the 64-bit pattern. -/
structure Row where
  username : Text
  mac : Text
  path : Text
  type : Text
  size : Nat
  lastWriteTime : Text
  hash : Text
  deriving DecidableEq

structure Database where
  rows : List Row := []
  inTransaction : Bool := false
  deriving DecidableEq

abbrev Query := Procedure Database DatabaseError

namespace Row

def isOf (username mac : Text) (row : Row) : Bool := row.username = username ∧ row.mac = mac

/-- The rows `path=? AND username=? AND mac=?` selects. -/
def isAt (username mac path : Text) (row : Row) : Bool :=
  row.isOf username mac ∧ row.path = path

def ofEntry (username mac : Text) (entry : DirectoryEntry) : Row where
  username
  mac
  path := entry.relativePath
  type := entry.typeName
  size := entry.size % 2 ^ 64
  lastWriteTime := entry.lastWriteTime
  hash := stringToHex entry.hash.str

/-- What an `UPDATE` leaves of a row. -/
def updated (entry : DirectoryEntry) (row : Row) : Row :=
  { row with
    type := entry.typeName
    size := entry.size % 2 ^ 64
    lastWriteTime := entry.lastWriteTime
    hash := stringToHex entry.hash.str }

/-- `sqlite3_column_int` into an `uintmax_t`: the low 32 bits, as a signed
number, in 64 bits. -/
def columnSize (row : Row) : Nat :=
  if row.size % 2 ^ 32 < 2 ^ 31 then row.size % 2 ^ 32
  else row.size % 2 ^ 32 + 2 ^ 64 - 2 ^ 32

/-- The columns as `std::string` takes them from SQLite. -/
def columns (row : Row) : Row :=
  { row with
    path := cString row.path
    type := cString row.type
    size := row.columnSize
    lastWriteTime := cString row.lastWriteTime
    hash := cString row.hash }

/-- The hash in a row, in binary; `none` is the `invalid_argument`. -/
def hashBytes (row : Row) : Option (List Byte) := hexToString row.hash

end Row

namespace Database

/-- `BEGIN TRANSACTION` -/
def begin : Query Unit := do
  let inTransaction ← read Database.inTransaction
  ensure .prepare !inTransaction

def mapRows (f : List Row → List Row) : Query Unit := do
  begin
  modify fun database => { database with rows := f database.rows }

def insert (username mac : Text) (entry : DirectoryEntry) : Query Unit :=
  mapRows fun rows => rows ++ [Row.ofEntry username mac entry]

def remove (username mac path : Text) : Query Unit :=
  mapRows fun rows => rows.filter fun row => !row.isAt username mac path

def update (username mac : Text) (entry : DirectoryEntry) : Query Unit :=
  mapRows fun rows => rows.map fun row =>
    if row.isAt username mac entry.relativePath then row.updated entry else row

/-- The rows `forAll` goes over; its transaction stays open meanwhile. -/
def select (username mac : Text) : Query (List Row) := do
  begin
  modify fun database => { database with inTransaction := true }
  read fun database => database.rows.filter (Row.isOf username mac)

/-- `END TRANSACTION` -/
def finish : Query Unit := modify fun database => { database with inTransaction := false }

def getAllMacAddresses (username : Text) : Query (List Text) := do
  begin
  read fun database =>
    ((database.rows.filter fun row => row.username = username).map Row.mac).eraseDups.map cString

/-! ## What the statements do -/

variable {database : Database} (username mac path : Text) (entry : DirectoryEntry)

theorem mapRows_of_idle (hidle : database.inTransaction = false) (f : List Row → List Row) :
    mapRows f database = .returned () { database with rows := f database.rows } := by
  simp [mapRows, begin, bind_apply, hidle]

theorem mapRows_of_open (hopen : database.inTransaction = true) (f : List Row → List Row) :
    mapRows f database = .raised .prepare database := by
  simp [mapRows, begin, bind_apply, hopen]

end Database

end PdsBackup.Server
