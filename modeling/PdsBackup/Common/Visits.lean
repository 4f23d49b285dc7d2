import Mathlib.Algebra.Group.Nat.Defs
import PdsBackup.Common.DirectoryEntry
import PdsBackup.Core.Transaction

/-!
# Rows on their way in and out of a database

What both tables of saved files do with the values of an element: a size goes in
as a 64-bit integer and comes out through an accessor for 32-bit integers, a hash
goes in and comes out in hexadecimal notation, a text comes out as a C string.
-/

namespace PdsBackup

open Procedure Transaction

/-- What the function given to `forAll` is called with. -/
structure Visit where
  path : Text
  type : Text
  size : Nat
  lastWriteTime : Text
  hash : List Byte
  deriving DecidableEq

/-- What a method throws: exceptions of its own, of the functions it uses and of
its caller's code. -/
inductive Thrown (ε η : Type) where
  | database (code : ε)
  | invalidArgument
  | hash
  | rng
  | callback (exception : η)
  deriving DecidableEq

/-- `sqlite3_column_int` into an `uintmax_t`: the low 32 bits, as a signed
number, in 64 bits. -/
def columnInt (value : Nat) : Nat :=
  if value % 2 ^ 32 < 2 ^ 31 then value % 2 ^ 32 else value % 2 ^ 32 + 2 ^ 64 - 2 ^ 32

/-- The columns of a row as they are read; `none` is the `invalid_argument` of
`hex_to_string`. -/
def readColumns (path type : Text) (size : Nat) (lastWriteTime hash : Text) : Option Visit := do
  let hash ← hexToString (cString hash)
  some
    { path := cString path
      type := cString type
      size := columnInt size
      lastWriteTime := cString lastWriteTime
      hash }

/-- The function of the caller, on one row. -/
def visitRow {κ ε η : Type} (f : Visit → Procedure κ η Unit) (row : Option Visit) :
    Procedure κ (Thrown ε η) Unit := do
  let visit ← orRaise .invalidArgument row
  Procedure.within id (fun caller _ => caller) .callback (f visit)

/-- A function that remembers what it is called with. -/
def gather {η : Type} (visit : Visit) : Procedure (List Visit) η Unit :=
  modify fun visits => visits ++ [visit]

def EntryType.name : EntryType → Text
  | .notFileNorDirectory => []
  | .directory => "directory".toList
  | .file => "file".toList

/-- The attributes of an element, as they should be read back. -/
def DirectoryEntry.attributes (entry : DirectoryEntry) : Visit where
  path := entry.relativePath
  type := entry.type.name
  size := entry.size
  lastWriteTime := entry.lastWriteTime
  hash := entry.hash.bytes

/-! ## Reading back what was written -/

theorem columnInt_eq_iff {size : Nat} (hsize : size < 2 ^ 63) :
    columnInt (size % 2 ^ 64) = size ↔ size < 2 ^ 31 := by
  unfold columnInt
  split <;> omega

theorem nul_notMem_cString (text : Text) : nul ∉ cString text := by
  intro hnul
  have hkept := List.mem_takeWhile_imp hnul
  simp at hkept

theorem cString_eq_self_iff (text : Text) : cString text = text ↔ nul ∉ text := by
  constructor
  · intro heq hnul
    rw [← heq] at hnul
    exact nul_notMem_cString text hnul
  · exact cString_eq_self

theorem nul_notMem_hex (input : List Byte) : nul ∉ stringToHex input := by
  intro hnul
  have hdigit := mem_hexDigits_of_mem_stringToHex input hnul
  exact absurd hdigit (by decide)

theorem typeName_eq_name {entry : DirectoryEntry} (htype : entry.type ≠ .notFileNorDirectory) :
    entry.typeName = entry.type.name := by
  rw [DirectoryEntry.typeName]
  cases hname : entry.type with
  | notFileNorDirectory => exact absurd hname htype
  | directory => rfl
  | file => rfl

/-- The columns of an element are read back as its attributes exactly when the
32-bit accessor is wide enough for its size and its time has no NUL. -/
theorem readColumns_eq_attributes_iff {entry : DirectoryEntry} (hpath : nul ∉ entry.relativePath)
    (htype : entry.type ≠ .notFileNorDirectory) (hsize : entry.size < 2 ^ 63) :
    readColumns entry.relativePath entry.typeName (entry.size % 2 ^ 64) entry.lastWriteTime
        (stringToHex entry.hash.str) = some entry.attributes ↔
      entry.size < 2 ^ 31 ∧ nul ∉ entry.lastWriteTime := by
  have hname : nul ∉ entry.typeName := by
    rw [DirectoryEntry.typeName]
    split <;> decide
  rw [readColumns, cString_eq_self (nul_notMem_hex _), hexToString_stringToHex,
    cString_eq_self hpath, cString_eq_self hname, typeName_eq_name htype]
  simp only [Option.bind_eq_bind, Option.bind_some, Option.some.injEq, DirectoryEntry.attributes,
    Visit.mk.injEq, true_and, columnInt_eq_iff hsize, cString_eq_self_iff, Hash.str, and_true]

/-- Collecting goes through when every row can be read. -/
theorem visitAll_gather {ε η ρ : Type} {readRow : ρ → Option Visit} {rows : List ρ}
    {visits : List Visit} (hread : rows.mapM readRow = some visits) (before : List Visit) :
    visitAll (fun (_ : Unit) row => visitRow (ε := ε) (η := η) gather (readRow row)) () rows
        before = .returned () (before ++ visits) := by
  induction rows generalizing visits before with
  | nil =>
      obtain rfl : [] = visits := by simpa using hread
      rw [List.append_nil]
      rfl
  | cons row rows ih =>
      simp only [List.mapM_cons, Option.bind_eq_bind, Option.bind_eq_some_iff, Option.pure_def,
        Option.some.injEq] at hread
      obtain ⟨visit, hvisit, rest, hrest, rfl⟩ := hread
      have hstep : visitRow (ε := ε) (η := η) gather (readRow row) before =
          .returned () (before ++ [visit]) := by
        rw [hvisit]
        rfl
      rw [visitAll, bind_of_returned hstep, ih hrest, List.append_assoc, List.singleton_append]

end PdsBackup
