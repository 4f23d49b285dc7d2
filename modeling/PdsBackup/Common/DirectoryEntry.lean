import PdsBackup.Common.Hash
import PdsBackup.Common.Validator
import PdsBackup.Core.WrittenPaths

/-!
# Directory entries

The class `Directory_entry`: an element of a backup with its attributes, taken
from a file system or given.  An entry that is read from a file system finds its
path relative to a base path with a regular expression made of that base path.

SHA-256 and the two conversions between times and texts belong to libraries; a
`Platform` stands for them.
-/

namespace PdsBackup

structure Platform where
  sha256 : List Byte → Hash
  /-- `put_time` of the local time of a modification time. -/
  putTime : Int → Text
  /-- `mktime` of what `get_time` reads in a text. -/
  getTime : Text → Int

/-- `Directory_entry_TYPE` -/
inductive EntryType where
  | notFileNorDirectory
  | directory
  | file
  deriving DecidableEq

structure DirectoryEntry where
  relativePath : Text := []
  absolutePath : Text := []
  size : Nat := 0
  type : EntryType := .notFileNorDirectory
  lastWriteTime : Text := []
  hash : Hash := Hash.zero
  deriving DecidableEq

def EntryType.ofNode : Node → EntryType
  | .file .. => .file
  | .dir _ => .directory

namespace DirectoryEntry

open Regex

/-! ## The relative path of an absolute one -/

def relativePathTail : Text := "(\\/.*)".toList

/-- The expression an absolute path is matched against. -/
def relativePathPattern (basePath : Text) : Text := '(' :: basePath ++ ')' :: relativePathTail

/-- The second group of the match; `none` is the `runtime_error` or, when the
base path makes no expression, the `regex_error`. -/
@[irreducible] def relativePathOf (basePath absolutePath : Text) : Option Text :=
  match compile (relativePathPattern basePath) with
  | some expr => (fullMatch expr absolutePath).map fun groups => groupText groups 2
  | none => none

def tailExpr : Expr :=
  .seq (.group 2 (.seq (.chars (.single '/'))
    (.seq (.repetition 0 none true (.chars .notTerminator)) .empty))) .empty

theorem readSequence_tail (fuel : Nat) :
    readSequence (fuel + 12) 2 relativePathTail = some (tailExpr, 3, []) := rfl

theorem compile_relativePathPattern {basePath : Text} (hbase : Literal basePath) :
    compile (relativePathPattern basePath) =
      some (.seq (.group 1 (literalExpr basePath)) tailExpr) := by
  have hlength : (relativePathPattern basePath).length = basePath.length + 8 := by
    simp [relativePathPattern, relativePathTail]
  have hfuel : 3 * (relativePathPattern basePath).length + 3 =
      (2 * basePath.length + 20) + basePath.length + 3 + 1 + 1 + 1 + 1 := by
    rw [hlength]
    omega
  have hgroup : readAlternatives ((2 * basePath.length + 20) + basePath.length + 3 + 1) 2
      (basePath ++ ')' :: relativePathTail) =
        some (literalExpr basePath, 2, ')' :: relativePathTail) := by
    rw [readAlternatives, readSequence_literal 2 relativePathTail hbase]
    rfl
  have hquantifiers : ∀ fuel atom, readQuantifiers (fuel + 1) atom relativePathTail =
      some (atom, relativePathTail) := fun fuel atom => rfl
  have hterm : readTerm ((2 * basePath.length + 20) + basePath.length + 3 + 1 + 1) 1 '('
      (basePath ++ ')' :: relativePathTail) =
        some (.group 1 (literalExpr basePath), 2, relativePathTail) := by
    have hquery : ∀ inner, basePath ++ ')' :: relativePathTail ≠ '?' :: inner := by
      intro inner
      cases basePath with
      | nil => simp
      | cons c rest =>
          rw [List.cons_append, Ne, List.cons.injEq]
          rintro ⟨rfl, -⟩
          exact hbase '?' List.mem_cons_self (by decide)
    rw [readTerm_group _ _ hquery, hgroup]
    simp [readTerm.closing, hquantifiers]
  have hsequence : readSequence
      ((2 * basePath.length + 20) + basePath.length + 3 + 1 + 1 + 1) 1
      (relativePathPattern basePath) =
        some (.seq (.group 1 (literalExpr basePath)) tailExpr, 3, []) := by
    have htail := readSequence_tail (3 * basePath.length + 13)
    have hfuel' : 3 * basePath.length + 13 + 12 =
        (2 * basePath.length + 20) + basePath.length + 3 + 1 + 1 := by omega
    rw [hfuel'] at htail
    rw [relativePathPattern, List.cons_append, readSequence, if_neg (by decide), hterm]
    simp [htail]
  rw [compile, hfuel, readAlternatives, hsequence]
  rfl

/-- Below a base path the relative path is what follows it, if one is found. -/
theorem relativePathOf_append {basePath relative found : Text} (hbase : Literal basePath)
    (hfound : relativePathOf basePath (basePath ++ relative) = some found) : found = relative := by
  rw [relativePathOf, compile_relativePathPattern hbase] at hfound
  simp only [fullMatch, Option.map_map, Option.map_eq_some_iff, Function.comp_apply] at hfound
  obtain ⟨position, hposition, rfl⟩ := hfound
  have hmem := List.mem_of_find?_eq_some hposition
  have hend := List.find?_some hposition
  simp only [decide_eq_true_eq] at hend
  rw [run_seq, run_group, run_literalExpr _ [] relative hbase, List.map_singleton,
    List.flatMap_singleton, tailExpr, run_seq, run_group] at hmem
  obtain ⟨next, hnext, hposition⟩ := List.mem_flatMap.mp hmem
  obtain ⟨body, hbody, rfl⟩ := List.mem_map.mp hnext
  rw [run_empty, List.mem_singleton] at hposition
  subst hposition
  have hrest : body.rest = [] := hend
  simp [groupText, hrest]

/-! ## Reading an entry and setting its time -/

section Access

variable (platform : Platform)

/-- The constructor from a base path and an absolute path: the relative path,
then `stat`, then the hash of a file.  `none` is the `runtime_error`. -/
def load (basePath absolutePath : Text) (tree : FileTree) : Option DirectoryEntry := do
  let relativePath ← relativePathOf basePath absolutePath
  let node ← tree.status absolutePath
  some
    { relativePath
      absolutePath
      size := match node with
        | .file content _ => content.length
        | .dir _ => 0
      type := .ofNode node
      lastWriteTime := platform.putTime node.mtime
      hash := match node with
        | .file content _ => hashFile platform.sha256 content
        | .dir _ => .zero }

/-- `get_time_from_file` -/
def getTimeFromFile (entry : DirectoryEntry) : SystemCall Text := do
  let status ← Procedure.read fun disk => disk.status entry.absolutePath
  match status with
  | none => Procedure.raise .noEntry
  | some node => pure (platform.putTime node.mtime)

/-- `set_time_to_file`: the entry keeps the time that is read back. -/
def setTimeToFile (entry : DirectoryEntry) (time : Text) : SystemCall DirectoryEntry := do
  let status ← Procedure.read fun disk => disk.status entry.absolutePath
  match status with
  | none => Procedure.raise .noEntry
  | some _ => do
      SystemCall.setTime entry.absolutePath (platform.getTime time)
      let lastWriteTime ← getTimeFromFile platform entry
      pure { entry with lastWriteTime }

end Access

/-- The constructor from attributes. -/
def make (basePath relativePath : Text) (size : Nat) (type : Text) (lastWriteTime : Text)
    (hash : Hash) : DirectoryEntry where
  relativePath
  absolutePath := basePath ++ relativePath
  size
  type :=
    if type = "file".toList then .file
    else if type = "directory".toList then .directory
    else .notFileNorDirectory
  lastWriteTime
  hash

def isRegularFile (entry : DirectoryEntry) : Bool := entry.type = .file

def isDirectory (entry : DirectoryEntry) : Bool := entry.type = .directory

/-- How the databases name the type of an entry. -/
def typeName (entry : DirectoryEntry) : Text :=
  if entry.type = .file then "file".toList else "directory".toList

theorem isRegularFile_of_typeName {entry other : DirectoryEntry}
    (hnames : entry.typeName = other.typeName) (hfile : entry.isRegularFile = true) :
    other.isRegularFile = true := by
  simp only [isRegularFile, decide_eq_true_eq] at hfile ⊢
  by_contra hother
  rw [typeName, if_pos hfile, typeName, if_neg hother] at hnames
  exact absurd hnames (by decide)

/-- The type of an element is named as in the row it was made from. -/
theorem typeName_make {basePath relativePath type lastWriteTime : Text} {size : Nat} {hash : Hash}
    (hknown : (make basePath relativePath size type lastWriteTime hash).type ≠
      .notFileNorDirectory) :
    (make basePath relativePath size type lastWriteTime hash).typeName = type := by
  by_cases hfile : type = "file".toList
  · have htype : (make basePath relativePath size type lastWriteTime hash).type = .file :=
      if_pos hfile
    rw [typeName, if_pos htype, hfile]
  · by_cases hdir : type = "directory".toList
    · have htype : (make basePath relativePath size type lastWriteTime hash).type = .directory :=
        (if_neg hfile).trans (if_pos hdir)
      rw [typeName, htype, if_neg (by decide), hdir]
    · exact absurd ((if_neg hfile).trans (if_neg hdir)) hknown

/-! ## What the accesses do -/

section Access

variable {platform : Platform} {entry : DirectoryEntry} {disk : Disk}

/-- An entry that was read has the attributes of its object. -/
structure Describes (platform : Platform) (node : Node) (entry : DirectoryEntry) : Prop where
  size : entry.size = match node with
    | .file content _ => content.length
    | .dir _ => 0
  type : entry.type = .ofNode node
  lastWriteTime : entry.lastWriteTime = platform.putTime node.mtime
  hash : entry.hash = match node with
    | .file content _ => platform.sha256 content
    | .dir _ => .zero

theorem load_eq_some {basePath absolutePath : Text} {tree : FileTree}
    (hload : load platform basePath absolutePath tree = some entry) :
    relativePathOf basePath absolutePath = some entry.relativePath ∧
      entry.absolutePath = absolutePath ∧
      ∃ node, tree.status absolutePath = some node ∧ Describes platform node entry := by
  simp only [load, Option.bind_eq_bind, Option.bind_eq_some_iff, Option.some.injEq] at hload
  obtain ⟨relativePath, hrelative, node, hnode, rfl⟩ := hload
  refine ⟨hrelative, rfl, node, hnode, rfl, rfl, rfl, ?_⟩
  cases node with
  | file content mtime => exact hashFile_eq platform.sha256 content
  | dir mtime => rfl

theorem load_isSome {basePath absolutePath : Text} {tree : FileTree}
    (hrelative : (relativePathOf basePath absolutePath).isSome = true)
    (hstatus : (tree.status absolutePath).isSome = true) :
    ∃ entry, load platform basePath absolutePath tree = some entry := by
  obtain ⟨relativePath, hrelative⟩ := Option.isSome_iff_exists.mp hrelative
  obtain ⟨node, hnode⟩ := Option.isSome_iff_exists.mp hstatus
  simp [load, hrelative, hnode]

theorem getTimeFromFile_of_status {node : Node}
    (hstatus : disk.status entry.absolutePath = some node) :
    getTimeFromFile platform entry disk = .returned (platform.putTime node.mtime) disk := by
  simp [getTimeFromFile, hstatus]

/-- Setting a time succeeds where there is an object, and has that one effect. -/
theorem setTimeToFile_of_resolve {path : Path} {node : Node}
    (hresolve : disk.tree.resolve entry.absolutePath = some path)
    (hnode : disk.tree.node path = some node) (time : Text) :
    setTimeToFile platform entry time disk =
      .returned { entry with lastWriteTime := platform.putTime (platform.getTime time) }
        (disk.setTime path (platform.getTime time)) := by
  have hstatus : disk.status entry.absolutePath = some node := by
    simp [Disk.status, FileTree.status, hresolve, hnode]
  have hstatus' : (disk.setTime path (platform.getTime time)).status entry.absolutePath =
      some (node.retime (platform.getTime time)) := by
    have hdirs : ∀ other, (disk.setTime path (platform.getTime time)).tree.isDir other =
        disk.tree.isDir other := fun other => FileTree.isDir_retime _ _ _ _
    rw [Disk.status, FileTree.status, FileTree.resolve_congr hdirs, hresolve, Option.bind_some,
      Disk.setTime, FileTree.node_retime, if_pos rfl, hnode]
    rfl
  have hmtime : (node.retime (platform.getTime time)).mtime = platform.getTime time := by
    cases node <;> rfl
  rw [setTimeToFile, Procedure.read_bind_apply, hstatus]
  simp only
  rw [Procedure.bind_of_returned (SystemCall.setTime_of_status hresolve hnode _),
    Procedure.bind_of_returned (getTimeFromFile_of_status hstatus'), hmtime]
  rfl

theorem setTimeToFile_of_none (hstatus : disk.tree.status entry.absolutePath = none)
    (time : Text) : setTimeToFile platform entry time disk = .raised .noEntry disk := by
  have hstatus' : disk.status entry.absolutePath = none := hstatus
  simp [setTimeToFile, hstatus']

end Access

end DirectoryEntry

end PdsBackup
