import PdsBackup.Core.Posix

/-!
# System calls on files and directories

The calls of POSIX and of `std::filesystem` that make, write, rename, remove and
re-time files and directories.  A call fails only where the tree, or the length
of a name or of a path, leaves it no choice.  Making or removing an entry sets
the time of its directory, and every change is recorded in a log by the path it
was made at, after resolution.
-/

namespace PdsBackup

inductive Errno where
  | noEntry
  | notDirectory
  | isDirectory
  | notEmpty
  | nameTooLong
  | invalid
  | busy
  deriving DecidableEq

/-- What was done to the object at a path. -/
inductive Effect where
  | created (path : Path)
  | overwritten (path : Path)
  | removed (path : Path)
  | retimed (path : Path)
  deriving DecidableEq

def Effect.path : Effect → Path
  | .created path => path
  | .overwritten path => path
  | .removed path => path
  | .retimed path => path

/-- A file system with the log of the changes made to it and the readings of the
clock that are still to come. -/
structure Disk where
  tree : FileTree
  log : List Effect
  clock : Nat → Int

/-- A system call that may fail. -/
abbrev SystemCall := Procedure Disk Errno

namespace Disk

/-- Changes the tree at the time the clock shows. -/
def change (effects : List Effect) (f : Int → FileTree → FileTree) (disk : Disk) : Disk where
  tree := f (disk.clock 0) disk.tree
  log := disk.log ++ effects
  clock := fun reading => disk.clock (reading + 1)

@[simp] theorem tree_change (effects : List Effect) (f : Int → FileTree → FileTree)
    (disk : Disk) : (disk.change effects f).tree = f (disk.clock 0) disk.tree := rfl

@[simp] theorem log_change (effects : List Effect) (f : Int → FileTree → FileTree)
    (disk : Disk) : (disk.change effects f).log = disk.log ++ effects := rfl

def status (disk : Disk) (text : Text) : Option Node := disk.tree.status text

/-- `std::filesystem::exists` of a text that fits; of any other the call throws. -/
def present (disk : Disk) (text : Text) : Bool := (disk.status text).isSome

def isDirectory (disk : Disk) (text : Text) : Bool := (disk.status text).any Node.isDir

theorem present_eq_false_iff {disk : Disk} {text : Text} :
    disk.present text = false ↔ disk.tree.status text = none := by
  rw [present, status, ← Bool.not_eq_true, Option.not_isSome_iff_eq_none]

theorem place_of_present {disk : Disk} {text : Text} (hpresent : disk.present text = true) :
    ∃ path, disk.tree.resolve text = some path ∧ (disk.tree.node path).isSome = true := by
  obtain ⟨node, hnode⟩ := Option.isSome_iff_exists.mp hpresent
  obtain ⟨path, hresolve, hpath⟩ := disk.tree.resolve_of_status hnode
  exact ⟨path, hresolve, by simp [hpath]⟩

/-! ## Changes by path -/

def makeDir (path : Path) : Disk → Disk :=
  change [.created path] fun now tree => (tree.putDir path now).retime path.tail now

def writeFile (path : Path) (content : List Byte) (disk : Disk) : Disk :=
  if (disk.tree.node path).isSome then
    disk.change [.overwritten path] fun now tree => tree.putFile path content now
  else
    disk.change [.created path] fun now tree =>
      (tree.putFile path content now).retime path.tail now

def unlink (path : Path) (disk : Disk) : Disk :=
  disk.change ((path :: disk.tree.below path).map .removed) fun now tree =>
    (tree.delete path).retime path.tail now

/-- Removes what is in a directory. -/
def clear (path : Path) (disk : Disk) : Disk :=
  disk.change ((disk.tree.below path).map .removed) fun now tree =>
    ((tree.below path).foldl FileTree.delete tree).retime path now

/-- Moves a regular file, with its time, to another path. -/
def move (source target : Path) (disk : Disk) : Disk :=
  match disk.tree.node source with
  | some (.file content mtime) =>
      disk.change [.removed source,
          if (disk.tree.node target).isSome then .overwritten target else .created target]
        fun now tree =>
          (((tree.putFile target content mtime).delete source).retime source.tail now).retime
            target.tail now
  | _ => disk

def setTime (path : Path) (mtime : Int) (disk : Disk) : Disk :=
  { disk with
    tree := disk.tree.retime path mtime
    log := disk.log ++ [.retimed path] }

/-! ## What a change does to the tree -/

section Effects

variable (disk : Disk) {name : Text} {parent : Path}

theorem node_makeDir (hname : PlainName name) (hparent : disk.tree.isDir parent = true)
    (hnone : disk.tree.node (name :: parent) = none) {other : Path} (hother : other ≠ parent) :
    (disk.makeDir (name :: parent)).tree.node other =
      if other = name :: parent then some (.dir (disk.clock 0)) else disk.tree.node other := by
  rw [makeDir, tree_change, List.tail_cons, FileTree.node_retime_of_ne _ hother,
    FileTree.node_putDir _ _ hname hparent hnone]

theorem shape_makeDir (hname : PlainName name) (hparent : disk.tree.isDir parent = true)
    (hnone : disk.tree.node (name :: parent) = none) (other : Path) :
    (disk.makeDir (name :: parent)).tree.shape other =
      if other = name :: parent then some .dir else disk.tree.shape other := by
  have hput := FileTree.node_putDir disk.tree (disk.clock 0) hname hparent hnone
  have hdir : (disk.tree.putDir (name :: parent) (disk.clock 0)).isDir parent = true := by
    rw [FileTree.isDir, hput, if_neg (List.cons_ne_self name parent).symm]
    exact hparent
  rw [makeDir, tree_change, List.tail_cons, FileTree.shape_retime_of_isDir _ hdir,
    FileTree.shape, hput]
  by_cases hother : other = name :: parent
  · rw [if_pos hother, if_pos hother]
    rfl
  · rw [if_neg hother, if_neg hother]
    rfl

theorem node_writeFile (hname : PlainName name) (hparent : disk.tree.isDir parent = true)
    (hfile : disk.tree.isDir (name :: parent) = false) (content : List Byte) {other : Path}
    (hother : other ≠ parent) :
    (disk.writeFile (name :: parent) content).tree.node other =
      if other = name :: parent then some (.file content (disk.clock 0))
      else disk.tree.node other := by
  have hput := FileTree.node_putFile disk.tree content (disk.clock 0) hname hparent hfile
  unfold writeFile
  by_cases hsome : (disk.tree.node (name :: parent)).isSome = true
  · rw [if_pos hsome, tree_change, hput]
  · rw [if_neg hsome, tree_change, List.tail_cons, FileTree.node_retime_of_ne _ hother, hput]

theorem shape_writeFile (hname : PlainName name) (hparent : disk.tree.isDir parent = true)
    (hfile : disk.tree.isDir (name :: parent) = false) (content : List Byte) (other : Path) :
    (disk.writeFile (name :: parent) content).tree.shape other =
      if other = name :: parent then some (.file content (disk.clock 0))
      else disk.tree.shape other := by
  have hput := FileTree.node_putFile disk.tree content (disk.clock 0) hname hparent hfile
  have hshape : (disk.tree.putFile (name :: parent) content (disk.clock 0)).shape other =
      if other = name :: parent then some (.file content (disk.clock 0))
      else disk.tree.shape other := by
    rw [FileTree.shape, hput]
    by_cases hother : other = name :: parent
    · rw [if_pos hother, if_pos hother]
      rfl
    · rw [if_neg hother, if_neg hother]
      rfl
  have hdir : (disk.tree.putFile (name :: parent) content (disk.clock 0)).isDir parent = true := by
    rw [FileTree.isDir, hput, if_neg (List.cons_ne_self name parent).symm]
    exact hparent
  unfold writeFile
  by_cases hsome : (disk.tree.node (name :: parent)).isSome = true
  · rw [if_pos hsome, tree_change, hshape]
  · rw [if_neg hsome, tree_change, List.tail_cons, FileTree.shape_retime_of_isDir _ hdir, hshape]

theorem node_unlink {other : Path} (hother : other ≠ parent) :
    (disk.unlink (name :: parent)).tree.node other =
      if name :: parent <:+ other then none else disk.tree.node other := by
  rw [unlink, tree_change, List.tail_cons, FileTree.node_retime_of_ne _ hother,
    FileTree.node_delete _ (List.cons_ne_nil name parent)]

theorem node_unlink_self (name : Text) (parent : Path) :
    (disk.unlink (name :: parent)).tree.node (name :: parent) = none := by
  rw [disk.node_unlink (List.cons_ne_self name parent), if_pos List.suffix_rfl]

theorem shape_unlink (hsome : (disk.tree.node (name :: parent)).isSome = true) (other : Path) :
    (disk.unlink (name :: parent)).tree.shape other =
      if name :: parent <:+ other then none else disk.tree.shape other := by
  have hdelete := FileTree.node_delete disk.tree (List.cons_ne_nil name parent)
  have habove := cons_not_suffix_self name parent
  have hdir : (disk.tree.delete (name :: parent)).isDir parent = true := by
    rw [FileTree.isDir, hdelete, if_neg habove]
    exact disk.tree.isDir_parent hsome
  rw [unlink, tree_change, List.tail_cons, FileTree.shape_retime_of_isDir _ hdir,
    FileTree.shape, hdelete]
  by_cases hbelow : name :: parent <:+ other
  · rw [if_pos hbelow, if_pos hbelow]
    rfl
  · rw [if_neg hbelow, if_neg hbelow]
    rfl

/-- The directory an object was in is still there. -/
theorem isDir_parent_unlink (hsome : (disk.tree.node (name :: parent)).isSome = true) :
    (disk.unlink (name :: parent)).tree.isDir parent = true := by
  rw [FileTree.isDir_iff_shape, disk.shape_unlink hsome, if_neg (cons_not_suffix_self name parent),
    ← FileTree.isDir_iff_shape]
  exact disk.tree.isDir_parent hsome

/-- Removing a file leaves every directory. -/
theorem isDir_unlink_file {path : Path} (hpath : path ≠ [])
    (hfile : disk.tree.isDir path = false) (hsome : (disk.tree.node path).isSome = true)
    (other : Path) : (disk.unlink path).tree.isDir other = disk.tree.isDir other := by
  obtain ⟨name, parent, rfl⟩ := List.exists_cons_of_ne_nil hpath
  rw [Bool.eq_iff_iff, FileTree.isDir_iff_shape, FileTree.isDir_iff_shape,
    disk.shape_unlink hsome]
  by_cases hbelow : name :: parent <:+ other
  · rw [if_pos hbelow]
    by_cases hother : other = name :: parent
    · rw [hother, ← FileTree.isDir_iff_shape, hfile]
      simp
    · have hnone := disk.tree.node_below_of_not_isDir hfile hbelow hother
      simp [FileTree.shape, hnone]
  · rw [if_neg hbelow]

/-- A moved file keeps its content and its time. -/
theorem shape_move {source : Path} {content : List Byte} {mtime : Int} (hsource : source ≠ [])
    (hfile : disk.tree.node source = some (.file content mtime)) (hname : PlainName name)
    (hparent : disk.tree.isDir parent = true)
    (htarget : disk.tree.isDir (name :: parent) = false) (hne : source ≠ name :: parent)
    (other : Path) :
    (disk.move source (name :: parent)).tree.shape other =
      if other = source then none
      else if other = name :: parent then some (.file content mtime)
      else disk.tree.shape other := by
  have hnotDir : disk.tree.isDir source = false := by
    simp [FileTree.isDir, hfile]
  have hbelow : ∀ {other : Path}, source <:+ other → other ≠ source →
      disk.tree.node other = none := fun hsuffix hother =>
    disk.tree.node_below_of_not_isDir hnotDir hsuffix hother
  have hoff : ∀ {other : Path}, disk.tree.isDir other = true → ¬ source <:+ other := by
    intro other hdir hsuffix
    by_cases hother : other = source
    · simp [hother, hnotDir] at hdir
    · have hsome := disk.tree.isSome_of_isDir hdir
      simp [hbelow hsuffix hother] at hsome
  have hnode : ∀ other, ((disk.tree.putFile (name :: parent) content mtime).delete
      source).node other =
        if other = source then none
        else if other = name :: parent then some (.file content mtime)
        else disk.tree.node other := by
    intro other
    rw [FileTree.node_delete _ hsource, FileTree.node_putFile _ _ _ hname hparent htarget]
    by_cases hsuffix : source <:+ other
    · rw [if_pos hsuffix]
      by_cases hother : other = source
      · rw [if_pos hother]
      · have htarget' : other ≠ name :: parent := by
          rintro rfl
          rcases List.suffix_cons_iff.mp hsuffix with heq | habove
          · exact hother heq.symm
          · exact hoff hparent habove
        rw [if_neg hother, if_neg htarget', hbelow hsuffix hother]
    · have hother : other ≠ source := by
        rintro rfl
        exact hsuffix List.suffix_rfl
      rw [if_neg hsuffix, if_neg hother]
  have hdir : ∀ {other : Path}, disk.tree.isDir other = true →
      ((disk.tree.putFile (name :: parent) content mtime).delete source).isDir other = true := by
    intro other hother
    have hsource' : other ≠ source := fun heq => by simp [heq, hnotDir] at hother
    have htarget' : other ≠ name :: parent := fun heq => by simp [heq, htarget] at hother
    rw [FileTree.isDir, hnode, if_neg hsource', if_neg htarget']
    exact hother
  obtain ⟨last, outer, rfl⟩ := List.exists_cons_of_ne_nil hsource
  have hsome : (disk.tree.node (last :: outer)).isSome = true := by
    rw [hfile]
    rfl
  have houter := disk.tree.isDir_parent hsome
  unfold move
  simp only [hfile, tree_change, List.tail_cons]
  rw [FileTree.shape_retime_of_isDir, FileTree.shape_retime_of_isDir _ (hdir houter),
    FileTree.shape, hnode]
  · by_cases hother : other = last :: outer
    · simp [hother]
    · by_cases htarget' : other = name :: parent
      · simp [htarget', FileTree.Shape.ofNode, hne.symm]
      · simp [hother, htarget', FileTree.shape]
  · rw [FileTree.isDir_retime]
    exact hdir hparent

/-- Only the two directories and the two names are touched. -/
theorem node_move {source : Path} {content : List Byte} {mtime : Int} (hsource : source ≠ [])
    (hfile : disk.tree.node source = some (.file content mtime)) (hname : PlainName name)
    (hparent : disk.tree.isDir parent = true)
    (htarget : disk.tree.isDir (name :: parent) = false) {other : Path}
    (hother : other ≠ source.tail ∧ other ≠ parent ∧ other ≠ name :: parent ∧
      ¬ source <:+ other) :
    (disk.move source (name :: parent)).tree.node other = disk.tree.node other := by
  unfold move
  simp only [hfile, tree_change, List.tail_cons]
  rw [FileTree.node_retime_of_ne _ hother.2.1, FileTree.node_retime_of_ne _ hother.1,
    FileTree.node_delete _ hsource, if_neg hother.2.2.2,
    FileTree.node_putFile _ _ _ hname hparent htarget, if_neg hother.2.2.1]

theorem node_setTime {path other : Path} (hother : other ≠ path) (mtime : Int) :
    (disk.setTime path mtime).tree.node other = disk.tree.node other :=
  FileTree.node_retime_of_ne _ hother mtime

theorem shape_setTime_of_isDir {path : Path} (hdir : disk.tree.isDir path = true) (mtime : Int)
    (other : Path) : (disk.setTime path mtime).tree.shape other = disk.tree.shape other :=
  FileTree.shape_retime_of_isDir _ hdir mtime other

end Effects

end Disk

/-! ## The calls -/

namespace SystemCall

open Procedure

/-- Where a text leads, or the failure of the call that was given it. -/
def locate (text : Text) : SystemCall Path := do
  let path ← read fun disk => disk.tree.resolve text
  orRaise .noEntry path

/-- Makes the directories that are missing on the way from a directory, up to
the first name that no object can have. -/
def makeWay : Path → List Text → SystemCall Unit
  | _, [] => pure ()
  | current, name :: rest =>
      if name = [] ∨ name = dot then makeWay current rest
      else if name = dotDot then makeWay current.tail rest
      else do
        let node ← read fun disk => disk.tree.node (name :: current)
        match node with
        | none =>
            if nameMax < byteLength name then raise .nameTooLong
            else do
              modify (Disk.makeDir (name :: current))
              makeWay (name :: current) rest
        | some (.dir _) => makeWay (name :: current) rest
        | some (.file ..) => raise .notDirectory

/-- `std::filesystem::create_directories` -/
def createDirectories (text : Text) : SystemCall Unit :=
  if cString text = [] then raise .invalid
  else if pathMax ≤ byteLength (cString text) then raise .nameTooLong
  else makeWay [] (components text)

/-- Opens a file for writing from its start; there is no stream when the file
cannot be made. -/
def openTruncated (text : Text) : SystemCall (Option Path) := do
  let path ← read fun disk => disk.tree.resolve text
  match path with
  | none => pure none
  | some path => do
      let isDir ← read fun disk => disk.tree.isDir path
      if isDir ∨ ¬ PathFits text then pure none
      else do
        modify (Disk.writeFile path [])
        pure (some path)

/-- Writes at the end of an open file. -/
def append (path : Path) (data : List Byte) : SystemCall Unit :=
  modify fun disk =>
    match disk.tree.node path with
    | some (.file content _) => disk.writeFile path (content ++ data)
    | _ => disk

/-- `std::filesystem::rename` of a regular file. -/
def rename (source target : Text) : SystemCall Unit := do
  let source ← locate source
  let place ← locate target
  let node ← read fun disk => disk.tree.node source
  match node with
  | none => raise .noEntry
  | some (.dir _) => raise .isDirectory
  | some (.file ..) => do
      let isDir ← read fun disk => disk.tree.isDir place
      if ¬ PathFits target then raise .nameTooLong
      else if isDir then raise .isDirectory
      else if source = place then pure ()
      else modify (Disk.move source place)

/-- The last component that is not empty: `rmdir` refuses a dot. -/
def lastName (text : Text) : Option Text :=
  ((components text).filter fun name => name ≠ []).getLast?

/-- `std::filesystem::remove`; false when there was nothing to remove. -/
def remove (text : Text) : SystemCall Bool := do
  let path ← read fun disk => disk.tree.resolve text
  match path with
  | none => pure false
  | some path => do
      let node ← read fun disk => disk.tree.node path
      match node with
      | none => pure false
      | some (.file ..) => do
          modify (Disk.unlink path)
          pure true
      | some (.dir _) => do
          let occupants ← read fun disk => disk.tree.below path
          if path = [] then raise .busy
          else if occupants ≠ [] then raise .notEmpty
          else if lastName text = some dot then raise .invalid
          else do
            modify (Disk.unlink path)
            pure true

/-- `std::filesystem::remove_all`; the number of the objects removed.  The
content of a directory goes first, so a directory named by a dot loses its
content before the call fails, and one named by a dot-dot is out of reach once
its content is gone. -/
def removeAll (text : Text) : SystemCall Nat := do
  let path ← read fun disk => disk.tree.resolve text
  match path with
  | none => pure 0
  | some path => do
      let node ← read fun disk => disk.tree.node path
      match node with
      | none => pure 0
      | some (.file ..) => do
          modify (Disk.unlink path)
          pure 1
      | some (.dir _) => do
          let occupants ← read fun disk => disk.tree.below path
          if lastName text = some dotDot then do
            modify (Disk.clear path)
            pure occupants.length
          else if lastName text = some dot then do
            modify (Disk.clear path)
            raise .invalid
          else if path = [] then do
            modify (Disk.clear path)
            raise .busy
          else do
            modify (Disk.unlink path)
            pure (occupants.length + 1)

/-- `utime`: the access time, which nothing reads, is left out. -/
def setTime (text : Text) (mtime : Int) : SystemCall Unit := do
  let path ← locate text
  let node ← read fun disk => disk.tree.node path
  match node with
  | none => raise .noEntry
  | some _ => modify (Disk.setTime path mtime)

/-- The texts of the objects below a directory that was given as a text. -/
def listing (text : Text) (path : Path) (tree : FileTree) : List Text :=
  (tree.below path).map fun other =>
    (other.take (other.length - path.length)).foldr (fun name outer => join outer name) text

/-- `std::filesystem::recursive_directory_iterator` -/
def listBelow (text : Text) : SystemCall (List Text) := do
  let path ← locate text
  let isDir ← read fun disk => disk.tree.isDir path
  if isDir then read fun disk => listing text path disk.tree
  else raise .notDirectory

end SystemCall

end PdsBackup
