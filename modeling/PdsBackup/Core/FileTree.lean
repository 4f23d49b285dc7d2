import Mathlib.Algebra.Group.Nat.Defs
import PdsBackup.Core.KeyedMap
import PdsBackup.Core.Regex

/-!
# Trees of files and directories

A file system without links: a finite map from paths to files and directories
in which whatever has a name is named in a directory, by a name that can stand
between slashes.  A path lists the names from the object up to the root, so that
the tail of a path is its directory and the objects below a directory are those
whose path it is a suffix of.

Three operations change a tree, each by its effect on the map: a time is set, an
object is put in a directory, and an object is deleted with all below it.
-/

namespace PdsBackup

abbrev Byte := Fin 256

instance byteSize_neZero : @NeZero Nat Zero.ofOfNat0 256 := ⟨by decide⟩

/-- The names from the object up to the root. -/
abbrev Path := List Text

theorem cons_not_suffix_self (name : Text) (path : Path) : ¬ name :: path <:+ path := fun h => by
  have hlength := h.length_le
  rw [List.length_cons] at hlength
  omega

/-- The character that ends a C string. -/
def nul : Char := Char.ofNat 0

def dot : Text := ['.']

def dotDot : Text := ['.', '.']

/-- A name an object can have. -/
def PlainName (name : Text) : Prop :=
  name ≠ [] ∧ name ≠ dot ∧ name ≠ dotDot ∧ '/' ∉ name ∧ nul ∉ name

instance (name : Text) : Decidable (PlainName name) :=
  inferInstanceAs (Decidable (_ ∧ _ ∧ _ ∧ _ ∧ _))

inductive Node where
  | file (content : List Byte) (mtime : Int)
  | dir (mtime : Int)
  deriving DecidableEq

namespace Node

def isDir : Node → Bool
  | .file .. => false
  | .dir _ => true

def mtime : Node → Int
  | .file _ mtime => mtime
  | .dir mtime => mtime

def retime (mtime : Int) : Node → Node
  | .file content _ => .file content mtime
  | .dir _ => .dir mtime

@[simp] theorem isDir_file (content : List Byte) (mtime : Int) :
    (Node.file content mtime).isDir = false := rfl

@[simp] theorem isDir_dir (mtime : Int) : (Node.dir mtime).isDir = true := rfl

@[simp] theorem isDir_retime (mtime : Int) (node : Node) :
    (node.retime mtime).isDir = node.isDir := by
  cases node <;> rfl

end Node

structure FileTree where
  nodes : KeyedMap Path Node
  root_isDir : (nodes.lookup []).any Node.isDir = true
  parent_isDir : ∀ name path, (nodes.lookup (name :: path)).isSome = true →
    (nodes.lookup path).any Node.isDir = true
  plain_name : ∀ name path, (nodes.lookup (name :: path)).isSome = true → PlainName name

namespace FileTree

variable (tree : FileTree)

def node (path : Path) : Option Node := tree.nodes.lookup path

def isDir (path : Path) : Bool := (tree.node path).any Node.isDir

/-- The tree that holds nothing but its root. -/
def bare (mtime : Int) : FileTree where
  nodes := AList.singleton [] (.dir mtime)
  root_isDir := by simp [KeyedMap.lookup_singleton]
  parent_isDir := by simp [KeyedMap.lookup_singleton]
  plain_name := by simp [KeyedMap.lookup_singleton]

@[simp] theorem node_bare (mtime : Int) (path : Path) :
    (bare mtime).node path = if path = [] then some (.dir mtime) else none := by
  rw [node, bare, KeyedMap.lookup_singleton]

theorem isDir_root : tree.isDir [] = true := tree.root_isDir

theorem isDir_iff (path : Path) :
    tree.isDir path = true ↔ ∃ mtime, tree.node path = some (.dir mtime) := by
  unfold isDir
  cases hnode : tree.node path with
  | none => simp
  | some node => cases node <;> simp

theorem isDir_parent {name : Text} {path : Path}
    (hnode : (tree.node (name :: path)).isSome = true) : tree.isDir path = true :=
  tree.parent_isDir name path hnode

theorem isSome_of_isDir {path : Path} (hdir : tree.isDir path = true) :
    (tree.node path).isSome = true := by
  obtain ⟨mtime, hnode⟩ := (tree.isDir_iff path).mp hdir
  simp [hnode]

/-- Whatever exists is reached through directories. -/
theorem isDir_of_below {path : Path} {name : Text} {names : List Text}
    (hnode : (tree.node (names ++ name :: path)).isSome = true) : tree.isDir path = true := by
  induction names with
  | nil => exact tree.isDir_parent hnode
  | cons last names ih => exact ih (tree.isSome_of_isDir (tree.isDir_parent hnode))

/-- There is nothing below a file or a missing object. -/
theorem node_below_of_not_isDir {path other : Path} (hdir : tree.isDir path = false)
    (hsuffix : path <:+ other) (hne : other ≠ path) : tree.node other = none := by
  obtain ⟨names, rfl⟩ := hsuffix
  rcases List.eq_nil_or_concat names with rfl | ⟨above, name, rfl⟩
  · exact absurd rfl hne
  · rw [List.concat_eq_append, List.append_assoc, List.singleton_append]
    by_contra hnode
    have habove := tree.isDir_of_below (Option.isSome_iff_ne_none.mpr hnode)
    simp [hdir] at habove

theorem isDir_of_suffix {path below : Path} (hsuffix : path <:+ below)
    (hdir : tree.isDir below = true) : tree.isDir path = true := by
  by_contra hnotDir
  rw [Bool.not_eq_true] at hnotDir
  have hne : below ≠ path := fun heq => by simp [← heq, hdir] at hnotDir
  have hnone := tree.node_below_of_not_isDir hnotDir hsuffix hne
  simp [isDir, hnone] at hdir

theorem isSome_of_suffix {path below : Path} (hsuffix : path <:+ below)
    (hnode : (tree.node below).isSome = true) : (tree.node path).isSome = true := by
  obtain ⟨names, rfl⟩ := hsuffix
  rcases List.eq_nil_or_concat names with rfl | ⟨above, name, rfl⟩
  · exact hnode
  · rw [List.concat_eq_append, List.append_assoc] at hnode
    exact tree.isSome_of_isDir (tree.isDir_of_below hnode)

/-- Every path that leads to an object has plain names only. -/
theorem plain_of_isSome {path : Path} (hnode : (tree.node path).isSome = true) :
    ∀ name ∈ path, PlainName name := by
  induction path with
  | nil => simp
  | cons name parent ih =>
      intro other hother
      rcases List.mem_cons.mp hother with rfl | hother
      · exact tree.plain_name other parent hnode
      · exact ih (tree.isSome_of_isDir (tree.isDir_parent hnode)) other hother

/-! ## Changing a tree -/

/-- Sets the modification time of an object, if there is one. -/
def retime (path : Path) (mtime : Int) : FileTree :=
  match hnode : tree.nodes.lookup path with
  | none => tree
  | some node =>
      { nodes := tree.nodes.insert path (node.retime mtime)
        root_isDir := by
          rw [KeyedMap.lookup_insert]
          by_cases hroot : [] = path
          · have hdir := tree.root_isDir
            rw [hroot, hnode] at hdir
            simpa [hroot] using hdir
          · rw [if_neg hroot]
            exact tree.root_isDir
        parent_isDir := by
          intro name parent hchild
          rw [KeyedMap.lookup_insert] at hchild ⊢
          have hold : (tree.nodes.lookup (name :: parent)).isSome = true := by
            by_cases hsame : name :: parent = path
            · rw [hsame, hnode]
              rfl
            · rwa [if_neg hsame] at hchild
          have hdir := tree.parent_isDir name parent hold
          by_cases hparent : parent = path
          · rw [hparent, hnode] at hdir
            simpa [hparent] using hdir
          · rwa [if_neg hparent]
        plain_name := by
          intro name parent hchild
          refine tree.plain_name name parent ?_
          rw [KeyedMap.lookup_insert] at hchild
          by_cases hsame : name :: parent = path
          · rw [hsame, hnode]
            rfl
          · rwa [if_neg hsame] at hchild }

theorem node_retime (path other : Path) (mtime : Int) :
    (tree.retime path mtime).node other =
      if other = path then (tree.node path).map (Node.retime mtime) else tree.node other := by
  unfold retime node
  split
  · rename_i hnone
    by_cases hother : other = path
    · rw [if_pos hother, hother, hnone]
      rfl
    · rw [if_neg hother]
  · rename_i present hpresent
    rw [KeyedMap.lookup_insert, hpresent]
    rfl

/-- Puts an object under a name in a directory, in place of what has that name.
A directory is replaced by a directory only: what is below it keeps its place. -/
def put (name : Text) (parent : Path) (node : Node) (hname : PlainName name)
    (hparent : tree.isDir parent = true)
    (hkind : tree.isDir (name :: parent) = true → node.isDir = true) : FileTree where
  nodes := tree.nodes.insert (name :: parent) node
  root_isDir := by
    rw [KeyedMap.lookup_insert, if_neg (by simp)]
    exact tree.root_isDir
  parent_isDir := by
    intro child path hchild
    rw [KeyedMap.lookup_insert] at hchild ⊢
    by_cases hsame : child :: path = name :: parent
    · have hpath : path = parent := (List.cons.inj hsame).2
      rw [hpath, if_neg (List.cons_ne_self name parent).symm]
      exact hparent
    · rw [if_neg hsame] at hchild
      have hdir := tree.parent_isDir child path hchild
      by_cases hpath : path = name :: parent
      · rw [if_pos hpath]
        rw [hpath] at hdir
        simpa using hkind hdir
      · rwa [if_neg hpath]
  plain_name := by
    intro child path hchild
    rw [KeyedMap.lookup_insert] at hchild
    by_cases hsame : child :: path = name :: parent
    · rw [(List.cons.inj hsame).1]
      exact hname
    · rw [if_neg hsame] at hchild
      exact tree.plain_name child path hchild

@[simp] theorem node_put (name : Text) (parent other : Path) (node : Node)
    (hname : PlainName name) (hparent : tree.isDir parent = true)
    (hkind : tree.isDir (name :: parent) = true → node.isDir = true) :
    (tree.put name parent node hname hparent hkind).node other =
      if other = name :: parent then some node else tree.node other :=
  KeyedMap.lookup_insert tree.nodes (name :: parent) other node

/-- Writes a regular file; nothing happens where there is no directory to hold
it or a directory has its name. -/
def putFile (path : Path) (content : List Byte) (mtime : Int) : FileTree :=
  match path with
  | [] => tree
  | name :: parent =>
      if h : PlainName name ∧ tree.isDir parent = true ∧ tree.isDir (name :: parent) = false then
        tree.put name parent (.file content mtime) h.1 h.2.1 (by simp [h.2.2])
      else tree

theorem node_putFile {name : Text} {parent : Path} (content : List Byte) (mtime : Int)
    (hname : PlainName name) (hparent : tree.isDir parent = true) (htarget : tree.isDir (name :: parent) = false)
    (other : Path) :
    (tree.putFile (name :: parent) content mtime).node other =
      if other = name :: parent then some (.file content mtime) else tree.node other := by
  rw [putFile, dif_pos ⟨hname, hparent, htarget⟩]
  exact tree.node_put name parent other _ hname hparent _

/-- Makes a directory where nothing has its name. -/
def putDir (path : Path) (mtime : Int) : FileTree :=
  match path with
  | [] => tree
  | name :: parent =>
      if h : PlainName name ∧ tree.isDir parent = true ∧
          (tree.node (name :: parent)).isNone = true then
        tree.put name parent (.dir mtime) h.1 h.2.1 (by simp)
      else tree

theorem node_putDir {name : Text} {parent : Path} (mtime : Int)
    (hname : PlainName name) (hparent : tree.isDir parent = true) (htarget : tree.node (name :: parent) = none)
    (other : Path) :
    (tree.putDir (name :: parent) mtime).node other =
      if other = name :: parent then some (.dir mtime) else tree.node other := by
  rw [putDir, dif_pos ⟨hname, hparent, by simp [htarget]⟩]
  exact tree.node_put name parent other _ hname hparent _

/-- Removes an object and all below it.  The root stays. -/
def delete (path : Path) : FileTree :=
  if hroot : path = [] then tree
  else
    { nodes := tree.nodes.keepKeys fun other => !decide (path <:+ other)
      root_isDir := by
        rw [KeyedMap.lookup_keepKeys]
        simpa [hroot] using tree.root_isDir
      parent_isDir := by
        intro name parent hchild
        rw [KeyedMap.lookup_keepKeys] at hchild ⊢
        by_cases hbelow : path <:+ name :: parent
        · simp [hbelow] at hchild
        · have hparent : ¬ path <:+ parent := fun hsuffix =>
            hbelow (hsuffix.trans (List.suffix_cons name parent))
          simp only [hbelow, decide_false, Bool.not_false, if_true] at hchild
          simpa [hparent] using tree.parent_isDir name parent hchild
      plain_name := by
        intro name parent hchild
        rw [KeyedMap.lookup_keepKeys] at hchild
        by_cases hbelow : path <:+ name :: parent
        · simp [hbelow] at hchild
        · simp only [hbelow, decide_false, Bool.not_false, if_true] at hchild
          exact tree.plain_name name parent hchild }

theorem node_delete {path : Path} (hroot : path ≠ []) (other : Path) :
    (tree.delete path).node other = if path <:+ other then none else tree.node other := by
  rw [delete, dif_neg hroot, node, KeyedMap.lookup_keepKeys]
  by_cases hbelow : path <:+ other <;> simp [hbelow, node]

/-- The objects strictly below a directory, in the order they are listed in. -/
def below (path : Path) : List Path :=
  tree.nodes.keys.filter fun other => decide (path <:+ other) && decide (other ≠ path)

theorem mem_below (path other : Path) :
    other ∈ tree.below path ↔
      path <:+ other ∧ other ≠ path ∧ (tree.node other).isSome = true := by
  rw [below, List.mem_filter, KeyedMap.mem_keys_iff]
  simp only [Bool.and_eq_true, decide_eq_true_eq, node]
  tauto

/-! ## The kind of an object -/

@[simp] theorem isDir_retime (path other : Path) (mtime : Int) :
    (tree.retime path mtime).isDir other = tree.isDir other := by
  unfold isDir
  rw [node_retime]
  by_cases hother : other = path
  · subst hother
    cases hnode : tree.node other <;> simp
  · rw [if_neg hother]

theorem isSome_node_retime (path other : Path) (mtime : Int) :
    ((tree.retime path mtime).node other).isSome = (tree.node other).isSome := by
  rw [node_retime]
  by_cases hother : other = path
  · subst hother
    simp
  · rw [if_neg hother]

theorem node_retime_of_ne {path other : Path} (hother : other ≠ path) (mtime : Int) :
    (tree.retime path mtime).node other = tree.node other := by
  rw [node_retime, if_neg hother]

theorem isDir_putFile_of_ne {path other : Path} (hother : other ≠ path) (content : List Byte)
    (mtime : Int) : (tree.putFile path content mtime).isDir other = tree.isDir other := by
  cases path with
  | nil => rfl
  | cons name parent =>
      by_cases hput : PlainName name ∧ tree.isDir parent = true ∧ tree.isDir (name :: parent) = false
      · rw [isDir, tree.node_putFile content mtime hput.1 hput.2.1 hput.2.2, if_neg hother, isDir]
      · rw [putFile, dif_neg hput]

theorem isDir_delete_of_not_suffix {path other : Path} (hother : ¬ path <:+ other) :
    (tree.delete path).isDir other = tree.isDir other := by
  by_cases hroot : path = []
  · rw [delete, dif_pos hroot]
  · rw [isDir, tree.node_delete hroot, if_neg hother, isDir]

/-! ## The shape of a tree -/

/-- What is at a path, less the time of a directory: making and removing
entries changes that time, and nothing else about the directory. -/
inductive Shape where
  | file (content : List Byte) (mtime : Int)
  | dir
  deriving DecidableEq

def Shape.ofNode : Node → Shape
  | .file content mtime => .file content mtime
  | .dir _ => .dir

def shape (path : Path) : Option Shape := (tree.node path).map Shape.ofNode

theorem isSome_shape (path : Path) : (tree.shape path).isSome = (tree.node path).isSome := by
  simp [shape]

theorem shape_eq_none_iff (path : Path) : tree.shape path = none ↔ tree.node path = none := by
  simp [shape]

theorem isDir_iff_shape (path : Path) : tree.isDir path = true ↔ tree.shape path = some .dir := by
  unfold isDir shape
  cases hnode : tree.node path with
  | none => simp
  | some node => cases node <;> simp [Shape.ofNode]

theorem shape_file_iff (path : Path) (content : List Byte) (mtime : Int) :
    tree.shape path = some (.file content mtime) ↔
      tree.node path = some (.file content mtime) := by
  unfold shape
  cases hnode : tree.node path with
  | none => simp
  | some node => cases node <;> simp [Shape.ofNode]

theorem shape_cases (path : Path) :
    tree.node path = none ∨ (∃ content mtime, tree.node path = some (.file content mtime)) ∨
      tree.isDir path = true := by
  unfold isDir
  cases hnode : tree.node path with
  | none => simp
  | some node => cases node <;> simp

/-- Setting a directory's time changes no shape. -/
theorem shape_retime {path : Path} (hfile : ∀ content mtime, tree.node path ≠
    some (.file content mtime)) (mtime : Int) (other : Path) :
    (tree.retime path mtime).shape other = tree.shape other := by
  unfold shape
  rw [node_retime]
  by_cases hother : other = path
  · subst hother
    rw [if_pos rfl]
    cases hnode : tree.node other with
    | none => rfl
    | some node =>
        cases node with
        | file content old => exact absurd hnode (hfile content old)
        | dir old => rfl
  · rw [if_neg hother]

theorem shape_retime_of_isDir {path : Path} (hdir : tree.isDir path = true) (mtime : Int)
    (other : Path) : (tree.retime path mtime).shape other = tree.shape other := by
  refine tree.shape_retime (fun content old hnode => ?_) mtime other
  simp [isDir, hnode] at hdir

end FileTree

end PdsBackup
