import Mathlib.Data.List.TakeDrop
import PdsBackup.Common.DirectoryEntry

/-!
# Refreshing an entry

`updateValues` reads the attributes of an entry again.  Unlike the constructor it
hashes only the blocks that `read` fills, and it sets the hash of a file only.
-/

namespace PdsBackup

/-- The blocks at the beginning of a file that `read` fills. -/
def wholeBlocks (size : Nat) (content : List Byte) : List Byte :=
  content.take (size * (content.length / size))

theorem wholeBlocks_eq_self_iff (size : Nat) (content : List Byte) :
    wholeBlocks size content = content ↔ size ∣ content.length := by
  rw [wholeBlocks, List.take_eq_self_iff, ← Nat.mul_div_eq_iff_dvd]
  have hle := Nat.mul_div_le content.length size
  omega

theorem flatten_dropLast_blocks {size : Nat} (hsize : 0 < size) (content : List Byte) :
    (blocks size content).dropLast.flatten = wholeBlocks size content := by
  fun_induction blocks size content with
  | case1 content hzero => omega
  | case2 content hzero hfull ih =>
      have hdiv : content.length / size = (content.length - size) / size + 1 :=
        Nat.div_eq_sub_div hsize hfull
      rw [List.dropLast_cons_of_ne_nil (blocks_ne_nil size _), List.flatten_cons, ih, wholeBlocks,
        wholeBlocks, hdiv, List.length_drop, Nat.mul_add, Nat.mul_one, Nat.add_comm, List.take_add]
  | case3 content hzero hfull =>
      simp [wholeBlocks, Nat.div_eq_of_lt (Nat.lt_of_not_le hfull)]

namespace DirectoryEntry

/-- The hash of `updateValues`: its loop ends before the block that `read` could not
fill. -/
def rehashFile (sha256 : List Byte → Hash) (content : List Byte) : Hash :=
  ((blocks 1024 content).dropLast.foldl HashMaker.update {}).get sha256

theorem rehashFile_eq (sha256 : List Byte → Hash) (content : List Byte) :
    rehashFile sha256 content = sha256 (wholeBlocks 1024 content) := by
  rw [rehashFile, HashMaker.get, foldl_update, flatten_dropLast_blocks (by decide)]
  rfl

/-- `updateValues`; `none` is the `runtime_error` where nothing exists. -/
def updateValues (platform : Platform) (entry : DirectoryEntry) (tree : FileTree) :
    Option DirectoryEntry := do
  let node ← tree.status entry.absolutePath
  some
    { entry with
      size := match node with
        | .file content _ => content.length
        | .dir _ => 0
      type := .ofNode node
      lastWriteTime := platform.putTime node.mtime
      hash := match node with
        | .file content _ => rehashFile platform.sha256 content
        | .dir _ => entry.hash }

/-- Two readings of the attributes of one object agree. -/
structure SameReading (entry other : DirectoryEntry) : Prop where
  size : entry.size = other.size
  type : entry.type = other.type
  lastWriteTime : entry.lastWriteTime = other.lastWriteTime
  hash : entry.hash = other.hash

/-- No block of a file is left unfilled, and no hash is left to a directory. -/
def Refreshable (entry : DirectoryEntry) : Node → Prop
  | .file content _ => 1024 ∣ content.length
  | .dir _ => entry.hash = .zero

variable {platform : Platform} {entry fresh : DirectoryEntry} {basePath : Text}
variable {tree : FileTree} {node : Node}

/-- The constructor hashes the whole content, and `updateValues` reads what the
constructor reads, exactly when the entry is refreshable.  SHA-256 is only asked to
tell a file from its whole blocks. -/
theorem readings_agree_iff (hnode : tree.status entry.absolutePath = some node)
    (hload : load platform basePath entry.absolutePath tree = some fresh)
    (hdistinct : ∀ content mtime, node = .file content mtime →
      platform.sha256 (wholeBlocks 1024 content) = platform.sha256 content →
        wholeBlocks 1024 content = content) :
    ((∀ content mtime, node = .file content mtime → fresh.hash = platform.sha256 content) ∧
      ∃ updated, updateValues platform entry tree = some updated ∧
        SameReading updated fresh) ↔ Refreshable entry node := by
  obtain ⟨-, -, node', hnode', hfresh⟩ := load_eq_some hload
  rw [hnode, Option.some.injEq] at hnode'
  subst hnode'
  cases node with
  | file content mtime =>
      have hupdate : updateValues platform entry tree = some
          { entry with
            size := content.length
            type := .file
            lastWriteTime := platform.putTime mtime
            hash := platform.sha256 (wholeBlocks 1024 content) } := by
        rw [updateValues, hnode, ← rehashFile_eq platform.sha256 content]
        rfl
      rw [hupdate, Refreshable, ← wholeBlocks_eq_self_iff]
      constructor
      · rintro ⟨-, updated, hupdated, hsame⟩
        obtain rfl := Option.some.inj hupdated
        have hhash := hsame.hash.trans hfresh.hash
        exact hdistinct content mtime rfl hhash
      · intro hwhole
        have hhash : fresh.hash = platform.sha256 content := hfresh.hash
        refine ⟨?_, _, rfl, hfresh.size.symm, hfresh.type.symm, hfresh.lastWriteTime.symm, ?_⟩
        · intro other time heq
          rw [Node.file.injEq] at heq
          rw [hhash, heq.1]
        · rw [hhash, hwhole]
  | dir mtime =>
      have hupdate : updateValues platform entry tree = some
          { entry with
            size := 0
            type := .directory
            lastWriteTime := platform.putTime mtime } := by
        rw [updateValues, hnode]
        rfl
      have hhash : fresh.hash = .zero := hfresh.hash
      rw [hupdate, Refreshable]
      constructor
      · rintro ⟨-, updated, hupdated, hsame⟩
        obtain rfl := Option.some.inj hupdated
        exact hsame.hash.trans hhash
      · intro hzero
        refine ⟨fun _ _ heq => Node.noConfusion heq, _, rfl, hfresh.size.symm, hfresh.type.symm,
          hfresh.lastWriteTime.symm, ?_⟩
        rw [hhash, hzero]

/-! ## A file of one byte -/

/-- The libraries on the empty file and on the file of one letter `a`, at the first
second of 1970. -/
def letterPlatform : Platform where
  sha256 content :=
    if content = [] then ⟨emptyDigest, emptyDigest_length⟩ else ⟨letterDigest, letterDigest_length⟩
  putTime _ := "Thursday, 01 January 1970 01:00 UTC".toList
  getTime _ := 0

def letterEntry : DirectoryEntry where
  relativePath := "/f".toList
  absolutePath := "/home/f".toList
  size := 1
  type := .file
  lastWriteTime := letterPlatform.putTime 0
  hash := letterPlatform.sha256 [0x61]

def letterTree : FileTree :=
  ((FileTree.bare 0).putDir ["home".toList] 0).putFile ["f".toList, "home".toList] [0x61] 0

/-- The file of the entry has become a directory. -/
def turnedTree : FileTree :=
  ((FileTree.bare 0).putDir ["home".toList] 0).putDir ["f".toList, "home".toList] 0

theorem readings_agree_letter :
    ((∀ content mtime, Node.file [0x61] 0 = .file content mtime →
        letterEntry.hash = letterPlatform.sha256 content) ∧
      ∃ updated, updateValues letterPlatform letterEntry letterTree = some updated ∧
        SameReading updated letterEntry) ↔ Refreshable letterEntry (.file [0x61] 0) :=
  @readings_agree_iff _ _ _ "/home".toList _ _ (by decide) (by decide +kernel) (by
    intro content mtime heq hsame
    rw [Node.file.injEq] at heq
    rw [← heq.1] at hsame
    exact absurd hsame (by decide))

/-- A file that does not fill its last block gets another hash when it is refreshed,
and a file that became a directory keeps its hash. -/
theorem not_readings_agree :
    (do
      let updated ← updateValues letterPlatform letterEntry letterTree
      let fresh ← load letterPlatform "/home".toList letterEntry.absolutePath letterTree
      pure (decide (updated.hash = fresh.hash))) = some false ∧
    (do
      let updated ← updateValues letterPlatform letterEntry turnedTree
      let fresh ← load letterPlatform "/home".toList letterEntry.absolutePath turnedTree
      pure (decide (updated.hash = fresh.hash))) = some false := by
  decide +kernel

end DirectoryEntry

end PdsBackup
