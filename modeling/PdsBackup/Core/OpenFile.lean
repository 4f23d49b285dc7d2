import PdsBackup.Core.Disk

/-!
# Files that are written

A file that is opened for writing, and then grows block by block at its end.
-/

namespace PdsBackup

/-- A regular file with this content is there. -/
def FileTree.Holds (tree : FileTree) (path : Path) (content : List Byte) : Prop :=
  ∃ mtime, tree.node path = some (.file content mtime)

namespace FileTree.Holds

variable {disk : Disk} {tree : FileTree} {name : Text} {parent path : Path}
variable {content : List Byte}

theorem isSome (hholds : tree.Holds path content) : (tree.node path).isSome = true := by
  obtain ⟨mtime, hfile⟩ := hholds
  simp [hfile]

theorem not_isDir (hholds : tree.Holds path content) : tree.isDir path = false := by
  obtain ⟨mtime, hfile⟩ := hholds
  simp [FileTree.isDir, hfile]

theorem writeFile (hname : PlainName name) (hparent : disk.tree.isDir parent = true)
    (hfile : disk.tree.isDir (name :: parent) = false) (content : List Byte) :
    (disk.writeFile (name :: parent) content).tree.Holds (name :: parent) content := by
  have hshape := disk.shape_writeFile hname hparent hfile content (name :: parent)
  rw [if_pos rfl, FileTree.shape_file_iff] at hshape
  exact ⟨_, hshape⟩

theorem setTime (hholds : disk.tree.Holds path content) (mtime : Int) :
    (disk.setTime path mtime).tree.node path = some (.file content mtime) := by
  obtain ⟨old, hfile⟩ := hholds
  simp [Disk.setTime, FileTree.node_retime, hfile, Node.retime]

end FileTree.Holds

/-- Since a state of the tree, a file was written; the directories are the same. -/
structure Grown (start : FileTree) (path : Path) (content : List Byte) (tree : FileTree) :
    Prop where
  holds : tree.Holds path content
  isDir : ∀ other, tree.isDir other = start.isDir other

namespace Grown

variable {start : FileTree} {disk : Disk} {path : Path} {content : List Byte}

theorem writeFile {name : Text} {parent : Path} (hname : PlainName name)
    (hparent : disk.tree.isDir parent = true) (hfile : disk.tree.isDir (name :: parent) = false)
    (content : List Byte) :
    Grown disk.tree (name :: parent) content (disk.writeFile (name :: parent) content).tree where
  holds := FileTree.Holds.writeFile hname hparent hfile content
  isDir other := by
    have hshape := disk.shape_writeFile hname hparent hfile content other
    apply Bool.eq_iff_iff.mpr
    rw [FileTree.isDir_iff_shape, FileTree.isDir_iff_shape, hshape]
    by_cases hother : other = name :: parent
    · rw [if_pos hother, hother]
      simp [← FileTree.isDir_iff_shape, hfile]
    · rw [if_neg hother]

/-- A block is written at the end of the file. -/
theorem append (h : Grown start path content disk.tree) (data : List Byte) :
    ∃ disk', SystemCall.append path data disk = .returned () disk' ∧
      Grown start path (content ++ data) disk'.tree := by
  obtain ⟨mtime, hnode⟩ := h.holds
  have hnotDir := h.holds.not_isDir
  cases path with
  | nil => simp [disk.tree.isDir_root] at hnotDir
  | cons name parent =>
      have hname := disk.tree.plain_name name parent h.holds.isSome
      have hparent := disk.tree.isDir_parent h.holds.isSome
      have hgrown := Grown.writeFile hname hparent hnotDir (content ++ data)
      refine ⟨disk.writeFile (name :: parent) (content ++ data), ?_, hgrown.holds, ?_⟩
      · simp [SystemCall.append, hnode]
      · intro other
        rw [hgrown.isDir, h.isDir]

/-- A text that led to the file still does. -/
theorem status_of_resolve (h : Grown start path content disk.tree) {text : Text}
    (hresolve : start.resolve text = some path) :
    ∃ mtime, disk.tree.status text = some (.file content mtime) := by
  obtain ⟨mtime, hnode⟩ := h.holds
  refine ⟨mtime, ?_⟩
  rw [FileTree.status, FileTree.resolve_congr h.isDir, hresolve]
  exact hnode

end Grown

/-- A file is opened empty, or it is not opened. -/
theorem SystemCall.openTruncated_cases (text : Text) (disk : Disk) :
    SystemCall.openTruncated text disk = .returned none disk ∨
      ∃ path disk', SystemCall.openTruncated text disk = .returned (some path) disk' ∧
        disk.tree.resolve text = some path ∧ Grown disk.tree path [] disk'.tree := by
  cases hresolve : disk.tree.resolve text with
  | none => exact .inl (by simp [openTruncated, hresolve])
  | some path =>
      cases hdir : disk.tree.isDir path with
      | true => exact .inl (by simp [openTruncated, hresolve, hdir])
      | false =>
          cases path with
          | nil => simp [disk.tree.isDir_root] at hdir
          | cons name parent =>
              have hplace := disk.tree.place_of_resolve hresolve
              by_cases hfits : PathFits text
              · refine .inr ⟨name :: parent, disk.writeFile (name :: parent) [], ?_, rfl, ?_⟩
                · simp [openTruncated, hresolve, hdir, hfits]
                · exact Grown.writeFile hplace.1 hplace.2 hdir []
              · exact .inl (by simp [openTruncated, hresolve, hfits])

end PdsBackup
