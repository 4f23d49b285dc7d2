import PdsBackup.Core.Disk

/-!
# System calls on written paths

What the calls do when they are given the text of a path: each call then acts at
that path, and fails exactly when an ancestor is missing or is a file, or when
the object there is of the wrong kind.
-/

namespace PdsBackup

namespace SystemCall

open Procedure

variable {disk : Disk} {name : Text} {parent path : Path}

theorem locate_of_resolve {text : Text} (hresolve : disk.tree.resolve text = some path) :
    locate text disk = .returned path disk := by
  simp [locate, hresolve]

theorem locate_render (hpath : PlainPath (name :: parent))
    (hparent : disk.tree.isDir parent = true) :
    locate (render (name :: parent)) disk = .returned (name :: parent) disk :=
  locate_of_resolve (disk.tree.resolve_render_of_isDir hpath hparent)

/-! ## Making directories -/

/-- The directories missing on the way to a path were made, and nothing else
was touched but the times of their parents. -/
structure Made (path : Path) (disk disk' : Disk) : Prop where
  shape : ∀ other, disk'.tree.shape other =
    if other <:+ path ∧ disk.tree.node other = none then some .dir else disk.tree.shape other
  node : ∀ other, ¬ other <:+ path → disk'.tree.node other = disk.tree.node other
  log : ∃ made : List Path, disk'.log = disk.log ++ made.map .created ∧
    ∀ other ∈ made, other <:+ path ∧ disk.tree.node other = none

theorem Made.refl {disk : Disk} (hdir : disk.tree.isDir path = true) : Made path disk disk where
  shape other := by
    have hsome : other <:+ path → disk.tree.node other ≠ none := fun hsuffix hnone => by
      have hother := disk.tree.isSome_of_suffix hsuffix (disk.tree.isSome_of_isDir hdir)
      simp [hnone] at hother
    rw [if_neg fun h => hsome h.1 h.2]
  node _ _ := rfl
  log := ⟨[], by simp⟩

/-- What was there is still there. -/
theorem Made.isSome {disk disk' : Disk} (hmade : Made path disk disk') {other : Path}
    (hsome : (disk.tree.node other).isSome = true) : (disk'.tree.node other).isSome = true := by
  have hne : disk.tree.node other ≠ none := Option.isSome_iff_ne_none.mp hsome
  rw [← FileTree.isSome_shape, hmade.shape, if_neg fun h => hne h.2, FileTree.isSome_shape]
  exact hsome

/-- What was missing is a directory now. -/
theorem Made.isDir_of_missing {disk disk' : Disk} (hmade : Made path disk disk')
    (hnone : disk.tree.node path = none) : disk'.tree.isDir path = true := by
  rw [FileTree.isDir_iff_shape, hmade.shape, if_pos ⟨List.suffix_rfl, hnone⟩]

/-- A file stands in the way of a directory to be made. -/
def Blocked (path : Path) (tree : FileTree) : Prop :=
  ∃ other content mtime, other <:+ path ∧ tree.node other = some (.file content mtime)

theorem not_blocked_of_isDir {tree : FileTree} (hdir : tree.isDir path = true) :
    ¬ Blocked path tree := by
  rintro ⟨other, content, mtime, hsuffix, hfile⟩
  have hother := tree.isDir_of_suffix hsuffix hdir
  simp [FileTree.isDir, hfile] at hother

/-- What is made in a new directory is made on the way to it. -/
theorem Made.of_makeDir {current : Path} {disk' : Disk} (hname : PlainName name)
    (hdir : disk.tree.isDir current = true) (hnone : disk.tree.node (name :: current) = none)
    (hway : name :: current <:+ path)
    (hmade : Made path (disk.makeDir (name :: current)) disk') : Made path disk disk' := by
  have hshape := disk.shape_makeDir hname hdir hnone
  constructor
  · intro other
    rw [hmade.shape, hshape]
    by_cases hother : other = name :: current
    · rw [hother]
      simp [hnone, hway, ← FileTree.shape_eq_none_iff, hshape]
    · simp [← FileTree.shape_eq_none_iff, hshape, hother]
  · intro other hother
    have hnot : other ≠ current := by
      rintro rfl
      exact hother ((List.suffix_cons name other).trans hway)
    have hnot' : other ≠ name :: current := by
      rintro rfl
      exact hother hway
    rw [hmade.node other hother, disk.node_makeDir hname hdir hnone hnot, if_neg hnot']
  · obtain ⟨made, hlog, hall⟩ := hmade.log
    refine ⟨(name :: current) :: made, by simp [hlog, Disk.makeDir], ?_⟩
    intro other hother
    rcases List.mem_cons.mp hother with rfl | hother
    · exact ⟨hway, hnone⟩
    · obtain ⟨hsuffix, hnode⟩ := hall other hother
      rw [← FileTree.shape_eq_none_iff, hshape] at hnode
      refine ⟨hsuffix, ?_⟩
      by_cases heq : other = name :: current
      · simp [heq] at hnode
      · rwa [if_neg heq, FileTree.shape_eq_none_iff] at hnode

theorem makeWay_cons (hname : PlainName name) (current : Path) (rest : List Text) :
    makeWay current (name :: rest) = (do
      let node ← read fun disk => disk.tree.node (name :: current)
      match node with
      | none =>
          if nameMax < byteLength name then raise .nameTooLong
          else do
            modify (Disk.makeDir (name :: current))
            makeWay (name :: current) rest
      | some (.dir _) => makeWay (name :: current) rest
      | some (.file ..) => raise .notDirectory) := by
  have hskip : ¬ (name = [] ∨ name = dot) := by simp [hname.1, hname.2.1]
  exact (if_neg hskip).trans (if_neg hname.2.2.1)

/-- Some of the directories on the way were made, up to a name that is too
long. -/
def Stops (path : Path) (disk disk' : Disk) : Prop :=
  ∃ middle, middle <:+ path ∧ Made middle disk disk'

/-- From a directory the rest of the way is made, or a file stands in it and
nothing is done, or it is made up to a name that is too long. -/
theorem makeWay_plain (rest : List Text) (current : Path) (disk : Disk)
    (hplain : PlainPath rest) (hdir : disk.tree.isDir current = true) :
    (∃ disk', makeWay current rest disk = .returned () disk' ∧
        Made (rest.reverse ++ current) disk disk') ∨
      (makeWay current rest disk = .raised .notDirectory disk ∧
        Blocked (rest.reverse ++ current) disk.tree) ∨
      ∃ disk' middle, makeWay current rest disk = .raised .nameTooLong disk' ∧
        (∃ name ∈ rest, nameMax < byteLength name) ∧ current <:+ middle ∧
        middle <:+ rest.reverse ++ current ∧ Made middle disk disk' := by
  induction rest generalizing current disk with
  | nil => exact .inl ⟨disk, rfl, Made.refl hdir⟩
  | cons name rest ih =>
      have hpath : (name :: rest).reverse ++ current = rest.reverse ++ name :: current := by
        simp
      have hway : name :: current <:+ rest.reverse ++ name :: current := List.suffix_append _ _
      rw [hpath, makeWay_cons hplain.head, read_bind_apply]
      rcases disk.tree.shape_cases (name :: current) with hnone | ⟨content, mtime, hfile⟩ | hsub
      · -- the name is missing, and so is all below it
        have hshape := disk.shape_makeDir hplain.head hdir hnone
        have hsub : (disk.makeDir (name :: current)).tree.isDir (name :: current) = true := by
          rw [FileTree.isDir_iff_shape, hshape, if_pos rfl]
        have hmissing : ∀ other, name :: current <:+ other → disk.tree.node other = none := by
          intro other hsuffix
          by_contra hnode
          have hsome := disk.tree.isSome_of_suffix hsuffix (Option.isSome_iff_ne_none.mpr hnode)
          simp [hnone] at hsome
        by_cases hlong : nameMax < byteLength name
        · refine .inr (.inr ⟨disk, current, ?_, ⟨name, List.mem_cons_self, hlong⟩,
            List.suffix_rfl, (List.suffix_cons name current).trans hway, Made.refl hdir⟩)
          simp [hnone, hlong]
        · simp only [hnone, hlong, if_false, modify_bind_apply]
          rcases ih (name :: current) _ hplain.tail hsub with
            ⟨disk', hrun, hmade⟩ | ⟨hrun, hblocked⟩ |
              ⟨disk', middle, hrun, hname, hbegun, hend, hmade⟩
          · exact .inl ⟨disk', hrun, hmade.of_makeDir hplain.head hdir hnone hway⟩
          · exfalso
            obtain ⟨other, content, mtime, hsuffix, hfile⟩ := hblocked
            rw [← FileTree.shape_file_iff, hshape] at hfile
            by_cases heq : other = name :: current
            · simp [heq] at hfile
            · rw [if_neg heq, FileTree.shape_file_iff] at hfile
              rcases List.suffix_or_suffix_of_suffix hsuffix hway with habove | hbelow
              · rcases List.suffix_cons_iff.mp habove with heq' | habove
                · exact heq heq'
                · have hdirAbove := disk.tree.isDir_of_suffix habove hdir
                  simp [FileTree.isDir, hfile] at hdirAbove
              · simp [hmissing other hbelow] at hfile
          · obtain ⟨long, hmem, hlong'⟩ := hname
            exact .inr (.inr ⟨disk', middle, hrun, ⟨long, List.mem_cons_of_mem name hmem, hlong'⟩,
              (List.suffix_cons name current).trans hbegun, hend,
              hmade.of_makeDir hplain.head hdir hnone hbegun⟩)
      · simp only [hfile]
        exact .inr (.inl ⟨rfl, name :: current, content, mtime, hway, hfile⟩)
      · obtain ⟨mtime, hnode⟩ := (disk.tree.isDir_iff _).mp hsub
        simp only [hnode]
        rcases ih (name :: current) disk hplain.tail hsub with
          hmade | hblocked | ⟨disk', middle, hrun, ⟨long, hmem, hlong⟩, hbegun, hend, hmade⟩
        · exact .inl hmade
        · exact .inr (.inl hblocked)
        · exact .inr (.inr ⟨disk', middle, hrun, ⟨long, List.mem_cons_of_mem name hmem, hlong⟩,
            (List.suffix_cons name current).trans hbegun, hend, hmade⟩)

theorem createDirectories_render (hplain : PlainPath path) (hne : path ≠ []) (disk : Disk) :
    (∃ disk', createDirectories (render path) disk = .returned () disk' ∧ Made path disk disk') ∨
      (createDirectories (render path) disk = .raised .notDirectory disk ∧
        Blocked path disk.tree) ∨
      ∃ disk', createDirectories (render path) disk = .raised .nameTooLong disk' ∧
        ¬ PathFits (render path) ∧ Stops path disk disk' := by
  have htext : cString (render path) ≠ [] := by
    rwa [cString_eq_self (nul_notMem_render hplain), Ne, render_eq_nil_iff]
  have hreverse : PlainPath path.reverse := fun name hname =>
    hplain name (List.mem_reverse.mp hname)
  have hway := makeWay_plain path.reverse [] disk hreverse disk.tree.isDir_root
  rw [List.reverse_reverse, List.append_nil] at hway
  rw [createDirectories, if_neg htext]
  by_cases hlong : pathMax ≤ byteLength (cString (render path))
  · rw [if_pos hlong]
    exact .inr (.inr ⟨disk, rfl, fun hfits => absurd hfits.1 (Nat.not_lt.mpr hlong),
      [], List.nil_suffix, Made.refl disk.tree.isDir_root⟩)
  · rw [if_neg hlong, components_render hplain, makeWay, if_pos (.inl rfl)]
    rcases hway with hmade | hblocked | ⟨disk', middle, hrun, ⟨name, hmem, hname⟩, -, hend, hmade⟩
    · exact .inl hmade
    · exact .inr (.inl hblocked)
    · refine .inr (.inr ⟨disk', hrun, fun hfits => ?_, middle, hend, hmade⟩)
      apply absurd (hfits.2 name _) (Nat.not_le.mpr hname)
      rw [components_render hplain]
      exact List.mem_cons_of_mem _ hmem

/-- On the way nothing changes that was there, but for the directory in which
the first missing name is made. -/
theorem makeWay_node (rest : List Text) (current : Path) (disk : Disk) {disk' : Disk}
    {other : Path} (hplain : PlainPath rest) (hdir : disk.tree.isDir current = true)
    (hrun : makeWay current rest disk = .returned () disk')
    (hsome : (disk.tree.node other).isSome = true)
    (hnext : ∀ name, name :: other <:+ rest.reverse ++ current →
      disk.tree.node (name :: other) ≠ none) :
    disk'.tree.node other = disk.tree.node other := by
  induction rest generalizing current disk with
  | nil =>
      have hsame : disk = disk' := by simpa [makeWay] using hrun
      rw [hsame]
  | cons name rest ih =>
      have hpath : (name :: rest).reverse ++ current = rest.reverse ++ name :: current := by
        simp
      rw [hpath] at hnext
      rw [makeWay_cons hplain.head, read_bind_apply] at hrun
      cases hnode : disk.tree.node (name :: current) with
      | none =>
          by_cases hlong : nameMax < byteLength name
          · simp [hnode, hlong] at hrun
          simp only [hnode, hlong, if_false, modify_bind_apply] at hrun
          have hshape := disk.shape_makeDir hplain.head hdir hnode
          have hsub : (disk.makeDir (name :: current)).tree.isDir (name :: current) = true := by
            rw [FileTree.isDir_iff_shape, hshape, if_pos rfl]
          have hcurrent : other ≠ current := by
            intro heq
            rw [heq] at hnext
            exact hnext name (List.suffix_append _ _) hnode
          have hmade : other ≠ name :: current := by
            intro heq
            simp [heq, hnode] at hsome
          have hkept : (disk.makeDir (name :: current)).tree.node other = disk.tree.node other := by
            rw [disk.node_makeDir hplain.head hdir hnode hcurrent, if_neg hmade]
          have hstill : ∀ next, next :: other <:+ rest.reverse ++ name :: current →
              (disk.makeDir (name :: current)).tree.node (next :: other) ≠ none := by
            intro next hsuffix
            rw [Ne, ← FileTree.shape_eq_none_iff, hshape]
            by_cases hsame : next :: other = name :: current
            · simp [hsame]
            · rw [if_neg hsame, FileTree.shape_eq_none_iff]
              exact hnext next hsuffix
          exact (ih (name :: current) _ hplain.tail hsub hrun (hkept ▸ hsome) hstill).trans hkept
      | some node =>
          cases node with
          | file content mtime => simp [hnode] at hrun
          | dir mtime =>
              simp only [hnode] at hrun
              have hsub : disk.tree.isDir (name :: current) = true := by
                simp [FileTree.isDir, hnode]
              exact ih (name :: current) disk hplain.tail hsub hrun hsome hnext

theorem createDirectories_node {disk' : Disk} {other : Path} (hplain : PlainPath path)
    (hrun : createDirectories (render path) disk = .returned () disk')
    (hsome : (disk.tree.node other).isSome = true)
    (hnext : ∀ name, name :: other <:+ path → disk.tree.node (name :: other) ≠ none) :
    disk'.tree.node other = disk.tree.node other := by
  have hreverse : PlainPath path.reverse := fun name hname =>
    hplain name (List.mem_reverse.mp hname)
  rw [createDirectories] at hrun
  split at hrun
  · simp at hrun
  · split at hrun
    · simp at hrun
    rw [components_render hplain, makeWay, if_pos (.inl rfl)] at hrun
    apply makeWay_node path.reverse [] disk hreverse disk.tree.isDir_root hrun hsome
    rwa [List.reverse_reverse, List.append_nil]

/-! ## Files -/

theorem openTruncated_render (hpath : PlainPath (name :: parent))
    (hparent : disk.tree.isDir parent = true)
    (hfile : disk.tree.isDir (name :: parent) = false)
    (hfits : PathFits (render (name :: parent))) :
    openTruncated (render (name :: parent)) disk =
      .returned (some (name :: parent)) (disk.writeFile (name :: parent) []) := by
  simp [openTruncated, disk.tree.resolve_render_of_isDir hpath hparent, hfile, hfits]

theorem openTruncated_render_cases (hpath : PlainPath (name :: parent)) (disk : Disk) :
    openTruncated (render (name :: parent)) disk = .returned none disk ∨
      (disk.tree.isDir parent = true ∧ disk.tree.isDir (name :: parent) = false ∧
        openTruncated (render (name :: parent)) disk =
          .returned (some (name :: parent)) (disk.writeFile (name :: parent) [])) := by
  cases hparent : disk.tree.isDir parent with
  | false =>
      have hresolve : disk.tree.resolve (render (name :: parent)) = none := by
        rw [disk.tree.resolve_render hpath, hparent, if_neg (by simp)]
      exact .inl (by simp [openTruncated, hresolve])
  | true =>
      cases hfile : disk.tree.isDir (name :: parent) with
      | true =>
          have hresolve := disk.tree.resolve_render_of_isDir hpath hparent
          exact .inl (by simp [openTruncated, hresolve, hfile])
      | false =>
          by_cases hfits : PathFits (render (name :: parent))
          · exact .inr ⟨rfl, rfl, openTruncated_render hpath hparent hfile hfits⟩
          · have hresolve := disk.tree.resolve_render_of_isDir hpath hparent
            exact .inl (by simp [openTruncated, hresolve, hfits])

theorem append_of_file {content : List Byte} {mtime : Int}
    (hfile : disk.tree.node path = some (.file content mtime)) (data : List Byte) :
    append path data disk = .returned () (disk.writeFile path (content ++ data)) := by
  simp [append, hfile]

theorem rename_render {source : Path} {content : List Byte} {mtime : Int}
    (hsource : PlainPath source) (hpath : PlainPath (name :: parent))
    (hfile : disk.tree.node source = some (.file content mtime))
    (hroot : source ≠ []) (hparent : disk.tree.isDir parent = true)
    (htarget : disk.tree.isDir (name :: parent) = false) (hne : source ≠ name :: parent)
    (hfits : PathFits (render (name :: parent))) :
    rename (render source) (render (name :: parent)) disk =
      .returned () (disk.move source (name :: parent)) := by
  obtain ⟨last, outer, rfl⟩ := List.exists_cons_of_ne_nil hroot
  have hsome : (disk.tree.node (last :: outer)).isSome = true := by
    rw [hfile]
    rfl
  rw [rename, bind_of_returned (locate_render hsource (disk.tree.isDir_parent hsome)),
    bind_of_returned (locate_render hpath hparent)]
  simp [hfile, htarget, hne, hfits]

/-- A file is not renamed onto a directory, nor where there is no directory, nor
by a name that is too long. -/
theorem rename_render_raised {source : Path} {content : List Byte} {mtime : Int}
    (hsource : PlainPath source) (hpath : PlainPath (name :: parent))
    (hfile : disk.tree.node source = some (.file content mtime)) (hroot : source ≠ [])
    (hblocked : disk.tree.isDir parent = false ∨ disk.tree.isDir (name :: parent) = true ∨
      ¬ PathFits (render (name :: parent))) :
    ∃ errno, rename (render source) (render (name :: parent)) disk = .raised errno disk := by
  obtain ⟨last, outer, rfl⟩ := List.exists_cons_of_ne_nil hroot
  have hsome : (disk.tree.node (last :: outer)).isSome = true := by
    rw [hfile]
    rfl
  rw [rename, bind_of_returned (locate_render hsource (disk.tree.isDir_parent hsome))]
  cases hparent : disk.tree.isDir parent with
  | false =>
      have hlocate : locate (render (name :: parent)) disk = .raised .noEntry disk := by
        simp [locate, disk.tree.resolve_render hpath, hparent]
      exact ⟨.noEntry, bind_of_raised hlocate⟩
  | true =>
      have hdir := hblocked.resolve_left (by simp [hparent])
      rw [bind_of_returned (locate_render hpath hparent)]
      by_cases hfits : PathFits (render (name :: parent))
      · have htarget := hdir.resolve_right (not_not.mpr hfits)
        exact ⟨.isDirectory, by simp [hfile, htarget, hfits]⟩
      · exact ⟨.nameTooLong, by simp [hfile, hfits]⟩

/-- What a removal did, if it removed anything. -/
theorem remove_cases (text : Text) (disk : Disk) :
    (∃ path, disk.tree.resolve text = some path ∧ (disk.tree.node path).isSome = true ∧
        path ≠ [] ∧ remove text disk = .returned true (disk.unlink path) ∧
        (disk.tree.isDir path = true → disk.tree.below path = [])) ∨
      (remove text disk = .returned false disk ∧ disk.tree.status text = none) ∨
      ∃ errno, remove text disk = .raised errno disk ∧ disk.isDirectory text = true := by
  simp only [remove, read_bind_apply]
  cases hresolve : disk.tree.resolve text with
  | none => exact .inr (.inl ⟨rfl, by simp [FileTree.status, hresolve]⟩)
  | some path =>
      simp only [read_bind_apply]
      cases hnode : disk.tree.node path with
      | none => exact .inr (.inl ⟨rfl, by simp [FileTree.status, hresolve, hnode]⟩)
      | some node =>
          have hstatus : disk.status text = some node := by
            simp [Disk.status, FileTree.status, hresolve, hnode]
          cases node with
          | file content mtime =>
              have hroot : path ≠ [] := by
                rintro rfl
                have hdir := disk.tree.isDir_root
                simp [FileTree.isDir, hnode] at hdir
              refine .inl ⟨path, rfl, by rw [hnode]; rfl, hroot, rfl, fun hdir => ?_⟩
              simp [FileTree.isDir, hnode] at hdir
          | dir mtime =>
              have hdir : disk.isDirectory text = true := by
                simp [Disk.isDirectory, hstatus]
              simp only [read_bind_apply]
              by_cases hroot : path = []
              · exact .inr (.inr ⟨.busy, by simp [hroot], hdir⟩)
              · by_cases hbelow : disk.tree.below path = []
                · by_cases hdot : lastName text = some dot
                  · exact .inr (.inr ⟨.invalid, by simp [hroot, hbelow, hdot], hdir⟩)
                  · exact .inl ⟨path, rfl, by rw [hnode]; rfl, hroot,
                      by simp [hroot, hbelow, hdot], fun _ => hbelow⟩
                · exact .inr (.inr ⟨.notEmpty, by simp [hroot, hbelow], hdir⟩)

theorem remove_render_file (hpath : PlainPath path) (hne : path ≠ []) {content : List Byte}
    {mtime : Int} (hfile : disk.tree.node path = some (.file content mtime)) :
    remove (render path) disk = .returned true (disk.unlink path) := by
  obtain ⟨name, parent, rfl⟩ := List.exists_cons_of_ne_nil hne
  have hsome : (disk.tree.node (name :: parent)).isSome = true := by
    rw [hfile]
    rfl
  simp [remove, disk.tree.resolve_render_of_isDir hpath (disk.tree.isDir_parent hsome), hfile]

theorem lastName_render (hpath : PlainPath (name :: parent)) :
    lastName (render (name :: parent)) = some name := by
  rw [lastName, components_render hpath, List.reverse_cons, ← List.cons_append,
    List.filter_append, List.filter_singleton]
  simp [hpath.head.1]

theorem removeAll_of_isDir {text : Text} (hresolve : disk.tree.resolve text = some path)
    (hdir : disk.tree.isDir path = true) (hne : path ≠ []) (hdot : lastName text ≠ some dot)
    (hdotDot : lastName text ≠ some dotDot) :
    removeAll text disk = .returned ((disk.tree.below path).length + 1) (disk.unlink path) := by
  obtain ⟨mtime, hnode⟩ := (disk.tree.isDir_iff _).mp hdir
  simp only [removeAll, read_bind_apply, hresolve, hnode, hdot, hdotDot, hne, if_false,
    modify_bind_apply, pure_apply]

theorem removeAll_render (hpath : PlainPath path) (hne : path ≠ [])
    (hdir : disk.tree.isDir path = true) :
    removeAll (render path) disk =
      .returned ((disk.tree.below path).length + 1) (disk.unlink path) := by
  obtain ⟨name, parent, rfl⟩ := List.exists_cons_of_ne_nil hne
  have hparent := disk.tree.isDir_parent (disk.tree.isSome_of_isDir hdir)
  have hlast := lastName_render hpath
  exact removeAll_of_isDir (disk.tree.resolve_render_of_isDir hpath hparent) hdir hne
    (by simp [hlast, hpath.head.2.1]) (by simp [hlast, hpath.head.2.2.1])

/-! ## Times and listings -/

theorem setTime_of_status {text : Text} {node : Node}
    (hresolve : disk.tree.resolve text = some path) (hnode : disk.tree.node path = some node)
    (mtime : Int) : setTime text mtime disk = .returned () (disk.setTime path mtime) := by
  rw [setTime, bind_of_returned (locate_of_resolve hresolve)]
  simp [hnode]

theorem render_listing (hplain : PlainPath path) (names : List Text) :
    PlainPath names →
      names.foldr (fun name outer => join outer name) (render path) = render (names ++ path) := by
  induction names with
  | nil => simp
  | cons name names ih =>
      intro hnames
      rw [List.foldr_cons, ih hnames.tail, List.cons_append,
        join_render (hnames.tail.append hplain)]

/-- Only a directory can be listed. -/
theorem listBelow_cases (text : Text) (disk : Disk) :
    (∃ path, disk.tree.resolve text = some path ∧ disk.tree.isDir path = true ∧
        listBelow text disk = .returned (listing text path disk.tree) disk) ∨
      ∃ errno, listBelow text disk = .raised errno disk := by
  cases hresolve : disk.tree.resolve text with
  | none =>
      have hlocate : locate text disk = .raised .noEntry disk := by
        simp [locate, hresolve]
      exact .inr ⟨_, bind_of_raised hlocate⟩
  | some path =>
      rw [listBelow, bind_of_returned (locate_of_resolve hresolve), read_bind_apply]
      cases hdir : disk.tree.isDir path with
      | true => exact .inl ⟨path, rfl, hdir, rfl⟩
      | false => exact .inr ⟨.notDirectory, rfl⟩

theorem listing_render (hpath : PlainPath path) (tree : FileTree) :
    listing (render path) path tree = (tree.below path).map render := by
  refine List.map_congr_left fun other hother => ?_
  obtain ⟨⟨names, rfl⟩, -, hsome⟩ := (tree.mem_below _ _).mp hother
  have htake : (names ++ path).take ((names ++ path).length - path.length) = names := by
    simp
  rw [htake, render_listing hpath names (PlainPath.left (tree.plain_of_isSome hsome))]

end SystemCall

end PdsBackup
