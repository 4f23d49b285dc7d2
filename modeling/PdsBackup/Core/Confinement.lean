import PdsBackup.Core.WrittenPaths

/-!
# Where the calls act

A call that is given the text of a path acts at that path and below it, and a
call that makes directories acts where they were missing.  A region that holds
whatever is below one of its paths is therefore left by no call that is given
the text of a path in it, provided that the way to the path is there outside of
the region.
-/

namespace PdsBackup

/-- Since `start`, there were effects in the region only, and the directories
outside of it are still there. -/
structure Confined (region : Path → Prop) (start disk : Disk) : Prop where
  log : ∃ added, disk.log = start.log ++ added ∧ ∀ effect ∈ added, region effect.path
  isDir : ∀ other, ¬ region other → start.tree.isDir other = true →
    disk.tree.isDir other = true

/-- A region that holds all that is below its paths. -/
def Closed (region : Path → Prop) : Prop :=
  ∀ path below, region path → path <:+ below → region below

namespace Confined

variable {region : Path → Prop} {start disk disk' : Disk} {path : Path}

theorem refl : Confined region disk disk := ⟨⟨[], by simp⟩, fun _ _ hdir => hdir⟩

theorem trans (h : Confined region start disk) (h' : Confined region disk disk') :
    Confined region start disk' := by
  obtain ⟨added, hlog, hadded⟩ := h.log
  obtain ⟨added', hlog', hadded'⟩ := h'.log
  constructor
  · refine ⟨added ++ added', by rw [hlog', hlog, List.append_assoc], ?_⟩
    intro effect heffect
    rcases List.mem_append.mp heffect with heffect | heffect
    · exact hadded effect heffect
    · exact hadded' effect heffect
  · exact fun other hother hdir => h'.isDir other hother (h.isDir other hother hdir)

theorem setTime (hpath : region path) (mtime : Int) :
    Confined region disk (disk.setTime path mtime) := by
  constructor
  · refine ⟨[.retimed path], rfl, fun effect heffect => ?_⟩
    rw [List.mem_singleton.mp heffect]
    exact hpath
  · intro other _ hdir
    rw [Disk.setTime, FileTree.isDir_retime]
    exact hdir

theorem writeFile (hpath : region path) (content : List Byte) :
    Confined region disk (disk.writeFile path content) := by
  have hne : ∀ other, ¬ region other → other ≠ path := fun other hother heq =>
    hother (heq ▸ hpath)
  unfold Disk.writeFile
  by_cases hsome : (disk.tree.node path).isSome = true
  · rw [if_pos hsome]
    constructor
    · refine ⟨[.overwritten path], rfl, fun effect heffect => ?_⟩
      rw [List.mem_singleton.mp heffect]
      exact hpath
    · intro other hother hdir
      rw [Disk.tree_change, FileTree.isDir_putFile_of_ne _ (hne other hother)]
      exact hdir
  · rw [if_neg hsome]
    constructor
    · refine ⟨[.created path], rfl, fun effect heffect => ?_⟩
      rw [List.mem_singleton.mp heffect]
      exact hpath
    · intro other hother hdir
      rw [Disk.tree_change, FileTree.isDir_retime,
        FileTree.isDir_putFile_of_ne _ (hne other hother)]
      exact hdir

theorem unlink (hclosed : Closed region) (hpath : region path) :
    Confined region disk (disk.unlink path) := by
  constructor
  · refine ⟨_, rfl, fun effect heffect => ?_⟩
    obtain ⟨removed, hremoved, rfl⟩ := List.mem_map.mp heffect
    rcases List.mem_cons.mp hremoved with rfl | hbelow
    · exact hpath
    · exact hclosed path removed hpath ((disk.tree.mem_below _ _).mp hbelow).1
  · intro other hother hdir
    rw [Disk.unlink, Disk.tree_change, FileTree.isDir_retime,
      FileTree.isDir_delete_of_not_suffix _ fun h => hother (hclosed path other hpath h)]
    exact hdir

theorem move {source target : Path} (hclosed : Closed region) (hsource : region source)
    (htarget : region target) : Confined region disk (disk.move source target) := by
  unfold Disk.move
  split
  · constructor
    · refine ⟨_, rfl, fun effect heffect => ?_⟩
      rcases List.mem_cons.mp heffect with rfl | heffect
      · exact hsource
      · rw [List.mem_singleton.mp heffect]
        by_cases hsome : (disk.tree.node target).isSome = true
        · rw [if_pos hsome]
          exact htarget
        · rw [if_neg hsome]
          exact htarget
    · intro other hother hdir
      have hne : other ≠ target := fun heq => hother (heq ▸ htarget)
      rw [Disk.tree_change, FileTree.isDir_retime, FileTree.isDir_retime,
        FileTree.isDir_delete_of_not_suffix _ fun h => hother (hclosed source other hsource h),
        FileTree.isDir_putFile_of_ne _ hne]
      exact hdir
  · exact refl

theorem made (hmade : SystemCall.Made path disk disk')
    (hway : ∀ other, other <:+ path → ¬ region other → disk.tree.isDir other = true) :
    Confined region disk disk' := by
  obtain ⟨added, hlog, hadded⟩ := hmade.log
  constructor
  · refine ⟨added.map .created, hlog, fun effect heffect => ?_⟩
    obtain ⟨created, hcreated, rfl⟩ := List.mem_map.mp heffect
    obtain ⟨hsuffix, hnone⟩ := hadded created hcreated
    by_contra hoff
    have hdir := hway created hsuffix hoff
    simp [FileTree.isDir, hnone] at hdir
  · intro other _ hdir
    have hshape := (disk.tree.isDir_iff_shape other).mp hdir
    rw [FileTree.isDir_iff_shape, hmade.shape, hshape, ite_self]

end Confined

/-! ## The calls -/

namespace SystemCall

open Procedure

variable {region : Path → Prop} {start : Disk} {path : Path}

theorem createDirectories_confined (hpath : PlainPath path) (hne : path ≠ [])
    (hway : ∀ other, other <:+ path → ¬ region other → start.tree.isDir other = true) :
    Keeps (Confined region start) (createDirectories (render path)) := by
  apply Meets.of_each
  intro disk hdisk
  rcases createDirectories_render hpath hne disk with
    ⟨disk', hrun, hmade⟩ | ⟨hrun, -⟩ | ⟨disk', hrun, -, middle, hmiddle, hmade⟩
  · apply Meets.ends_returned hrun
    apply hdisk.trans
    exact Confined.made hmade fun other hsuffix hother =>
      hdisk.isDir other hother (hway other hsuffix hother)
  · exact Meets.ends_raised hrun hdisk
  · apply Meets.ends_raised hrun
    apply hdisk.trans
    exact Confined.made hmade fun other hsuffix hother =>
      hdisk.isDir other hother (hway other (hsuffix.trans hmiddle) hother)

theorem openTruncated_confined (hpath : PlainPath path) (hne : path ≠ []) (hin : region path) :
    Meets (Confined region start) (openTruncated (render path))
      (fun handle disk => Confined region start disk ∧ ∀ place, handle = some place → place = path)
      fun _ => Confined region start := by
  obtain ⟨name, parent, rfl⟩ := List.exists_cons_of_ne_nil hne
  apply Meets.of_each
  intro disk hdisk
  rcases openTruncated_render_cases hpath disk with hrun | ⟨-, -, hrun⟩
  · exact Meets.ends_returned hrun ⟨hdisk, by simp⟩
  · exact Meets.ends_returned hrun ⟨hdisk.trans (Confined.writeFile hin []), by simp⟩

theorem append_confined (hin : region path) (data : List Byte) :
    Keeps (Confined region start) (append path data) := by
  apply Keeps.modify
  intro disk hdisk
  split
  · exact hdisk.trans (Confined.writeFile hin _)
  · exact hdisk

theorem remove_confined (hclosed : Closed region) (hpath : PlainPath path) (hne : path ≠ [])
    (hin : region path) : Keeps (Confined region start) (remove (render path)) := by
  apply Meets.of_each
  intro disk hdisk
  rcases remove_cases (render path) disk with
    ⟨place, hresolve, -, -, hrun, -⟩ | ⟨hrun, -⟩ | ⟨errno, hrun, -⟩
  · obtain rfl := FileTree.eq_of_resolve_render hpath hne hresolve
    exact Meets.ends_returned hrun (hdisk.trans (Confined.unlink hclosed hin))
  · exact Meets.ends_returned hrun hdisk
  · exact Meets.ends_raised hrun hdisk

theorem removeAll_confined (hclosed : Closed region) (hpath : PlainPath path) (hne : path ≠ [])
    (hin : region path) : Keeps (Confined region start) (removeAll (render path)) := by
  apply Meets.of_each
  intro disk hdisk
  have hunlinked := hdisk.trans (Confined.unlink hclosed hin)
  cases hresolve : disk.tree.resolve (render path) with
  | none =>
      have hrun : removeAll (render path) disk = .returned 0 disk := by
        simp [removeAll, hresolve]
      exact Meets.ends_returned hrun hdisk
  | some place =>
      obtain rfl := FileTree.eq_of_resolve_render hpath hne hresolve
      rcases disk.tree.shape_cases place with hnone | ⟨content, mtime, hfile⟩ | hdir
      · have hrun : removeAll (render place) disk = .returned 0 disk := by
          simp [removeAll, hresolve, hnone]
        exact Meets.ends_returned hrun hdisk
      · have hrun : removeAll (render place) disk = .returned 1 (disk.unlink place) := by
          simp [removeAll, hresolve, hfile]
        exact Meets.ends_returned hrun hunlinked
      · exact Meets.ends_returned (removeAll_render hpath hne hdir) hunlinked

theorem rename_confined {source target : Path} (hclosed : Closed region)
    (hsource : PlainPath source) (hsourceNe : source ≠ []) (hsourceIn : region source)
    (htarget : PlainPath target) (htargetNe : target ≠ []) (htargetIn : region target) :
    Keeps (Confined region start) (rename (render source) (render target)) := by
  apply Meets.of_each
  intro disk hdisk
  cases hfirst : disk.tree.resolve (render source) with
  | none =>
      have hrun : locate (render source) disk = .raised .noEntry disk := by
        simp [locate, hfirst]
      exact Meets.then_raised hrun hdisk
  | some first =>
  cases hsecond : disk.tree.resolve (render target) with
  | none =>
      have hrun : locate (render target) disk = .raised .noEntry disk := by
        simp [locate, hsecond]
      exact Meets.then_returned (locate_of_resolve hfirst) (Meets.then_raised hrun hdisk)
  | some second =>
      obtain rfl := FileTree.eq_of_resolve_render hsource hsourceNe hfirst
      obtain rfl := FileTree.eq_of_resolve_render htarget htargetNe hsecond
      apply Meets.then_returned (locate_of_resolve hfirst)
      apply Meets.then_returned (locate_of_resolve hsecond)
      apply Meets.at_state _ hdisk
      apply Keeps.bind (Keeps.read _)
      intro node
      cases node with
      | none => exact Keeps.raise _
      | some node =>
          cases node with
          | dir mtime => exact Keeps.raise _
          | file content mtime =>
              apply Keeps.bind (Keeps.read _)
              intro isDir
              apply Keeps.ite
              · exact fun _ => Keeps.raise _
              intro _
              apply Keeps.ite
              · exact fun _ => Keeps.raise _
              · intro _
                apply Keeps.ite
                · exact fun _ => Keeps.pure ()
                · intro _
                  apply Keeps.modify
                  exact fun disk hdisk =>
                    hdisk.trans (Confined.move hclosed hsourceIn htargetIn)

theorem listBelow_confined (text : Text) :
    Keeps (Confined region start) (listBelow text) := by
  apply Meets.of_each
  intro disk hdisk
  rcases listBelow_cases text disk with ⟨place, -, -, hrun⟩ | ⟨errno, hrun⟩
  · exact Meets.ends_returned hrun hdisk
  · exact Meets.ends_raised hrun hdisk

end SystemCall

end PdsBackup
