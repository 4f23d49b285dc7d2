import PdsBackup.Server.Steps

/-!
# Where a session keeps its files

The base path and the temporary path are canonical, the username and the mac
address of the session passed the validators, and the folder of the session and
the temporary directory do not lie in one another.  The path of a request then
names a place below the folder.
-/

namespace PdsBackup.Server

/-- The paths of a session. -/
structure Placement (session : Session) where
  base : Path
  temp : Path
  base_plain : PlainPath base
  temp_plain : PlainPath temp
  temp_ne : temp ≠ []
  basePath_eq : session.basePath = render base
  temporaryPath_eq : session.temporaryPath = render temp
  username_valid : Validator.validateUsername session.username = true
  mac_valid : ∃ raw, Validator.validateMacAddress raw = some session.mac
  temp_outside : ¬ Validator.folderName session.username session.mac :: base <:+ temp
  folder_outside : ¬ temp <:+ Validator.folderName session.username session.mac :: base

namespace Placement

variable {session : Session} (placement : Placement session)

/-- The folder of the session. -/
def folder : Path := Validator.folderName session.username session.mac :: placement.base

theorem folder_ne : placement.folder ≠ [] := List.cons_ne_nil _ _

theorem folder_plain : PlainPath placement.folder := by
  intro name hname
  rcases List.mem_cons.mp hname with rfl | hname
  · obtain ⟨raw, hraw⟩ := placement.mac_valid
    exact Validator.plainName_folderName placement.username_valid hraw
  · exact placement.base_plain name hname

theorem userPath_eq : session.userPath = render placement.folder := by
  rw [Session.userPath, placement.basePath_eq]
  rfl

include placement in
/-- Every path of a session begins at the root. -/
theorem head?_absolutePath (path : Text) : (session.userPath ++ path).head? = some '/' := by
  have hne : render placement.folder ≠ [] := mt (render_eq_nil_iff _).mp placement.folder_ne
  rw [placement.userPath_eq, List.head?_append_of_ne_nil _ hne, folder, head?_render]

/-- A path below the folder, by its names relative to the folder. -/
def inside (names : List Text) : Path := names ++ placement.folder

variable {placement} {names : List Text}

theorem inside_plain (hnames : PlainPath names) : PlainPath (placement.inside names) :=
  hnames.append placement.folder_plain

theorem inside_ne : placement.inside names ≠ [] := by
  simp [inside, placement.folder_ne]

theorem folder_suffix_inside : placement.folder <:+ placement.inside names :=
  List.suffix_append names placement.folder

theorem inside_injective {other : List Text}
    (heq : placement.inside names = placement.inside other) : names = other :=
  List.append_cancel_right heq

theorem inside_suffix_iff {other : List Text} :
    placement.inside names <:+ placement.inside other ↔ names <:+ other :=
  List.suffix_append_self_iff

variable (placement) in
/-- The absolute path of a request. -/
theorem absolutePath_eq : session.userPath ++ render names = render (placement.inside names) := by
  rw [placement.userPath_eq, inside, render_append]

theorem status_inside (tree : FileTree) (hnames : PlainPath names) :
    tree.status (session.userPath ++ render names) = tree.node (placement.inside names) := by
  rw [absolutePath_eq placement, tree.status_render (inside_plain hnames) inside_ne]

theorem eq_inside_of_resolve {tree : FileTree} {place : Path} (placement : Placement session)
    (hnames : PlainPath names)
    (hresolve : tree.resolve (session.userPath ++ render names) = some place) :
    place = placement.inside names := by
  rw [absolutePath_eq placement] at hresolve
  exact FileTree.eq_of_resolve_render (inside_plain hnames) inside_ne hresolve

/-- The parent of the absolute path of a request. -/
theorem parentPath_inside (placement : Placement session) {name : Text} (hnames : PlainPath (name :: names)) :
    parentPath (session.userPath ++ render (name :: names)) = session.userPath ++ render names := by
  rw [absolutePath_eq placement, absolutePath_eq placement]
  exact parentPath_render (inside_plain hnames) inside_ne

theorem append_render_eq_userPath_iff :
    session.userPath ++ render names = session.userPath ↔ names = [] := by
  rw [List.append_right_eq_self, render_eq_nil_iff]

/-! ## The parent of a path -/

open Procedure

variable {s : ServerState}

/-- The entry of a parent can be read when its path can be cut at the folder. -/
theorem saveParent_inside (placement : Placement session) (hnames : PlainPath names)
    (hsome : (s.disk.tree.node (placement.inside names)).isSome = true) :
    (∃ entry, saveParent session (session.userPath ++ render names) s = .returned entry s ∧
        (names ≠ [] → entry.absolutePath = session.userPath ++ render names)) ∨
      (names ≠ [] ∧
        DirectoryEntry.relativePathOf session.userPath (session.userPath ++ render names) = none ∧
        saveParent session (session.userPath ++ render names) s = .raised .standard s) := by
  rcases saveParent_cases session s (session.userPath ++ render names) with
    ⟨entry, hrun, hentry⟩ | ⟨hne, hload, hrun⟩
  · refine .inl ⟨entry, hrun, fun hne => ?_⟩
    have hparent : session.userPath ++ render names ≠ session.userPath :=
      mt append_render_eq_userPath_iff.mp hne
    exact (DirectoryEntry.load_eq_some (hentry hparent)).2.1
  · refine .inr ⟨mt append_render_eq_userPath_iff.mpr hne, ?_, hrun⟩
    by_contra hrelative
    have hstatus : (s.disk.tree.status (session.userPath ++ render names)).isSome = true := by
      rwa [placement.status_inside _ hnames]
    have hloads : ∃ entry, DirectoryEntry.load session.platform session.userPath
        (session.userPath ++ render names) s.disk.tree = some entry :=
      DirectoryEntry.load_isSome (Option.isSome_iff_ne_none.mpr hrelative) hstatus
    obtain ⟨entry, hentry⟩ := hloads
    simp [hload] at hentry

/-- The entry of a parent is read when the parent is there. -/
theorem saveExistingParent_inside (placement : Placement session) (hnames : PlainPath names)
    (s : ServerState) :
    (∃ entry, saveExistingParent session (s.disk.present (session.userPath ++ render names))
          (session.userPath ++ render names) s = .returned entry s ∧
        (s.disk.present (session.userPath ++ render names) = true → names ≠ [] →
          entry.absolutePath = session.userPath ++ render names)) ∨
      saveExistingParent session (s.disk.present (session.userPath ++ render names))
          (session.userPath ++ render names) s = .raised .standard s := by
  cases hexists : s.disk.present (session.userPath ++ render names) with
  | false => exact .inl ⟨{}, rfl, by simp⟩
  | true =>
      rw [Disk.present, Disk.status, placement.status_inside _ hnames] at hexists
      rcases saveParent_inside placement hnames hexists with ⟨entry, hrun, hentry⟩ | ⟨-, -, hrun⟩
      · exact .inl ⟨entry, hrun, fun _ => hentry⟩
      · exact .inr hrun

/-- The parent's time is all that is set. -/
theorem resetParent_inside (placement : Placement session) {entry : DirectoryEntry}
    (hnames : PlainPath names) (hdir : s.disk.tree.isDir (placement.inside names) = true)
    (hentry : names ≠ [] → entry.absolutePath = session.userPath ++ render names) :
    ∃ disk, resetParent session (session.userPath ++ render names) entry s =
        .returned () (s.withDisk disk) ∧
      (∀ other, disk.tree.shape other = s.disk.tree.shape other) ∧
      ∀ other, other ≠ placement.inside names → disk.tree.node other = s.disk.tree.node other := by
  rcases resetParent_cases session s (session.userPath ++ render names) entry with
    ⟨-, hrun⟩ | ⟨hne, path, node, hresolve, hnode, hrun⟩ | ⟨hne, hnone, -⟩
  · exact ⟨s.disk, hrun, fun _ => rfl, fun _ _ => rfl⟩
  · have hnames' := mt append_render_eq_userPath_iff.mpr hne
    obtain ⟨last, outer, hinside⟩ :=
      List.exists_cons_of_ne_nil (inside_ne : placement.inside names ≠ [])
    have hplain : PlainPath (placement.inside names) := inside_plain hnames
    rw [hentry hnames', absolutePath_eq placement] at hresolve
    rw [hinside] at hresolve hplain hdir ⊢
    rw [s.disk.tree.resolve_render_of_isDir hplain
      (s.disk.tree.isDir_parent (s.disk.tree.isSome_of_isDir hdir)), Option.some.injEq] at hresolve
    rw [← hresolve] at hrun
    exact ⟨_, hrun, s.disk.shape_setTime_of_isDir hdir _, fun _ hother => s.disk.node_setTime hother _⟩
  · have hnames' := mt append_render_eq_userPath_iff.mpr hne
    rw [hentry hnames', placement.status_inside _ hnames] at hnone
    simpa [hnone] using s.disk.tree.isSome_of_isDir hdir

/-- The time that is saved is that of the parent. -/
theorem saveParent_time (placement : Placement session) {entry : DirectoryEntry} {s' : ServerState}
    (hnames : PlainPath names) (hne : names ≠ [])
    (hrun : saveParent session (session.userPath ++ render names) s = .returned entry s') :
    ∃ node, s.disk.tree.node (placement.inside names) = some node ∧
      entry.lastWriteTime = session.platform.putTime node.mtime := by
  have hparent : session.userPath ++ render names ≠ session.userPath :=
    mt append_render_eq_userPath_iff.mp hne
  cases saveParent_cases session s (session.userPath ++ render names) with
  | inl hsaved =>
      obtain ⟨found, hfound, hload⟩ := hsaved
      obtain ⟨rfl, -⟩ := Exit.returned.inj (hfound.symm.trans hrun)
      obtain ⟨-, -, node, hstatus, hdescribes⟩ := DirectoryEntry.load_eq_some (hload hparent)
      rw [placement.status_inside _ hnames] at hstatus
      exact ⟨node, hstatus, hdescribes.lastWriteTime⟩
  | inr hnone =>
      rw [hnone.2.2] at hrun
      simp at hrun

/-- The time that was saved is set again. -/
theorem resetParent_time (placement : Placement session) {entry : DirectoryEntry} {s' : ServerState}
    (hnames : PlainPath names) (hne : names ≠ [])
    (hdir : s.disk.tree.isDir (placement.inside names) = true)
    (hentry : entry.absolutePath = session.userPath ++ render names)
    (hrun : resetParent session (session.userPath ++ render names) entry s = .returned () s') :
    s'.disk.tree.node (placement.inside names) =
      some (.dir (session.platform.getTime entry.lastWriteTime)) := by
  have hparent : session.userPath ++ render names ≠ session.userPath :=
    mt append_render_eq_userPath_iff.mp hne
  rcases resetParent_cases session s (session.userPath ++ render names) entry with
    ⟨heq, -⟩ | ⟨-, path, node, hresolve, -, hset⟩ | ⟨-, -, hraised⟩
  · exact absurd heq hparent
  · obtain ⟨-, rfl⟩ := Exit.returned.inj (hset.symm.trans hrun)
    rw [hentry] at hresolve
    obtain rfl := placement.eq_inside_of_resolve hnames hresolve
    obtain ⟨mtime, hnode⟩ := (s.disk.tree.isDir_iff _).mp hdir
    rw [ServerState.withDisk, Disk.setTime, FileTree.node_retime, if_pos rfl, hnode]
    rfl
  · rw [hraised] at hrun
    simp at hrun

/-! ## The temporary file -/

/-- The name of a temporary file. -/
def tmpName (bytes : List Byte) : Text := stringToHex bytes ++ ".tmp".toList

theorem tmpName_plain (bytes : List Byte) : PlainName (tmpName bytes) := by
  have hdigits : ∀ c ∈ hexDigits ++ ".tmp".toList, c ≠ '/' ∧ c ≠ nul := by
    simp [hexDigits, nul]
  have hall : ∀ c ∈ tmpName bytes, c ≠ '/' ∧ c ≠ nul := by
    intro c hc
    refine hdigits c ?_
    rcases List.mem_append.mp hc with hc | hc
    · exact List.mem_append_left _ (mem_hexDigits_of_mem_stringToHex bytes hc)
    · exact List.mem_append_right _ hc
  have hlength : 4 ≤ (tmpName bytes).length := by
    simp [tmpName]
  refine ⟨?_, ?_, ?_, fun h => (hall _ h).1 rfl, fun h => (hall _ h).2 rfl⟩
  · intro heq
    simp [heq] at hlength
  · intro heq
    simp [heq, dot] at hlength
  · intro heq
    simp [heq, dotDot] at hlength

variable (placement) in
/-- The path of a temporary file. -/
def tmpFile (bytes : List Byte) : Path := tmpName bytes :: placement.temp

theorem tmpFile_plain (bytes : List Byte) : PlainPath (placement.tmpFile bytes) := by
  intro name hname
  rcases List.mem_cons.mp hname with rfl | hname
  · exact tmpName_plain bytes
  · exact placement.temp_plain name hname

variable (placement) in
theorem tmpPath_eq (bytes : List Byte) :
    session.temporaryPath ++ '/' :: stringToHex bytes ++ ".tmp".toList =
      render (placement.tmpFile bytes) := by
  rw [placement.temporaryPath_eq, tmpFile, render_cons, tmpName, List.append_assoc,
    List.cons_append]

/-- A path below the folder is neither the temporary directory, nor above or
below it. -/
theorem inside_apart_temp {path : Path} (hpath : placement.folder <:+ path) :
    ¬ path <:+ placement.temp ∧ ¬ placement.temp <:+ path := by
  constructor
  · exact fun h => placement.temp_outside (hpath.trans h)
  · intro h
    rcases List.suffix_or_suffix_of_suffix hpath h with hsuffix | hsuffix
    · exact placement.temp_outside hsuffix
    · exact placement.folder_outside hsuffix

theorem tmpFile_not_suffix {path : Path} (hpath : placement.folder <:+ path)
    (bytes : List Byte) : ¬ placement.tmpFile bytes <:+ path := fun h =>
  (inside_apart_temp hpath).2 ((List.suffix_cons _ _).trans h)

theorem not_suffix_tmpFile {path : Path} (hpath : placement.folder <:+ path)
    (bytes : List Byte) : ¬ path <:+ placement.tmpFile bytes := by
  intro h
  rcases List.suffix_cons_iff.mp h with heq | hsuffix
  · exact tmpFile_not_suffix hpath bytes (heq ▸ List.suffix_rfl)
  · exact (inside_apart_temp hpath).1 hsuffix

theorem tmpFile_ne {path : Path} (hpath : placement.folder <:+ path) (bytes : List Byte) :
    placement.tmpFile bytes ≠ path := by
  rintro rfl
  exact tmpFile_not_suffix hpath bytes List.suffix_rfl

end Placement

/-- The path of a request that makes or removes objects by it is canonical. -/
def PathCanonical (message : ClientMessage) : Prop :=
  message.type = .STOR ∨ message.type = .MKD ∨ message.type = .RMD →
    ∀ path, Validator.validatePath message.path = some path → Canonical path

/-- The paths of the sample session. -/
def annaPlacement : Placement annaSession where
  base := ["srv".toList]
  temp := ["tmp".toList]
  base_plain := by
    intro name hname
    rw [List.mem_singleton] at hname
    subst hname
    decide
  temp_plain := by
    intro name hname
    rw [List.mem_singleton] at hname
    subst hname
    decide
  temp_ne := by decide
  basePath_eq := by decide
  temporaryPath_eq := by decide
  username_valid := by decide +kernel
  mac_valid := ⟨annaSession.mac, by decide +kernel⟩
  temp_outside := by decide +kernel
  folder_outside := by decide +kernel

end PdsBackup.Server
