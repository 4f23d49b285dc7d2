import PdsBackup.Server.Calls
import PdsBackup.Server.Transfer
import PdsBackup.Server.Retrieval

/-!
# Requests that fail

A request that is not answered by OK or SEND is meant to change nothing: not the
folder of the session, not the files in the temporary directory, not the rows of
the database, not the map of elements.  Each handler is followed from a known
state.  Up to a certain step nothing but the temporary file is touched, and that
is removed again; from there on no step fails, provided that the request meets a
condition on the state before it.
-/

namespace PdsBackup.Server

open Procedure

variable {session : Session} (placement : Placement session)

/-- The four stores are as they were. -/
structure Unchanged (start s : ServerState) : Prop where
  folder : ∀ path, placement.folder <:+ path → s.disk.tree.node path = start.disk.tree.node path
  temporary : ∀ path, placement.temp <:+ path → path ≠ placement.temp →
    s.disk.tree.node path = start.disk.tree.node path
  rows : s.database.rows = start.database.rows
  elements : s.elements = start.elements

variable {placement}

namespace Unchanged

variable {start s s' : ServerState}

theorem of_same (hdisk : s.disk = start.disk) (hdatabase : s.database.rows = start.database.rows)
    (helements : s.elements = start.elements) : Unchanged placement start s where
  folder _ _ := by rw [hdisk]
  temporary _ _ _ := by rw [hdisk]
  rows := hdatabase
  elements := helements

theorem refl : Unchanged placement s s := of_same rfl rfl rfl

theorem trans (h : Unchanged placement start s) (h' : Unchanged placement s s') :
    Unchanged placement start s' where
  folder path hpath := (h'.folder path hpath).trans (h.folder path hpath)
  temporary path hpath hne := (h'.temporary path hpath hne).trans (h.temporary path hpath hne)
  rows := h'.rows.trans h.rows
  elements := h'.elements.trans h.elements

theorem sent (h : Unchanged placement start s) (message : ServerMessage) :
    Unchanged placement start (s.sent message) := h.trans (of_same rfl rfl rfl)

theorem failed (h : Unchanged placement start s) (message : ServerMessage) :
    Unchanged placement start (s.failed message) := h.trans (of_same rfl rfl rfl)

end Unchanged

/-- An OK or a SEND was sent. -/
def Answered (start s : ServerState) : Prop :=
  ∃ sent, s.connection.outgoing = start.connection.outgoing ++ sent ∧
    ∃ message ∈ sent, message.type = .OK ∨ message.type = .SEND

/-- The final OK could not be sent. -/
def FinalOkLost (exception : ServerException) (s : ServerState) : Prop :=
  exception = .socket .write ∧
    ∃ message, s.connection.undelivered = some message ∧ message.type = .OK

/-- From a known state, the routine answers by OK or SEND, fails to send its
final OK, or changes nothing. -/
def Harmless {α : Type} (placement : Placement session) (start s : ServerState)
    (p : ServerProcedure α) : Prop :=
  Meets (fun s' => s' = s) p (fun _ s' => Unchanged placement start s' ∨ Answered start s')
    (fun exception s' => Unchanged placement start s' ∨ FinalOkLost exception s')

namespace Harmless

variable {α β : Type} {start s middle : ServerState}

theorem then_returned {p : ServerProcedure α} {f : α → ServerProcedure β} {value : α}
    (hrun : p s = .returned value middle) (hrest : Harmless placement start middle (f value)) :
    Harmless placement start s (p >>= f) := Meets.then_returned hrun hrest

theorem then_raised {p : ServerProcedure α} {f : α → ServerProcedure β}
    {exception : ServerException} (hrun : p s = .raised exception middle)
    (hunchanged : Unchanged placement start middle) : Harmless placement start s (p >>= f) :=
  Meets.then_raised hrun (.inl hunchanged)

theorem raise {exception : ServerException} (hunchanged : Unchanged placement start s) :
    Harmless placement start s (Procedure.raise exception : ServerProcedure α) :=
  Meets.ends_raised rfl (.inl hunchanged)

theorem refuse {code : ErrCode} {exception : ServerException}
    (hunchanged : Unchanged placement start s) :
    Harmless placement start s (refuse session code exception : ServerProcedure α) := by
  rcases refuse_cases session s code exception with hrun | hrun
  · exact Meets.ends_raised hrun (.inl (hunchanged.sent _))
  · exact Meets.ends_raised hrun (.inl (hunchanged.failed _))

/-- The final OK. -/
theorem finish {code : OkCode} {before : List ServerMessage}
    (hbefore : s.connection.outgoing = start.connection.outgoing ++ before) :
    Harmless placement start s (sendOK session code) := by
  rcases sendServerMessage_cases s (okMessage session code) with hrun | hrun
  · refine Meets.ends_returned hrun (.inr ⟨before ++ [okMessage session code], ?_,
      okMessage session code, ?_, .inl rfl⟩)
    · simp [ServerState.sent, Connection.sent, hbefore]
    · simp
  · exact Meets.ends_raised hrun (.inr ⟨rfl, _, rfl, rfl⟩)

theorem sendOK {code : OkCode}
    (hsame : s.connection.outgoing = start.connection.outgoing) :
    Harmless placement start s (sendOK session code) :=
  finish (hsame.trans (List.append_nil _).symm)

theorem sendSEND {path : Text} {hash : Hash} (hunchanged : Unchanged placement start s) :
    Harmless placement start s (sendSEND session path hash) := by
  rcases sendServerMessage_cases s (sendMessage session path hash) with hrun | hrun
  · exact Meets.ends_returned hrun (.inl (hunchanged.sent _))
  · exact Meets.ends_raised hrun (.inl (hunchanged.failed _))

theorem orRaise {exception : ServerException} {value : Option α} {f : α → ServerProcedure β}
    (hunchanged : Unchanged placement start s)
    (hf : ∀ result, value = some result → Harmless placement start s (f result)) :
    Harmless placement start s (Procedure.orRaise exception value >>= f) := by
  cases value with
  | none => exact then_raised rfl hunchanged
  | some result => exact then_returned rfl (hf result rfl)

theorem ensure {exception : ServerException} {condition : Bool} {f : Unit → ServerProcedure β}
    (hunchanged : Unchanged placement start s)
    (hf : condition = true → Harmless placement start s (f ())) :
    Harmless placement start s (Procedure.ensure exception condition >>= f) := by
  cases condition with
  | false => exact then_raised rfl hunchanged
  | true => exact then_returned rfl (hf rfl)

theorem read {g : ServerState → α} {f : α → ServerProcedure β}
    (hf : Harmless placement start s (f (g s))) :
    Harmless placement start s (Procedure.read g >>= f) := then_returned rfl hf

theorem ite {condition : Prop} [Decidable condition] {p q : ServerProcedure α}
    (hthen : condition → Harmless placement start s p)
    (helse : ¬ condition → Harmless placement start s q) :
    Harmless placement start s (if condition then p else q) := Meets.ite hthen helse

end Harmless

section Handlers

variable {start : ServerState} {message : ClientMessage}

/-! ## PROB -/

theorem probe_harmless (hrecovered : start.recovered = true) :
    Harmless placement start start (probe session message) := by
  apply Harmless.then_returned (recoverIfNeeded_of_recovered session start hrecovered)
  apply Harmless.orRaise .refl
  intro h _
  apply Harmless.orRaise .refl
  intro path _
  apply Harmless.ensure .refl
  intro _
  apply Harmless.read
  cases start.elements.lookup path with
  | none => exact Harmless.sendSEND .refl
  | some el =>
      apply Harmless.ite
      · exact fun _ => Harmless.refuse .refl
      intro _
      apply Harmless.ite
      · exact fun _ => Harmless.sendSEND .refl
      intro _
      apply Harmless.ite
      · intro _
        rcases setTimeToFile_cases session start el message.lastWriteTime with
          ⟨place, node, -, -, hrun⟩ | ⟨-, hrun⟩
        · apply Harmless.then_returned hrun
          apply Harmless.then_returned (insertElement_run _ _ _)
          exact Harmless.sendOK rfl
        · exact Harmless.then_raised hrun .refl
      · exact fun _ => Harmless.sendOK rfl

/-! ## DELE -/

/-- The file a DELE removes: it is no directory, and the path of its parent
leads to one. -/
def Deletable (session : Session) (s : ServerState) (path : Text) : Prop :=
  ∀ el, s.elements.lookup path = some el →
    s.disk.isDirectory el.absolutePath = false ∧
      (parentPath el.absolutePath = session.userPath ∨
        s.disk.isDirectory (parentPath el.absolutePath) = true)

/-- What leads to a directory still does when other objects have come or gone. -/
theorem isSome_status_of_isDirectory {disk disk' : Disk} {text : Text}
    (hdirs : ∀ path, disk'.tree.isDir path = disk.tree.isDir path)
    (hdir : disk.isDirectory text = true) : (disk'.tree.status text).isSome = true := by
  rw [Disk.isDirectory, Option.any_eq_true] at hdir
  obtain ⟨node, hstatus, hnode⟩ := hdir
  obtain ⟨path, hresolve, hpath⟩ := disk.tree.resolve_of_status hstatus
  rw [FileTree.status, FileTree.resolve_congr hdirs, hresolve, Option.bind_some]
  apply disk'.tree.isSome_of_isDir
  rw [hdirs, FileTree.isDir, hpath]
  exact hnode

theorem removeFile_harmless (hrecovered : start.recovered = true)
    (hidle : start.database.inTransaction = false)
    (hdeletable : ∀ path, Validator.validatePath message.path = some path →
      Deletable session start path) :
    Harmless placement start start (removeFile session message) := by
  apply Harmless.then_returned (recoverIfNeeded_of_recovered session start hrecovered)
  apply Harmless.orRaise .refl
  intro h _
  apply Harmless.orRaise .refl
  intro path hpath
  apply Harmless.read
  cases hlookup : start.elements.lookup path with
  | none => exact Harmless.sendOK rfl
  | some el =>
      obtain ⟨hfile, hparent⟩ := hdeletable path hpath el hlookup
      apply Harmless.read
      apply Harmless.ite
      · intro _
        rcases forget_cases session start el.relativePath with ⟨-, hrun⟩ | ⟨hopen, -⟩
        · apply Harmless.then_returned hrun
          exact Harmless.sendOK rfl
        · simp [hidle] at hopen
      intro _
      apply Harmless.ite
      · exact fun _ => Harmless.refuse .refl
      intro _
      rcases saveParent_cases session start (parentPath el.absolutePath) with
        ⟨entry, hrun, hentry⟩ | ⟨-, -, hrun⟩
      · apply Harmless.then_returned hrun
        rcases SystemCall.remove_cases el.absolutePath start.disk with
          ⟨place, hresolve, hsome, hplace, hremove, -⟩ | ⟨hremove, -⟩ | ⟨errno, hremove, -⟩
        · apply Harmless.then_returned (onDisk_of_returned start hremove)
          apply Harmless.ite
          · simp
          intro _
          -- the file is gone; from here on nothing fails
          have hnotDir : start.disk.tree.isDir place = false := by
            obtain ⟨node, hnode⟩ := Option.isSome_iff_exists.mp hsome
            have hstatus : start.disk.status el.absolutePath = some node := by
              simp [Disk.status, FileTree.status, hresolve, hnode]
            rw [Disk.isDirectory, hstatus] at hfile
            rw [FileTree.isDir, hnode]
            exact hfile
          have hdirs := start.disk.isDir_unlink_file hplace hnotDir hsome
          have hreset : ∃ disk, resetParent session (parentPath el.absolutePath) entry
              (start.withDisk (start.disk.unlink place)) =
                .returned () (start.withDisk disk) := by
            apply resetParent_returns
            intro hne
            rw [(DirectoryEntry.load_eq_some (hentry hne)).2.1]
            rcases hparent with hparent | hparent
            · exact absurd hparent hne
            · exact isSome_status_of_isDirectory hdirs hparent
          obtain ⟨disk, hreset⟩ := hreset
          apply Harmless.then_returned hreset
          rcases forget_cases session (start.withDisk disk) el.relativePath with
            ⟨-, hrun⟩ | ⟨hopen, -⟩
          · apply Harmless.then_returned hrun
            exact Harmless.sendOK rfl
          · simp [ServerState.withDisk, hidle] at hopen
        · apply Harmless.then_returned (onDisk_of_returned start hremove)
          apply Harmless.ite
          · exact fun _ => Harmless.raise (Unchanged.of_same rfl rfl rfl)
          · simp
        · exact Harmless.then_raised (onDisk_of_raised start hremove)
            (Unchanged.of_same rfl rfl rfl)
      · exact Harmless.then_raised hrun .refl

/-! ## RMD -/

/-- The directory an RMD removes: it is not the root nor named by a dot or a
dot-dot, and without it the path of the parent still leads somewhere. -/
def Removable (session : Session) (s : ServerState) (path : Text) : Prop :=
  ∀ el place, s.elements.lookup path = some el →
    s.disk.tree.resolve el.absolutePath = some place → s.disk.tree.isDir place = true →
    place ≠ [] ∧ SystemCall.lastName el.absolutePath ≠ some dot ∧
      SystemCall.lastName el.absolutePath ≠ some dotDot ∧
      (parentPath (session.userPath ++ path) = session.userPath ∨
        ((s.disk.tree.delete place).status (parentPath (session.userPath ++ path))).isSome = true)

theorem removeDir_harmless (hrecovered : start.recovered = true)
    (hidle : start.database.inTransaction = false)
    (hremovable : ∀ path, Validator.validatePath message.path = some path →
      Removable session start path) :
    Harmless placement start start (removeDir session message) := by
  apply Harmless.then_returned (recoverIfNeeded_of_recovered session start hrecovered)
  apply Harmless.orRaise .refl
  intro path hpath
  apply Harmless.read
  cases hlookup : start.elements.lookup path with
  | none => exact Harmless.sendOK rfl
  | some el =>
      apply Harmless.read
      apply Harmless.ite
      · intro _
        rcases forget_cases session start el.relativePath with ⟨-, hrun⟩ | ⟨hopen, -⟩
        · apply Harmless.then_returned hrun
          exact Harmless.sendOK rfl
        · simp [hidle] at hopen
      intro _
      apply Harmless.ite
      · exact fun _ => Harmless.refuse .refl
      intro _
      rcases saveParent_cases session start (parentPath (session.userPath ++ path)) with
        ⟨entry, hrun, hentry⟩ | ⟨-, -, hrun⟩
      · apply Harmless.then_returned hrun
        rcases SystemCall.listBelow_cases el.absolutePath start.disk with
          ⟨place, hresolve, hdir, hlist⟩ | ⟨errno, hlist⟩
        · apply Harmless.then_returned (onDisk_of_returned start hlist)
          apply Harmless.read
          apply Harmless.orRaise (Unchanged.of_same rfl rfl rfl)
          intro elementsToRemove _
          obtain ⟨hroot, hdot, hdotDot, hparent⟩ := hremovable path hpath el place hlookup
            hresolve hdir
          have hremove := SystemCall.removeAll_of_isDir hresolve hdir hroot hdot hdotDot
          apply Harmless.then_returned (onDisk_of_returned (start.withDisk start.disk) hremove)
          apply Harmless.ite
          · simp
          intro _
          -- the directory is gone; from here on nothing fails
          let gone := start.withDisk (start.disk.unlink place)
          obtain ⟨hdisk, hconnection, hidle', -⟩ :=
            forgottenAll_frame session gone elementsToRemove
          apply Harmless.then_returned (forgetAll_of_idle session gone elementsToRemove hidle)
          rcases forget_cases session (gone.forgottenAll session elementsToRemove)
            el.relativePath with ⟨-, hrun⟩ | ⟨hopen, -⟩
          · apply Harmless.then_returned hrun
            let forgotten := (gone.forgottenAll session elementsToRemove).forgotten session
              el.relativePath
            have hdisk' : forgotten.disk = start.disk.unlink place := hdisk
            have hconnection' : forgotten.connection = start.connection := hconnection
            have hreset : ∃ disk, resetParent session (parentPath (session.userPath ++ path))
                entry forgotten = .returned () (forgotten.withDisk disk) := by
              apply resetParent_returns
              intro hne
              rw [(DirectoryEntry.load_eq_some (hentry hne)).2.1]
              rcases hparent with hparent | hparent
              · exact absurd hparent hne
              · rwa [hdisk', Disk.unlink, Disk.tree_change, FileTree.isSome_status_retime]
            obtain ⟨disk, hreset⟩ := hreset
            apply Harmless.then_returned hreset
            exact Harmless.sendOK (congrArg Connection.outgoing hconnection')
          · rw [hidle'] at hopen
            exact absurd hopen (by simp [gone, ServerState.withDisk, hidle])
        · exact Harmless.then_raised (onDisk_of_raised start hlist)
            (Unchanged.of_same rfl rfl rfl)
      · exact Harmless.then_raised hrun .refl

/-! ## MKD -/

/-- The directory an MKD makes or re-times: it is there already, or its path is
canonical, can be cut at the user's folder and is not too long. -/
def Makeable (session : Session) (s : ServerState) (path : Text) : Prop :=
  s.disk.present (session.userPath ++ path) = true ∨
    (Canonical path ∧ PathFits (session.userPath ++ path) ∧
      (DirectoryEntry.relativePathOf session.userPath (session.userPath ++ path)).isSome = true)

/-- The last part of MKD, once there is a directory. -/
theorem finishDir_harmless {s : ServerState} {path : Text} {el : Option DirectoryEntry}
    {lastWriteTime parent : Text} {parentExists : Bool} {entry newDir : DirectoryEntry}
    (hsame : s.connection.outgoing = start.connection.outgoing)
    (hidle : s.database.inTransaction = false)
    (hnewDir : (s.disk.tree.status newDir.absolutePath).isSome = true)
    (hentry : parentExists = true → parent ≠ session.userPath →
      (s.disk.tree.status entry.absolutePath).isSome = true) :
    Harmless placement start s (do
      let newDir ← setTimeToFile session newDir lastWriteTime
      when parentExists (resetParent session parent entry)
      track session path el newDir
      sendOK session .created) := by
  rcases setTimeToFile_cases session s newDir lastWriteTime with
    ⟨place, node, hresolve, hnode, hrun⟩ | ⟨hnone, -⟩
  · apply Harmless.then_returned hrun
    have hreset : ∃ disk, when parentExists (resetParent session parent entry)
        (s.withDisk (s.disk.setTime place (session.platform.getTime lastWriteTime))) =
          .returned () (s.withDisk disk) := by
      cases parentExists with
      | false => exact ⟨_, rfl⟩
      | true =>
          apply resetParent_returns
          intro hne
          exact (FileTree.isSome_status_retime _ _ _ _).trans (hentry rfl hne)
    obtain ⟨disk, hreset⟩ := hreset
    apply Harmless.then_returned hreset
    rcases track_cases session (s.withDisk disk) path el { newDir with
        lastWriteTime := session.platform.putTime (session.platform.getTime lastWriteTime) } with
      ⟨-, hrun⟩ | ⟨hopen, -⟩
    · apply Harmless.then_returned hrun
      apply Harmless.sendOK
      cases el <;> exact hsame
    · simp [ServerState.withDisk, hidle] at hopen
  · simp [hnone] at hnewDir

theorem makeDir_harmless (hrecovered : start.recovered = true)
    (hidle : start.database.inTransaction = false)
    (hmakeable : ∀ path, Validator.validatePath message.path = some path →
      Makeable session start path) :
    Harmless placement start start (makeDir session message) := by
  apply Harmless.then_returned (recoverIfNeeded_of_recovered session start hrecovered)
  apply Harmless.orRaise .refl
  intro path hpath
  apply Harmless.ensure .refl
  intro _
  apply Harmless.read
  apply Harmless.read
  apply Harmless.ite
  · exact fun _ => Harmless.sendOK rfl
  intro _
  apply Harmless.read
  have hparentEntry : (∃ entry, saveExistingParent session
        (start.disk.present (parentPath (session.userPath ++ path)))
        (parentPath (session.userPath ++ path)) start = .returned entry start ∧
        (start.disk.present (parentPath (session.userPath ++ path)) = true →
          parentPath (session.userPath ++ path) ≠ session.userPath →
          entry.absolutePath = parentPath (session.userPath ++ path))) ∨
      saveExistingParent session (start.disk.present (parentPath (session.userPath ++ path)))
        (parentPath (session.userPath ++ path)) start = .raised .standard start := by
    cases hexists : start.disk.present (parentPath (session.userPath ++ path)) with
    | false => exact .inl ⟨{}, rfl, by simp⟩
    | true =>
        rcases saveParent_cases session start (parentPath (session.userPath ++ path)) with
          ⟨entry, hrun, hentry⟩ | ⟨-, -, hrun⟩
        · exact .inl ⟨entry, hrun, fun _ hne => (DirectoryEntry.load_eq_some (hentry hne)).2.1⟩
        · exact .inr hrun
  rcases hparentEntry with ⟨entry, hrun, hentry⟩ | hrun
  · apply Harmless.then_returned hrun
    apply Harmless.read
    cases hpresent : start.disk.present (session.userPath ++ path) with
    | true =>
        apply Harmless.then_returned rfl
        apply Harmless.read
        apply Harmless.ite
        · exact fun _ => Harmless.refuse .refl
        intro _
        rcases loadEntry_cases session start session.userPath (session.userPath ++ path) with
          ⟨newDir, hload, hrun⟩ | ⟨-, hrun⟩
        · apply Harmless.then_returned hrun
          obtain ⟨-, habsolute, node, hstatus, -⟩ := DirectoryEntry.load_eq_some hload
          apply finishDir_harmless rfl hidle
          · rw [habsolute, hstatus]
            rfl
          · intro hexists hne
            rw [hentry hexists hne]
            exact hexists
        · exact Harmless.then_raised hrun .refl
    | false =>
        have hmissing := hmakeable path hpath
        rw [Makeable, hpresent] at hmissing
        obtain ⟨hcanonical, hfits, hrelative⟩ := hmissing.resolve_left (by simp)
        obtain ⟨names, hne, hnames, rfl⟩ := (canonical_iff path).mp hcanonical
        obtain ⟨name, rest, rfl⟩ := List.exists_cons_of_ne_nil hne
        have hplain : PlainPath (placement.inside (name :: rest)) :=
          Placement.inside_plain hnames
        have hnone : start.disk.tree.node (placement.inside (name :: rest)) = none := by
          rw [← Placement.status_inside _ hnames]
          exact Disk.present_eq_false_iff.mp hpresent
        have hparent := placement.parentPath_inside hnames
        rcases SystemCall.createDirectories_render hplain Placement.inside_ne start.disk with
          ⟨disk, hmake, hmade⟩ | ⟨hmake, -⟩ | ⟨disk, -, hlong, -⟩
        · rw [← placement.absolutePath_eq] at hmake
          apply Harmless.then_returned (onDisk_of_returned start hmake)
          apply Harmless.read
          -- the directories are made; from here on nothing fails
          have hdir := hmade.isDir_of_missing hnone
          have hstatus : (disk.tree.status
              (session.userPath ++ render (name :: rest))).isSome = true := by
            rw [placement.status_inside _ hnames]
            exact disk.tree.isSome_of_isDir hdir
          apply Harmless.ite
          · intro hnotDir
            rw [ServerState.withDisk, Disk.isDirectory, Disk.status,
              placement.status_inside _ hnames] at hnotDir
            simp [FileTree.isDir] at hdir hnotDir
            simp [hdir] at hnotDir
          intro _
          have hloads : ∃ newDir, DirectoryEntry.load session.platform session.userPath
              (session.userPath ++ render (name :: rest)) disk.tree = some newDir :=
            DirectoryEntry.load_isSome hrelative hstatus
          obtain ⟨newDir, hload⟩ := hloads
          rcases loadEntry_cases session (start.withDisk disk) session.userPath
            (session.userPath ++ render (name :: rest)) with ⟨newDir, hload', hrun⟩ | ⟨hload', -⟩
          · apply Harmless.then_returned hrun
            obtain ⟨-, habsolute, -⟩ := DirectoryEntry.load_eq_some hload'
            have hsame : (start.withDisk disk).connection.outgoing =
                start.connection.outgoing := rfl
            have hidle' : (start.withDisk disk).database.inTransaction = false := hidle
            apply finishDir_harmless hsame hidle'
            · rw [habsolute]
              exact hstatus
            · intro hexists hne
              rw [hentry hexists hne, hparent, placement.status_inside _ hnames.tail]
              apply hmade.isSome
              rw [hparent] at hexists
              rw [← placement.status_inside _ hnames.tail]
              exact hexists
          · exact absurd (hload'.symm.trans hload) (by simp)
        · rw [← placement.absolutePath_eq] at hmake
          exact Harmless.then_raised (onDisk_of_raised start hmake)
            (Unchanged.of_same rfl rfl rfl)
        · rw [placement.absolutePath_eq] at hfits
          exact absurd hfits hlong
  · exact Harmless.then_raised hrun .refl

/-! ## STOR -/

/-- The file a STOR stores: its path is canonical, the name of its temporary file
is new, and nothing keeps it from its place. -/
structure Storable (placement : Placement session) (s : ServerState) (path : Text) : Prop where
  canonical : Canonical path
  new : s.disk.tree.node (placement.tmpFile (tmpBytes session s)) = none
  unhindered : ∀ names, PlainPath names → path = render names → ¬ Stuck placement s names

/-- What is left of a new temporary file is nothing. -/
theorem Rejected.unchanged {bytes : List Byte} {s : ServerState}
    (hnew : start.disk.tree.node (placement.tmpFile bytes) = none)
    (h : Rejected start (placement.tmpFile bytes) s) : Unchanged placement start s := by
  constructor
  · intro path hpath
    exact h.beside path (Placement.not_suffix_tmpFile hpath bytes)
  · intro path hpath hne
    by_cases htmp : path = placement.tmpFile bytes
    · subst htmp
      rcases h.file with hgone | hsame
      · rw [hgone, hnew]
      · exact hsame
    · apply h.beside
      intro hsuffix
      rcases List.suffix_cons_iff.mp hsuffix with heq | habove
      · exact htmp heq
      · exact hne (habove.eq_of_length (Nat.le_antisymm habove.length_le hpath.length_le))
  · rw [h.records.database]
  · exact h.records.elements

theorem storeFile_harmless (hrecovered : start.recovered = true)
    (hidle : start.database.inTransaction = false)
    (hstorable : ∀ path, Validator.validatePath message.path = some path →
      Storable placement start path) :
    Harmless placement start start (storeFile session message) := by
  cases hpath : Validator.validatePath message.path with
  | none =>
      apply Harmless.then_returned (recoverIfNeeded_of_recovered session start hrecovered)
      apply Harmless.orRaise .refl
      intro h _
      rw [hpath]
      exact Harmless.then_raised rfl .refl
  | some path =>
      have hnew := (hstorable path hpath).new
      rcases storeFile_ends placement hrecovered hidle
        (fun path hpath => (hstorable path hpath).canonical) with
          ⟨names, taken, s', -, -, hstored, hends⟩ | ⟨exception, s', hraised, hrejected⟩ |
            ⟨names, s', hplain, hraised, hnames, hstuck⟩
      · obtain ⟨h, rest, -, -, hdelivered⟩ := hstored.delivered
        have hsame : s'.connection.outgoing = start.connection.outgoing := by
          rw [hdelivered.connection]
        rcases hends with hreturned | hraised
        · apply Meets.ends_returned hreturned
          refine .inr ⟨[okMessage session .created], ?_, okMessage session .created, by simp,
            .inl rfl⟩
          simp [ServerState.sent, Connection.sent, hsame]
        · exact Meets.ends_raised hraised (.inr ⟨rfl, _, rfl, rfl⟩)
      · exact Meets.ends_raised hraised (.inl (hrejected.unchanged hnew))
      · exact absurd hstuck ((hstorable _ hnames).unhindered names hplain rfl)

/-! ## RETR -/

/-- Every element a RETR sends is up to date. -/
def Retrievable (session : Session) (message : ClientMessage) (s : ServerState) : Prop :=
  ∀ mac ∈ requestedMacs session message s, ∀ row ∈ s.database.rows,
    row.isOf session.username mac = true → ∀ entry, rowEntry session mac row = some entry →
      UpToDate session s.disk mac entry

theorem SameStores.unchanged {s : ServerState} (h : SameStores start s) :
    Unchanged placement start s := Unchanged.of_same h.disk h.rows h.elements

theorem ofStores_sameStores : OfStores (SameStores start) := fun _ _ h hs =>
  ⟨h.disk.trans hs.disk, h.rows.trans hs.rows, h.elements.trans hs.elements,
    h.recovered.trans hs.recovered⟩

theorem retrieveUserData_harmless (hretrievable : Retrievable session message start) :
    Harmless placement start start (retrieveUserData session message) := by
  have hrows : ∀ mac ∈ requestedMacs session message start, ∀ row ∈ start.database.rows,
      row.isOf session.username mac = true → ∀ entry, rowEntry session mac row = some entry →
        ∀ s, SameStores start s → UpToDate session s.disk mac entry ∨
          SameStores start (s.without session mac entry.relativePath) := by
    intro mac hmac row hrow hof entry hentry s hs
    rw [hs.disk]
    exact .inl (hretrievable mac hmac row hrow hof entry hentry)
  apply (ofStores_sameStores.retrieveUserData ⟨rfl, rfl, rfl, rfl⟩ hrows).consequence
  · exact fun _ hs => hs
  · exact fun _ _ hs => .inl hs.unchanged
  · exact fun _ _ hs => .inl hs.unchanged

end Handlers

/-! ## A call -/

/-- The condition under which a request that fails changes nothing. -/
def Atomic (placement : Placement session) (s : ServerState) (message : ClientMessage) : Prop :=
  match message.type with
  | .STOR => ∀ path, Validator.validatePath message.path = some path → Storable placement s path
  | .DELE => ∀ path, Validator.validatePath message.path = some path → Deletable session s path
  | .MKD => ∀ path, Validator.validatePath message.path = some path → Makeable session s path
  | .RMD => ∀ path, Validator.validatePath message.path = some path → Removable session s path
  | .RETR => Retrievable session message s
  | _ => True

theorem dispatch_harmless {start : ServerState} {message : ClientMessage}
    (hrecovered : start.recovered = true) (hidle : start.database.inTransaction = false)
    (hatomic : Atomic placement start message) :
    Harmless placement start start (dispatch session message) := by
  unfold dispatch
  unfold Atomic at hatomic
  cases htype : message.type with
  | PROB => exact probe_harmless hrecovered
  | STOR =>
      rw [htype] at hatomic
      exact storeFile_harmless hrecovered hidle hatomic
  | DELE =>
      rw [htype] at hatomic
      exact removeFile_harmless hrecovered hidle hatomic
  | MKD =>
      rw [htype] at hatomic
      exact makeDir_harmless hrecovered hidle hatomic
  | RMD =>
      rw [htype] at hatomic
      exact removeDir_harmless hrecovered hidle hatomic
  | RETR =>
      rw [htype] at hatomic
      exact retrieveUserData_harmless hatomic
  | NOOP | DATA | AUTH | unknown => exact Harmless.refuse .refl

/-- The condition does not depend on what is still to come. -/
theorem Atomic.withIncoming {s : ServerState} {message : ClientMessage}
    (hatomic : Atomic placement s message) (incoming : List ClientMessage) :
    Atomic placement (s.withIncoming incoming) message := by
  unfold Atomic at hatomic ⊢
  cases htype : message.type with
  | STOR =>
      rw [htype] at hatomic
      intro path hpath
      obtain ⟨hcanonical, hnew, hunhindered⟩ := hatomic path hpath
      exact ⟨hcanonical, hnew, hunhindered⟩
  | _ =>
      rw [htype] at hatomic
      exact hatomic

/-- What a failed request leaves: if it was not answered by OK or SEND, and it is
not that the final OK could not be sent, then nothing has changed. -/
def FailsCleanly (placement : Placement session) (s : ServerState) :
    Exit ServerState ServerException Unit → Prop
  | .returned _ s' => ¬ Answered s s' → Unchanged placement s s'
  | .raised exception s' => ¬ FinalOkLost exception s' → Unchanged placement s s'

theorem handleException_harmless {start s : ServerState} (exception : ServerException)
    (hends : Unchanged placement start s ∨ FinalOkLost exception s) :
    Meets (fun s' => s' = s) (handleException session exception)
      (fun _ s' => Unchanged placement start s')
      (fun exception s' => Unchanged placement start s' ∨ FinalOkLost exception s') := by
  cases exception with
  | protocolManager code =>
      have hunchanged := hends.resolve_right (by simp [FinalOkLost])
      cases code with
      | unexpected => exact Meets.ends_returned rfl hunchanged
      | client => exact Meets.ends_returned rfl hunchanged
      | _ => exact Meets.ends_raised rfl (.inl hunchanged)
  | socket code => exact Meets.ends_raised rfl hends
  | _ =>
      have hunchanged := hends.resolve_right (by simp [FinalOkLost])
      simp only [handleException]
      rcases refuse_cases (α := Unit) session s _ _ with hrun | hrun
      · exact Meets.ends_raised hrun (.inl (hunchanged.sent _))
      · exact Meets.ends_raised hrun (.inl (hunchanged.failed _))

theorem receive_failsCleanly {s : ServerState} {message : ClientMessage}
    {pending : List ClientMessage} (hsettled : Settled True s)
    (hincoming : s.connection.incoming = message :: pending)
    (hatomic : Atomic placement s message) :
    FailsCleanly placement s (receive session s) := by
  have hmeets : Meets (fun s' => s' = s) (receive session)
      (fun _ s' => Unchanged placement s s' ∨ Answered s s')
      (fun exception s' => Unchanged placement s s' ∨ FinalOkLost exception s') := by
    apply Meets.then_returned (recvMessage_run s hincoming)
    have hread : Unchanged placement s (s.withIncoming pending) := Unchanged.of_same rfl rfl rfl
    apply Meets.ite
    · intro _
      rcases sendServerMessage_cases (s.withIncoming pending) _ with hrun | hrun
      · exact Meets.then_returned hrun (Meets.ends_raised rfl (.inl (hread.sent _)))
      · exact Meets.then_raised hrun (.inl (hread.failed _))
    · intro _
      have hrecovered : (s.withIncoming pending).recovered = true := hsettled.recovered trivial
      have hharmless := dispatch_harmless hrecovered hsettled.idle (hatomic.withIncoming pending)
      apply Meets.catching
      · apply hharmless.consequence
        · exact fun _ hs => hs
        · exact fun _ s' hends => hends.imp_left hread.trans
        · exact fun _ s' hends => hends.imp_left hread.trans
      · intro exception
        apply Meets.of_each
        intro s' hends
        apply (handleException_harmless exception hends).consequence
        · exact fun _ hs => hs
        · exact fun _ _ hunchanged => .inl hunchanged
        · exact fun _ _ hends => hends
  have hends := hmeets s rfl
  cases hrun : receive session s with
  | returned value s' =>
      rw [hrun] at hends
      exact fun hanswered => hends.resolve_right hanswered
  | raised exception s' =>
      rw [hrun] at hends
      exact fun hlost => hends.resolve_right hlost

/-- In every run of a session that has recovered in which each request meets the
condition, a request that is not answered by OK or SEND changes nothing. -/
theorem failed_request_changes_nothing {start s : ServerState} {message : ClientMessage}
    {pending : List ClientMessage} (placement : Placement session) (hstart : Settled True start)
    (hreached : Reached session (Atomic placement) start s)
    (hincoming : s.connection.incoming = message :: pending)
    (hatomic : Atomic placement s message) :
    FailsCleanly placement s (receive session s) :=
  receive_failsCleanly (hreached.settled hstart) hincoming hatomic

/-- A file that is announced with a byte it does not have. -/
def shortStor : ServerState where
  disk := annaDisk
  database := {}
  elements := ∅
  recovered := true
  random _ := 0
  connection := { incoming := storRequest "/f".toList 1 }

theorem failed_request_changes_nothing_short :
    FailsCleanly annaPlacement shortStor (receive annaSession shortStor) := by
  apply failed_request_changes_nothing annaPlacement ⟨⟨rfl, fun _ => rfl⟩, rfl⟩ .start rfl
  intro path hpath
  have heq : path = "/f".toList :=
    Option.some.inj (hpath.symm.trans (by decide +kernel))
  subst heq
  refine ⟨by decide, by decide +kernel, ?_⟩
  intro names hnames hpath
  have hplain : PlainPath ["f".toList] := by
    intro name hname
    rw [List.mem_singleton] at hname
    subst hname
    decide
  have heq : names = ["f".toList] := (render_injective hplain hnames hpath).symm
  subst heq
  rintro (htemp | hblocked | ⟨hne, -⟩ | hdir | hlong)
  · exact absurd htemp (by decide +kernel)
  · exact SystemCall.not_blocked_of_isDir (by decide +kernel) hblocked
  · exact hne rfl
  · exact absurd hdir (by decide +kernel)
  · exact hlong (by decide +kernel)

/-- A directory is made, and then a file is to be stored in its place. -/
def overDirectory : ServerState :=
  (receive annaSession (startSession annaDisk {}
    (mkdRequest "/d".toList :: storRequest "/d".toList 0))).state

/-- A file that cannot be moved to its place stays in the temporary directory. -/
theorem not_failed_request_changes_nothing :
    ¬ ∀ (session : Session) (placement : Placement session) (start s : ServerState),
      Settled False start → Reached session (fun _ _ => True) start s → s.recovered = true →
      FailsCleanly placement s (receive session s) := by
  intro hclaim
  have hcall : receive annaSession (startSession annaDisk {} _) = .returned () overDirectory :=
    Exit.eq_returned_of_returns (by decide +kernel)
  have hends := hclaim annaSession annaPlacement _ overDirectory ⟨⟨rfl, False.elim⟩, rfl⟩
    (.call .start rfl trivial hcall) (by decide +kernel)
  have hnone : overDirectory.disk.tree.node (annaPlacement.tmpFile (List.replicate 8 0)) = none := by
    decide +kernel
  have hsome : ((receive annaSession overDirectory).state.disk.tree.node
      (annaPlacement.tmpFile (List.replicate 8 0))).isSome = true := by
    decide +kernel
  have hexception : (receive annaSession overDirectory).exception =
      some (.protocolManager .internal) := by
    decide +kernel
  cases hrun : receive annaSession overDirectory with
  | returned value s' => simp [hrun, Exit.exception] at hexception
  | raised exception s' =>
      rw [hrun] at hends hexception hsome
      obtain rfl : exception = .protocolManager .internal := by
        simpa [Exit.exception] using hexception
      have hunchanged := hends (by simp [FinalOkLost])
      have hsame := hunchanged.temporary (annaPlacement.tmpFile (List.replicate 8 0))
        (List.suffix_cons _ _) (List.cons_ne_self _ _)
      rw [Exit.state_raised] at hsome
      rw [hsame, hnone] at hsome
      simp at hsome

end PdsBackup.Server
