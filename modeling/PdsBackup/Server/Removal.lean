import PdsBackup.Common.FolderNames
import PdsBackup.Server.Accounts
import PdsBackup.Server.Concurrency
import PdsBackup.Server.SavedFiles

/-!
# The removal of a user

The options `--removeU` and `--delete` of the server's main function.  The folders
of a user are not looked for on the disk: they are those of the addresses that
the table still has rows of.
-/

namespace PdsBackup.Server

open Procedure Transaction

/-- What the options of the main function work on. -/
structure Stores where
  passwords : State (List PasswordRow) Unit
  database : State (List Row) Unit
  disk : Disk


namespace Stores

def throwDatabase : Thrown DatabaseError Unit → ServerException
  | .database code => .database code
  | _ => .standard

def onPasswords {α : Type} (p : Passwords.Method Unit ServerException α) :
    Procedure Stores ServerException α :=
  within Stores.passwords (fun passwords s => { s with passwords }) throwPwd p

def onSavedFiles {α : Type} (p : SavedFiles.Method Unit Unit α) :
    Procedure Stores ServerException α :=
  within Stores.database (fun database s => { s with database }) throwDatabase p

def onDisk {α : Type} (p : SystemCall α) : Procedure Stores ServerException α :=
  within Stores.disk (fun disk s => { s with disk }) (fun _ => .standard) p

end Stores

section Options

variable (basePath : Text) (faults : Nat → Faults)

def backupFolderName (username mac : Text) : Text :=
  basePath ++ '/' :: Validator.folderName username mac

def removeFolders (username : Text) : List Text → Procedure Stores ServerException Unit
  | [] => pure ()
  | mac :: macAddrs => do
      let _ ← Stores.onDisk (SystemCall.removeAll (backupFolderName basePath username mac))
      removeFolders username macAddrs

/-- What both options do for a user.  The calls of the database are numbered. -/
def removeBackups (username : Text) : Procedure Stores ServerException Unit := do
  let macAddrs ← Stores.onSavedFiles (SavedFiles.getAllMacAddresses (faults 1) username)
  Stores.onSavedFiles (SavedFiles.removeAll (faults 2) username)
  removeFolders basePath username macAddrs

/-- `--removeU` -/
def removeU (username : Text) : Procedure Stores ServerException Unit := do
  Stores.onPasswords (Passwords.removeUser (faults 0) username)
  removeBackups basePath faults username

/-- `--delete`, with `--mac` or without. -/
def delete (username : Text) (mac : Option Text) : Procedure Stores ServerException Unit :=
  match mac with
  | some mac => do
      Stores.onSavedFiles (SavedFiles.removeAllOf (faults 2) username mac)
      let _ ← Stores.onDisk (SystemCall.removeAll (backupFolderName basePath username mac))
      pure ()
  | none => removeBackups basePath faults username

end Options

/-! ## Folders -/

/-- Everything at and below a path is gone, and nothing else; the directory of the
path may have another time. -/
structure Cleared (path : Path) (disk disk' : Disk) : Prop where
  isDir : ∀ other, disk'.tree.isDir other = true ↔
    ¬ path <:+ other ∧ disk.tree.isDir other = true
  node : ∀ other, other ≠ path.tail → ¬ path <:+ other →
    disk'.tree.node other = disk.tree.node other

theorem Cleared.of_missing {disk : Disk} {path : Path} (hnone : disk.tree.node path = none) :
    Cleared path disk disk := by
  constructor
  · intro other
    apply (and_iff_right_of_imp ?_).symm
    intro hdir hsuffix
    have hsome := disk.tree.isSome_of_suffix hsuffix (disk.tree.isSome_of_isDir hdir)
    simp [hnone] at hsome
  · exact fun _ _ _ => rfl

theorem Cleared.unlink {disk : Disk} {name : Text} {parent : Path}
    (hsome : (disk.tree.node (name :: parent)).isSome = true) :
    Cleared (name :: parent) disk (disk.unlink (name :: parent)) := by
  constructor
  · intro other
    rw [FileTree.isDir_iff_shape, disk.shape_unlink hsome, FileTree.isDir_iff_shape]
    by_cases hsuffix : name :: parent <:+ other
    · simp [hsuffix]
    · simp [hsuffix]
  · intro other hother hsuffix
    rw [disk.node_unlink (show other ≠ parent from hother), if_neg hsuffix]

theorem removeAll_cleared {path : Path} (hpath : PlainPath path) (hne : path ≠ []) (disk : Disk) :
    ∃ count disk', SystemCall.removeAll (render path) disk = .returned count disk' ∧
      Cleared path disk disk' := by
  obtain ⟨name, parent, rfl⟩ := List.exists_cons_of_ne_nil hne
  have hstatus := disk.tree.status_render hpath hne
  rcases disk.tree.shape_cases (name :: parent) with hnone | ⟨content, mtime, hfile⟩ | hdir
  · refine ⟨0, disk, ?_, Cleared.of_missing hnone⟩
    cases hresolve : disk.tree.resolve (render (name :: parent)) with
    | none => simp [SystemCall.removeAll, hresolve]
    | some place =>
        obtain rfl := FileTree.eq_of_resolve_render hpath hne hresolve
        simp [SystemCall.removeAll, hresolve, hnone]
  · have hsome : (disk.tree.node (name :: parent)).isSome = true := by
      rw [hfile]
      rfl
    have hresolve := disk.tree.resolve_render_of_isDir hpath (disk.tree.isDir_parent hsome)
    refine ⟨1, _, ?_, Cleared.unlink hsome⟩
    simp [SystemCall.removeAll, hresolve, hfile]
  · exact ⟨_, _, SystemCall.removeAll_render hpath hne hdir,
      Cleared.unlink (disk.tree.isSome_of_isDir hdir)⟩

/-- An address as the validator writes it. -/
def CanonicalMac (mac : Text) : Prop := ∃ raw, Validator.validateMacAddress raw = some mac

section Folders

variable {base : Path} {username : Text}

theorem folder_plain (hbase : PlainPath base) (husername : Validator.validateUsername username = true)
    {mac : Text} (hmac : CanonicalMac mac) :
    PlainPath (Validator.folderName username mac :: base) := by
  obtain ⟨raw, hraw⟩ := hmac
  intro name hname
  cases hname with
  | head => exact Validator.plainName_folderName husername hraw
  | tail _ hname => exact hbase name hname

/-- The folders of some addresses are gone, and nothing else. -/
structure FoldersCleared (base : Path) (username : Text) (macAddrs : List Text) (disk disk' : Disk) :
    Prop where
  isDir : ∀ other, disk'.tree.isDir other = true ↔
    (∀ mac ∈ macAddrs, ¬ Validator.folderName username mac :: base <:+ other) ∧
      disk.tree.isDir other = true
  node : ∀ other, other ≠ base →
    (∀ mac ∈ macAddrs, ¬ Validator.folderName username mac :: base <:+ other) →
      disk'.tree.node other = disk.tree.node other

theorem removeFolders_run (hbase : PlainPath base)
    (husername : Validator.validateUsername username = true) {macAddrs : List Text}
    (hmacs : ∀ mac ∈ macAddrs, CanonicalMac mac) (s : Stores) :
    ∃ disk', removeFolders (render base) username macAddrs s = .returned () { s with disk := disk' } ∧
      FoldersCleared base username macAddrs s.disk disk' := by
  induction macAddrs generalizing s with
  | nil => exact ⟨s.disk, rfl, by simp, fun _ _ _ => rfl⟩
  | cons mac macAddrs ih =>
      have hfolder := folder_plain hbase husername (hmacs mac List.mem_cons_self)
      obtain ⟨count, disk₁, hremove, hcleared⟩ :=
        removeAll_cleared hfolder (List.cons_ne_nil _ _) s.disk
      obtain ⟨disk', hrest, hfolders⟩ := ih
        (fun other hother => hmacs other (List.mem_cons_of_mem mac hother)) { s with disk := disk₁ }
      have hfirst : Stores.onDisk (SystemCall.removeAll
          (backupFolderName (render base) username mac)) s =
          .returned count { s with disk := disk₁ } := within_of_returned _ _ _ hremove
      refine ⟨disk', ?_, ?_, ?_⟩
      · rw [removeFolders, bind_of_returned hfirst]
        exact hrest
      · intro other
        rw [hfolders.isDir, hcleared.isDir, List.forall_mem_cons]
        tauto
      · intro other hother hnone
        rw [List.forall_mem_cons] at hnone
        rw [hfolders.node other hother hnone.2, hcleared.node other hother hnone.1]

/-! ## Addresses -/

theorem visitAll_addresses {ε : Type} (macAddrs macs : List Text) :
    visitAll (ε := ε) (fun macAddrs mac => pure (macAddrs ++ [cString mac])) macAddrs macs () =
      .returned (macAddrs ++ macs.map cString) () := by
  induction macs generalizing macAddrs with
  | nil => simp [visitAll]
  | cons mac macs ih =>
      rw [visitAll, pure_bind_apply, ih]
      simp

theorem cString_of_canonicalMac {mac : Text} (hmac : CanonicalMac mac) : cString mac = mac := by
  obtain ⟨raw, hraw⟩ := hmac
  apply cString_eq_self
  intro hmem
  cases Validator.mem_mac hraw hmem with
  | inl hcolon => exact absurd hcolon (by decide)
  | inr hhex => exact absurd hhex (by decide)

/-- The rows of a user are removed, and the folders of their addresses. -/
theorem removeBackups_run (hbase : PlainPath base)
    (husername : Validator.validateUsername username = true) {s : Stores}
    (hidle : s.database.inTransaction = false)
    (hmacs : ∀ row ∈ s.database.table, CanonicalMac row.mac) :
    ∃ macAddrs disk', removeBackups (render base) (fun _ => {}) username s =
        .returned () { s with
          database := { s.database with
            table := s.database.table.filter fun row => !decide (row.username = username) }
          disk := disk' } ∧
      FoldersCleared base username macAddrs s.disk disk' ∧
      ∀ mac, mac ∈ macAddrs ↔ ∃ row ∈ s.database.table, row.isOf username mac = true := by
  generalize hread : ((s.database.table.filter fun row => row.username = username).map
    Row.mac).eraseDups = read
  have hmem : ∀ mac, mac ∈ read ↔ ∃ row ∈ s.database.table, row.isOf username mac = true := by
    intro mac
    rw [← hread, List.mem_eraseDups]
    simp [Row.isOf, and_assoc]
  have hcanonical : ∀ mac ∈ read, CanonicalMac mac := by
    intro mac hmac
    obtain ⟨row, hrow, hof⟩ := (hmem mac).mp hmac
    simp only [Row.isOf, decide_eq_true_eq] at hof
    exact hof.2 ▸ hmacs row hrow
  have hcopied : read.map cString = read := by
    rw [List.map_congr_left fun mac hmac => cString_of_canonicalMac (hcanonical mac hmac)]
    exact List.map_id read
  have hreading : (SavedFiles.getAllMacAddresses {} username : SavedFiles.Method Unit Unit _)
      s.database = .returned read s.database := by
    apply reading_of_idle _ hidle
    rw [hread, visitAll_addresses, hcopied]
    rfl
  have hselect : Stores.onSavedFiles (SavedFiles.getAllMacAddresses {} username) s =
      .returned read s := within_of_returned _ _ _ hreading
  obtain ⟨disk', hfolders, hcleared⟩ := removeFolders_run hbase husername hcanonical
    { s with
      database := { s.database with
        table := s.database.table.filter fun row => !decide (row.username = username) } }
  refine ⟨read, disk', ?_, hcleared, hmem⟩
  have hdelete : Stores.onSavedFiles (SavedFiles.removeAll {} username) s = .returned () { s with
      database := { s.database with
        table := s.database.table.filter fun row => !decide (row.username = username) } } :=
    within_of_returned _ _ _ (writing_of_idle hidle rfl _)
  rw [removeBackups, bind_of_returned hselect, bind_of_returned hdelete]
  exact hfolders

end Folders

/-! ## Reachable tables -/

section Reachable

variable {session : Session} {message : ClientMessage}

/-- Whatever there is a row about is the session's, or there was a row about it. -/
def Extends (session : Session) (rows rows' : List Row) : Prop :=
  ∀ row' ∈ rows', (row'.username = session.username ∧ row'.mac = session.mac) ∨
    ∃ row ∈ rows, row.key = row'.key

theorem Fewer.extends {rows rows' : List Row} (h : Fewer rows rows') : Extends session rows rows' := by
  intro row' hrow'
  exact .inr (List.mem_map.mp (h.subset (List.mem_map_of_mem hrow')))

theorem Extends.of_fewer {rows rows' rows'' : List Row} (hfewer : Fewer rows rows')
    (h : Extends session rows' rows'') : Extends session rows rows'' := by
  intro row'' hrow''
  cases h row'' hrow'' with
  | inl hown => exact .inl hown
  | inr hold =>
      obtain ⟨row', hrow', hkey'⟩ := hold
      obtain ⟨row, hrow, hkey⟩ := List.mem_map.mp (hfewer.subset (List.mem_map_of_mem hrow'))
      exact .inr ⟨row, hrow, hkey.trans hkey'⟩

theorem Effect.extends {s s' : ServerState} (h : Effect session message s s') :
    Extends session s.database.rows s'.database.rows := by
  cases h with
  | nothing hsame => exact hsame.rows ▸ (Fewer.refl _).extends
  | retimed path entry hmem hsame => exact hsame.rows ▸ (Fewer.refl _).extends
  | forgot entries hsame => exact hsame.rows ▸ (Fewer.forgottenAll session entries s).extends
  | tracked path entry hpath hentry hsame =>
      rw [hsame.rows]
      cases s.elements.lookup path with
      | none =>
          intro row' hrow'
          cases List.mem_append.mp hrow' with
          | inl hold => exact .inr ⟨row', hold, rfl⟩
          | inr hnew =>
              rw [List.mem_singleton.mp hnew]
              exact .inl ⟨rfl, rfl⟩
      | some el => exact Fewer.update.extends
  | withdrew htype keep hrows helements hrecovered => exact hrows ▸ (Fewer.filter keep).extends

theorem receive_extends {s : ServerState} {pending : List ClientMessage}
    (hincoming : s.connection.incoming = message :: pending) :
    Extends session s.database.rows (receive session s).state.database.rows := by
  have hhandled : Handled session message s (receive session s).state := receive_handled hincoming
  cases hhandled with
  | skipped hsame => exact hsame.rows ▸ (Fewer.refl _).extends
  | direct hready heffect => exact heffect.extends
  | recovering start middle hstart hunrecovered hrecover heffect =>
      have hfewer := recoverFromDB_fewer.returned (Fewer.refl _) hrecover
      rw [hstart.rows] at hfewer
      exact heffect.extends.of_fewer hfewer
  | failing start middle exception hstart hunrecovered hrecover hsame =>
      have hfewer := recoverFromDB_fewer.raised (Fewer.refl _) hrecover
      rw [hstart.rows] at hfewer
      exact hsame.rows ▸ hfewer.extends

/-- However sessions of validated addresses take turns, rows are of such addresses. -/
theorem rows_canonicalMac {ι : Type} [DecidableEq ι] {sessions : ι → Session}
    {condition : ι → ServerState → ClientMessage → Prop} {start running : Running ι}
    (hsessions : ∀ index, CanonicalMac (sessions index).mac) (hempty : start.database.rows = [])
    (hruns : Runs sessions condition start running) :
    ∀ row ∈ running.database.rows, CanonicalMac row.mac := by
  induction hruns with
  | start => simp [hempty]
  | @call running index message pending hruns hopen hincoming hmeets ih =>
      intro row' hrow'
      cases receive_extends hincoming row' hrow' with
      | inl hown => exact hown.2 ▸ hsessions index
      | inr hold =>
          obtain ⟨row, hrow, hkey⟩ := hold
          have hmac : row.mac = row'.mac := congrArg (fun key => key.2.1) hkey
          exact hmac ▸ ih row hrow

end Reachable

/-! ## What is left of a user -/

/-- Nothing is left of a user, and everything of the others. -/
structure Removed (base : Path) (username : Text) (before after : Stores) : Prop where
  rows : ∀ row ∈ after.database.table, row.username ≠ username
  folders : ∀ mac, CanonicalMac mac →
    after.disk.tree.isDir (Validator.folderName username mac :: base) = false
  otherRows : after.database.table.filter (fun row => row.username ≠ username) =
    before.database.table.filter fun row => row.username ≠ username
  otherFolders : ∀ username' mac, username' ≠ username → CanonicalMac mac →
    ∀ place, Validator.folderName username' mac :: base <:+ place →
      after.disk.tree.node place = before.disk.tree.node place

/-- Every folder of a user has a row. -/
def FoldersRecorded (base : Path) (username : Text) (s : Stores) : Prop :=
  ∀ mac, CanonicalMac mac → s.disk.tree.isDir (Validator.folderName username mac :: base) = true →
    ∃ row ∈ s.database.table, row.isOf username mac = true

section Removal

variable {base : Path} {username : Text}

/-- No place is below two folders. -/
theorem eq_of_below_folders {username' mac mac' : Text} {place : Path} (hmac : CanonicalMac mac)
    (hmac' : CanonicalMac mac') (hbelow : Validator.folderName username mac :: base <:+ place)
    (hbelow' : Validator.folderName username' mac' :: base <:+ place) :
    username = username' ∧ mac = mac' := by
  obtain ⟨raw, hraw⟩ := hmac
  obtain ⟨raw', hraw'⟩ := hmac'
  have hsuffix := List.suffix_of_suffix_length_le hbelow hbelow' (Nat.le_refl _)
  have hsame := hsuffix.eq_of_length rfl
  exact (Validator.folderName_inj hraw hraw').mp (List.cons.inj hsame).1

theorem removed_iff {macAddrs : List Text} {before after : Stores}
    (hmacs : ∀ row ∈ before.database.table, CanonicalMac row.mac)
    (hrows : after.database.table =
      before.database.table.filter fun row => !decide (row.username = username))
    (hfolders : FoldersCleared base username macAddrs before.disk after.disk)
    (hmem : ∀ mac, mac ∈ macAddrs ↔ ∃ row ∈ before.database.table, row.isOf username mac = true) :
    Removed base username before after ↔ FoldersRecorded base username before := by
  have hcanonical : ∀ mac ∈ macAddrs, CanonicalMac mac := by
    intro mac hmac
    obtain ⟨row, hrow, hof⟩ := (hmem mac).mp hmac
    simp only [Row.isOf, decide_eq_true_eq] at hof
    exact hof.2 ▸ hmacs row hrow
  constructor
  · intro hremoved mac hmac hdir
    by_contra hnone
    have hkept : after.disk.tree.isDir (Validator.folderName username mac :: base) = true := by
      apply (hfolders.isDir _).mpr
      refine ⟨fun other hother hbelow => ?_, hdir⟩
      have hsame := eq_of_below_folders (hcanonical other hother) hmac hbelow List.suffix_rfl
      exact hnone ((hmem mac).mp (hsame.2 ▸ hother))
    simp [hremoved.folders mac hmac] at hkept
  · intro hrecorded
    constructor
    · intro row hrow
      rw [hrows, List.mem_filter] at hrow
      simpa using hrow.2
    · intro mac hmac
      by_contra hdir
      rw [Bool.not_eq_false] at hdir
      obtain ⟨hoff, hbefore⟩ := (hfolders.isDir _).mp hdir
      exact hoff mac ((hmem mac).mpr (hrecorded mac hmac hbefore)) List.suffix_rfl
    · rw [hrows, List.filter_filter]
      simp
    · intro username' mac hne hmac place hbelow
      apply hfolders.node
      · intro hbase
        exact cons_not_suffix_self _ base (hbase ▸ hbelow)
      · intro other hother hbelow'
        exact hne (eq_of_below_folders hmac (hcanonical other hother) hbelow hbelow').1

/-- What a new process finds of what the sessions left. -/
def Running.stores {ι : Type} (passwords : List PasswordRow) (running : Running ι) : Stores where
  passwords := { table := passwords, caller := () }
  database := { table := running.database.rows, caller := () }
  disk := running.disk

/-- For every table and disk that sessions reach from an empty table: both options
leave nothing of a user and everything of the others exactly if every folder of the
user still has a row. -/
theorem removal_iff {ι : Type} [DecidableEq ι] {sessions : ι → Session}
    {condition : ι → ServerState → ClientMessage → Prop} {start running : Running ι}
    (hsessions : ∀ index, CanonicalMac (sessions index).mac) (hempty : start.database.rows = [])
    (hruns : Runs sessions condition start running) (hbase : PlainPath base)
    (husername : Validator.validateUsername username = true) (passwords : List PasswordRow) :
    ((∃ after, removeU (render base) (fun _ => {}) username (running.stores passwords) =
          .returned () after ∧ Removed base username (running.stores passwords) after) ↔
        FoldersRecorded base username (running.stores passwords)) ∧
      ((∃ after, delete (render base) (fun _ => {}) username none (running.stores passwords) =
          .returned () after ∧ Removed base username (running.stores passwords) after) ↔
        FoldersRecorded base username (running.stores passwords)) := by
  have hmacs := rows_canonicalMac hsessions hempty hruns
  have hoption : ∀ s : Stores, s.database = (running.stores passwords).database →
      s.disk = (running.stores passwords).disk →
      ((∃ after, removeBackups (render base) (fun _ => {}) username s = .returned () after ∧
          Removed base username (running.stores passwords) after) ↔
        FoldersRecorded base username (running.stores passwords)) := by
    intro s hdatabase hdisk
    obtain ⟨macAddrs, disk', hrun, hfolders, hmem⟩ := removeBackups_run (s := s) hbase husername
      (by rw [hdatabase]; rfl) (by rw [hdatabase]; exact hmacs)
    rw [hdatabase] at hmem hrun
    rw [hdisk] at hfolders
    have hiff : Removed base username (running.stores passwords)
        { s with
          database := { (running.stores passwords).database with
            table := (running.stores passwords).database.table.filter fun row =>
              !decide (row.username = username) }
          disk := disk' } ↔ FoldersRecorded base username (running.stores passwords) :=
      removed_iff hmacs rfl hfolders hmem
    rw [← hiff, hrun]
    constructor
    · rintro ⟨after, hafter, hremoved⟩
      cases hafter
      exact hremoved
    · intro hremoved
      exact ⟨_, rfl, hremoved⟩
  constructor
  · have hremove : Stores.onPasswords (Passwords.removeUser {} username)
        (running.stores passwords) = .returned () { running.stores passwords with
          passwords := { (running.stores passwords).passwords with
            table := passwords.filter fun row => row.username ≠ username } } :=
      within_of_returned _ _ _ (writing_of_idle rfl rfl _)
    rw [removeU, bind_of_returned hremove]
    exact hoption _ rfl rfl
  · exact hoption _ rfl rfl

/-! ### A folder without rows -/

/-- A server that was just set up, and one session of `anna`'s machine. -/
def setUp (incoming : List ClientMessage) : Running Unit where
  disk :=
    { tree := ((FileTree.bare 0).putDir ["srv".toList] 0).putDir ["tmp".toList] 0
      log := []
      clock := fun _ => 0 }
  database := {}
  own := fun _ => { connection := { incoming } }

def callAnna (running : Running Unit) : Running Unit :=
  running.after () (receive annaSession (running.view ()))

def directoryMade : Running Unit := callAnna (setUp [mkdRequest "/a".toList])

def directoryRemoved : Running Unit :=
  callAnna (callAnna (setUp [mkdRequest "/a".toList, rmdRequest "/a".toList]))

def annaFolder : Path := ["anna_1-2-3-4-5-6".toList, "srv".toList]

theorem anna_canonicalMac : CanonicalMac annaSession.mac :=
  ⟨"1:2:3:4:5:6".toList, by decide +kernel⟩

theorem anna_folderName :
    Validator.folderName "anna".toList annaSession.mac = "anna_1-2-3-4-5-6".toList := by
  decide +kernel

/-- The folder of a directory that is recorded is removed. -/
theorem removal_iff_recorded :
    ∃ after, removeU "/srv".toList (fun _ => {}) "anna".toList (directoryMade.stores []) =
      .returned () after ∧ Removed ["srv".toList] "anna".toList (directoryMade.stores []) after := by
  have hruns : Runs (fun _ => annaSession) (fun _ _ _ => True) (setUp [mkdRequest "/a".toList])
      directoryMade := .call .start rfl rfl trivial
  have hbase : PlainPath ["srv".toList] := annaPlacement.base_plain
  have husername : Validator.validateUsername "anna".toList = true := by decide +kernel
  have hfolders : ∀ path ∈ directoryMade.disk.tree.nodes.keys,
      path.tail = ["srv".toList] → path = annaFolder := by decide +kernel
  have hrow : ∃ row ∈ directoryMade.database.rows,
      row.isOf "anna".toList annaSession.mac = true := by decide +kernel
  have hrecorded : FoldersRecorded ["srv".toList] "anna".toList (directoryMade.stores []) := by
    intro mac hmac hdir
    have hsome := directoryMade.disk.tree.isSome_of_isDir hdir
    have hkey := hfolders _ (AList.lookup_isSome.mp hsome) rfl
    rw [annaFolder, ← anna_folderName] at hkey
    have hbelow : Validator.folderName "anna".toList mac :: ["srv".toList] <:+
        Validator.folderName "anna".toList annaSession.mac :: ["srv".toList] :=
      hkey ▸ List.suffix_rfl
    have hsame := eq_of_below_folders hmac anna_canonicalMac hbelow List.suffix_rfl
    rw [hsame.2]
    exact hrow
  exact ((removal_iff (fun _ => anna_canonicalMac) rfl hruns hbase husername []).1).mpr hrecorded

/-- The directory is removed before the user is, and its row with it. -/
theorem folder_left :
    (delete "/srv".toList (fun _ => {}) "anna".toList none
        (directoryRemoved.stores [])).state.disk.tree.isDir annaFolder = true ∧
      ¬ ∀ (start running : Running Unit), start.database.rows = [] →
        Runs (fun _ => annaSession) (fun _ _ message => PathCanonical message) start running →
          ∃ after, removeU "/srv".toList (fun _ => {}) "anna".toList (running.stores []) =
            .returned () after ∧
              Removed ["srv".toList] "anna".toList (running.stores []) after := by
  have hleft : (delete "/srv".toList (fun _ => {}) "anna".toList none
      (directoryRemoved.stores [])).state.disk.tree.isDir annaFolder = true := by decide +kernel
  have hleft' : (removeU "/srv".toList (fun _ => {}) "anna".toList
      (directoryRemoved.stores [])).state.disk.tree.isDir annaFolder = true := by decide +kernel
  have hpath : Validator.validatePath "/a".toList = some "/a".toList := by decide +kernel
  have hcanonical : Canonical "/a".toList := by decide
  have hmessage : ∀ type, PathCanonical { version := 1, type, path := "/a".toList } := by
    intro type _ path hvalid
    rw [hpath, Option.some.injEq] at hvalid
    exact hvalid ▸ hcanonical
  have hmade : Runs (fun _ => annaSession) (fun _ _ message => PathCanonical message)
      (setUp [mkdRequest "/a".toList, rmdRequest "/a".toList])
      (callAnna (setUp [mkdRequest "/a".toList, rmdRequest "/a".toList])) :=
    .call .start rfl rfl (hmessage .MKD)
  have hopen : ((callAnna (setUp [mkdRequest "/a".toList, rmdRequest "/a".toList])).own ()).ended =
      false ∧
    ((callAnna (setUp [mkdRequest "/a".toList, rmdRequest "/a".toList])).view
      ()).connection.incoming = [rmdRequest "/a".toList] := by decide +kernel
  have hruns : Runs (fun _ => annaSession) (fun _ _ message => PathCanonical message)
      (setUp [mkdRequest "/a".toList, rmdRequest "/a".toList]) directoryRemoved :=
    .call hmade hopen.1 hopen.2 (hmessage .RMD)
  refine ⟨hleft, ?_⟩
  intro hclaim
  obtain ⟨after, hrun, hremoved⟩ := hclaim _ _ rfl hruns
  have hgone := hremoved.folders _ anna_canonicalMac
  rw [anna_folderName] at hgone
  rw [hrun] at hleft'
  exact absurd hleft' (by
    rw [Bool.not_eq_true]
    exact hgone)

end Removal

end PdsBackup.Server
