import PdsBackup.Core.Ways
import PdsBackup.Server.Agreement
import PdsBackup.Server.Retrieval

/-!
# Requests that can be carried out

Some exceptions that leave `receive` end the connection, others the whole
server.  What is wrong with the text of a path or of a time is found before
anything is done; the length of a hash, and what a path means on the disk, is
found by a call that throws.  Each handler is followed from a known state, under
conditions on the message, the disk, the rows and the map before it.
-/

namespace PdsBackup.Server

open Procedure

/-- What `single_server` answers by setting `main_stop`. -/
def ServerException.stops : ServerException → Bool
  | .protocolManager .internal => true
  | .protocolManager _ => false
  | .socket _ => false
  | .database _ | .databasePwd | .config | .standard => true

theorem Interrupts.stops {exception : ServerException} (h : Interrupts exception) :
    exception.stops = false := by
  cases h <;> rfl

variable {session : Session}

/-! ## The conditions -/

/-- An element of the map, or one that the recovery makes of a row. -/
def Foreseen (session : Session) (s : ServerState) (path : Text) (el : DirectoryEntry) : Prop :=
  s.elements.lookup path = some el ∨
    (s.recovered = false ∧ ∃ row ∈ s.database.rows,
      row.isOf session.username session.mac = true ∧ ∃ effective,
        DirectoryEntry.load session.platform session.userPath
            (session.userPath ++ row.columns.path) s.disk.tree = some effective ∧
          (path = row.columns.path ∨ path = effective.relativePath) ∧
          el = { effective with relativePath := path })

/-- The expression made of the text of a folder cuts a path. -/
def CutBy (folder text : Text) : Prop :=
  (DirectoryEntry.relativePathOf folder text).isSome = true

/-- The rows of the session hold hashes and paths that fit, and cut the paths at
which there is something. -/
def Recoverable (session : Session) (s : ServerState) : Prop :=
  ∀ row ∈ s.database.rows, row.isOf session.username session.mac = true →
    (row.columns.hashBytes.bind Hash.ofBytes).isSome = true ∧
      PathFits (session.userPath ++ row.columns.path) ∧
      (s.disk.present (session.userPath ++ row.columns.path) = true →
        CutBy session.userPath (session.userPath ++ row.columns.path))

/-- The hash of a message has the length of a hash. -/
def Hashed (message : ClientMessage) : Prop := (Hash.ofBytes message.hash).isSome = true

/-- The time of a directory can be saved before objects are removed, and set
again when only these are left. -/
def Keepable (session : Session) (parent : Text) (left : FileTree) : Prop :=
  parent ≠ session.userPath → CutBy session.userPath parent ∧ (left.status parent).isSome = true

/-- A file with the time of the message to be set is on the disk. -/
def Retimable (session : Session) (s : ServerState) (message : ClientMessage) (path : Text) :
    Prop :=
  ∀ el, Foreseen session s path el → el.isRegularFile = true →
    Hash.ofBytes message.hash = some el.hash → el.lastWriteTime ≠ message.lastWriteTime →
      PathFits el.absolutePath ∧ s.disk.present el.absolutePath = true

/-- What is at the place of a file that is to be removed can be. -/
def FileRemovable (session : Session) (s : ServerState) (message : ClientMessage) (path : Text) :
    Prop :=
  ∀ el, Foreseen session s path el → PathFits el.absolutePath ∧
    (el.isRegularFile = true → Hash.ofBytes message.hash = some el.hash →
      ∀ place, s.disk.tree.resolve el.absolutePath = some place →
        (s.disk.tree.node place).isSome = true →
          SystemCall.Takeable el.absolutePath place s.disk.tree ∧
            Keepable session (parentPath el.absolutePath) (s.disk.tree.delete place))

/-- A directory that is to be removed is one, and can be, and what is below it
can be read. -/
structure Droppable (session : Session) (tree : FileTree) (path absolutePath : Text)
    (place : Path) : Prop where
  isDir : tree.isDir place = true
  clearable : SystemCall.Clearable absolutePath place tree
  below : ∀ text ∈ SystemCall.listing absolutePath place tree,
    PathFits text ∧ CutBy session.userPath text
  keepable : Keepable session (parentPath (session.userPath ++ path))
    (SystemCall.leftovers absolutePath place tree)

def DirRemovable (session : Session) (s : ServerState) (path : Text) : Prop :=
  ∀ el, Foreseen session s path el → PathFits el.absolutePath ∧
    (el.isDirectory = true → ∀ place, s.disk.tree.resolve el.absolutePath = some place →
      (s.disk.tree.node place).isSome = true →
        Droppable session s.disk.tree path el.absolutePath place)

/-- The map says that the directory is there with the time of the message. -/
def UpToDateDir (s : ServerState) (message : ClientMessage) (path : Text) : Prop :=
  s.recovered = true ∧ ∃ el, s.elements.lookup path = some el ∧
    s.disk.present el.absolutePath = true ∧ el.lastWriteTime = message.lastWriteTime

/-- A directory that is missing can be made, and its entry and that of its parent
can be read. -/
structure DirMakeable (session : Session) (disk : Disk) (path : Text) : Prop where
  fits : PathFits (session.userPath ++ path)
  passable : disk.present (session.userPath ++ path) = false →
    SystemCall.Passable disk.tree [] (components (session.userPath ++ path))
  cut : disk.present (session.userPath ++ path) = false ∨
    disk.isDirectory (session.userPath ++ path) = true →
      CutBy session.userPath (session.userPath ++ path)
  parent : disk.present (parentPath (session.userPath ++ path)) = true →
    parentPath (session.userPath ++ path) ≠ session.userPath →
      CutBy session.userPath (parentPath (session.userPath ++ path))

/-- There is a place for the temporary file of a STOR. -/
structure Openable (placement : Placement session) (disk : Disk) (bytes : List Byte) : Prop where
  fits : PathFits (render (placement.tmpFile bytes))
  way : ¬ SystemCall.Blocked placement.temp disk.tree
  free : disk.tree.isDir (placement.tmpFile bytes) = false
  cut : CutBy session.temporaryPath (render (placement.tmpFile bytes))

/-- The directories that are to be there for the parent of the file of a STOR. -/
def parentWay (session : Session) (path : Text) : List Path :=
  wayPlaces [] (components (parentPath (session.userPath ++ path)))

/-- A directory, or a place where one is made before the file of a STOR is moved. -/
def Treadable (placement : Placement session) (disk : Disk) (path : Text) (place : Path) : Prop :=
  disk.tree.isDir place = true ∨ place ∈ parentWay session path ∨ place <:+ placement.temp

/-- The file of a STOR can be moved to its path: nothing is in the way of the
directories above it, and it does not lead to a directory. -/
structure Placeable (placement : Placement session) (disk : Disk) (bytes : List Byte)
    (path : Text) : Prop where
  fits : PathFits (session.userPath ++ path)
  passable : SystemCall.Passable disk.tree []
    (components (parentPath (session.userPath ++ path)))
  beside : placement.tmpFile bytes ∉ parentWay session path
  leads : Follows (Treadable placement disk path) [] (components (session.userPath ++ path))
  free : ¬ Treadable placement disk path (landing [] (components (session.userPath ++ path)))
  parent : parentPath (session.userPath ++ path) ≠ session.userPath →
    CutBy session.userPath (parentPath (session.userPath ++ path))

/-- The messages that follow a STOR make up a file with its attributes. -/
structure Carried (session : Session) (message : ClientMessage)
    (pending taken : List ClientMessage) : Prop where
  next : ∃ rest, pending = taken ++ rest
  run : DataRun taken
  size : (payload taken).length = message.fileSize
  hash : Hash.ofBytes message.hash = some (session.platform.sha256 (payload taken))
  time : session.platform.putTime (session.platform.getTime message.lastWriteTime) =
    message.lastWriteTime

/-- A file that is to be stored can be, if it is one that the messages carry. -/
structure FileStorable (placement : Placement session) (disk : Disk) (bytes : List Byte)
    (message : ClientMessage) (pending : List ClientMessage) (path : Text) : Prop where
  openable : Openable placement disk bytes
  placeable : ∀ taken, Carried session message pending taken →
    Placeable placement disk bytes path

/-- The rows of the machines that are asked for hold hashes and paths that fit,
and cut the paths of the files that are there. -/
def Servable (session : Session) (s : ServerState) (message : ClientMessage) : Prop :=
  ∀ mac ∈ requestedMacs session message s, ∀ row ∈ s.database.rows,
    row.isOf session.username mac = true → ∃ entry, rowEntry session mac row = some entry ∧
      PathFits entry.absolutePath ∧
      (s.disk.present entry.absolutePath = true → entry.isRegularFile = true →
        CutBy (session.basePath ++ session.relativeRoot mac) entry.absolutePath)

/-- What a request asks for can be done. -/
def Feasible (placement : Placement session) (s : ServerState) (message : ClientMessage)
    (pending : List ClientMessage) : Prop :=
  match message.type with
  | .PROB => Hashed message ∧ ∀ path, Validator.validatePath message.path = some path →
      Validator.validateLastWriteTime message.lastWriteTime = true →
        Retimable session s message path
  | .STOR => Hashed message ∧ ∀ path, Validator.validatePath message.path = some path →
      Validator.validateLastWriteTime message.lastWriteTime = true →
        FileStorable placement s.disk (tmpBytes session s) message pending path
  | .DELE => Hashed message ∧ ∀ path, Validator.validatePath message.path = some path →
      FileRemovable session s message path
  | .MKD => ∀ path, Validator.validatePath message.path = some path →
      Validator.validateLastWriteTime message.lastWriteTime = true →
        ¬ UpToDateDir s message path →
          (∀ el, Foreseen session s path el → PathFits el.absolutePath) ∧
            DirMakeable session s.disk path
  | .RMD => ∀ path, Validator.validatePath message.path = some path →
      DirRemovable session s path
  | .RETR => Servable session s message
  | _ => True

/-- The condition under which a message does not stop the server. -/
structure Tolerable (placement : Placement session) (s : ServerState) (message : ClientMessage) :
    Prop where
  recoverable : message.version = session.protocolVersion → Backs message → s.recovered = false →
    Recoverable session s
  feasible : message.version = session.protocolVersion → ∀ pending,
    s.connection.incoming = message :: pending → Feasible placement s message pending

/-! ## What they give -/

theorem CutBy.loads {folder text : Text} {tree : FileTree} (hcut : CutBy folder text)
    (hsome : (tree.status text).isSome = true) :
    (DirectoryEntry.load session.platform folder text tree).isSome = true := by
  obtain ⟨entry, hentry⟩ : ∃ entry, DirectoryEntry.load session.platform folder text tree =
      some entry := DirectoryEntry.load_isSome hcut hsome
  simp [hentry]

/-- A directory that is made can be read, and leaves its parent there. -/
theorem DirMakeable.makes (placement : Placement session) {disk : Disk} {path : Text}
    (hmakeable : DirMakeable session disk path) :
    ∃ made, when (!disk.present (session.userPath ++ path))
        (SystemCall.createDirectories (session.userPath ++ path)) disk = .returned () made ∧
      FileTree.Grows disk.tree made.tree ∧
      (made.isDirectory (session.userPath ++ path) = true → CutBy session.userPath
        (session.userPath ++ path)) := by
  have htext := cString_ne_of_slash (placement.head?_absolutePath path)
  cases hpresent : disk.present (session.userPath ++ path) with
  | true => exact ⟨disk, rfl, .refl _,
      fun hdir => hmakeable.cut (.inr hdir)⟩
  | false =>
      obtain ⟨made, hmake, hpaved⟩ := SystemCall.createDirectories_of_passable htext
        hmakeable.fits (hmakeable.passable hpresent)
      exact ⟨made, hmake, hpaved.grows, fun _ => hmakeable.cut (.inl hpresent)⟩

section Moves

variable {placement : Placement session} {start disk : Disk} {path : Text}
variable {bytes content : List Byte}

/-- While the temporary file is written, the directories are those of the start
and those above it. -/
theorem isDir_aside_iff (hopenable : Openable placement start bytes)
    (haside : Aside start.tree (placement.tmpFile bytes) disk.tree)
    (hholds : disk.tree.Holds (placement.tmpFile bytes) content) (place : Path) :
    disk.tree.isDir place = true ↔ start.tree.isDir place = true ∨ place <:+ placement.temp := by
  have htemp : disk.tree.isDir placement.temp = true := disk.tree.isDir_parent hholds.isSome
  by_cases htmp : place = placement.tmpFile bytes
  · have hbelow : ¬ place <:+ placement.temp := by
      rw [htmp]
      exact cons_not_suffix_self _ _
    rw [htmp] at hbelow ⊢
    simp [hholds.not_isDir, hopenable.free, hbelow]
  · constructor
    · intro hdir
      rw [FileTree.isDir_iff_shape, haside.shape place htmp] at hdir
      by_cases hmade : place <:+ placement.tmpFile bytes ∧
          start.tree.node place = none
      · exact .inr ((Aside.suffix_parent htmp).mp hmade.1)
      · rw [if_neg hmade, ← FileTree.isDir_iff_shape] at hdir
        exact .inl hdir
    · rintro (hdir | habove)
      · exact haside.isDir htmp hdir
      · exact disk.tree.isDir_of_suffix habove htemp

/-- The temporary file can be moved to its place. -/
theorem Placeable.moves (hplaceable : Placeable placement start bytes path)
    (hopenable : Openable placement start bytes)
    (haside : Aside start.tree (placement.tmpFile bytes) disk.tree)
    (hholds : disk.tree.Holds (placement.tmpFile bytes) content) :
    ∃ made placed, when (!disk.present (parentPath (session.userPath ++ path)))
        (SystemCall.createDirectories (parentPath (session.userPath ++ path))) disk =
          .returned () made ∧
      SystemCall.rename (render (placement.tmpFile bytes))
        (session.userPath ++ path) made = .returned () placed ∧
      (made.tree.status (parentPath (session.userPath ++ path))).isSome = true ∧
      (placed.tree.status (parentPath (session.userPath ++ path))).isSome = true := by
  have hslash := placement.head?_absolutePath path
  have hparent : cString (parentPath (session.userPath ++ path)) ≠ [] :=
    cString_ne_of_slash (head?_parentPath hslash)
  have hpassable : SystemCall.Passable disk.tree []
      (components (parentPath (session.userPath ++ path))) := by
    intro place hplace
    have htmp : place ≠ placement.tmpFile bytes := fun heq =>
      hplaceable.beside (heq ▸ hplace)
    rw [← FileTree.shape_eq_none_iff, FileTree.isDir_iff_shape, haside.shape place htmp]
    by_cases hmade : place <:+ placement.tmpFile bytes ∧
        start.tree.node place = none
    · exact .inr (if_pos hmade)
    · rw [if_neg hmade, FileTree.shape_eq_none_iff, ← FileTree.isDir_iff_shape]
      exact hplaceable.passable place hplace
  obtain ⟨made, hmake, hpaved⟩ :=
    SystemCall.makeMissing hparent hplaceable.fits.parentPath hpassable
  have hdirs : ∀ place, made.tree.isDir place = true ↔ Treadable placement start path place := by
    intro place
    rw [hpaved.isDir_iff, isDir_aside_iff hopenable haside hholds, Treadable, parentWay, or_assoc,
      or_comm (a := place <:+ placement.temp)]
  obtain ⟨hparentLeads, hparentDir⟩ := FileTree.resolve_of_way hparent hpaved.made
  have hleads : made.tree.resolve (session.userPath ++ path) =
      some (landing [] (components (session.userPath ++ path))) := by
    rw [FileTree.resolve_eq_some_iff (cString_ne_of_slash hslash)]
    exact ⟨hplaceable.leads.imp fun place hplace => (hdirs place).mpr hplace, rfl⟩
  have hfree : made.tree.isDir (landing [] (components (session.userPath ++ path))) = false := by
    rw [← Bool.not_eq_true, hdirs]
    exact hplaceable.free
  obtain ⟨mtime, hfile⟩ := hholds
  obtain ⟨placed, hrename, hsame⟩ := SystemCall.rename_of_resolve
    (Placement.tmpFile_plain bytes) (List.cons_ne_nil _ _)
    (hpaved.file hplaceable.beside hfile) hleads hplaceable.fits hfree
  refine ⟨made, placed, hmake, hrename, ?_, ?_⟩
  · rw [FileTree.status, hparentLeads, Option.bind_some]
    exact made.tree.isSome_of_isDir hparentDir
  · rw [FileTree.status, FileTree.resolve_congr hsame, hparentLeads, Option.bind_some]
    apply placed.tree.isSome_of_isDir
    rw [hsame]
    exact hparentDir

end Moves

/-! ## Routines that spare the server -/

/-- The parent's entry has the parent's path. -/
theorem saveParent_returns {s : ServerState} {parent : Text}
    (hload : parent ≠ session.userPath → (DirectoryEntry.load session.platform session.userPath
      parent s.disk.tree).isSome = true) :
    ∃ entry, saveParent session parent s = .returned entry s ∧
      (parent ≠ session.userPath → entry.absolutePath = parent) := by
  cases saveParent_cases session s parent with
  | inl hsaved =>
      obtain ⟨entry, hrun, hentry⟩ := hsaved
      exact ⟨entry, hrun, fun hne => (DirectoryEntry.load_eq_some (hentry hne)).2.1⟩
  | inr hnone =>
      have hsome := hload hnone.1
      simp [hnone.2.1] at hsome

/-- From a known state, the routine does not end in an exception that stops the
server. -/
def Spares {α : Type} (s : ServerState) (p : ServerProcedure α) : Prop :=
  Meets (fun s' => s' = s) p (fun _ _ => True) fun exception _ => exception.stops = false

namespace Spares

variable {α β : Type} {s middle : ServerState}

theorem then_returned {p : ServerProcedure α} {f : α → ServerProcedure β} {value : α}
    (hrun : p s = .returned value middle) (hrest : Spares middle (f value)) :
    Spares s (p >>= f) := Meets.then_returned hrun hrest

theorem raise {exception : ServerException} (hexception : exception.stops = false) :
    Spares s (Procedure.raise exception : ServerProcedure α) := Meets.ends_raised rfl hexception

theorem refuse {code : ErrCode} {exception : ServerException}
    (hexception : exception.stops = false) :
    Spares s (refuse session code exception : ServerProcedure α) := by
  cases refuse_cases session s code exception with
  | inl hrun => exact Meets.ends_raised hrun hexception
  | inr hrun => exact Meets.ends_raised hrun rfl

theorem sendServerMessage (message : ServerMessage) : Spares s (sendServerMessage message) := by
  cases sendServerMessage_cases s message with
  | inl hrun => exact Meets.ends_returned hrun trivial
  | inr hrun => exact Meets.ends_raised hrun rfl

theorem orRaise {exception : ServerException} {value : Option α} {f : α → ServerProcedure β}
    (hnone : value = none → exception.stops = false)
    (hf : ∀ result, value = some result → Spares s (f result)) :
    Spares s (Procedure.orRaise exception value >>= f) := by
  cases value with
  | none => exact Meets.then_raised rfl (hnone rfl)
  | some result => exact then_returned rfl (hf result rfl)

/-- The hash of a message is read before anything else. -/
theorem readHash {message : ClientMessage} {f : Hash → ServerProcedure β}
    (hhashed : Hashed message)
    (hf : ∀ h, Hash.ofBytes message.hash = some h → Spares s (f h)) :
    Spares s (Procedure.orRaise .standard (Hash.ofBytes message.hash) >>= f) :=
  orRaise (fun hnone => by simp [Hashed, hnone] at hhashed) hf

theorem ensure {exception : ServerException} {condition : Bool} {f : Unit → ServerProcedure β}
    (hfalse : exception.stops = false) (hf : condition = true → Spares s (f ())) :
    Spares s (Procedure.ensure exception condition >>= f) := by
  cases condition with
  | false => exact Meets.then_raised rfl hfalse
  | true => exact then_returned rfl (hf rfl)

theorem read {g : ServerState → α} {f : α → ServerProcedure β} (hf : Spares s (f (g s))) :
    Spares s (Procedure.read g >>= f) := then_returned rfl hf

theorem ite {condition : Prop} [Decidable condition] {p q : ServerProcedure α}
    (hthen : condition → Spares s p) (helse : ¬ condition → Spares s q) :
    Spares s (if condition then p else q) := Meets.ite hthen helse

/-- A path is forgotten while no transaction is open. -/
theorem forget {path : Text} {f : Unit → ServerProcedure β}
    (hidle : s.database.inTransaction = false)
    (hf : Spares (s.forgotten session path) (f ())) : Spares s (forget session path >>= f) := by
  cases forget_cases session s path with
  | inl hrun => exact then_returned hrun.2 hf
  | inr hopen => simp [hidle] at hopen

theorem track {path : Text} {el : Option DirectoryEntry} {entry : DirectoryEntry}
    {f : Unit → ServerProcedure β} (hidle : s.database.inTransaction = false)
    (hf : Spares (s.tracked session path el entry) (f ())) :
    Spares s (track session path el entry >>= f) := by
  cases track_cases session s path el entry with
  | inl hrun => exact then_returned hrun.2 hf
  | inr hopen => simp [hidle] at hopen

theorem setTimeToFile {entry : DirectoryEntry} {time : Text}
    {f : DirectoryEntry → ServerProcedure β}
    (hstatus : (s.disk.tree.status entry.absolutePath).isSome = true)
    (hf : ∀ path, Spares (s.withDisk (s.disk.setTime path (session.platform.getTime time)))
      (f { entry with
        lastWriteTime := session.platform.putTime (session.platform.getTime time) })) :
    Spares s (setTimeToFile session entry time >>= f) := by
  cases setTimeToFile_cases session s entry time with
  | inl hset =>
      obtain ⟨path, -, -, -, hrun⟩ := hset
      exact then_returned hrun (hf path)
  | inr hnone => simp [hnone.1] at hstatus

theorem loadEntry {basePath absolutePath : Text} {f : DirectoryEntry → ServerProcedure β}
    (hload : (DirectoryEntry.load session.platform basePath absolutePath s.disk.tree).isSome = true)
    (hf : ∀ entry, DirectoryEntry.load session.platform basePath absolutePath s.disk.tree =
      some entry → Spares s (f entry)) :
    Spares s (loadEntry session basePath absolutePath >>= f) := by
  cases loadEntry_cases session s basePath absolutePath with
  | inl hloads =>
      obtain ⟨entry, hentry, hrun⟩ := hloads
      exact then_returned hrun (hf entry hentry)
  | inr hnone => simp [hnone.1] at hload

theorem saveParent {parent : Text} {f : DirectoryEntry → ServerProcedure β}
    (hload : parent ≠ session.userPath → (DirectoryEntry.load session.platform session.userPath
      parent s.disk.tree).isSome = true)
    (hf : ∀ entry, (parent ≠ session.userPath → entry.absolutePath = parent) →
      Spares s (f entry)) : Spares s (saveParent session parent >>= f) := by
  obtain ⟨entry, hrun, hentry⟩ := saveParent_returns hload
  exact then_returned hrun (hf entry hentry)

theorem saveExistingParent {parentExists : Bool} {parent : Text}
    {f : DirectoryEntry → ServerProcedure β}
    (hload : parentExists = true → parent ≠ session.userPath →
      (DirectoryEntry.load session.platform session.userPath parent s.disk.tree).isSome = true)
    (hf : ∀ entry, (parentExists = true → parent ≠ session.userPath →
      entry.absolutePath = parent) → Spares s (f entry)) :
    Spares s (saveExistingParent session parentExists parent >>= f) := by
  cases parentExists with
  | false => exact then_returned rfl (hf {} (by simp))
  | true => exact saveParent (hload rfl) fun entry hentry => hf entry fun _ => hentry

theorem resetParent {parent : Text} {entry : DirectoryEntry} {f : Unit → ServerProcedure β}
    (hstatus : parent ≠ session.userPath → (s.disk.tree.status entry.absolutePath).isSome = true)
    (hf : ∀ disk, Spares (s.withDisk disk) (f ())) :
    Spares s (resetParent session parent entry >>= f) := by
  obtain ⟨disk, hrun⟩ := resetParent_returns session s parent entry hstatus
  exact then_returned hrun (hf disk)

theorem whenResetParent {parentExists : Bool} {parent : Text} {entry : DirectoryEntry}
    {f : Unit → ServerProcedure β}
    (hstatus : parentExists = true → parent ≠ session.userPath →
      (s.disk.tree.status entry.absolutePath).isSome = true)
    (hf : ∀ disk, Spares (s.withDisk disk) (f ())) :
    Spares s (when parentExists (Server.resetParent session parent entry) >>= f) := by
  cases parentExists with
  | false => exact then_returned rfl (hf s.disk)
  | true => exact resetParent (hstatus rfl) hf

end Spares

theorem when_onDisk (s : ServerState) {ε : Type} {p : Procedure Disk ε Unit} {condition : Bool}
    {disk : Disk} (hrun : when condition p s.disk = .returned () disk) :
    when condition (onDisk p) s = .returned () (s.withDisk disk) := by
  cases condition with
  | false =>
      simp only [when_false, pure_apply, Exit.returned.injEq, true_and] at hrun
      rw [← hrun]
      rfl
  | true => exact onDisk_of_returned s hrun

/-- A list of things that are all there is there as a whole. -/
theorem isSome_mapM {α β : Type} {f : α → Option β} {xs : List α}
    (hxs : ∀ x ∈ xs, (f x).isSome = true) : (xs.mapM f).isSome = true := by
  induction xs with
  | nil => rfl
  | cons x xs ih =>
      obtain ⟨y, hy⟩ := Option.isSome_iff_exists.mp (hxs x List.mem_cons_self)
      obtain ⟨ys, hys⟩ := Option.isSome_iff_exists.mp
        (ih fun other hother => hxs other (List.mem_cons_of_mem x hother))
      simp [List.mapM_cons, hy, hys]

/-! ## The handlers, once the session has recovered -/

section Handlers

variable {start : ServerState} {message : ClientMessage}

theorem probe_spares (hrecovered : start.recovered = true) (hhashed : Hashed message)
    (hretimable : ∀ path, Validator.validatePath message.path = some path →
      Validator.validateLastWriteTime message.lastWriteTime = true →
        Retimable session start message path) :
    Spares start (probe session message) := by
  apply Spares.then_returned (recoverIfNeeded_of_recovered session start hrecovered)
  apply Spares.readHash hhashed
  intro h hh
  apply Spares.orRaise fun _ => rfl
  intro path hpath
  apply Spares.ensure rfl
  intro htime
  apply Spares.read
  cases hlookup : start.elements.lookup path with
  | none => exact Spares.sendServerMessage _
  | some el =>
      apply Spares.ite
      · exact fun _ => Spares.refuse rfl
      intro hfile
      apply Spares.ite
      · exact fun _ => Spares.sendServerMessage _
      intro hhash
      apply Spares.ite
      · intro hne
        apply Spares.setTimeToFile
        · have hel : el.isRegularFile = true := by simpa using hfile
          have hsame : Hash.ofBytes message.hash = some el.hash := by rw [hh, not_not.mp hhash]
          exact (hretimable path hpath htime el (.inl hlookup) hel hsame hne).2
        · intro place
          apply Spares.then_returned (insertElement_run _ _ _)
          exact Spares.sendServerMessage _
      · exact fun _ => Spares.sendServerMessage _

theorem removeFile_spares (hrecovered : start.recovered = true)
    (hidle : start.database.inTransaction = false) (hhashed : Hashed message)
    (hremovable : ∀ path, Validator.validatePath message.path = some path →
      FileRemovable session start message path) :
    Spares start (removeFile session message) := by
  apply Spares.then_returned (recoverIfNeeded_of_recovered session start hrecovered)
  apply Spares.readHash hhashed
  intro h hh
  apply Spares.orRaise fun _ => rfl
  intro path hpath
  apply Spares.read
  cases hlookup : start.elements.lookup path with
  | none => exact Spares.sendServerMessage _
  | some el =>
      apply Spares.read
      apply Spares.ite
      · exact fun _ => Spares.forget hidle (Spares.sendServerMessage _)
      intro hpresent
      apply Spares.ite
      · exact fun _ => Spares.refuse rfl
      intro hmatches
      simp only [Bool.not_eq_true', Bool.not_eq_false, not_or, not_not] at hpresent hmatches
      obtain ⟨place, hresolve, hsome⟩ := Disk.place_of_present hpresent
      obtain ⟨htakeable, hkeepable⟩ := (hremovable path hpath el (.inl hlookup)).2 hmatches.1
        (by rw [hh, hmatches.2]) place hresolve hsome
      have hplace : place ≠ [] := by
        rintro rfl
        exact (htakeable start.disk.tree.isDir_root).1 rfl
      have hremove := SystemCall.remove_of_takeable hresolve hsome htakeable
      apply Spares.saveParent fun hne => (hkeepable hne).1.loads
        ((start.disk.tree.grows_delete hplace).isSome_status (hkeepable hne).2)
      intro entry hentry
      apply Spares.then_returned (onDisk_of_returned start hremove)
      apply Spares.ite
      · simp
      intro _
      apply Spares.resetParent
      · intro hne
        rw [hentry hne]
        exact (FileTree.isSome_status_retime _ _ _ _).trans (hkeepable hne).2
      · exact fun _ => Spares.forget hidle (Spares.sendServerMessage _)

theorem removeDir_spares (hrecovered : start.recovered = true)
    (hidle : start.database.inTransaction = false)
    (hremovable : ∀ path, Validator.validatePath message.path = some path →
      DirRemovable session start path) :
    Spares start (removeDir session message) := by
  apply Spares.then_returned (recoverIfNeeded_of_recovered session start hrecovered)
  apply Spares.orRaise fun _ => rfl
  intro path hpath
  apply Spares.read
  cases hlookup : start.elements.lookup path with
  | none => exact Spares.sendServerMessage _
  | some el =>
      apply Spares.read
      apply Spares.ite
      · exact fun _ => Spares.forget hidle (Spares.sendServerMessage _)
      intro hpresent
      apply Spares.ite
      · exact fun _ => Spares.refuse rfl
      intro hdir
      simp only [Bool.not_eq_true', Bool.not_eq_false] at hpresent hdir
      obtain ⟨place, hresolve, hsome⟩ := Disk.place_of_present hpresent
      obtain ⟨hplace, hclearable, hbelow, hkeepable⟩ :=
        (hremovable path hpath el (.inl hlookup)).2 hdir place hresolve hsome
      obtain ⟨count, disk, hremove, hcount, hleft⟩ :=
        SystemCall.removeAll_of_clearable hresolve hplace hclearable
      have hlist : SystemCall.listBelow el.absolutePath start.disk = .returned
          (SystemCall.listing el.absolutePath place start.disk.tree) start.disk := by
        rw [SystemCall.listBelow, bind_of_returned (SystemCall.locate_of_resolve hresolve)]
        simp [hplace]
      have hloads : ∀ text ∈ SystemCall.listing el.absolutePath place start.disk.tree,
          (DirectoryEntry.load session.platform session.userPath text
            start.disk.tree).isSome = true := fun text htext =>
        (hbelow text htext).2.loads (FileTree.isSome_status_listing hresolve hplace text htext)
      apply Spares.saveParent fun hne => (hkeepable hne).1.loads
        ((SystemCall.grows_leftovers hclearable).isSome_status (hkeepable hne).2)
      intro entry hentry
      apply Spares.then_returned (onDisk_of_returned start hlist)
      apply Spares.read
      apply Spares.orRaise
      · intro hnone
        have hsome := (congrArg Option.isSome hnone).symm.trans (isSome_mapM hloads)
        simp at hsome
      intro elementsToRemove _
      apply Spares.then_returned (onDisk_of_returned (start.withDisk start.disk) hremove)
      apply Spares.ite
      · exact fun hzero => absurd hzero hcount
      intro _
      let gone := start.withDisk disk
      obtain ⟨hdisk, -, hidle', -⟩ := forgottenAll_frame session gone elementsToRemove
      apply Spares.then_returned (forgetAll_of_idle session gone elementsToRemove hidle)
      apply Spares.forget (hidle'.trans hidle)
      apply Spares.resetParent
      · intro hne
        rw [hentry hne, ServerState.forgotten, hdisk]
        exact (hleft _).trans (hkeepable hne).2
      · exact fun _ => Spares.sendServerMessage _

theorem makeDir_spares (placement : Placement session) (hrecovered : start.recovered = true)
    (hidle : start.database.inTransaction = false)
    (hmakeable : ∀ path, Validator.validatePath message.path = some path →
      Validator.validateLastWriteTime message.lastWriteTime = true →
        ¬ UpToDateDir start message path → DirMakeable session start.disk path) :
    Spares start (makeDir session message) := by
  apply Spares.then_returned (recoverIfNeeded_of_recovered session start hrecovered)
  apply Spares.orRaise fun _ => rfl
  intro path hpath
  apply Spares.ensure rfl
  intro htime
  apply Spares.read
  apply Spares.read
  apply Spares.ite
  · exact fun _ => Spares.sendServerMessage _
  intro hstale
  have hneeded : DirMakeable session start.disk path := by
    apply hmakeable path hpath htime
    intro hupToDate
    obtain ⟨-, el, hel, hpresent, hsame⟩ := hupToDate
    exact hstale (by simp [hel, hpresent, hsame])
  obtain ⟨made, hmake, hgrows, hcut⟩ := hneeded.makes placement
  apply Spares.read
  apply Spares.saveExistingParent fun hexists hne => (hneeded.parent hexists hne).loads hexists
  intro entry hentry
  apply Spares.read
  apply Spares.then_returned (when_onDisk start hmake)
  apply Spares.read
  apply Spares.ite
  · exact fun _ => Spares.refuse rfl
  intro hisDirectory
  simp only [Bool.not_eq_true', Bool.not_eq_false] at hisDirectory
  apply Spares.loadEntry ((hcut hisDirectory).loads (Option.isSome_of_any hisDirectory))
  intro newDir hnewDir
  obtain ⟨-, habsolute, node, hnode, -⟩ := DirectoryEntry.load_eq_some hnewDir
  apply Spares.setTimeToFile
  · rw [habsolute, hnode]
    rfl
  intro place
  apply Spares.whenResetParent
  · intro hexists hne
    rw [hentry hexists hne, ServerState.withDisk, Disk.setTime, FileTree.isSome_status_retime]
    exact hgrows.isSome_status hexists
  · exact fun disk => Spares.track hidle (Spares.sendServerMessage _)

/-! ## STOR -/

variable {placement : Placement session} {content : List Byte} {path : Text}

/-- A file that is complete is moved into place. -/
theorem moveIntoPlace_spares {s : ServerState} {expected : DirectoryEntry}
    {f : Unit → ServerProcedure Unit}
    (hopenable : Openable placement start.disk (tmpBytes session start))
    (hplaceable : Placeable placement start.disk (tmpBytes session start) path)
    (hexpected : expected.absolutePath = session.userPath ++ path)
    (haside : Aside start.disk.tree (placement.tmpFile (tmpBytes session start)) s.disk.tree)
    (hholds : s.disk.tree.Holds (placement.tmpFile (tmpBytes session start)) content)
    (hf : ∀ disk, Spares (s.withDisk disk) (f ())) :
    Spares s (moveIntoPlace session (render (placement.tmpFile (tmpBytes session start)))
      expected >>= f) := by
  obtain ⟨made, placed, hmake, hrename, hbefore, hafter⟩ :=
    hplaceable.moves hopenable haside hholds
  rw [← hexpected] at hmake hrename hbefore hafter
  have hcut := hplaceable.parent
  rw [← hexpected] at hcut
  have hloads : parentPath expected.absolutePath ≠ session.userPath →
      (DirectoryEntry.load session.platform session.userPath (parentPath expected.absolutePath)
        (s.withDisk made).disk.tree).isSome = true := fun hne => (hcut hne).loads hbefore
  obtain ⟨entry, hsave, hentry⟩ := saveParent_returns hloads
  obtain ⟨disk, hreset⟩ := resetParent_returns session (s.withDisk placed)
    (parentPath expected.absolutePath) entry fun hne => by
      rw [hentry hne]
      exact hafter
  have hrun : moveIntoPlace session (render (placement.tmpFile (tmpBytes session start)))
      expected s = .returned () (s.withDisk disk) := by
    rw [moveIntoPlace, read_bind_apply, bind_of_returned (when_onDisk s hmake),
      bind_of_returned hsave, bind_of_returned (onDisk_of_returned (s.withDisk made) hrename)]
    exact hreset
  exact Spares.then_returned hrun (hf disk)

variable {s : ServerState}

theorem acceptFile_spares {incoming : List ClientMessage} (expected : DirectoryEntry)
    (hidle : start.database.inTransaction = false)
    (hopenable : Openable placement start.disk (tmpBytes session start))
    (hexpected : expected.absolutePath = session.userPath ++ path)
    (hreceiving : Receiving start (placement.tmpFile (tmpBytes session start)) content incoming s)
    (hplaceable : content.length = expected.size → session.platform.sha256 content = expected.hash →
      session.platform.putTime (session.platform.getTime expected.lastWriteTime) =
        expected.lastWriteTime → Placeable placement start.disk (tmpBytes session start) path) :
    Spares s (acceptFile session (render (placement.tmpFile (tmpBytes session start)))
      expected) := by
  have hcut := hopenable.cut
  have htmp : PlainPath (placement.tmpFile (tmpBytes session start)) := Placement.tmpFile_plain _
  have hne : placement.tmpFile (tmpBytes session start) ≠ [] := List.cons_ne_nil _ _
  obtain ⟨mtime, hnode⟩ := hreceiving.holds
  have hstatus : s.disk.tree.status (render (placement.tmpFile (tmpBytes session start))) =
      some (.file content mtime) := by
    rw [s.disk.tree.status_render htmp hne, hnode]
  have hresolve : s.disk.tree.resolve (render (placement.tmpFile (tmpBytes session start))) =
      some (placement.tmpFile (tmpBytes session start)) :=
    s.disk.tree.resolve_render_of_isDir htmp (s.disk.tree.isDir_parent hreceiving.holds.isSome)
  have hloads : ∃ newFile, DirectoryEntry.load session.platform session.temporaryPath
      (render (placement.tmpFile (tmpBytes session start))) s.disk.tree = some newFile :=
    DirectoryEntry.load_isSome hcut (by simp [hstatus])
  obtain ⟨newFile, hload⟩ := hloads
  obtain ⟨-, habsolute, node, hstatus', hdescribes⟩ := DirectoryEntry.load_eq_some hload
  obtain rfl := Option.some.inj (hstatus.symm.trans hstatus')
  have hrun : loadEntry session session.temporaryPath
      (render (placement.tmpFile (tmpBytes session start))) s = .returned newFile s := by
    simp [loadEntry, hload]
  let timed := s.disk.setTime (placement.tmpFile (tmpBytes session start))
    (session.platform.getTime expected.lastWriteTime)
  have hset : setTimeToFile session newFile expected.lastWriteTime s = .returned
      { newFile with
        lastWriteTime :=
          session.platform.putTime (session.platform.getTime expected.lastWriteTime) }
      (s.withDisk timed) :=
    onDisk_of_returned s (DirectoryEntry.setTimeToFile_of_resolve (habsolute ▸ hresolve) hnode _)
  have hholds : timed.tree.Holds (placement.tmpFile (tmpBytes session start)) content :=
    ⟨_, hreceiving.holds.setTime _⟩
  have haside : Aside start.disk.tree (placement.tmpFile (tmpBytes session start)) timed.tree :=
    hreceiving.aside.setTime _
  apply Spares.then_returned hrun
  apply Spares.then_returned hset
  apply Spares.ite
  · -- the file is not the one that was announced
    intro _
    have htorn : Torn start (placement.tmpFile (tmpBytes session start)) (s.withDisk timed) :=
      ⟨hreceiving.records.withDisk _, haside, .inr ⟨content, hholds⟩⟩
    obtain ⟨removed, disk, hremove, -, -⟩ := remove_torn htmp hne htorn
    apply Spares.then_returned hremove
    exact Spares.refuse rfl
  · intro hsame
    simp only [not_or, not_not] at hsame
    obtain ⟨hsize, hhash, htime⟩ := hsame
    apply moveIntoPlace_spares (s := s.withDisk timed) hopenable (hplaceable
      (hdescribes.size.symm.trans hsize) (hdescribes.hash.symm.trans hhash) htime) hexpected
      haside hholds
    intro disk
    apply Spares.read
    apply Spares.track
    · exact (congrArg Database.inTransaction hreceiving.records.database).trans hidle
    · exact Spares.sendServerMessage _

theorem storeFile_spares (hrecovered : start.recovered = true)
    (hidle : start.database.inTransaction = false) (hhashed : Hashed message)
    (hstorable : ∀ path, Validator.validatePath message.path = some path →
      Validator.validateLastWriteTime message.lastWriteTime = true →
        FileStorable placement start.disk (tmpBytes session start) message
          start.connection.incoming path) :
    Spares start (storeFile session message) := by
  apply Spares.then_returned (recoverIfNeeded_of_recovered session start hrecovered)
  apply Spares.readHash hhashed
  intro h hh
  apply Spares.orRaise fun _ => rfl
  intro path hpath
  apply Spares.ensure rfl
  intro htime
  obtain ⟨hopenable, hplaceable⟩ := hstorable path hpath htime
  apply Spares.then_returned (getHexString_run start session.tempNameSize)
  rw [placement.tmpPath_eq]
  apply Spares.read
  have hplain : PlainPath (placement.tmpFile (tmpBytes session start)) :=
    Placement.tmpFile_plain _
  let named := { start with random := fun index => start.random (index + session.tempNameSize) }
  rcases makeTemporary_cases placement (tmpBytes session start) named with
    ⟨disk, hmake, htemp⟩ | ⟨-, -, -, -, hfails⟩
  · apply Spares.then_returned hmake
    obtain ⟨hdir, haside, hfile⟩ := htemp.resolve_left fun hblocked => hopenable.way hblocked.2.2
    have hnotDir : disk.tree.isDir (placement.tmpFile (tmpBytes session start)) = false := by
      rw [FileTree.isDir, hfile]
      exact hopenable.free
    apply Spares.then_returned (onDisk_of_returned (named.withDisk disk)
      (SystemCall.openTruncated_render hplain hdir hnotDir hopenable.fits))
    apply Spares.read
    have hreceiving : Receiving start (placement.tmpFile (tmpBytes session start)) []
        start.connection.incoming ((named.withDisk disk).withDisk
          (disk.writeFile (placement.tmpFile (tmpBytes session start)) [])) :=
      ⟨⟨rfl, rfl, rfl, rfl⟩, rfl, haside.writeFile hplain.head hdir hnotDir [],
        FileTree.Holds.writeFile hplain.head hdir hnotDir []⟩
    rcases transfer_ends hplain (List.cons_ne_nil _ _) hreceiving with
      ⟨taken, rest, s', heq, htaken, hrun, hreceived⟩ | ⟨exception, s', hrun, hinterrupts, -⟩
    · apply Spares.then_returned hrun
      apply acceptFile_spares _ hidle hopenable rfl hreceived
      intro hsize hhash hsame
      apply hplaceable taken ⟨⟨rest, heq⟩, htaken, hsize, ?_, hsame⟩
      exact hh.trans (congrArg some hhash.symm)
    · exact Meets.then_raised hrun hinterrupts.stops
  · rcases hfails with hblocked | hlong
    · exact absurd hblocked hopenable.way
    · rw [placement.temporaryPath_eq] at hlong
      exact absurd (PathFits.of_append hopenable.fits) hlong

end Handlers

end PdsBackup.Server
