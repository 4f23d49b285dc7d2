import PdsBackup.Server.ProtocolManager

/-!
# The steps of the handlers

Each step that the handlers are made of ends in one of a few ways, depending on
the state it starts in.  The lemmas below say which, with the state it leaves,
so that a handler can be run from a known state without looking into its steps.
-/

namespace PdsBackup.Server

open Procedure

namespace ServerState

def withDisk (disk : Disk) (s : ServerState) : ServerState := { s with disk }

def withIncoming (incoming : List ClientMessage) (s : ServerState) : ServerState :=
  { s with connection := { s.connection with incoming } }

def sent (message : ServerMessage) (s : ServerState) : ServerState :=
  { s with connection := s.connection.sent message }

def failed (message : ServerMessage) (s : ServerState) : ServerState :=
  { s with connection := s.connection.failed message }

/-- Without the rows and the element of a path. -/
def forgotten (session : Session) (path : Text) (s : ServerState) : ServerState :=
  { s with
    database := { s.database with
      rows := s.database.rows.filter fun row => !row.isAt session.username session.mac path }
    elements := s.elements.erase path }

/-- With a new row and a new element. -/
def entered (session : Session) (entry : DirectoryEntry) (s : ServerState) : ServerState :=
  { s with
    database := { s.database with
      rows := s.database.rows ++ [Row.ofEntry session.username session.mac entry] }
    elements := s.elements.emplace entry.relativePath entry }

/-- With the rows of an entry's path and the element of another path updated. -/
def refreshed (session : Session) (path : Text) (entry : DirectoryEntry) (s : ServerState) :
    ServerState :=
  { s with
    database := { s.database with
      rows := s.database.rows.map fun row =>
        if row.isAt session.username session.mac entry.relativePath then row.updated entry
        else row }
    elements := s.elements.insert path entry }

/-- With an element entered, or updated when there was one. -/
def tracked (session : Session) (path : Text) (el : Option DirectoryEntry)
    (entry : DirectoryEntry) (s : ServerState) : ServerState :=
  match el with
  | none => s.entered session entry
  | some _ => s.refreshed session path entry

section Tracked

variable (session : Session) (path : Text) (el : Option DirectoryEntry) (entry : DirectoryEntry)
variable {s start : ServerState}

@[simp] theorem tracked_disk : (s.tracked session path el entry).disk = s.disk := by
  cases el <;> rfl

@[simp] theorem tracked_connection :
    (s.tracked session path el entry).connection = s.connection := by
  cases el <;> rfl

@[simp] theorem tracked_recovered :
    (s.tracked session path el entry).recovered = s.recovered := by
  cases el <;> rfl

@[simp] theorem tracked_inTransaction :
    (s.tracked session path el entry).database.inTransaction = s.database.inTransaction := by
  cases el <;> rfl

/-- What is entered depends on the records only. -/
theorem tracked_database_congr (hdatabase : s.database = start.database) :
    (s.tracked session path el entry).database =
      (start.tracked session path el entry).database := by
  cases el <;> simp [tracked, entered, refreshed, hdatabase]

theorem tracked_elements_congr (helements : s.elements = start.elements) :
    (s.tracked session path el entry).elements =
      (start.tracked session path el entry).elements := by
  cases el <;> simp [tracked, entered, refreshed, helements]

end Tracked

end ServerState

section Steps

variable (session : Session) (s : ServerState)

theorem onDisk_of_returned {ε α : Type} {p : Procedure Disk ε α} {value : α} {disk : Disk}
    (hp : p s.disk = .returned value disk) : onDisk p s = .returned value (s.withDisk disk) :=
  within_of_returned _ _ _ hp

theorem onDisk_of_raised {ε α : Type} {p : Procedure Disk ε α} {exception : ε} {disk : Disk}
    (hp : p s.disk = .raised exception disk) :
    onDisk p s = .raised .standard (s.withDisk disk) :=
  within_of_raised _ _ _ hp

theorem insertElement_run (path : Text) (entry : DirectoryEntry) :
    insertElement path entry s =
      .returned () { s with elements := s.elements.insert path entry } := rfl

theorem recvMessage_run {message : ClientMessage} {pending : List ClientMessage}
    (hincoming : s.connection.incoming = message :: pending) :
    recvMessage s = .returned message (s.withIncoming pending) := by
  simp [recvMessage, hincoming, ServerState.withIncoming]

theorem getHexString_run (size : Nat) :
    getHexString size s = .returned (stringToHex ((List.range size).map s.random))
      { s with random := fun index => s.random (index + size) } := rfl

theorem sendServerMessage_cases (message : ServerMessage) :
    sendServerMessage message s = .returned () (s.sent message) ∨
      sendServerMessage message s = .raised (.socket .write) (s.failed message) := by
  by_cases hleft : s.connection.sendsLeft = some 0
  · exact .inr (by simp [sendServerMessage, hleft, ServerState.failed])
  · exact .inl (by simp [sendServerMessage, hleft, ServerState.sent])

theorem refuse_cases {α : Type} (code : ErrCode) (exception : ServerException) :
    (refuse session code exception : ServerProcedure α) s =
        .raised exception (s.sent (errMessage session code)) ∨
      (refuse session code exception : ServerProcedure α) s =
        .raised (.socket .write) (s.failed (errMessage session code)) := by
  rcases sendServerMessage_cases s (errMessage session code) with hsend | hsend
  · exact .inl (bind_of_returned hsend)
  · exact .inr (bind_of_raised hsend)

theorem loadEntry_cases (basePath absolutePath : Text) :
    (∃ entry, DirectoryEntry.load session.platform basePath absolutePath s.disk.tree = some entry ∧
        loadEntry session basePath absolutePath s = .returned entry s) ∨
      (DirectoryEntry.load session.platform basePath absolutePath s.disk.tree = none ∧
        loadEntry session basePath absolutePath s = .raised .standard s) := by
  cases hload : DirectoryEntry.load session.platform basePath absolutePath s.disk.tree with
  | some entry => exact .inl ⟨entry, rfl, by simp [loadEntry, hload]⟩
  | none => exact .inr ⟨rfl, by simp [loadEntry, hload]⟩

theorem setTimeToFile_cases (entry : DirectoryEntry) (time : Text) :
    (∃ path node, s.disk.tree.resolve entry.absolutePath = some path ∧
        s.disk.tree.node path = some node ∧
        setTimeToFile session entry time s =
          .returned { entry with
              lastWriteTime := session.platform.putTime (session.platform.getTime time) }
            (s.withDisk (s.disk.setTime path (session.platform.getTime time)))) ∨
      (s.disk.tree.status entry.absolutePath = none ∧
        setTimeToFile session entry time s = .raised .standard s) := by
  cases hstatus : s.disk.tree.status entry.absolutePath with
  | some node =>
      obtain ⟨path, hresolve, hnode⟩ := s.disk.tree.resolve_of_status hstatus
      exact .inl ⟨path, node, hresolve, hnode,
        onDisk_of_returned s (DirectoryEntry.setTimeToFile_of_resolve hresolve hnode time)⟩
  | none =>
      exact .inr ⟨rfl, onDisk_of_raised s (DirectoryEntry.setTimeToFile_of_none hstatus time)⟩

theorem saveParent_cases (parent : Text) :
    (∃ entry, saveParent session parent s = .returned entry s ∧
        (parent ≠ session.userPath → DirectoryEntry.load session.platform session.userPath parent
          s.disk.tree = some entry)) ∨
      (parent ≠ session.userPath ∧
        DirectoryEntry.load session.platform session.userPath parent s.disk.tree = none ∧
        saveParent session parent s = .raised .standard s) := by
  unfold saveParent
  by_cases hparent : parent ≠ session.userPath
  · rw [if_pos hparent]
    rcases loadEntry_cases session s session.userPath parent with
      ⟨entry, hload, hrun⟩ | ⟨hload, hrun⟩
    · exact .inl ⟨entry, hrun, fun _ => hload⟩
    · exact .inr ⟨hparent, hload, hrun⟩
  · rw [if_neg hparent]
    exact .inl ⟨{}, rfl, fun h => absurd h hparent⟩

theorem resetParent_cases (parent : Text) (entry : DirectoryEntry) :
    (parent = session.userPath ∧ resetParent session parent entry s = .returned () s) ∨
      (parent ≠ session.userPath ∧ ∃ path node,
        s.disk.tree.resolve entry.absolutePath = some path ∧
        s.disk.tree.node path = some node ∧
        resetParent session parent entry s = .returned ()
          (s.withDisk (s.disk.setTime path (session.platform.getTime entry.lastWriteTime)))) ∨
      (parent ≠ session.userPath ∧ s.disk.tree.status entry.absolutePath = none ∧
        resetParent session parent entry s = .raised .standard s) := by
  unfold resetParent
  by_cases hparent : parent = session.userPath
  · exact .inl ⟨hparent, by simp [hparent]⟩
  · have hwhen : decide (parent ≠ session.userPath) = true := by simpa using hparent
    rw [hwhen, when_true]
    rcases setTimeToFile_cases session s entry entry.lastWriteTime with
      ⟨path, node, hresolve, hnode, hrun⟩ | ⟨hstatus, hrun⟩
    · exact .inr (.inl ⟨hparent, path, node, hresolve, hnode, bind_of_returned hrun⟩)
    · exact .inr (.inr ⟨hparent, hstatus, bind_of_raised hrun⟩)

/-- The time of the parent can be set again as long as its path leads somewhere. -/
theorem resetParent_returns (parent : Text) (entry : DirectoryEntry)
    (hstatus : parent ≠ session.userPath →
      (s.disk.tree.status entry.absolutePath).isSome = true) :
    ∃ disk, resetParent session parent entry s = .returned () (s.withDisk disk) := by
  rcases resetParent_cases session s parent entry with
    ⟨-, hrun⟩ | ⟨-, path, node, -, -, hrun⟩ | ⟨hne, hnone, -⟩
  · exact ⟨s.disk, hrun⟩
  · exact ⟨_, hrun⟩
  · have hsome := hstatus hne
    simp [hnone] at hsome

theorem onDatabase_mapRows_cases (f : List Row → List Row) :
    (s.database.inTransaction = false ∧
        onDatabase (Database.mapRows f) s =
          .returned () { s with database := { s.database with rows := f s.database.rows } }) ∨
      (s.database.inTransaction = true ∧
        onDatabase (Database.mapRows f) s = .raised (.database .prepare) s) := by
  cases hopen : s.database.inTransaction with
  | false =>
      exact .inl ⟨rfl, within_of_returned _ _ _ (Database.mapRows_of_idle hopen f)⟩
  | true =>
      exact .inr ⟨rfl, within_of_raised _ _ _ (Database.mapRows_of_open hopen f)⟩

theorem forget_cases (path : Text) :
    (s.database.inTransaction = false ∧
        forget session path s = .returned () (s.forgotten session path)) ∨
      (s.database.inTransaction = true ∧
        forget session path s = .raised (.database .prepare) s) := by
  rcases onDatabase_mapRows_cases s fun rows =>
    rows.filter fun row => !row.isAt session.username session.mac path with
      ⟨hidle, hrun⟩ | ⟨hopen, hrun⟩
  · exact .inl ⟨hidle, bind_of_returned hrun⟩
  · exact .inr ⟨hopen, bind_of_raised hrun⟩

theorem track_cases (path : Text) (el : Option DirectoryEntry) (entry : DirectoryEntry) :
    (s.database.inTransaction = false ∧
        track session path el entry s = .returned () (s.tracked session path el entry)) ∨
      (s.database.inTransaction = true ∧
        track session path el entry s = .raised (.database .prepare) s) := by
  cases el with
  | none =>
      rcases onDatabase_mapRows_cases s fun rows =>
        rows ++ [Row.ofEntry session.username session.mac entry] with ⟨hidle, hrun⟩ | ⟨hopen, hrun⟩
      · exact .inl ⟨hidle, bind_of_returned hrun⟩
      · exact .inr ⟨hopen, bind_of_raised hrun⟩
  | some el =>
      rcases onDatabase_mapRows_cases s fun rows => rows.map fun row =>
        if row.isAt session.username session.mac entry.relativePath then row.updated entry
        else row with ⟨hidle, hrun⟩ | ⟨hopen, hrun⟩
      · exact .inl ⟨hidle, bind_of_returned hrun⟩
      · exact .inr ⟨hopen, bind_of_raised hrun⟩

/-- Without the rows and the elements of several paths. -/
def ServerState.forgottenAll (session : Session) (entries : List DirectoryEntry)
    (s : ServerState) : ServerState :=
  entries.foldl (fun s entry => s.forgotten session entry.relativePath) s

theorem forgottenAll_frame (entries : List DirectoryEntry) :
    (s.forgottenAll session entries).disk = s.disk ∧
      (s.forgottenAll session entries).connection = s.connection ∧
      (s.forgottenAll session entries).database.inTransaction = s.database.inTransaction ∧
      (s.forgottenAll session entries).recovered = s.recovered := by
  induction entries generalizing s with
  | nil => exact ⟨rfl, rfl, rfl, rfl⟩
  | cons entry entries ih => exact ih (s.forgotten session entry.relativePath)

theorem forgottenAll_withDisk (entries : List DirectoryEntry) (disk : Disk) :
    (s.withDisk disk).forgottenAll session entries =
      (s.forgottenAll session entries).withDisk disk := by
  induction entries generalizing s with
  | nil => rfl
  | cons entry entries ih => exact ih (s.forgotten session entry.relativePath)

theorem forgetAll_of_idle (entries : List DirectoryEntry)
    (hidle : s.database.inTransaction = false) :
    forgetAll session entries s = .returned () (s.forgottenAll session entries) := by
  induction entries generalizing s with
  | nil => rfl
  | cons entry entries ih =>
      rcases forget_cases session s entry.relativePath with ⟨-, hrun⟩ | ⟨hopen, -⟩
      · have hrest := ih (s.forgotten session entry.relativePath) hidle
        exact (bind_of_returned hrun).trans hrest
      · simp [hidle] at hopen

theorem forgetAll_of_open (entries : List DirectoryEntry)
    (hopen : s.database.inTransaction = true) :
    (forgetAll session entries s = .returned () s ∧ entries = []) ∨
      forgetAll session entries s = .raised (.database .prepare) s := by
  cases entries with
  | nil => exact .inl ⟨rfl, rfl⟩
  | cons entry entries =>
      rcases forget_cases session s entry.relativePath with ⟨hidle, -⟩ | ⟨-, hrun⟩
      · simp [hidle] at hopen
      · exact .inr (bind_of_raised hrun)

theorem recoverIfNeeded_of_recovered (hrecovered : s.recovered = true) :
    recoverIfNeeded session s = .returned () s := by
  simp [recoverIfNeeded, hrecovered]

end Steps

/-! ## What recovery leaves alone -/

/-- A condition that is about neither the database nor the map. -/
structure Unrecorded (inv : ServerState → Prop) : Prop where
  database : ∀ s database, inv s → inv { s with database }
  elements : ∀ s elements, inv s → inv { s with elements }
  recovered : ∀ s, inv s → inv { s with recovered := true }

namespace Unrecorded

variable {session : Session} {inv : ServerState → Prop}

theorem onDatabase {α : Type} (h : Unrecorded inv) (p : Query α) :
    Keeps inv (onDatabase p) :=
  Meets.within (Meets.anything p) (fun _ _ => trivial) (fun _ database s hs _ => h.database s database hs)
    fun _ database s hs _ => h.database s database hs

theorem emplaceElement (h : Unrecorded inv) (path : Text) (entry : DirectoryEntry) :
    Keeps inv (emplaceElement path entry) := Keeps.modify _ fun s hs => h.elements s _ hs

theorem recoverRow (h : Unrecorded inv) (row : Row) (toUpdate toDelete : List DirectoryEntry) :
    Keeps inv (recoverRow session row toUpdate toDelete) := by
  apply Keeps.bind (Keeps.orRaise _ _)
  intro bytes
  apply Keeps.bind (Keeps.orRaise _ _)
  intro hash
  apply Keeps.bind (Keeps.read _)
  intro disk
  apply Keeps.ite
  · exact fun _ => Keeps.pure _
  intro _
  apply Keeps.bind (Keeps.bind (Keeps.read _) fun _ => Keeps.orRaise _ _)
  intro effective
  apply Keeps.ite
  · exact fun _ => Keeps.pure _
  · exact fun _ => Keeps.bind (h.emplaceElement _ _) fun _ => Keeps.pure _

theorem recoverRows (h : Unrecorded inv) (rows : List Row)
    (toUpdate toDelete : List DirectoryEntry) :
    Keeps inv (recoverRows session rows toUpdate toDelete) := by
  induction rows generalizing toUpdate toDelete with
  | nil => exact Keeps.pure _
  | cons row rows ih =>
      exact Keeps.bind (h.recoverRow _ _ _) fun lists => ih lists.1 lists.2

theorem updateAll (h : Unrecorded inv) (entries : List DirectoryEntry) :
    Keeps inv (updateAll session entries) := by
  induction entries with
  | nil => exact Keeps.pure ()
  | cons entry entries ih =>
      apply Keeps.bind (h.onDatabase _)
      exact fun _ => Keeps.bind (h.emplaceElement _ _) fun _ => ih

theorem deleteAll (h : Unrecorded inv) (entries : List DirectoryEntry) :
    Keeps inv (deleteAll session entries) := by
  induction entries with
  | nil => exact Keeps.pure ()
  | cons entry entries ih => exact Keeps.bind (h.onDatabase _) fun _ => ih

theorem recoverIfNeeded (h : Unrecorded inv) : Keeps inv (recoverIfNeeded session) := by
  apply Keeps.bind (Keeps.read _)
  intro recovered
  apply Keeps.ite
  · exact fun _ => Keeps.pure ()
  intro _
  apply Keeps.bind (h.onDatabase _)
  intro rows
  apply Keeps.bind (h.recoverRows _ _ _)
  intro lists
  apply Keeps.bind (h.onDatabase _)
  intro _
  apply Keeps.bind (h.updateAll _)
  intro _
  apply Keeps.bind (h.deleteAll _)
  exact fun _ => Keeps.modify _ h.recovered

end Unrecorded

end PdsBackup.Server
