import PdsBackup.Server.Retrieval
import PdsBackup.Server.Tracking

/-!
# What a request does to the records

Of the parts of a session's state the rows of the database and the map of elements
are the ones that others read as well, or that are compared with what others read.
A request changes them in one of a few ways, however it ends.
-/

namespace PdsBackup.Server

open Procedure

/-- The rows and the elements are as they were. -/
structure SameTables (start s : ServerState) : Prop where
  rows : s.database.rows = start.database.rows
  elements : s.elements = start.elements
  recovered : s.recovered = start.recovered

theorem SameTables.refl (s : ServerState) : SameTables s s := ⟨rfl, rfl, rfl⟩

theorem SameTables.trans {start s s' : ServerState} (h : SameTables start s)
    (h' : SameTables s s') : SameTables start s' :=
  ⟨h'.rows.trans h.rows, h'.elements.trans h.elements, h'.recovered.trans h.recovered⟩

theorem SameTables.forgotten {start s : ServerState} (h : SameTables start s) (session : Session)
    (path : Text) : SameTables (start.forgotten session path) (s.forgotten session path) :=
  ⟨congrArg (List.filter _) h.rows, congrArg (AList.erase path) h.elements, h.recovered⟩

theorem SameTables.forgottenAll {start s : ServerState} (h : SameTables start s)
    (session : Session) (entries : List DirectoryEntry) :
    SameTables (start.forgottenAll session entries) (s.forgottenAll session entries) := by
  induction entries generalizing start s with
  | nil => exact h
  | cons entry entries ih => exact ih (h.forgotten session entry.relativePath)

/-- A routine that leaves the rows and the elements alone. -/
def Untouching {α : Type} (p : ServerProcedure α) : Prop := ∀ start, Keeps (SameTables start) p

/-- What is said of the rows and the elements only. -/
def OfTables (inv : ServerState → Prop) : Prop := ∀ s s', SameTables s s' → inv s → inv s'

namespace Untouching

variable {α β : Type}

theorem keeps {p : ServerProcedure α} (hp : Untouching p) {inv : ServerState → Prop}
    (hinv : OfTables inv) : Keeps inv p := by
  apply Meets.of_each
  intro s hs
  apply ((hp s).at_state (SameTables.refl s)).consequence (fun _ h => h)
  · exact fun _ s' hsame => hinv s s' hsame hs
  · exact fun _ s' hsame => hinv s s' hsame hs

theorem pure (value : α) : Untouching (Pure.pure value) := fun _ => Keeps.pure value

theorem raise (exception : ServerException) :
    Untouching (Procedure.raise exception : ServerProcedure α) := fun _ => Keeps.raise exception

theorem read (f : ServerState → α) : Untouching (Procedure.read f) := fun _ => Keeps.read f

theorem orRaise (exception : ServerException) (value : Option α) :
    Untouching (Procedure.orRaise exception value) := fun _ => Keeps.orRaise exception value

theorem ensure (exception : ServerException) (condition : Bool) :
    Untouching (Procedure.ensure exception condition) := fun _ => Keeps.ensure exception condition

theorem bind {p : ServerProcedure α} {f : α → ServerProcedure β} (hp : Untouching p)
    (hf : ∀ value, Untouching (f value)) : Untouching (p >>= f) := fun start =>
  Keeps.bind (hp start) fun value => hf value start

theorem ite {condition : Prop} [Decidable condition] {p q : ServerProcedure α}
    (hthen : Untouching p) (helse : Untouching q) : Untouching (if condition then p else q) :=
  fun start => Keeps.ite (fun _ => hthen start) fun _ => helse start

theorem when {p : ServerProcedure Unit} (condition : Bool) (hp : Untouching p) :
    Untouching (Procedure.when condition p) := fun start => Keeps.when condition fun _ => hp start

theorem modify {f : ServerState → ServerState} (hf : ∀ s, SameTables s (f s)) :
    Untouching (Procedure.modify f) := fun _ => Keeps.modify f fun s hs => hs.trans (hf s)

theorem catching {p : ServerProcedure α} {handler : ServerException → ServerProcedure α}
    (hp : Untouching p) (hhandler : ∀ exception, Untouching (handler exception)) :
    Untouching (Procedure.catching p handler) := fun start =>
  Keeps.catching (hp start) fun exception => hhandler exception start

theorem onDisk {ε : Type} (p : Procedure Disk ε α) : Untouching (Server.onDisk p) := by
  intro start
  apply Meets.within (Meets.anything p)
  · exact fun _ _ => trivial
  · exact fun _ _ _ hs _ => ⟨hs.rows, hs.elements, hs.recovered⟩
  · exact fun _ _ _ hs _ => ⟨hs.rows, hs.elements, hs.recovered⟩

theorem sendServerMessage (message : ServerMessage) : Untouching (sendServerMessage message) := by
  intro start
  apply Meets.of_each
  intro s hs
  cases sendServerMessage_cases s message with
  | inl hrun => exact Meets.ends_returned hrun ⟨hs.rows, hs.elements, hs.recovered⟩
  | inr hrun => exact Meets.ends_raised hrun ⟨hs.rows, hs.elements, hs.recovered⟩

/-- A query that only reads. -/
theorem onDatabase {query : Query α} (hquery : ∀ rows, Keeps (fun database => database.rows = rows)
    query) : Untouching (Server.onDatabase query) := by
  intro start
  apply Meets.within (hquery start.database.rows)
  · exact fun _ hs => hs.rows
  · exact fun _ _ _ hs hrows => ⟨hrows, hs.elements, hs.recovered⟩
  · exact fun _ _ _ hs hrows => ⟨hrows, hs.elements, hs.recovered⟩

theorem begin (rows : List Row) : Keeps (fun database => database.rows = rows) Database.begin :=
  Keeps.bind (Keeps.read _) fun _ => Keeps.ensure _ _

theorem select (username mac : Text) :
    Untouching (Server.onDatabase (Database.select username mac)) :=
  onDatabase fun rows => Keeps.bind (begin rows) fun _ =>
    Keeps.bind (Keeps.modify _ fun _ h => h) fun _ => Keeps.read _

theorem getAllMacAddresses (username : Text) :
    Untouching (Server.onDatabase (Database.getAllMacAddresses username)) :=
  onDatabase fun rows => Keeps.bind (begin rows) fun _ => Keeps.read _

theorem finish : Untouching (Server.onDatabase Database.finish) :=
  onDatabase fun _ => Keeps.modify _ fun _ h => h

variable (session : Session)

theorem refuse (code : ErrCode) (exception : ServerException) :
    Untouching (refuse session code exception : ServerProcedure α) :=
  bind (sendServerMessage _) fun _ => raise exception

theorem recvMessage : Untouching recvMessage := by
  apply bind (read _)
  intro incoming
  cases incoming with
  | nil => exact raise _
  | cons message incoming =>
      exact bind (modify fun _ => ⟨rfl, rfl, rfl⟩) fun _ => pure message

theorem loadEntry (basePath absolutePath : Text) :
    Untouching (loadEntry session basePath absolutePath) := bind (read _) fun _ => orRaise _ _

theorem setTimeToFile (entry : DirectoryEntry) (time : Text) :
    Untouching (setTimeToFile session entry time) := onDisk _

theorem saveParent (parent : Text) : Untouching (saveParent session parent) :=
  ite (loadEntry session _ _) (pure _)

theorem resetParent (parent : Text) (entry : DirectoryEntry) :
    Untouching (resetParent session parent entry) :=
  when _ (bind (setTimeToFile session _ _) fun _ => pure _)

theorem getHexString (size : Nat) : Untouching (getHexString size) :=
  bind (read _) fun _ => bind (modify fun _ => ⟨rfl, rfl, rfl⟩) fun _ => pure _

theorem receiveData (handle : Path) (tmpPath : Text) (incoming : List ClientMessage) :
    Untouching (receiveData session handle tmpPath incoming) := by
  induction incoming with
  | nil => exact bind recvMessage fun _ => pure ()
  | cons _ pending ih =>
      apply bind recvMessage
      intro message
      apply ite
      · exact bind (sendServerMessage _) fun _ => bind (onDisk _) fun _ => raise _
      apply ite
      · exact bind (onDisk _) fun _ => refuse session _ _
      exact bind (onDisk _) fun _ => ite (pure ()) ih

theorem removeOnSocketException (tmpPath : Text) (exception : ServerException) :
    Untouching (removeOnSocketException tmpPath exception) := by
  cases exception with
  | socket code => exact bind (onDisk _) fun _ => raise _
  | _ => exact raise _

theorem moveIntoPlace (tmpPath : Text) (expected : DirectoryEntry) :
    Untouching (moveIntoPlace session tmpPath expected) := by
  apply bind (read _)
  intro parentExists
  apply bind (when _ (onDisk _))
  intro _
  apply bind (saveParent session _)
  intro entry
  exact bind (onDisk _) fun _ => resetParent session _ _

theorem collectRows (mac : Text) (rows : List Row) : Untouching (collectRows session mac rows) := by
  induction rows with
  | nil => exact pure _
  | cons row rows ih =>
      exact bind (orRaise _ _) fun _ => bind (orRaise _ _) fun _ => bind ih fun _ => pure _

theorem collectMac (mac : Text) : Untouching (collectMac session mac) :=
  bind (select _ _) fun _ => bind (collectRows session mac _) fun _ =>
    bind finish fun _ => pure _

theorem collectMacs (macs : List Text) : Untouching (collectMacs session macs) := by
  induction macs with
  | nil => exact pure _
  | cons mac macs ih => exact bind (collectMac session mac) fun _ => bind ih fun _ => pure _

theorem collect (message : ClientMessage) : Untouching (collect session message) := by
  apply ite
  · exact bind (getAllMacAddresses _) fun macs => collectMacs session macs
  · exact ite (refuse session _ _) (bind (orRaise _ _) fun _ => collectMac session _)

end Untouching

/-! ## Effects -/

variable {session : Session} {message : ClientMessage} {path : Text} {start : ServerState}

/-- The path a request with a given path is recorded under.  A directory is
entered as it was read from the disk. -/
def RecordedAs (session : Session) (type : ClientMessage.Type) (path recorded : Text) : Prop :=
  match type with
  | .STOR => recorded = path
  | .MKD => DirectoryEntry.relativePathOf session.userPath (session.userPath ++ path) = some recorded
  | _ => False

/-- What a request does to the rows and the elements of a session that has
recovered. -/
inductive Effect (session : Session) (message : ClientMessage) (start s : ServerState) : Prop where
  | nothing (hsame : SameTables start s)
  | retimed (path : Text) (entry : DirectoryEntry) (hmem : (start.elements.lookup path).isSome = true)
      (hsame : SameTables { start with elements := start.elements.insert path entry } s)
  | forgot (entries : List DirectoryEntry) (hsame : SameTables (start.forgottenAll session entries) s)
  | tracked (path : Text) (entry : DirectoryEntry)
      (hpath : Validator.validatePath message.path = some path)
      (hentry : RecordedAs session message.type path entry.relativePath)
      (hsame : SameTables (start.tracked session path (start.elements.lookup path) entry) s)
  | withdrew (htype : message.type = .RETR) (keep : Row → Bool)
      (hrows : s.database.rows = start.database.rows.filter keep)
      (helements : s.elements = start.elements) (hrecovered : s.recovered = start.recovered)

theorem Effect.ofTables : OfTables (Effect session message start) := by
  intro s s' hsame heffect
  cases heffect with
  | nothing h => exact .nothing (h.trans hsame)
  | retimed path entry hmem h => exact .retimed path entry hmem (h.trans hsame)
  | forgot entries h => exact .forgot entries (h.trans hsame)
  | tracked path entry hpath hentry h => exact .tracked path entry hpath hentry (h.trans hsame)
  | withdrew htype keep hrows helements hrecovered =>
      exact .withdrew htype keep (hsame.rows.trans hrows) (hsame.elements.trans helements)
        (hsame.recovered.trans hrecovered)

/-- The routine has one of the effects, however it ends. -/
def Affects {α : Type} (session : Session) (message : ClientMessage) (start : ServerState)
    (p : ServerProcedure α) : Prop :=
  Meets (SameTables start) p (fun _ => Effect session message start)
    fun _ => Effect session message start

namespace Affects

variable {α β : Type}

theorem of_untouching {p : ServerProcedure α} (hp : Untouching p) :
    Affects session message start p :=
  (hp start).consequence (fun _ hs => hs) (fun _ _ hs => .nothing hs) fun _ _ hs => .nothing hs

theorem after {p : ServerProcedure α} {f : α → ServerProcedure β} (hp : Untouching p)
    (hf : ∀ value, Affects session message start (f value)) :
    Affects session message start (p >>= f) :=
  Meets.chain (hp start) (fun _ _ hs => .nothing hs) hf

/-- What is done after the records are written does not touch them. -/
theorem before {p : ServerProcedure α} {f : α → ServerProcedure β}
    (hp : Affects session message start p) (hf : ∀ value, Untouching (f value)) :
    Affects session message start (p >>= f) :=
  Meets.bind hp fun value => (hf value).keeps Effect.ofTables

theorem ite {condition : Prop} [Decidable condition] {p q : ServerProcedure α}
    (hthen : Affects session message start p) (helse : Affects session message start q) :
    Affects session message start (if condition then p else q) :=
  Meets.ite (fun _ => hthen) fun _ => helse

/-- The elements that are read are those of the start. -/
theorem lookup (path : Text) {f : Option DirectoryEntry → ServerProcedure β}
    (hf : Affects session message start (f (start.elements.lookup path))) :
    Affects session message start (read (fun s => s.elements.lookup path) >>= f) := by
  apply Meets.of_each
  intro s hs
  apply Meets.then_returned (Procedure.read_apply _ s)
  rw [hs.elements]
  exact hf.at_state hs

/-- After some paths were forgotten, another one is. -/
theorem forgetNext (entries : List DirectoryEntry) (path : Text) :
    Meets (SameTables (start.forgottenAll session entries)) (Server.forget session path)
      (fun _ => Effect session message start) fun _ => Effect session message start := by
  apply Meets.of_each
  intro s hs
  cases forget_cases session s path with
  | inl hrun =>
      apply Meets.ends_returned hrun.2
      apply Effect.forgot (entries ++ [{ relativePath := path }])
      rw [ServerState.forgottenAll, List.foldl_append]
      exact hs.forgotten session path
  | inr hrun => exact Meets.ends_raised hrun.2 (.forgot entries hs)

theorem forget (path : Text) : Affects session message start (Server.forget session path) :=
  forgetNext [] path

theorem forgetAll (entries : List DirectoryEntry) :
    Meets (SameTables start) (Server.forgetAll session entries)
      (fun _ => SameTables (start.forgottenAll session entries))
      fun _ => Effect session message start := by
  apply Meets.of_each
  intro s hs
  cases hopen : s.database.inTransaction with
  | false =>
      exact Meets.ends_returned (forgetAll_of_idle session s entries hopen)
        (hs.forgottenAll session entries)
  | true =>
      cases forgetAll_of_open session s entries hopen with
      | inl hnone =>
          obtain ⟨hrun, rfl⟩ := hnone
          exact Meets.ends_returned hrun hs
      | inr hrun => exact Meets.ends_raised hrun (.nothing hs)

theorem track {entry : DirectoryEntry} (hpath : Validator.validatePath message.path = some path)
    (hentry : RecordedAs session message.type path entry.relativePath) :
    Affects session message start
      (Server.track session path (start.elements.lookup path) entry) := by
  apply Meets.of_each
  intro s hs
  cases track_cases session s path (start.elements.lookup path) entry with
  | inl hrun =>
      apply Meets.ends_returned hrun.2
      apply Effect.tracked path entry hpath hentry
      cases start.elements.lookup path with
      | none =>
          exact ⟨congrArg (· ++ _) hs.rows, congrArg (KeyedMap.emplace · _ _) hs.elements,
            hs.recovered⟩
      | some el =>
          exact ⟨congrArg (List.map _) hs.rows, congrArg (AList.insert _ _) hs.elements,
            hs.recovered⟩
  | inr hrun => exact Meets.ends_raised hrun.2 (.nothing hs)

theorem accepted {exception : ServerException} {value : Option α} {f : α → ServerProcedure β}
    (hf : ∀ result, value = some result → Affects session message start (f result)) :
    Affects session message start (Procedure.orRaise exception value >>= f) :=
  Meets.bind_orRaise (fun _ hs => .nothing hs) hf

theorem afterRecovery (hrecovered : start.recovered = true) {f : Unit → ServerProcedure β}
    (hf : Affects session message start (f ())) :
    Affects session message start (recoverIfNeeded session >>= f) := by
  apply Meets.of_each
  intro s hs
  apply Meets.then_returned (recoverIfNeeded_of_recovered session s (hs.recovered.trans hrecovered))
  exact hf.at_state hs

/-- The relative path of an entry that is read is the one that was cut. -/
theorem loaded {basePath absolutePath : Text} {f : DirectoryEntry → ServerProcedure β}
    (hf : ∀ entry, DirectoryEntry.relativePathOf basePath absolutePath = some entry.relativePath →
      Affects session message start (f entry)) :
    Affects session message start (loadEntry session basePath absolutePath >>= f) := by
  apply Meets.of_each
  intro s hs
  cases loadEntry_cases session s basePath absolutePath with
  | inl hloaded =>
      obtain ⟨entry, hload, hrun⟩ := hloaded
      apply Meets.then_returned hrun
      exact (hf entry (DirectoryEntry.load_eq_some hload).1).at_state hs
  | inr hrun => exact Meets.then_raised hrun.2 (.nothing hs)

theorem timed {entry : DirectoryEntry} {time : Text} {f : DirectoryEntry → ServerProcedure β}
    (hf : ∀ entry', entry'.relativePath = entry.relativePath →
      Affects session message start (f entry')) :
    Affects session message start (setTimeToFile session entry time >>= f) := by
  apply Meets.of_each
  intro s hs
  cases setTimeToFile_cases session s entry time with
  | inl htimed =>
      obtain ⟨path, node, -, -, hrun⟩ := htimed
      apply Meets.then_returned hrun
      have hrest := hf
        { entry with
          lastWriteTime := session.platform.putTime (session.platform.getTime time) } rfl
      exact hrest.at_state ⟨hs.rows, hs.elements, hs.recovered⟩
  | inr hrun => exact Meets.then_raised hrun.2 (.nothing hs)

end Affects

theorem acceptFile_affects {tmpPath : Text} {expected : DirectoryEntry}
    (hpath : Validator.validatePath message.path = some expected.relativePath)
    (htype : message.type = .STOR) :
    Affects session message start (acceptFile session tmpPath expected) := by
  apply Affects.after (Untouching.loadEntry session _ _)
  intro newFile
  apply Affects.after (Untouching.setTimeToFile session _ _)
  intro newFile
  apply Affects.ite
  · exact Affects.of_untouching (Untouching.bind (Untouching.onDisk _) fun _ =>
      Untouching.refuse session _ _)
  apply Affects.after (Untouching.moveIntoPlace session _ _)
  intro _
  apply Affects.lookup
  apply Affects.before _ fun _ => Untouching.sendServerMessage _
  apply Affects.track hpath
  simp only [RecordedAs, htype]

/-- A RETR only takes rows out. -/
theorem retrieveUserData_affects (htype : message.type = .RETR) :
    Affects session message start (retrieveUserData session message) := by
  apply Meets.of_each
  intro s hs
  have hkeeps : OfStores fun s' => ∃ keep, s'.database.rows = s.database.rows.filter keep ∧
      s'.elements = s.elements ∧ s'.recovered = s.recovered := by
    rintro t t' hsame ⟨keep, hrows, helements, hrecovered⟩
    exact ⟨keep, hsame.rows.trans hrows, hsame.elements.trans helements,
      hsame.recovered.trans hrecovered⟩
  have hretrieve : Meets (fun s' => s' = s) (retrieveUserData session message) _ _ :=
    hkeeps.retrieveUserData ⟨fun _ => true, by simp, rfl, rfl⟩ (by
      rintro mac - row - - entry - t ⟨keep, hrows, helements, hrecovered⟩
      refine .inr ⟨fun row => keep row && !row.isAt session.username mac entry.relativePath, ?_,
        helements, hrecovered⟩
      rw [ServerState.without, hrows, List.filter_filter]
      exact List.filter_congr fun row _ => Bool.and_comm _ _)
  apply hretrieve.consequence
  · exact fun _ h => h
  · rintro _ s' ⟨keep, hrows, helements, hrecovered⟩
    exact .withdrew htype keep (hs.rows ▸ hrows) (helements.trans hs.elements)
      (hrecovered.trans hs.recovered)
  · rintro _ s' ⟨keep, hrows, helements, hrecovered⟩
    exact .withdrew htype keep (hs.rows ▸ hrows) (helements.trans hs.elements)
      (hrecovered.trans hs.recovered)

section Handlers

variable (hrecovered : start.recovered = true)

include hrecovered

theorem probe_affects : Affects session message start (probe session message) := by
  apply Affects.afterRecovery hrecovered
  apply Affects.after (Untouching.orRaise _ _)
  intro h
  apply Affects.after (Untouching.orRaise _ _)
  intro path
  apply Affects.after (Untouching.ensure _ _)
  intro _
  apply Affects.lookup
  cases hlookup : start.elements.lookup path with
  | none => exact Affects.of_untouching (Untouching.sendServerMessage _)
  | some el =>
      apply Affects.ite (Affects.of_untouching (Untouching.refuse session _ _))
      apply Affects.ite (Affects.of_untouching (Untouching.sendServerMessage _))
      apply Affects.ite _ (Affects.of_untouching (Untouching.sendServerMessage _))
      apply Affects.after (Untouching.setTimeToFile session _ _)
      intro entry
      apply Affects.before _ fun _ => Untouching.sendServerMessage _
      apply Meets.modify
      intro s hs
      apply Effect.retimed path entry (by rw [hlookup]; rfl)
      exact ⟨hs.rows, congrArg (AList.insert _ _) hs.elements, hs.recovered⟩

theorem removeFile_affects : Affects session message start (removeFile session message) := by
  apply Affects.afterRecovery hrecovered
  apply Affects.after (Untouching.orRaise _ _)
  intro h
  apply Affects.after (Untouching.orRaise _ _)
  intro path
  apply Affects.lookup
  cases start.elements.lookup path with
  | none => exact Affects.of_untouching (Untouching.sendServerMessage _)
  | some el =>
      apply Affects.after (Untouching.read _)
      intro elExists
      apply Affects.ite
      · exact Affects.before (Affects.forget _) fun _ => Untouching.sendServerMessage _
      apply Affects.ite (Affects.of_untouching (Untouching.refuse session _ _))
      apply Affects.after (Untouching.saveParent session _)
      intro entry
      apply Affects.after (Untouching.onDisk _)
      intro removed
      apply Affects.ite (Affects.of_untouching (Untouching.raise _))
      apply Affects.after (Untouching.resetParent session _ _)
      intro _
      exact Affects.before (Affects.forget _) fun _ => Untouching.sendServerMessage _

theorem removeDir_affects : Affects session message start (removeDir session message) := by
  apply Affects.afterRecovery hrecovered
  apply Affects.after (Untouching.orRaise _ _)
  intro path
  apply Affects.lookup
  cases start.elements.lookup path with
  | none => exact Affects.of_untouching (Untouching.sendServerMessage _)
  | some el =>
      apply Affects.after (Untouching.read _)
      intro elExists
      apply Affects.ite
      · exact Affects.before (Affects.forget _) fun _ => Untouching.sendServerMessage _
      apply Affects.ite (Affects.of_untouching (Untouching.refuse session _ _))
      apply Affects.after (Untouching.saveParent session _)
      intro entry
      apply Affects.after (Untouching.onDisk _)
      intro paths
      apply Affects.after (Untouching.read _)
      intro disk
      apply Affects.after (Untouching.orRaise _ _)
      intro elementsToRemove
      apply Affects.after (Untouching.onDisk _)
      intro count
      apply Affects.ite (Affects.of_untouching (Untouching.raise _))
      apply Meets.bind (Affects.forgetAll elementsToRemove)
      intro _
      apply Meets.bind (Affects.forgetNext elementsToRemove _)
      intro _
      exact (Untouching.bind (Untouching.resetParent session _ _) fun _ =>
        Untouching.sendServerMessage _).keeps Effect.ofTables

theorem makeDir_affects (htype : message.type = .MKD) :
    Affects session message start (makeDir session message) := by
  apply Affects.afterRecovery hrecovered
  apply Affects.accepted
  intro path hpath
  apply Affects.after (Untouching.ensure _ _)
  intro _
  apply Affects.lookup
  apply Affects.after (Untouching.read _)
  intro upToDate
  apply Affects.ite (Affects.of_untouching (Untouching.sendServerMessage _))
  apply Affects.after (Untouching.read _)
  intro parentExists
  apply Affects.after (Untouching.ite (Untouching.saveParent session _) (Untouching.pure _))
  intro parent
  apply Affects.after (Untouching.read _)
  intro dirExists
  apply Affects.after (Untouching.when _ (Untouching.onDisk _))
  intro _
  apply Affects.after (Untouching.read _)
  intro isDirectory
  apply Affects.ite (Affects.of_untouching (Untouching.refuse session _ _))
  apply Affects.loaded
  intro loaded hloaded
  apply Affects.timed
  intro entry hentry
  apply Affects.after (Untouching.when _ (Untouching.resetParent session _ _))
  intro _
  apply Affects.before _ fun _ => Untouching.sendServerMessage _
  apply Affects.track hpath
  simp only [RecordedAs, htype, hentry]
  exact hloaded

theorem storeFile_affects (htype : message.type = .STOR) :
    Affects session message start (storeFile session message) := by
  apply Affects.afterRecovery hrecovered
  apply Affects.after (Untouching.orRaise _ _)
  intro h
  apply Affects.accepted
  intro path hpath
  apply Affects.after (Untouching.ensure _ _)
  intro _
  apply Affects.after (Untouching.getHexString _)
  intro name
  apply Affects.after (Untouching.read _)
  intro tmpPathExists
  apply Affects.after (Untouching.when _ (Untouching.onDisk _))
  intro _
  apply Affects.after (Untouching.onDisk _)
  intro temporaryFile
  cases temporaryFile with
  | none => exact Affects.of_untouching (Untouching.refuse session _ _)
  | some handle =>
      apply Affects.after (Untouching.read _)
      intro incoming
      apply Affects.after
      · exact Untouching.catching (Untouching.receiveData session _ _ _)
          (Untouching.removeOnSocketException _)
      · exact fun _ => acceptFile_affects hpath htype

/-- The effects of a request, however it ends. -/
theorem dispatch_affects : Affects session message start (dispatch session message) := by
  unfold dispatch
  cases htype : message.type with
  | PROB => exact probe_affects hrecovered
  | STOR => exact storeFile_affects hrecovered htype
  | DELE => exact removeFile_affects hrecovered
  | MKD => exact makeDir_affects hrecovered htype
  | RMD => exact removeDir_affects hrecovered
  | RETR => exact retrieveUserData_affects htype
  | NOOP | DATA | AUTH | unknown => exact Affects.of_untouching (Untouching.refuse session _ _)

end Handlers

theorem handleException_untouching (exception : ServerException) :
    Untouching (handleException session exception) := by
  cases exception with
  | protocolManager code =>
      cases code with
      | client | unexpected => exact Untouching.pure ()
      | _ => exact Untouching.raise _
  | socket code => exact Untouching.raise _
  | _ => exact Untouching.refuse session _ _

/-- What a call does to the rows and the elements follows from what handling its
message does. -/
theorem receive_state {inv : ServerState → Prop} (hinv : OfTables inv) {s : ServerState}
    {pending : List ClientMessage} (hincoming : s.connection.incoming = message :: pending)
    (hs : inv s) (hdispatch : Meets (fun s₁ => s₁ = s.withIncoming pending)
      (dispatch session message) (fun _ => inv) fun _ => inv) :
    inv (receive session s).state := by
  have hs₁ : inv (s.withIncoming pending) := hinv s _ ⟨rfl, rfl, rfl⟩ hs
  have hreceive : Meets (fun s₁ => s₁ = s) (receive session) (fun _ => inv) fun _ => inv := by
    apply Meets.then_returned (recvMessage_run s hincoming)
    apply Meets.ite
    · intro _
      exact ((Untouching.bind (Untouching.sendServerMessage _) fun _ =>
        Untouching.raise _).keeps hinv).at_state hs₁
    · intro _
      exact Meets.catching hdispatch fun exception =>
        (handleException_untouching exception).keeps hinv
  have hends := hreceive s rfl
  cases hrun : receive session s with
  | returned value s' => rwa [hrun] at hends
  | raised exception s' => rwa [hrun] at hends

end PdsBackup.Server
