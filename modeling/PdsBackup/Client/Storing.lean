import PdsBackup.Client.Transfer
import PdsBackup.Common.StoredFile

/-!
# What the client's `_storeFile` does to the disk

For a file below a directory of the destination folder it is what storing a file
is.  A file that lies in the destination folder itself is moved to its place too,
but the call never ends well: the time of an entry without a path is set.
-/

namespace PdsBackup.Client

open Procedure

namespace Retrieval

def storage (retrieval : Retrieval) : Storage where
  platform := retrieval.settings.platform
  basePath := retrieval.destFolder
  temporaryPath := retrieval.temporaryPath

/-- The DATA messages of the stream. -/
def isData (retrieval : Retrieval) (message : ServerMessage) : Bool :=
  message.version = retrieval.settings.protocolVersion ∧ message.type = .DATA

/-- What `_storeFile` is given, by its message, the stream and the random numbers. -/
def arrival (retrieval : Retrieval) (message : ServerMessage) (s : RetrievalState) : Arrival :=
  let taken := takeBlocks retrieval.isData ServerMessage.data ServerMessage.last
    s.manager.connection.incoming
  { path := message.path
    fileSize := message.fileSize
    lastWriteTime := message.lastWriteTime
    hash := message.hash
    blocks := taken.1
    complete := taken.2
    name := stringToHex ((List.range retrieval.tempNameSize).map s.random) }

end Retrieval

section Storing

variable {retrieval : Retrieval} {pre : RetrievalState → Prop}

/-- The invariant that the disk alone changes. -/
def OfDisk (pre : RetrievalState → Prop) : Prop := ∀ disk s, pre s → pre { s with disk }

theorem OfDisk.expecting (incoming : List ServerMessage) : OfDisk (Expecting incoming) :=
  fun _ _ hs => ⟨hs.incoming, hs.holds⟩

theorem onDisk_mirrors {ε α : Type} (hpre : OfDisk pre) (p : Procedure Disk ε α) :
    Mirrors RetrievalState.disk pre (onDisk p) (attempt p) fun _ => pre :=
  Mirrors.within (fun _ _ => rfl) fun _ disk s hs _ => hpre disk s hs

theorem makeMissing_mirrors {α : Type} (hpre : OfDisk pre) (text : Text)
    {p : RetrievalProcedure α} {q : Procedure Disk Unit α} {post : α → RetrievalState → Prop}
    (hrest : Mirrors RetrievalState.disk pre p q post) :
    Mirrors RetrievalState.disk pre
      (do
        let found ← read fun s => s.disk.present text
        when (!found) (onDisk (SystemCall.createDirectories text))
        p)
      (do
        makeMissing text
        q) post := by
  intro s hs
  have hmake : Mirrors RetrievalState.disk pre
      (when (!s.disk.present text) (onDisk (SystemCall.createDirectories text)))
      (when (!s.disk.present text) (attempt (SystemCall.createDirectories text))) fun _ => pre :=
    Mirrors.when _ (onDisk_mirrors hpre _) fun _ hs => hs
  exact Mirrors.bind hmake (fun _ => hrest) s hs

variable (retrieval) in
/-- The DATA messages are gathered in the file. -/
theorem receiveData_mirrors (handle : Path) (tmpPath : Text) (incoming : List ServerMessage) :
    Mirrors RetrievalState.disk (Expecting incoming) (receiveData retrieval handle tmpPath incoming)
      (do
        appendAll handle (takeBlocks retrieval.isData ServerMessage.data ServerMessage.last incoming).1
        ensure () (takeBlocks retrieval.isData ServerMessage.data ServerMessage.last incoming).2)
      fun _ _ => True := by
  induction incoming with
  | nil =>
      intro s hs
      have hclosed : onManager recvMessage s = .raised (.socket .closed)
          { s with manager := s.manager } := by
        apply within_of_raised
        rw [recvMessage, bind_of_returned (operate_run hs.holds _), read_bind_apply, hs.incoming]
        rfl
      rw [receiveData, bind_of_raised hclosed]
      exact .raised
  | cons message pending ih =>
      rw [receiveData, takeBlocks]
      apply Mirrors.step message (Expecting pending)
      · intro s hs
        obtain ⟨s', hrecv, hdisk, hs'⟩ := recvMessage_run hs
        exact ⟨s', hrecv, hdisk, hs'⟩
      by_cases hversion : message.version ≠ retrieval.settings.protocolVersion
      · have hother : retrieval.isData message = false := by
          simp [Retrieval.isData, hversion]
        simp only [if_pos hversion, hother, Bool.false_eq_true, if_false]
        exact Mirrors.of_fails (Fails.after _ fun _ => Fails.raise _) (Fails.raise ())
      by_cases htype : message.type ≠ .DATA
      · have hother : retrieval.isData message = false := by
          simp [Retrieval.isData, htype]
        simp only [if_neg hversion, if_pos htype, hother, Bool.false_eq_true, if_false]
        exact Mirrors.of_fails (Fails.after _ fun _ => Fails.raise _) (Fails.raise ())
      have hdata : retrieval.isData message = true := by
        simp [Retrieval.isData, not_not.mp hversion, not_not.mp htype]
      simp only [if_neg hversion, if_neg htype, hdata, if_true]
      have happend := onDisk_mirrors (OfDisk.expecting pending)
        (SystemCall.append handle message.data)
      cases hlast : message.last with
      | true =>
          simp only [if_true, appendAll, bind_bind]
          apply Mirrors.bind happend
          intro _
          exact Mirrors.pure () fun _ _ => trivial
      | false =>
          simp only [Bool.false_eq_true, if_false, appendAll, bind_bind]
          exact Mirrors.bind happend fun _ => ih

theorem loadEntry_mirrors (basePath absolutePath : Text) :
    Mirrors RetrievalState.disk pre (loadEntry retrieval basePath absolutePath)
      (retrieval.storage.loadEntry basePath absolutePath)
      fun entry s => pre s ∧ entry.absolutePath = absolutePath := by
  intro s hs
  rw [loadEntry, Storage.loadEntry, read_bind_apply, read_bind_apply]
  cases hload : DirectoryEntry.load retrieval.settings.platform basePath absolutePath s.disk.tree with
  | none =>
      show Exit.Mirrors _ _ _ (orRaise () (DirectoryEntry.load retrieval.settings.platform basePath
        absolutePath s.disk.tree) s.disk)
      rw [hload]
      exact .raised
  | some entry =>
      show Exit.Mirrors _ _ _ (orRaise () (DirectoryEntry.load retrieval.settings.platform basePath
        absolutePath s.disk.tree) s.disk)
      rw [hload]
      exact .returned ⟨hs, (DirectoryEntry.load_eq_some hload).2.1⟩

/-- The file does not lie in the destination folder itself, if that has a name. -/
def Nested (retrieval : Retrieval) (absolutePath : Text) : Prop :=
  parentPath absolutePath ≠ retrieval.destFolder ∨ retrieval.destFolder = []

/-- The entry of the parent directory tells, as the parent itself does, whether the
file lies in the destination folder. -/
theorem saveParent_mirrors {absolutePath : Text} (hnested : Nested retrieval absolutePath) :
    Mirrors RetrievalState.disk pre (saveParent retrieval (parentPath absolutePath))
      (retrieval.storage.saveParent (parentPath absolutePath))
      fun entry s => pre s ∧ (entry.absolutePath ≠ retrieval.destFolder ↔
        parentPath absolutePath ≠ retrieval.destFolder) := by
  rw [saveParent, Storage.saveParent]
  apply Mirrors.ite
  · intro _
    apply (loadEntry_mirrors retrieval.destFolder (parentPath absolutePath)).consequence
      (fun _ hs => hs)
    intro entry s hs
    rw [hs.2]
    exact ⟨hs.1, Iff.rfl⟩
  · intro hparent
    apply Mirrors.pure
    intro s hs
    have hnil : retrieval.destFolder = [] := hnested.resolve_left hparent
    refine ⟨hs, ?_⟩
    rw [not_not.mp hparent, hnil]

/-- A file below a directory of the destination folder is moved to its place as
storing it is meant. -/
theorem moveIntoPlace_mirrors (hpre : OfDisk pre) (tmpPath : Text) {expected : DirectoryEntry}
    (hnested : Nested retrieval expected.absolutePath) :
    Mirrors RetrievalState.disk pre (moveIntoPlace retrieval tmpPath expected)
      (retrieval.storage.moveIntoPlace tmpPath expected) fun _ => pre := by
  unfold moveIntoPlace Storage.moveIntoPlace
  apply makeMissing_mirrors hpre
  apply Mirrors.bind (saveParent_mirrors hnested)
  intro entry
  have hrename : Mirrors RetrievalState.disk
      (fun s => pre s ∧ (entry.absolutePath ≠ retrieval.destFolder ↔
        parentPath expected.absolutePath ≠ retrieval.destFolder))
      (onDisk (SystemCall.rename tmpPath expected.absolutePath))
      (attempt (SystemCall.rename tmpPath expected.absolutePath)) _ :=
    onDisk_mirrors (fun disk s hs => ⟨hpre disk s hs.1, hs.2⟩) _
  apply Mirrors.bind hrename
  intro _ s hs
  have hreset : Mirrors RetrievalState.disk pre
      (when (parentPath expected.absolutePath ≠ retrieval.destFolder)
        (setTimeToFile retrieval entry entry.lastWriteTime >>= fun _ => pure ()))
      (when (parentPath expected.absolutePath ≠ retrieval.destFolder)
        (retrieval.storage.setTimeToFile entry entry.lastWriteTime >>= fun _ => pure ()))
      fun _ => pre :=
    Mirrors.when _
      (Mirrors.bind (onDisk_mirrors hpre _) fun _ => Mirrors.pure () fun _ hs => hs)
      fun _ hs => hs
  have hsame : decide (entry.absolutePath ≠ retrieval.destFolder) =
      decide (parentPath expected.absolutePath ≠ retrieval.destFolder) :=
    decide_eq_decide.mpr hs.2
  show Exit.Mirrors _ _ (when (decide (entry.absolutePath ≠ retrieval.destFolder)) _ s) _
  rw [hsame]
  exact hreset s hs.1

/-- A file in the destination folder itself is not: the time of an entry that has
no path is set in the end. -/
theorem moveIntoPlace_fails (tmpPath : Text) {expected : DirectoryEntry}
    (hparent : parentPath expected.absolutePath = retrieval.destFolder)
    (hne : retrieval.destFolder ≠ []) : Fails (moveIntoPlace retrieval tmpPath expected) := by
  have hempty : Fails (setTimeToFile retrieval {} ({} : DirectoryEntry).lastWriteTime) := by
    intro s
    have hset : DirectoryEntry.setTimeToFile retrieval.settings.platform {}
        ({} : DirectoryEntry).lastWriteTime s.disk = .raised .noEntry s.disk := rfl
    have hraised : setTimeToFile retrieval {} ({} : DirectoryEntry).lastWriteTime s =
        .raised .standard s := by
      rw [setTimeToFile, onDisk, within, hset]
    exact ⟨.standard, s, hraised⟩
  have hkept : decide (({} : DirectoryEntry).absolutePath ≠ retrieval.destFolder) = true :=
    decide_eq_true hne.symm
  apply Fails.after
  intro found
  apply Fails.after
  intro _
  rw [saveParent, if_neg (not_not.mpr hparent)]
  show Fails (onDisk (SystemCall.rename tmpPath expected.absolutePath) >>= _)
  apply Fails.after
  intro _
  rw [hkept]
  exact hempty.before _

theorem acceptFile_mirrors (hpre : OfDisk pre) (tmpPath : Text) {expected : DirectoryEntry}
    (hmove : Mirrors RetrievalState.disk pre (moveIntoPlace retrieval tmpPath expected)
      (retrieval.storage.moveIntoPlace tmpPath expected) fun _ => pre) :
    Mirrors RetrievalState.disk pre (acceptFile retrieval tmpPath expected)
      (retrieval.storage.acceptFile tmpPath expected) fun _ => pre := by
  have hload : Mirrors RetrievalState.disk pre (loadEntry retrieval retrieval.temporaryPath tmpPath)
      (retrieval.storage.loadEntry retrieval.temporaryPath tmpPath) fun _ => pre :=
    (loadEntry_mirrors _ _).consequence (fun _ hs => hs) fun _ _ hs => hs.1
  apply Mirrors.bind hload
  intro newFile
  apply Mirrors.bind (onDisk_mirrors hpre _)
  intro newFile
  apply Mirrors.ite
  · intro _
    exact Mirrors.of_fails (Fails.after _ fun _ => Fails.raise _) (Fails.raise ())
  · intro _
    exact hmove

variable (retrieval) in
theorem acceptFile_fails (tmpPath : Text) {expected : DirectoryEntry}
    (hmove : Fails (moveIntoPlace retrieval tmpPath expected)) :
    Fails (acceptFile retrieval tmpPath expected) := by
  apply Fails.after
  intro newFile
  apply Fails.after
  intro newFile s
  split
  · exact Fails.after _ (fun _ => Fails.raise _) s
  · exact hmove s

theorem removeOnSocketException_fails (tmpPath : Text) (exception : ClientException) :
    Fails (removeOnSocketException tmpPath exception) := by
  unfold removeOnSocketException
  split
  · exact Fails.after _ fun _ => Fails.raise _
  · exact Fails.raise _

/-- On a connection that holds, a file below a directory of the destination folder is
stored exactly if storing it succeeds, and the disk is the same then. -/
theorem storeFile_mirrors {message : ServerMessage} {path : Text}
    (hpath : Validator.validatePath message.path = some path)
    (hnested : Nested retrieval (retrieval.destFolder ++ path))
    {incoming : List ServerMessage} {s : RetrievalState} (hs : Expecting incoming s) :
    (storeFile retrieval message s).Mirrors RetrievalState.disk (fun _ _ => True)
      (retrieval.storage.storeFile (retrieval.arrival message s) s.disk) := by
  have hmirrors : Mirrors RetrievalState.disk (fun t => t = s) (storeFile retrieval message)
      (retrieval.storage.storeFile (retrieval.arrival message s)) fun _ _ => True := by
    unfold storeFile Storage.storeFile
    apply Mirrors.bind_orRaise
    intro h hhash
    apply Mirrors.bind_orRaise
    intro path' hpath'
    obtain rfl : path = path' := Option.some.inj (hpath.symm.trans hpath')
    apply Mirrors.bind_ensure
    apply Mirrors.step (retrieval.arrival message s).name (Expecting incoming)
    · rintro t rfl
      exact ⟨_, rfl, rfl, hs.incoming, hs.holds⟩
    apply makeMissing_mirrors (OfDisk.expecting incoming)
    apply Mirrors.bind (onDisk_mirrors (OfDisk.expecting incoming) _)
    intro temporaryFile
    cases temporaryFile with
    | none => exact Mirrors.raise _ _
    | some handle =>
        apply Mirrors.read_bind (fun t ht => ht.incoming)
        have hblocks : (retrieval.arrival message s).blocks = (takeBlocks retrieval.isData
            ServerMessage.data ServerMessage.last incoming).1 := by
          rw [← hs.incoming]
          rfl
        have hcomplete : (retrieval.arrival message s).complete = (takeBlocks retrieval.isData
            ServerMessage.data ServerMessage.last incoming).2 := by
          rw [← hs.incoming]
          rfl
        have hreceive := (receiveData_mirrors retrieval handle
          (retrieval.storage.tmpPath (retrieval.arrival message s)) incoming).catching
            (removeOnSocketException_fails (retrieval.storage.tmpPath (retrieval.arrival message s)))
        have hmove : Mirrors RetrievalState.disk (fun _ => True)
            (moveIntoPlace retrieval (retrieval.storage.tmpPath (retrieval.arrival message s))
              (DirectoryEntry.make retrieval.destFolder path message.fileSize "file".toList
                message.lastWriteTime h)) _ fun _ _ => True :=
          moveIntoPlace_mirrors (fun _ _ _ => trivial) _ hnested
        have haccept := acceptFile_mirrors (fun _ _ _ => trivial) _ hmove
        have hwhole := Mirrors.bind hreceive fun _ => haccept
        rw [← hblocks, ← hcomplete, bind_bind] at hwhole
        exact hwhole
  exact hmirrors s rfl

theorem storeFile_fails {message : ServerMessage} {path : Text}
    (hpath : Validator.validatePath message.path = some path)
    (hparent : parentPath (retrieval.destFolder ++ path) = retrieval.destFolder)
    (hne : retrieval.destFolder ≠ []) : Fails (storeFile retrieval message) := by
  unfold storeFile
  apply Fails.after
  intro h
  rw [hpath]
  show Fails (ensure _ _ >>= _)
  apply Fails.after
  intro _
  apply Fails.after
  intro name
  apply Fails.after
  intro found
  apply Fails.after
  intro _
  apply Fails.after
  intro temporaryFile
  cases temporaryFile with
  | none => exact Fails.raise _
  | some handle =>
      apply Fails.after
      intro incoming
      apply Fails.after
      intro _
      exact acceptFile_fails retrieval _ (moveIntoPlace_fails _ hparent hne)

end Storing

end PdsBackup.Client
