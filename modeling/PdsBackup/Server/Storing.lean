import PdsBackup.Common.StoredFile
import PdsBackup.Server.Stops

/-!
# What the server's `_storeFile` does to the disk

In a session whose rows can be recovered, that can write to its table and send its
answer, it is what storing a file is, wherever the file lies.
-/

namespace PdsBackup.Server

open Procedure

namespace Session

def storage (session : Session) : Storage where
  platform := session.platform
  basePath := session.userPath
  temporaryPath := session.temporaryPath

/-- The DATA messages of the stream. -/
def isData (session : Session) (message : ClientMessage) : Bool :=
  message.version = session.protocolVersion ∧ message.type = .DATA

/-- What `_storeFile` is given, by its message, the stream and the random numbers. -/
def arrival (session : Session) (message : ClientMessage) (s : ServerState) : Arrival :=
  let taken := takeBlocks session.isData ClientMessage.data ClientMessage.last
    s.connection.incoming
  { path := message.path
    fileSize := message.fileSize
    lastWriteTime := message.lastWriteTime
    hash := message.hash
    blocks := taken.1
    complete := taken.2
    name := stringToHex ((List.range session.tempNameSize).map s.random) }

end Session

/-- A session with nothing in the way of an answer, and the messages still to come. -/
structure Serving (incoming : List ClientMessage) (s : ServerState) : Prop where
  incoming : s.connection.incoming = incoming
  idle : s.database.inTransaction = false
  sendsLeft : s.connection.sendsLeft = none

section Storing

variable {session : Session} {incoming : List ClientMessage}

theorem Serving.withDisk {s : ServerState} (hs : Serving incoming s) (disk : Disk) :
    Serving incoming { s with disk } := ⟨hs.incoming, hs.idle, hs.sendsLeft⟩

theorem onDisk_mirrors {ε α : Type} (p : Procedure Disk ε α) :
    Mirrors ServerState.disk (Serving incoming) (onDisk p) (attempt p) fun _ => Serving incoming :=
  Mirrors.within (fun _ _ => rfl) fun _ disk _ hs _ => hs.withDisk disk

theorem makeMissing_mirrors {α : Type} (text : Text) {p : ServerProcedure α}
    {q : Procedure Disk Unit α} {post : α → ServerState → Prop}
    (hrest : Mirrors ServerState.disk (Serving incoming) p q post) :
    Mirrors ServerState.disk (Serving incoming)
      (do
        let found ← read fun s => s.disk.present text
        when (!found) (onDisk (SystemCall.createDirectories text))
        p)
      (do
        makeMissing text
        q) post := by
  intro s hs
  have hmake : Mirrors ServerState.disk (Serving incoming)
      (when (!s.disk.present text) (onDisk (SystemCall.createDirectories text)))
      (when (!s.disk.present text) (attempt (SystemCall.createDirectories text)))
      fun _ => Serving incoming := Mirrors.when _ (onDisk_mirrors _) fun _ hs => hs
  exact Mirrors.bind hmake (fun _ => hrest) s hs

theorem recvMessage_serving {message : ClientMessage} {s : ServerState}
    (hs : Serving (message :: incoming) s) :
    ∃ s', recvMessage s = .returned message s' ∧ s'.disk = s.disk ∧ Serving incoming s' :=
  ⟨s.withIncoming incoming, recvMessage_run s hs.incoming, rfl, rfl, hs.idle, hs.sendsLeft⟩

variable (session) in
/-- The DATA messages are gathered in the file. -/
theorem receiveData_mirrors (handle : Path) (tmpPath : Text) (incoming : List ClientMessage) :
    Mirrors ServerState.disk (Serving incoming) (receiveData session handle tmpPath incoming)
      (do
        appendAll handle (takeBlocks session.isData ClientMessage.data ClientMessage.last incoming).1
        ensure () (takeBlocks session.isData ClientMessage.data ClientMessage.last incoming).2)
      fun _ s => ∃ rest, Serving rest s := by
  induction incoming with
  | nil =>
      intro s hs
      have hclosed : recvMessage s = .raised (.socket .closed) s := by
        rw [recvMessage, read_bind_apply, hs.incoming]
        rfl
      rw [receiveData, bind_of_raised hclosed]
      exact .raised
  | cons message pending ih =>
      rw [receiveData, takeBlocks]
      apply Mirrors.step message (Serving pending)
      · exact fun s hs => recvMessage_serving hs
      by_cases hversion : message.version ≠ session.protocolVersion
      · have hother : session.isData message = false := by
          simp [Session.isData, hversion]
        simp only [if_pos hversion, hother, Bool.false_eq_true, if_false]
        apply Mirrors.of_fails _ (Fails.raise ())
        exact Fails.after _ fun _ => Fails.after _ fun _ => Fails.raise _
      by_cases htype : message.type ≠ .DATA
      · have hother : session.isData message = false := by
          simp [Session.isData, htype]
        simp only [if_neg hversion, if_pos htype, hother, Bool.false_eq_true, if_false]
        apply Mirrors.of_fails _ (Fails.raise ())
        exact Fails.after _ fun _ => Fails.after _ fun _ => Fails.raise _
      have hdata : session.isData message = true := by
        simp [Session.isData, not_not.mp hversion, not_not.mp htype]
      simp only [if_neg hversion, if_neg htype, hdata, if_true]
      have happend : Mirrors ServerState.disk (Serving pending) _ _ fun _ => Serving pending :=
        onDisk_mirrors (SystemCall.append handle message.data)
      cases hlast : message.last with
      | true =>
          simp only [if_true, appendAll, bind_bind]
          apply Mirrors.bind happend
          intro _
          exact Mirrors.pure () fun s hs => ⟨pending, hs⟩
      | false =>
          simp only [Bool.false_eq_true, if_false, appendAll, bind_bind]
          exact Mirrors.bind happend fun _ => ih

theorem loadEntry_mirrors (basePath absolutePath : Text) :
    Mirrors ServerState.disk (Serving incoming) (loadEntry session basePath absolutePath)
      (session.storage.loadEntry basePath absolutePath) fun _ => Serving incoming := by
  intro s hs
  rw [loadEntry, Storage.loadEntry, read_bind_apply, read_bind_apply]
  show Exit.Mirrors _ _ _ (orRaise () (DirectoryEntry.load session.platform basePath absolutePath
    s.disk.tree) s.disk)
  cases DirectoryEntry.load session.platform basePath absolutePath s.disk.tree with
  | none => exact .raised
  | some entry => exact .returned hs

theorem moveIntoPlace_mirrors (tmpPath : Text) (expected : DirectoryEntry) :
    Mirrors ServerState.disk (Serving incoming) (moveIntoPlace session tmpPath expected)
      (session.storage.moveIntoPlace tmpPath expected) fun _ => Serving incoming := by
  unfold moveIntoPlace Storage.moveIntoPlace
  apply makeMissing_mirrors
  have hsave : Mirrors ServerState.disk (Serving incoming)
      (saveParent session (parentPath expected.absolutePath))
      (session.storage.saveParent (parentPath expected.absolutePath)) fun _ => Serving incoming :=
    Mirrors.ite (fun _ => loadEntry_mirrors _ _) fun _ => Mirrors.pure _ fun _ hs => hs
  apply Mirrors.bind hsave
  intro entry
  apply Mirrors.bind (onDisk_mirrors _)
  intro _
  apply Mirrors.when
  · apply Mirrors.bind (onDisk_mirrors _)
    exact fun _ => Mirrors.pure () fun _ hs => hs
  · exact fun _ hs => hs

variable (session) in
/-- Recording the file and answering leave the disk alone. -/
theorem recorded_run {s : ServerState} (hs : Serving incoming s) (expected : DirectoryEntry) :
    ∃ s', (do
        let el ← read fun s => s.elements.lookup expected.relativePath
        track session expected.relativePath el expected
        sendOK session .created : ServerProcedure Unit) s = .returned () s' ∧ s'.disk = s.disk := by
  rw [read_bind_apply]
  rcases track_cases session s expected.relativePath (s.elements.lookup expected.relativePath)
    expected with ⟨-, htrack⟩ | ⟨hopen, -⟩
  · have hsends : (s.tracked session expected.relativePath
        (s.elements.lookup expected.relativePath) expected).connection.sendsLeft = none := by
      rw [ServerState.tracked_connection]
      exact hs.sendsLeft
    have hdisk : (s.tracked session expected.relativePath
        (s.elements.lookup expected.relativePath) expected).disk = s.disk := by simp
    refine ⟨(s.tracked session expected.relativePath (s.elements.lookup expected.relativePath)
      expected).sent (okMessage session .created), ?_, hdisk⟩
    rw [bind_of_returned htrack, sendOK, sendServerMessage, read_bind_apply, hsends]
    rfl
  · rw [hs.idle] at hopen
    cases hopen

theorem acceptFile_mirrors (tmpPath : Text) (expected : DirectoryEntry) :
    Mirrors ServerState.disk (Serving incoming) (acceptFile session tmpPath expected)
      (session.storage.acceptFile tmpPath expected) fun _ _ => True := by
  apply Mirrors.bind (loadEntry_mirrors _ _)
  intro newFile
  apply Mirrors.bind (onDisk_mirrors _)
  intro newFile
  apply Mirrors.ite
  · intro _
    apply Mirrors.of_fails _ (Fails.raise ())
    exact Fails.after _ fun _ => Fails.after _ fun _ => Fails.raise _
  · intro _
    apply Mirrors.bind_left (moveIntoPlace_mirrors tmpPath expected)
    intro _ s hs
    obtain ⟨s', hrun, hdisk⟩ := recorded_run session hs expected
    exact ⟨s', hrun, hdisk, trivial⟩

theorem removeOnSocketException_fails (tmpPath : Text) (exception : ServerException) :
    Fails (removeOnSocketException tmpPath exception) := by
  unfold removeOnSocketException
  split
  · exact Fails.after _ fun _ => Fails.raise _
  · exact Fails.raise _

/-- The recovery that the first request brings about. -/
theorem recovery_run {s : ServerState} (hs : Serving incoming s)
    (hrecoverable : s.recovered = true ∨ Recoverable session s) :
    ∃ s', recoverIfNeeded session s = .returned () s' ∧ s'.disk = s.disk ∧ Serving incoming s' ∧
      s'.random = s.random := by
  by_cases hrecovered : s.recovered = true
  · exact ⟨s, recoverIfNeeded_of_recovered session s hrecovered, rfl, hs, rfl⟩
  · have hrows := hrecoverable.resolve_left hrecovered
    rw [Bool.not_eq_true] at hrecovered
    obtain ⟨s', hrun, hrestoring, hidle, -⟩ := recoverFromDB_restores hrows hrecovered hs.idle
    have hrun' : recoverIfNeeded session s = .returned () s' := by
      rw [recoverIfNeeded, read_bind_apply, hrecovered]
      exact hrun
    refine ⟨s', hrun', hrestoring.disk, ⟨?_, hidle, ?_⟩, hrestoring.random⟩
    · rw [hrestoring.connection]
      exact hs.incoming
    · rw [hrestoring.connection]
      exact hs.sendsLeft

/-- A file is stored exactly if storing it succeeds, and the disk is the same then. -/
theorem storeFile_mirrors (message : ClientMessage) {s : ServerState} (hs : Serving incoming s)
    (hrecoverable : s.recovered = true ∨ Recoverable session s) :
    (storeFile session message s).Mirrors ServerState.disk (fun _ _ => True)
      (session.storage.storeFile (session.arrival message s) s.disk) := by
  have hmirrors : Mirrors ServerState.disk (fun t => t = s) (storeFile session message)
      (session.storage.storeFile (session.arrival message s)) fun _ _ => True := by
    unfold storeFile Storage.storeFile
    apply Mirrors.step () (fun t => Serving incoming t ∧ t.random = s.random)
    · rintro t rfl
      exact recovery_run hs hrecoverable
    apply Mirrors.bind_orRaise
    intro h hhash
    apply Mirrors.bind_orRaise
    intro path hpath
    apply Mirrors.bind_ensure
    apply Mirrors.step (session.arrival message s).name (Serving incoming)
    · rintro t ⟨ht, hrandom⟩
      have hname : getHexString session.tempNameSize t = .returned (session.arrival message s).name
          { t with random := fun index => t.random (index + session.tempNameSize) } := by
        rw [Session.arrival, ← hrandom]
        rfl
      exact ⟨_, hname, rfl, ht.incoming, ht.idle, ht.sendsLeft⟩
    apply makeMissing_mirrors
    apply Mirrors.bind (onDisk_mirrors _)
    intro temporaryFile
    cases temporaryFile with
    | none => exact Mirrors.of_fails (Fails.after _ fun _ => Fails.raise _) (Fails.raise ())
    | some handle =>
        apply Mirrors.read_bind (fun t ht => ht.incoming)
        have hblocks : (session.arrival message s).blocks = (takeBlocks session.isData
            ClientMessage.data ClientMessage.last incoming).1 := by
          rw [← hs.incoming]
          rfl
        have hcomplete : (session.arrival message s).complete = (takeBlocks session.isData
            ClientMessage.data ClientMessage.last incoming).2 := by
          rw [← hs.incoming]
          rfl
        have hreceive := (receiveData_mirrors session handle
          (session.storage.tmpPath (session.arrival message s)) incoming).catching
            (removeOnSocketException_fails (session.storage.tmpPath (session.arrival message s)))
        have haccept : Mirrors ServerState.disk (fun s => ∃ rest, Serving rest s)
            (acceptFile session (session.storage.tmpPath (session.arrival message s))
              (DirectoryEntry.make session.userPath path message.fileSize "file".toList
                message.lastWriteTime h)) _ fun _ _ => True :=
          fun s hs => hs.elim fun rest hs => acceptFile_mirrors _ _ s hs
        have hwhole := Mirrors.bind hreceive fun _ => haccept
        rw [← hblocks, ← hcomplete, bind_bind] at hwhole
        exact hwhole
  exact hmirrors s rfl

end Storing

end PdsBackup.Server
