import PdsBackup.Client.Storing
import PdsBackup.Server.Storing
import PdsBackup.System.Transfers

/-!
# The two implementations of storing a file

The server's `_storeFile` is what storing a file is, for every file.  The client's
is the same for files below a directory of its destination folder; a file that lies
in the destination folder itself is moved to its place and then reported as a
failure.
-/

namespace PdsBackup

open Procedure

section Agreement

variable {session : Server.Session} {request : ClientMessage} {t : Server.ServerState}
variable {retrieval : Client.Retrieval} {message : ServerMessage} {s : Client.RetrievalState}
variable {pending : List ClientMessage} {incoming : List ServerMessage} {path : Text}

/-- The server stores the file, and this is the disk it leaves. -/
def ServerStores (session : Server.Session) (request : ClientMessage) (t : Server.ServerState)
    (disk : Disk) : Prop :=
  ∃ t', Server.storeFile session request t = .returned () t' ∧ t'.disk = disk

def ClientStores (retrieval : Client.Retrieval) (message : ServerMessage)
    (s : Client.RetrievalState) (disk : Disk) : Prop :=
  ∃ s', Client.storeFile retrieval message s = .returned () s' ∧ s'.disk = disk

variable (request) in
theorem serverStores_iff (ht : Server.Serving pending t)
    (hrecoverable : t.recovered = true ∨ Server.Recoverable session t) (disk : Disk) :
    ServerStores session request t disk ↔
      session.storage.storeFile (session.arrival request t) t.disk = .returned () disk := by
  have hmirrors := Server.storeFile_mirrors request ht hrecoverable
  exact (hmirrors.returned_iff () disk).symm

theorem clientStores_iff (hs : Client.Expecting incoming s)
    (hpath : Validator.validatePath message.path = some path)
    (hnested : Client.Nested retrieval (retrieval.destFolder ++ path)) (disk : Disk) :
    ClientStores retrieval message s disk ↔
      retrieval.storage.storeFile (retrieval.arrival message s) s.disk = .returned () disk := by
  have hmirrors := Client.storeFile_mirrors hpath hnested hs
  exact (hmirrors.returned_iff () disk).symm

theorem not_clientStores (hpath : Validator.validatePath message.path = some path)
    (hnested : ¬ Client.Nested retrieval (retrieval.destFolder ++ path)) (disk : Disk) :
    ¬ ClientStores retrieval message s disk := by
  rw [Client.Nested, not_or, not_not] at hnested
  rintro ⟨s', hstored, -⟩
  obtain ⟨exception, s'', hraised⟩ := Client.storeFile_fails hpath hnested.1 hnested.2 s
  rw [hraised] at hstored
  cases hstored

/-- Given the same message, stream, folders and disk the two agree exactly if the file
does not lie in the destination folder itself, or is not to be stored in any case. -/
theorem storeFiles_agree_iff (ht : Server.Serving pending t)
    (hrecoverable : t.recovered = true ∨ Server.Recoverable session t)
    (hs : Client.Expecting incoming s) (hstorage : session.storage = retrieval.storage)
    (harrival : session.arrival request t = retrieval.arrival message s) (hdisk : t.disk = s.disk)
    (hpath : Validator.validatePath message.path = some path)
    (htime : Validator.validateLastWriteTime message.lastWriteTime = true) :
    (∀ disk, ClientStores retrieval message s disk ↔ ServerStores session request t disk) ↔
      Client.Nested retrieval (retrieval.destFolder ++ path) ∨
        ¬ retrieval.storage.Storable (retrieval.arrival message s) path s.disk := by
  have hserver := serverStores_iff request ht hrecoverable
  rw [hstorage, harrival, hdisk] at hserver
  by_cases hnested : Client.Nested retrieval (retrieval.destFolder ++ path)
  · refine iff_of_true (fun disk => ?_) (.inl hnested)
    exact (clientStores_iff hs hpath hnested disk).trans (hserver disk).symm
  · have hparent : parentPath (retrieval.destFolder ++ path) = retrieval.destFolder :=
      not_not.mp (not_or.mp hnested).1
    have hstorable : (retrieval.storage.storeFile (retrieval.arrival message s) s.disk).returns =
        true ↔ retrieval.storage.Storable (retrieval.arrival message s) path s.disk :=
      Storage.storeFile_returns_iff s.disk hpath htime hparent
    constructor
    · intro hagree
      refine .inr fun hcan => ?_
      have hreturned := Exit.eq_returned_of_returns (hstorable.mpr hcan)
      exact not_clientStores hpath hnested _ ((hagree _).mpr ((hserver _).mpr hreturned))
    · intro hcondition disk
      apply iff_of_false (not_clientStores hpath hnested disk)
      intro hstores
      apply hcondition.resolve_left hnested
      apply hstorable.mp
      rw [(hserver disk).mp hstores]
      rfl

end Agreement

/-! ## An empty file, sent to both -/

/-- A client with the folders of the session that is an example. -/
def annaMirror : Client.Retrieval where
  settings := annaRetrieval.settings
  destFolder := Server.annaSession.userPath
  tempNameSize := Server.annaSession.tempNameSize
  temporaryPath := Server.annaSession.temporaryPath

def annaMessage (path : Text) : ServerMessage :=
  { version := 1, type := .STOR, path, lastWriteTime := Server.epoch, hash := Server.emptyFileHash }

def annaRequest (path : Text) : ClientMessage :=
  { version := 1, type := .STOR, path, lastWriteTime := Server.epoch, hash := Server.emptyFileHash }

def annaDelivery : Client.RetrievalState where
  manager :=
    { connection := { incoming := [{ version := 1, type := .DATA, last := true }] }
      waitingForResponse := .ofSize 1
      folder := FileTree.bare 0
      database := {}
      history := {} }
  disk := Server.annaDisk
  random _ := 0

def annaUpload : Server.ServerState :=
  Server.startSession Server.annaDisk {} [{ version := 1, type := .DATA, last := true }]

/-- Both store a file in a directory that is still missing. -/
theorem storeFiles_agree_below :
    (Server.storeFile Server.annaSession (annaRequest "/a/f".toList) annaUpload).returns = true ∧
      ∀ disk, ClientStores annaMirror (annaMessage "/a/f".toList) annaDelivery disk ↔
        ServerStores Server.annaSession (annaRequest "/a/f".toList) annaUpload disk := by
  have hpath : Validator.validatePath (annaMessage "/a/f".toList).path = some "/a/f".toList := by
    decide +kernel
  have hnested : Client.Nested annaMirror (annaMirror.destFolder ++ "/a/f".toList) :=
    .inl (by decide +kernel)
  have hnoRows : Server.Recoverable Server.annaSession annaUpload :=
    fun _ hrow => absurd hrow List.not_mem_nil
  refine ⟨by decide +kernel, ?_⟩
  exact (storeFiles_agree_iff ⟨rfl, rfl, rfl⟩ (.inr hnoRows) ⟨rfl, rfl⟩ rfl rfl rfl hpath
    (by decide +kernel)).mpr (.inl hnested)

/-- A file in the folder itself is stored by the server; the client moves it to its
place and reports a failure. -/
theorem folder_file_refused :
    (Server.storeFile Server.annaSession (annaRequest "/f".toList) annaUpload).returns = true ∧
      (Client.storeFile annaMirror (annaMessage "/f".toList) annaDelivery).returns = false ∧
      (Client.storeFile annaMirror (annaMessage "/f".toList) annaDelivery).state.disk.present
        (annaMirror.destFolder ++ "/f".toList) = true ∧
      ¬ ∀ disk, ClientStores annaMirror (annaMessage "/f".toList) annaDelivery disk ↔
        ServerStores Server.annaSession (annaRequest "/f".toList) annaUpload disk := by
  have hserver : (Server.storeFile Server.annaSession (annaRequest "/f".toList)
      annaUpload).returns = true := by decide +kernel
  have hclient : (Client.storeFile annaMirror (annaMessage "/f".toList)
      annaDelivery).returns = false := by decide +kernel
  refine ⟨hserver, hclient, by decide +kernel, fun hagree => ?_⟩
  have hstored := Exit.eq_returned_of_returns hserver
  obtain ⟨s, hreturned, -⟩ := (hagree _).mpr ⟨_, hstored, rfl⟩
  rw [hreturned] at hclient
  cases hclient

end PdsBackup
