import PdsBackup.Client.Retrieval
import PdsBackup.Common.Blocks
import PdsBackup.Core.OpenFile

/-!
# The client's files

What the client sends of a file, and what its retrieval takes of the files it is
sent: `_storeFile` takes the DATA messages up to the one that is marked as the
last and leaves the rest of the stream.
-/

namespace PdsBackup.Client

open Procedure

section Sending

variable (settings : Settings)

/-- The DATA messages of a file. -/
def dataMessages (content : List Byte) : List ClientMessage :=
  markLast (messageDATA settings) (blocks settings.maxDataChunkSize content)

/-- What is sent of a file that the server wants. -/
def fileMessages (element : DirectoryEntry) (content : List Byte) : List ClientMessage :=
  messageSTOR settings element :: dataMessages settings content

def ClientState.wrote (messages : List ClientMessage) (s : ClientState) : ClientState :=
  { s with connection := { s.connection with written := s.connection.written ++ messages } }

variable {settings}
variable {s : ClientState}

theorem dataMessages_carry (hsize : 0 < settings.maxDataChunkSize) (content : List Byte) :
    Carries ClientMessage.data ClientMessage.last settings.maxDataChunkSize content
      (dataMessages settings content) :=
  carries_markLast (fun _ _ => rfl) (fun _ _ => rfl) hsize content

theorem forall_mem_dataMessages (content : List Byte) :
    ∀ message ∈ dataMessages settings content,
      message.version = settings.protocolVersion ∧ message.type = .DATA :=
  forall_mem_markLast (fun _ _ => ⟨rfl, rfl⟩) _

theorem wrote_wrote (messages others : List ClientMessage) :
    (s.wrote messages).wrote others = s.wrote (messages ++ others) := by
  simp [ClientState.wrote]

/-- A connection that holds makes every read and write succeed. -/
theorem operate_run (hopen : s.connection.operationsLeft = none) (error : SocketError) :
    operate error s = .returned () s := by
  simp only [operate, read_bind_apply, hopen, reduceCtorEq, if_false, Option.map_none,
    modify_apply]
  rw [← hopen]

theorem sendClientMessage_run (hopen : s.connection.operationsLeft = none)
    (message : ClientMessage) :
    sendClientMessage message s = .returned () (s.wrote [message]) := by
  rw [sendClientMessage, bind_of_returned (operate_run hopen _)]
  rfl

theorem sendBlocks_run (hopen : s.connection.operationsLeft = none) (parts : List (List Byte)) :
    sendBlocks settings parts s = .returned () (s.wrote (markLast (messageDATA settings) parts)) := by
  fun_induction markLast (messageDATA settings) parts generalizing s with
  | case1 => simp [sendBlocks, ClientState.wrote]
  | case2 block => exact sendClientMessage_run hopen _
  | case3 block next others ih =>
      have hrest := ih (s := s.wrote [messageDATA settings block false]) hopen
      rw [sendBlocks, bind_of_returned (sendClientMessage_run hopen _), hrest, wrote_wrote]
      · rfl
      · exact List.cons_ne_nil next others

variable (settings) in
/-- `_sendFile` sends the blocks of the file. -/
theorem sendFile_run (hopen : s.connection.operationsLeft = none) {element : DirectoryEntry}
    {content : List Byte} {mtime : Int}
    (hfile : s.folder.status element.absolutePath = some (.file content mtime)) :
    sendFile settings element s = .returned () (s.wrote (dataMessages settings content)) := by
  rw [sendFile, read_bind_apply, hfile]
  exact sendBlocks_run hopen _

/-- The file of an event that waits for its STOR to be answered, as it was when the
event was made. -/
structure Sendable (settings : Settings) (folder : FileTree) (waiting : Waiting)
    (content : List Byte) : Prop where
  type : waiting.event.type = .storeSent
  isRegularFile : waiting.event.element.isRegularFile = true
  file : ∃ mtime, folder.status waiting.event.element.absolutePath = some (.file content mtime)
  unchanged : ∃ current, DirectoryEntry.load settings.platform settings.pathToWatch
      waiting.event.element.absolutePath folder = some current ∧
    current.hash = waiting.event.element.hash

theorem resend_run (hopen : s.connection.operationsLeft = none) {waiting : Waiting}
    {content : List Byte} (hsendable : Sendable settings s.folder waiting content) :
    resend settings waiting.event s =
      .returned () (s.wrote (fileMessages settings waiting.event.element content)) := by
  obtain ⟨mtime, hfile⟩ := hsendable.file
  obtain ⟨current, hload, hhash⟩ := hsendable.unchanged
  have hkept : vanishedOrChanged settings waiting.event.element s = .returned false s := by
    simp [vanishedOrChanged, hfile, hload, hhash]
  have hrequest : requestOf settings waiting.event =
      some (messageSTOR settings waiting.event.element) := by
    simp [requestOf, hsendable.isRegularFile, hsendable.type]
  have hcompose : composeMessage settings waiting.event s =
      .returned () (s.wrote [messageSTOR settings waiting.event.element]) := by
    rw [composeMessage, hrequest]
    exact sendClientMessage_run hopen _
  rw [resend, if_pos hsendable.type, bind_of_returned hkept]
  simp only [Bool.false_eq_true, if_false]
  have hsent := sendFile_run settings
    (s := s.wrote [messageSTOR settings waiting.event.element]) hopen hfile
  rw [bind_of_returned hcompose, hsent, wrote_wrote]
  rfl

/-- Files are sent one after the other. -/
theorem resendAll_run (hopen : s.connection.operationsLeft = none)
    {files : List (Waiting × List Byte)}
    (hfiles : ∀ file ∈ files, Sendable settings s.folder file.1 file.2) :
    resendAll settings (files.map Prod.fst) s =
      .returned () (s.wrote (files.flatMap fun file =>
        fileMessages settings file.1.event.element file.2)) := by
  induction files generalizing s with
  | nil => simp [resendAll, ClientState.wrote]
  | cons file files ih =>
      have hfirst := resend_run hopen (hfiles file List.mem_cons_self)
      have hrest := ih (s := s.wrote (fileMessages settings file.1.event.element file.2)) hopen
        fun other hother => hfiles other (List.mem_cons_of_mem file hother)
      rw [List.map_cons, resendAll, bind_of_returned hfirst, hrest, wrote_wrote]
      rfl

end Sending

section Storing

variable (retrieval : Retrieval) {s : RetrievalState}

/-- The messages still to come, on a connection that holds. -/
structure Expecting (incoming : List ServerMessage) (s : RetrievalState) : Prop where
  incoming : s.manager.connection.incoming = incoming
  holds : s.manager.connection.operationsLeft = none

theorem recvMessage_run {message : ServerMessage} {incoming : List ServerMessage}
    (hs : Expecting (message :: incoming) s) :
    ∃ s', onManager recvMessage s = .returned message s' ∧ s'.disk = s.disk ∧
      Expecting incoming s' := by
  have hrecv : recvMessage s.manager = .returned message { s.manager with
      connection := { s.manager.connection with
        incoming
        received := s.manager.connection.received + 1 } } := by
    rw [recvMessage, bind_of_returned (operate_run hs.holds _), read_bind_apply, hs.incoming]
    rfl
  exact ⟨_, within_of_returned _ _ _ hrecv, rfl, rfl, hs.holds⟩

/-- Work on the disk leaves the connection alone. -/
theorem onDisk_keeps {ε α : Type} {incoming : List ServerMessage} (p : Procedure Disk ε α) :
    Keeps (Expecting incoming) (onDisk p) :=
  Meets.within (Meets.anything p) (fun _ _ => trivial) (fun _ _ _ hs _ => ⟨hs.incoming, hs.holds⟩)
    fun _ _ _ hs _ => ⟨hs.incoming, hs.holds⟩

theorem onDisk_of_returned {ε α : Type} {p : Procedure Disk ε α} {value : α} {disk : Disk}
    (hp : p s.disk = .returned value disk) : onDisk p s = .returned value { s with disk } :=
  within_of_returned _ _ _ hp

theorem getHexString_keeps {incoming : List ServerMessage} (size : Nat) :
    Keeps (Expecting incoming) (getHexString size) := by
  apply Keeps.bind (Keeps.read _)
  intro bytes
  apply Keeps.bind (Keeps.modify _ fun _ hs => ⟨hs.incoming, hs.holds⟩)
  exact fun _ => Keeps.pure _

variable {retrieval}

/-- The loop takes a run of DATA messages up to the marked one, and no more. -/
theorem receiveData_takes {handle : Path} (tmpPath : Text) {start : FileTree}
    {content : List Byte} {before rest : List ServerMessage} {final : ServerMessage}
    (hdata : ∀ message ∈ before ++ [final],
      message.version = retrieval.settings.protocolVersion ∧ message.type = .DATA)
    (hbefore : ∀ message ∈ before, message.last = false) (hfinal : final.last = true)
    (hs : Expecting (before ++ final :: rest) s) (hgrown : Grown start handle content s.disk.tree) :
    ∃ s', receiveData retrieval handle tmpPath (before ++ final :: rest) s = .returned () s' ∧
      Expecting rest s' ∧
      Grown start handle (content ++ (before ++ [final]).flatMap ServerMessage.data)
        s'.disk.tree := by
  induction before generalizing content s with
  | nil =>
      obtain ⟨s₁, hrecv, hdisk, hs₁⟩ := recvMessage_run hs
      obtain ⟨hversion, htype⟩ := hdata final List.mem_cons_self
      rw [← hdisk] at hgrown
      obtain ⟨disk, happend, hwritten⟩ := hgrown.append final.data
      have happended : onDisk (SystemCall.append handle final.data) s₁ =
          .returned () { s₁ with disk } := onDisk_of_returned happend
      refine ⟨{ s₁ with disk }, ?_, ⟨hs₁.incoming, hs₁.holds⟩, by simpa using hwritten⟩
      rw [List.nil_append, receiveData, bind_of_returned hrecv, if_neg (not_not.mpr hversion),
        if_neg (not_not.mpr htype), bind_of_returned happended, if_pos hfinal]
      rfl
  | cons message before ih =>
      obtain ⟨s₁, hrecv, hdisk, hs₁⟩ := recvMessage_run hs
      obtain ⟨hversion, htype⟩ := hdata message List.mem_cons_self
      rw [← hdisk] at hgrown
      obtain ⟨disk, happend, hwritten⟩ := hgrown.append message.data
      have happended : onDisk (SystemCall.append handle message.data) s₁ =
          .returned () { s₁ with disk } := onDisk_of_returned happend
      have hlast : ¬ message.last = true := by
        rw [hbefore message List.mem_cons_self]
        exact Bool.false_ne_true
      obtain ⟨s', hrun, hs', hholds⟩ := ih (s := { s₁ with disk })
        (fun other hother => hdata other (List.mem_cons_of_mem message hother))
        (fun other hother => hbefore other (List.mem_cons_of_mem message hother))
        ⟨hs₁.incoming, hs₁.holds⟩ hwritten
      refine ⟨s', ?_, hs', by simpa using hholds⟩
      rw [List.cons_append, receiveData, bind_of_returned hrecv, if_neg (not_not.mpr hversion),
        if_neg (not_not.mpr htype), bind_of_returned happended, if_neg hlast]
      exact hrun

/-- When a file is complete: its messages are taken, the temporary file has its
content, and whatever entry is read of it has the announced size and hash. -/
structure Complete (retrieval : Retrieval) (content : List Byte) (rest : List ServerMessage)
    (tmpPath : Text) (expected : DirectoryEntry) (s : RetrievalState) : Prop where
  expecting : Expecting rest s
  file : ∃ mtime, s.disk.tree.status tmpPath = some (.file content mtime)
  checks : ∀ newFile, DirectoryEntry.load retrieval.settings.platform retrieval.temporaryPath
    tmpPath s.disk.tree = some newFile →
      newFile.size = expected.size ∧ newFile.hash = expected.hash

/-- A STOR for a content. -/
structure Announces (platform : Platform) (content : List Byte) (message : ServerMessage) :
    Prop where
  fileSize : message.fileSize = content.length
  hash : message.hash = (platform.sha256 content).str

/-- How a STOR ends: it fails before it takes a message, or its file is complete
and all that is left is to accept it. -/
def StoreEnds (retrieval : Retrieval) (content : List Byte)
    (messages rest : List ServerMessage) (exit : Exit RetrievalState ClientException Unit) : Prop :=
  (∃ exception s', exit = .raised exception s' ∧ Expecting (messages ++ rest) s') ∨
    ∃ tmpPath expected middle, Complete retrieval content rest tmpPath expected middle ∧
      exit = acceptFile retrieval tmpPath expected middle

theorem storeFile_takes {announcement : ServerMessage} {content : List Byte} {size : Nat}
    {messages rest : List ServerMessage}
    (hcarries : Carries ServerMessage.data ServerMessage.last size content messages)
    (hdata : ∀ message ∈ messages,
      message.version = retrieval.settings.protocolVersion ∧ message.type = .DATA)
    (hannounces : Announces retrieval.settings.platform content announcement)
    (hs : Expecting (messages ++ rest) s) :
    StoreEnds retrieval content messages rest (storeFile retrieval announcement s) := by
  have hraised : ∀ exception s', Expecting (messages ++ rest) s' →
      StoreEnds retrieval content messages rest (.raised exception s') :=
    fun exception s' hs' => .inl ⟨exception, s', rfl, hs'⟩
  obtain ⟨before, final, rfl, hfinal, hbefore⟩ := hcarries.marked
  have hhash : Hash.ofBytes announcement.hash =
      some (retrieval.settings.platform.sha256 content) := by
    rw [hannounces.hash, Hash.ofBytes_str]
  rw [storeFile, hhash, orRaise_some, pure_bind_apply]
  apply Keeps.bind_exit (Keeps.orRaise _ _) hs hraised
  intro path s hs
  apply Keeps.bind_exit (Keeps.ensure _ _) hs hraised
  intro _ s hs
  apply Keeps.bind_exit (getHexString_keeps _) hs hraised
  intro name s hs
  rw [read_bind_apply]
  apply Keeps.bind_exit (Keeps.when _ fun _ => onDisk_keeps _) hs hraised
  intro _ s hs
  generalize retrieval.temporaryPath ++ '/' :: name ++ ".tmp".toList = tmpPath
  generalize hexpected : DirectoryEntry.make retrieval.destFolder path announcement.fileSize
    "file".toList announcement.lastWriteTime (retrieval.settings.platform.sha256 content) = expected
  rcases SystemCall.openTruncated_cases tmpPath s.disk with
    hnone | ⟨handle, disk, hopen, hresolve, hgrown⟩
  · rw [bind_of_returned (onDisk_of_returned hnone)]
    exact hraised _ _ ⟨hs.incoming, hs.holds⟩
  · rw [List.append_assoc, List.singleton_append] at hs
    obtain ⟨s', hreceive, hs', hfile⟩ := receiveData_takes tmpPath
      (s := { s with disk }) hdata hbefore hfinal ⟨hs.incoming, hs.holds⟩ hgrown
    rw [hcarries.bytes, List.nil_append] at hfile
    obtain ⟨mtime, hstatus⟩ := hfile.status_of_resolve hresolve
    refine .inr ⟨tmpPath, expected, s', ⟨hs', ⟨mtime, hstatus⟩, ?_⟩, ?_⟩
    · intro newFile hload
      obtain ⟨-, -, node, hnode, hread⟩ := DirectoryEntry.load_eq_some hload
      rw [hstatus, Option.some.injEq] at hnode
      subst hnode
      rw [← hexpected, hread.size, hread.hash]
      exact ⟨hannounces.fileSize.symm, rfl⟩
    · have hcaught : catching (receiveData retrieval handle tmpPath (before ++ final :: rest))
          (removeOnSocketException tmpPath) { s with disk } = .returned () s' := by
        rw [catching_apply, hreceive]
      rw [bind_of_returned (onDisk_of_returned hopen)]
      simp only [read_bind_apply, hs.incoming]
      exact bind_of_returned hcaught

variable (retrieval) in
/-- Accepting a file takes no message. -/
theorem acceptFile_keeps {incoming : List ServerMessage} (tmpPath : Text)
    (expected : DirectoryEntry) :
    Keeps (Expecting incoming) (acceptFile retrieval tmpPath expected) := by
  have hset : ∀ entry time, Keeps (Expecting incoming) (setTimeToFile retrieval entry time) :=
    fun _ _ => onDisk_keeps _
  have hload : ∀ basePath absolutePath,
      Keeps (Expecting incoming) (loadEntry retrieval basePath absolutePath) :=
    fun _ _ => Keeps.bind (Keeps.read _) fun _ => Keeps.orRaise _ _
  apply Keeps.bind (hload _ _)
  intro newFile
  apply Keeps.bind (hset _ _)
  intro newFile
  apply Keeps.ite
  · intro _
    exact Keeps.bind (onDisk_keeps _) fun _ => Keeps.raise _
  · intro _
    apply Keeps.bind (Keeps.read _)
    intro parentExists
    apply Keeps.bind (Keeps.when _ fun _ => onDisk_keeps _)
    intro _
    apply Keeps.bind (Keeps.ite (fun _ => hload _ _) fun _ => Keeps.pure _)
    intro entry
    apply Keeps.bind (onDisk_keeps _)
    intro _
    apply Keeps.when
    intro _
    exact Keeps.bind (hset _ _) fun _ => Keeps.pure _

/-- A STOR that is stored has taken its messages and no more. -/
theorem StoreEnds.returned {content : List Byte} {messages rest : List ServerMessage}
    {s' : RetrievalState} (h : StoreEnds retrieval content messages rest (.returned () s')) :
    Expecting rest s' := by
  rcases h with ⟨exception, s'', heq, -⟩ | ⟨tmpPath, expected, middle, hcomplete, heq⟩
  · cases heq
  · have hkept := acceptFile_keeps retrieval tmpPath expected middle hcomplete.expecting
    rw [← heq] at hkept
    exact hkept

end Storing

end PdsBackup.Client
