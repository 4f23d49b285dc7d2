import PdsBackup.Common.Blocks
import PdsBackup.Core.OpenFile
import PdsBackup.Server.Steps

/-!
# The server's files

What the server sends of a file that is retrieved, and what it takes of the files
it is sent: `_storeFile` takes the DATA messages up to the one that is marked as
the last and leaves the rest of the stream.
-/

namespace PdsBackup.Server

open Procedure

variable {s : ServerState}

section Sending

variable (session : Session)

def dataMessage (block : List Byte) (last : Bool) : ServerMessage :=
  { version := session.protocolVersion, type := .DATA, data := block, last }

def storMessage (mac : Text) (element : DirectoryEntry) : ServerMessage :=
  { version := session.protocolVersion
    type := .STOR
    path := session.relativeRoot mac ++ element.relativePath
    fileSize := element.size
    lastWriteTime := element.lastWriteTime
    hash := element.hash.str }

/-- The DATA messages of a file. -/
def dataMessages (content : List Byte) : List ServerMessage :=
  markLast (dataMessage session) (blocks session.maxDataChunkSize content)

/-- What is sent of a file that is retrieved. -/
def fileMessages (mac : Text) (element : DirectoryEntry) (content : List Byte) :
    List ServerMessage :=
  storMessage session mac element :: dataMessages session content

def ServerState.wrote (messages : List ServerMessage) (s : ServerState) : ServerState :=
  { s with connection := { s.connection with outgoing := s.connection.outgoing ++ messages } }

variable {session}

theorem dataMessages_carry (hsize : 0 < session.maxDataChunkSize) (content : List Byte) :
    Carries ServerMessage.data ServerMessage.last session.maxDataChunkSize content
      (dataMessages session content) :=
  carries_markLast (fun _ _ => rfl) (fun _ _ => rfl) hsize content

theorem forall_mem_dataMessages (content : List Byte) :
    ∀ message ∈ dataMessages session content,
      message.version = session.protocolVersion ∧ message.type = .DATA :=
  forall_mem_markLast (fun _ _ => ⟨rfl, rfl⟩) _

theorem wrote_wrote (messages others : List ServerMessage) :
    (s.wrote messages).wrote others = s.wrote (messages ++ others) := by
  simp [ServerState.wrote]

/-- A connection that holds takes every message. -/
theorem sendServerMessage_run (hopen : s.connection.sendsLeft = none) (message : ServerMessage) :
    sendServerMessage message s = .returned () (s.wrote [message]) := by
  simp only [sendServerMessage, read_bind_apply, hopen, reduceCtorEq, if_false, modify_apply,
    Connection.sent, Option.map_none]
  rw [← hopen]
  rfl

variable (session) in
theorem sendBlocks_run (hopen : s.connection.sendsLeft = none) (parts : List (List Byte)) :
    sendBlocks session parts s = .returned () (s.wrote (markLast (dataMessage session) parts)) := by
  fun_induction markLast (dataMessage session) parts generalizing s with
  | case1 => simp [sendBlocks, ServerState.wrote]
  | case2 block => exact sendServerMessage_run hopen _
  | case3 block next others ih =>
      have hrest := ih (s := s.wrote [dataMessage session block false]) hopen
      have hfirst : sendDATA session block false s =
          .returned () (s.wrote [dataMessage session block false]) :=
        sendServerMessage_run hopen _
      rw [sendBlocks, bind_of_returned hfirst, hrest, wrote_wrote]
      · rfl
      · exact List.cons_ne_nil next others

/-- The file of an element is on the disk, with the content it was stored with. -/
structure Available (session : Session) (tree : FileTree) (mac : Text)
    (element : DirectoryEntry) (content : List Byte) : Prop where
  isRegularFile : element.isRegularFile = true
  file : ∃ mtime, tree.status element.absolutePath = some (.file content mtime)
  unchanged : ∃ effective, DirectoryEntry.load session.platform
      (session.basePath ++ session.relativeRoot mac) element.absolutePath tree = some effective ∧
    element.hash = effective.hash

/-- `_sendFile` announces the file and sends its blocks. -/
theorem sendFile_run (hopen : s.connection.sendsLeft = none) {element : DirectoryEntry} {mac : Text}
    {content : List Byte} (hretrievable : Available session s.disk.tree mac element content) :
    sendFile session element mac s =
      .returned () (s.wrote (fileMessages session mac element content)) := by
  obtain ⟨mtime, hfile⟩ := hretrievable.file
  obtain ⟨effective, hload, hhash⟩ := hretrievable.unchanged
  have hloaded : loadEntry session (session.basePath ++ session.relativeRoot mac)
      element.absolutePath s = .returned effective s := by
    simp [loadEntry, hload]
  have hannounced : sendSTOR session (session.relativeRoot mac ++ element.relativePath) element s =
      .returned () (s.wrote [storMessage session mac element]) :=
    sendServerMessage_run hopen _
  have hblocks := sendBlocks_run session (s := s.wrote [storMessage session mac element]) hopen
    (blocks session.maxDataChunkSize content)
  have hstatus : (s.wrote [storMessage session mac element]).disk.status element.absolutePath =
      some (.file content mtime) := hfile
  rw [sendFile, bind_of_returned hloaded, if_neg (not_not.mpr hhash), bind_of_returned hannounced,
    read_bind_apply, hstatus]
  rw [wrote_wrote] at hblocks
  exact hblocks

theorem sendElement_run (hopen : s.connection.sendsLeft = none) {element : DirectoryEntry}
    {mac : Text} {content : List Byte}
    (hretrievable : Available session s.disk.tree mac element content) :
    sendElement session mac element s =
      .returned () (s.wrote (fileMessages session mac element content)) := by
  have hfile := hretrievable.isRegularFile
  have hnotDir : element.isDirectory = false := by
    simp only [DirectoryEntry.isRegularFile, decide_eq_true_eq] at hfile
    simp [DirectoryEntry.isDirectory, hfile]
  have hpresent : s.disk.present element.absolutePath = true := by
    obtain ⟨mtime, hstatus⟩ := hretrievable.file
    simp [Disk.present, Disk.status, hstatus]
  rw [sendElement, read_bind_apply, hpresent, hnotDir, hfile]
  exact sendFile_run hopen hretrievable

/-- Files are sent one after the other. -/
theorem sendElements_run (hopen : s.connection.sendsLeft = none)
    {files : List ((Text × DirectoryEntry) × List Byte)}
    (hfiles : ∀ file ∈ files, Available session s.disk.tree file.1.1 file.1.2 file.2) :
    sendElements session (files.map Prod.fst) s =
      .returned () (s.wrote (files.flatMap fun file =>
        fileMessages session file.1.1 file.1.2 file.2)) := by
  induction files generalizing s with
  | nil => simp [sendElements, ServerState.wrote]
  | cons file files ih =>
      have hfirst := sendElement_run hopen (hfiles file List.mem_cons_self)
      have hrest := ih (s := s.wrote (fileMessages session file.1.1 file.1.2 file.2)) hopen
        fun other hother => hfiles other (List.mem_cons_of_mem file hother)
      rw [List.map_cons, sendElements, bind_of_returned hfirst, hrest, wrote_wrote]
      rfl

end Sending

section Storing

variable {session : Session}

/-- The messages still to come. -/
def Expecting (incoming : List ClientMessage) (s : ServerState) : Prop :=
  s.connection.incoming = incoming

/-- The loop takes a run of DATA messages up to the marked one, and no more. -/
theorem receiveData_takes {handle : Path} (tmpPath : Text) {start : FileTree}
    {content : List Byte} {before rest : List ClientMessage} {final : ClientMessage}
    (hdata : ∀ message ∈ before ++ [final],
      message.version = session.protocolVersion ∧ message.type = .DATA)
    (hbefore : ∀ message ∈ before, message.last = false) (hfinal : final.last = true)
    (hs : Expecting (before ++ final :: rest) s) (hgrown : Grown start handle content s.disk.tree) :
    ∃ s', receiveData session handle tmpPath (before ++ final :: rest) s = .returned () s' ∧
      Expecting rest s' ∧
      Grown start handle (content ++ (before ++ [final]).flatMap ClientMessage.data)
        s'.disk.tree := by
  induction before generalizing content s with
  | nil =>
      have hrecv := recvMessage_run s hs
      obtain ⟨hversion, htype⟩ := hdata final List.mem_cons_self
      obtain ⟨disk, happend, hwritten⟩ := hgrown.append final.data
      have happended := onDisk_of_returned (s.withIncoming rest) happend
      refine ⟨(s.withIncoming rest).withDisk disk, ?_, rfl, ?_⟩
      · rw [List.nil_append, receiveData, bind_of_returned hrecv, if_neg (not_not.mpr hversion),
          if_neg (not_not.mpr htype), bind_of_returned happended, if_pos hfinal]
        rfl
      · rw [List.nil_append, List.flatMap_singleton]
        exact hwritten
  | cons message before ih =>
      have hrecv : recvMessage s = .returned message (s.withIncoming (before ++ final :: rest)) :=
        recvMessage_run s hs
      obtain ⟨hversion, htype⟩ := hdata message List.mem_cons_self
      obtain ⟨disk, happend, hwritten⟩ := hgrown.append message.data
      have happended := onDisk_of_returned (s.withIncoming (before ++ final :: rest)) happend
      have hlast : ¬ message.last = true := by
        rw [hbefore message List.mem_cons_self]
        exact Bool.false_ne_true
      obtain ⟨s', hrun, hs', hholds⟩ :=
        ih (s := (s.withIncoming (before ++ final :: rest)).withDisk disk)
          (fun other hother => hdata other (List.mem_cons_of_mem message hother))
          (fun other hother => hbefore other (List.mem_cons_of_mem message hother)) rfl hwritten
      refine ⟨s', ?_, hs', by simpa using hholds⟩
      rw [List.cons_append, receiveData, bind_of_returned hrecv, if_neg (not_not.mpr hversion),
        if_neg (not_not.mpr htype), bind_of_returned happended, if_neg hlast]
      exact hrun

/-- When a file is complete: its messages are taken, the temporary file has its
content, and whatever entry is read of it has the announced size and hash. -/
structure Complete (session : Session) (content : List Byte) (rest : List ClientMessage)
    (tmpPath : Text) (expected : DirectoryEntry) (s : ServerState) : Prop where
  expecting : Expecting rest s
  file : ∃ mtime, s.disk.tree.status tmpPath = some (.file content mtime)
  checks : ∀ newFile, DirectoryEntry.load session.platform session.temporaryPath tmpPath
    s.disk.tree = some newFile → newFile.size = expected.size ∧ newFile.hash = expected.hash

/-- A STOR for a content. -/
structure Announces (platform : Platform) (content : List Byte) (message : ClientMessage) :
    Prop where
  fileSize : message.fileSize = content.length
  hash : message.hash = (platform.sha256 content).str

/-- How a STOR ends: it fails before it takes a message, or its file is complete
and all that is left is to accept it. -/
def StoreEnds (session : Session) (content : List Byte) (messages rest : List ClientMessage)
    (exit : Exit ServerState ServerException Unit) : Prop :=
  (∃ exception s', exit = .raised exception s' ∧ Expecting (messages ++ rest) s') ∨
    ∃ tmpPath expected middle, Complete session content rest tmpPath expected middle ∧
      exit = acceptFile session tmpPath expected middle

/-! ### What leaves the stream alone -/

section Keeps

variable {incoming : List ClientMessage}

theorem onDisk_keeps {ε α : Type} (p : Procedure Disk ε α) :
    Keeps (Expecting incoming) (onDisk p) :=
  Meets.within (Meets.anything p) (fun _ _ => trivial) (fun _ _ _ hs _ => hs) fun _ _ _ hs _ => hs

theorem expecting_unrecorded : Unrecorded (Expecting incoming) :=
  ⟨fun _ _ hs => hs, fun _ _ hs => hs, fun _ hs => hs⟩

theorem getHexString_keeps (size : Nat) : Keeps (Expecting incoming) (getHexString size) := by
  apply Keeps.bind (Keeps.read _)
  intro bytes
  apply Keeps.bind
  · exact Keeps.modify _ fun _ hs => hs
  · exact fun _ => Keeps.pure _

theorem loadEntry_keeps (basePath absolutePath : Text) :
    Keeps (Expecting incoming) (loadEntry session basePath absolutePath) :=
  Keeps.bind (Keeps.read _) fun _ => Keeps.orRaise _ _

theorem sendServerMessage_keeps (message : ServerMessage) :
    Keeps (Expecting incoming) (sendServerMessage message) := by
  intro s hs
  cases sendServerMessage_cases s message with
  | inl hrun =>
      rw [hrun]
      exact hs
  | inr hrun =>
      rw [hrun]
      exact hs

theorem track_keeps (path : Text) (el : Option DirectoryEntry) (entry : DirectoryEntry) :
    Keeps (Expecting incoming) (track session path el entry) := by
  cases el with
  | none => exact Keeps.bind (expecting_unrecorded.onDatabase _) fun _ => Keeps.modify _ fun _ hs => hs
  | some el => exact Keeps.bind (expecting_unrecorded.onDatabase _) fun _ => Keeps.modify _ fun _ hs => hs

variable (session) in
/-- Accepting a file takes no message. -/
theorem acceptFile_keeps (tmpPath : Text) (expected : DirectoryEntry) :
    Keeps (Expecting incoming) (acceptFile session tmpPath expected) := by
  apply Keeps.bind (loadEntry_keeps _ _)
  intro newFile
  apply Keeps.bind (onDisk_keeps _)
  intro newFile
  apply Keeps.ite
  · intro _
    apply Keeps.bind (onDisk_keeps _)
    exact fun _ => Keeps.bind (sendServerMessage_keeps _) fun _ => Keeps.raise _
  · intro _
    apply Keeps.bind
    · apply Keeps.bind (Keeps.read _)
      intro parentExists
      apply Keeps.bind (Keeps.when _ fun _ => onDisk_keeps _)
      intro _
      apply Keeps.bind (Keeps.ite (fun _ => loadEntry_keeps _ _) fun _ => Keeps.pure _)
      intro entry
      apply Keeps.bind (onDisk_keeps _)
      intro _
      apply Keeps.when
      intro _
      exact Keeps.bind (onDisk_keeps _) fun _ => Keeps.pure _
    · intro _
      apply Keeps.bind (Keeps.read _)
      intro el
      apply Keeps.bind (track_keeps _ _ _)
      exact fun _ => sendServerMessage_keeps _

end Keeps

theorem storeFile_takes {announcement : ClientMessage} {content : List Byte} {size : Nat}
    {messages rest : List ClientMessage}
    (hcarries : Carries ClientMessage.data ClientMessage.last size content messages)
    (hdata : ∀ message ∈ messages,
      message.version = session.protocolVersion ∧ message.type = .DATA)
    (hannounces : Announces session.platform content announcement)
    (hs : Expecting (messages ++ rest) s) :
    StoreEnds session content messages rest (storeFile session announcement s) := by
  have hraised : ∀ exception s', Expecting (messages ++ rest) s' →
      StoreEnds session content messages rest (.raised exception s') :=
    fun exception s' hs' => .inl ⟨exception, s', rfl, hs'⟩
  obtain ⟨before, final, rfl, hfinal, hbefore⟩ := hcarries.marked
  have hhash : Hash.ofBytes announcement.hash = some (session.platform.sha256 content) := by
    rw [hannounces.hash, Hash.ofBytes_str]
  rw [storeFile, hhash]
  apply Keeps.bind_exit expecting_unrecorded.recoverIfNeeded hs hraised
  intro _ s hs
  rw [orRaise_some, pure_bind_apply]
  apply Keeps.bind_exit (Keeps.orRaise _ _) hs hraised
  intro path s hs
  apply Keeps.bind_exit (Keeps.ensure _ _) hs hraised
  intro _ s hs
  apply Keeps.bind_exit (getHexString_keeps _) hs hraised
  intro name s hs
  rw [read_bind_apply]
  apply Keeps.bind_exit (Keeps.when _ fun _ => onDisk_keeps _) hs hraised
  intro _ s hs
  generalize session.temporaryPath ++ '/' :: name ++ ".tmp".toList = tmpPath
  generalize hexpected : DirectoryEntry.make session.userPath path announcement.fileSize
    "file".toList announcement.lastWriteTime (session.platform.sha256 content) = expected
  rcases SystemCall.openTruncated_cases tmpPath s.disk with
    hnone | ⟨handle, disk, hopen, hresolve, hgrown⟩
  · rw [bind_of_returned (onDisk_of_returned s hnone)]
    apply Keeps.bind_exit (sendServerMessage_keeps _) hs hraised
    exact fun _ s hs => hraised _ s hs
  · rw [List.append_assoc, List.singleton_append] at hs
    obtain ⟨s', hreceive, hs', hfile⟩ := receiveData_takes tmpPath
      (s := s.withDisk disk) hdata hbefore hfinal hs hgrown
    rw [hcarries.bytes, List.nil_append] at hfile
    obtain ⟨mtime, hstatus⟩ := hfile.status_of_resolve hresolve
    refine .inr ⟨tmpPath, expected, s', ⟨hs', ⟨mtime, hstatus⟩, ?_⟩, ?_⟩
    · intro newFile hload
      obtain ⟨-, -, node, hnode, hread⟩ := DirectoryEntry.load_eq_some hload
      rw [hstatus, Option.some.injEq] at hnode
      subst hnode
      rw [← hexpected, hread.size, hread.hash]
      exact ⟨hannounces.fileSize.symm, rfl⟩
    · have hcaught : catching (receiveData session handle tmpPath (before ++ final :: rest))
          (removeOnSocketException tmpPath) (s.withDisk disk) = .returned () s' := by
        rw [catching_apply, hreceive]
      have hincoming : (s.withDisk disk).connection.incoming = before ++ final :: rest := hs
      rw [bind_of_returned (onDisk_of_returned s hopen)]
      simp only [read_bind_apply, hincoming]
      exact bind_of_returned hcaught

variable (session) in
/-- The next message, as a STOR; exceptions are not caught. -/
def takeFile : ServerProcedure Unit := do
  let message ← recvMessage
  storeFile session message

/-- A STOR that is stored has taken its messages and no more. -/
theorem StoreEnds.returned {content : List Byte} {messages rest : List ClientMessage}
    {s' : ServerState} (h : StoreEnds session content messages rest (.returned () s')) :
    Expecting rest s' := by
  rcases h with ⟨exception, s'', heq, -⟩ | ⟨tmpPath, expected, middle, hcomplete, heq⟩
  · cases heq
  · have hkept := acceptFile_keeps session tmpPath expected middle hcomplete.expecting
    rw [← heq] at hkept
    exact hkept

end Storing

end PdsBackup.Server
