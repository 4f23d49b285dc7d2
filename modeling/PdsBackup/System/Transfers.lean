import PdsBackup.Client.Transfer
import PdsBackup.Server.Files

/-!
# Files on their way

Files that are backed up and files that are retrieved: the messages one side sends
of them are the messages the other side takes, file by file, however long the
files are and whatever the size of the blocks.
-/

namespace PdsBackup

open Procedure

/-- Files on their way to the server. -/
structure Uploads (settings : Client.Settings) (session : Server.Session) : Prop where
  sent : ∀ (s : Client.ClientState) (element : DirectoryEntry) (content : List Byte) (mtime : Int),
    s.connection.operationsLeft = none →
      s.folder.status element.absolutePath = some (.file content mtime) →
        Client.sendFile settings element s =
            .returned () (s.wrote (Client.dataMessages settings content)) ∧
          Carries ClientMessage.data ClientMessage.last settings.maxDataChunkSize content
            (Client.dataMessages settings content)
  /-- Files sent one after the other. -/
  sentAll : ∀ (s : Client.ClientState) (files : List (Client.Waiting × List Byte)),
    s.connection.operationsLeft = none →
      (∀ file ∈ files, Client.Sendable settings s.folder file.1 file.2) →
        Client.resendAll settings (files.map Prod.fst) s =
          .returned () (s.wrote (files.flatMap fun file =>
            Client.fileMessages settings file.1.event.element file.2))
  /-- The receive loop. -/
  received : ∀ (s : Server.ServerState) (content : List Byte) (rest : List ClientMessage)
      (handle : Path) (tmpPath : Text),
    s.connection.incoming = Client.dataMessages settings content ++ rest →
      s.disk.tree.Holds handle [] →
        ∃ s', Server.receiveData session handle tmpPath s.connection.incoming s =
            .returned () s' ∧
          s'.connection.incoming = rest ∧ s'.disk.tree.Holds handle content
  /-- Files stored one after the other: every STOR finds the messages of its file. -/
  stored : ∀ (s s' : Server.ServerState) (before after : List (DirectoryEntry × List Byte))
      (element : DirectoryEntry) (content : List Byte) (rest : List ClientMessage),
    (∀ file ∈ before ++ (element, content) :: after,
      file.1.size = file.2.length ∧ file.1.hash = settings.platform.sha256 file.2) →
      s.connection.incoming = (before ++ (element, content) :: after).flatMap
          (fun file => Client.fileMessages settings file.1 file.2) ++ rest →
        times before.length (Server.takeFile session) s = .returned () s' →
          ∃ s₁, Server.recvMessage s' = .returned (Client.messageSTOR settings element) s₁ ∧
            Server.StoreEnds session content (Client.dataMessages settings content)
              (after.flatMap (fun file => Client.fileMessages settings file.1 file.2) ++ rest)
              (Server.storeFile session (Client.messageSTOR settings element) s₁)

/-- Files on their way to the client. -/
structure Downloads (session : Server.Session) (retrieval : Client.Retrieval) : Prop where
  sent : ∀ (s : Server.ServerState) (mac : Text) (element : DirectoryEntry) (content : List Byte),
    s.connection.sendsLeft = none →
      Server.Available session s.disk.tree mac element content →
        Server.sendFile session element mac s = .returned () (s.wrote
            (Server.storMessage session mac element :: Server.dataMessages session content)) ∧
          Carries ServerMessage.data ServerMessage.last session.maxDataChunkSize content
            (Server.dataMessages session content)
  /-- Files sent one after the other. -/
  sentAll : ∀ (s : Server.ServerState) (files : List ((Text × DirectoryEntry) × List Byte)),
    s.connection.sendsLeft = none →
      (∀ file ∈ files, Server.Available session s.disk.tree file.1.1 file.1.2 file.2) →
        Server.sendElements session (files.map Prod.fst) s =
          .returned () (s.wrote (files.flatMap fun file =>
            Server.fileMessages session file.1.1 file.1.2 file.2))
  /-- The receive loop. -/
  received : ∀ (s : Client.RetrievalState) (content : List Byte) (rest : List ServerMessage)
      (handle : Path) (tmpPath : Text),
    Client.Expecting (Server.dataMessages session content ++ rest) s →
      s.disk.tree.Holds handle [] →
        ∃ s', Client.receiveData retrieval handle tmpPath s.manager.connection.incoming s =
            .returned () s' ∧
          Client.Expecting rest s' ∧ s'.disk.tree.Holds handle content
  /-- Files stored one after the other: every STOR finds the messages of its file. -/
  stored : ∀ (s s' : Client.RetrievalState)
      (before after : List ((Text × DirectoryEntry) × List Byte)) (mac : Text)
      (element : DirectoryEntry) (content : List Byte) (rest : List ServerMessage),
    (∀ file ∈ before ++ ((mac, element), content) :: after,
      file.1.2.size = file.2.length ∧ file.1.2.hash = session.platform.sha256 file.2) →
      Client.Expecting ((before ++ ((mac, element), content) :: after).flatMap
          (fun file => Server.fileMessages session file.1.1 file.1.2 file.2) ++ rest) s →
        times before.length (Client.retrieveTurn retrieval) s = .returned () s' →
          ∃ s₁, Client.onManager Client.recvMessage s' =
              .returned (Server.storMessage session mac element) s₁ ∧
            Client.StoreEnds retrieval content (Server.dataMessages session content)
              (after.flatMap (fun file => Server.fileMessages session file.1.1 file.1.2 file.2) ++
                rest)
              (Client.storeFile retrieval (Server.storMessage session mac element) s₁)

section Transfers

variable {session : Server.Session} {retrieval : Client.Retrieval}

/-- A file that is open and empty takes the content that messages carry. -/
theorem Grown.open {tree : FileTree} {handle : Path} (hholds : tree.Holds handle []) :
    Grown tree handle [] tree := ⟨hholds, fun _ => rfl⟩

theorem uploads {settings : Client.Settings}
    (hversion : settings.protocolVersion = session.protocolVersion)
    (hsha256 : settings.platform.sha256 = session.platform.sha256)
    (hsize : 0 < settings.maxDataChunkSize) : Uploads settings session := by
  have hcarry : ∀ content, Carries ClientMessage.data ClientMessage.last
      settings.maxDataChunkSize content (Client.dataMessages settings content) :=
    Client.dataMessages_carry hsize
  have hdata : ∀ content, ∀ message ∈ Client.dataMessages settings content,
      message.version = session.protocolVersion ∧ message.type = .DATA := by
    intro content message hmessage
    rw [← hversion]
    exact Client.forall_mem_dataMessages content message hmessage
  have hstored : ∀ (s : Server.ServerState) (element : DirectoryEntry) (content : List Byte)
      (rest : List ClientMessage),
      element.size = content.length ∧ element.hash = settings.platform.sha256 content →
      s.connection.incoming = Client.fileMessages settings element content ++ rest →
        ∃ s₁, Server.recvMessage s = .returned (Client.messageSTOR settings element) s₁ ∧
          Server.StoreEnds session content (Client.dataMessages settings content) rest
            (Server.storeFile session (Client.messageSTOR settings element) s₁) := by
    intro s element content rest hsame hincoming
    refine ⟨_, Server.recvMessage_run s hincoming,
      Server.storeFile_takes (hcarry content) (hdata content) ⟨hsame.1, ?_⟩ rfl⟩
    rw [← hsha256, ← hsame.2]
    rfl
  constructor
  · intro s element content mtime hopen hfile
    exact ⟨Client.sendFile_run settings hopen hfile, hcarry content⟩
  · intro s files hopen hfiles
    exact Client.resendAll_run hopen hfiles
  · intro s content rest handle tmpPath hincoming hholds
    obtain ⟨before, final, heq, hfinal, hbefore⟩ := (hcarry content).marked
    have hmessages := hdata content
    have hbytes := (hcarry content).bytes
    rw [heq] at hincoming hmessages hbytes
    rw [List.append_assoc, List.singleton_append] at hincoming
    obtain ⟨s', hrun, hs', hgrown⟩ := Server.receiveData_takes tmpPath hmessages
      hbefore hfinal hincoming (Grown.open hholds)
    rw [hbytes] at hgrown
    exact ⟨s', hincoming ▸ hrun, hs', hgrown.holds⟩
  · intro s s' before after element content rest hsame hincoming hrun
    have hinv := times_takes (fun files s =>
        (∀ file ∈ files, file.1.size = file.2.length ∧
          file.1.hash = settings.platform.sha256 file.2) ∧
        s.connection.incoming = files.flatMap
          (fun file => Client.fileMessages settings file.1 file.2) ++ rest)
      (p := Server.takeFile session) ?_ ⟨hsame, hincoming⟩ hrun
    · obtain ⟨hsame', hincoming'⟩ := hinv
      rw [List.flatMap_cons, List.append_assoc] at hincoming'
      exact hstored s' element content _ (hsame' _ List.mem_cons_self) hincoming'
    · rintro file files s _ s' ⟨hsame, hincoming⟩ hturn
      rw [List.flatMap_cons, List.append_assoc] at hincoming
      obtain ⟨s₁, hrecv, hends⟩ := hstored s file.1 file.2 _ (hsame _ List.mem_cons_self) hincoming
      rw [Server.takeFile, bind_of_returned hrecv] at hturn
      rw [hturn] at hends
      exact ⟨fun other hother => hsame other (List.mem_cons_of_mem file hother), hends.returned⟩

theorem downloads (hversion : retrieval.settings.protocolVersion = session.protocolVersion)
    (hsha256 : retrieval.settings.platform.sha256 = session.platform.sha256)
    (hsize : 0 < session.maxDataChunkSize) : Downloads session retrieval := by
  have hcarry : ∀ content, Carries ServerMessage.data ServerMessage.last
      session.maxDataChunkSize content (Server.dataMessages session content) :=
    Server.dataMessages_carry hsize
  have hdata : ∀ content, ∀ message ∈ Server.dataMessages session content,
      message.version = retrieval.settings.protocolVersion ∧ message.type = .DATA := by
    intro content message hmessage
    rw [hversion]
    exact Server.forall_mem_dataMessages content message hmessage
  have hstored : ∀ (s : Client.RetrievalState) (mac : Text) (element : DirectoryEntry)
      (content : List Byte) (rest : List ServerMessage),
      element.size = content.length ∧ element.hash = session.platform.sha256 content →
      Client.Expecting (Server.fileMessages session mac element content ++ rest) s →
        ∃ s₁, Client.onManager Client.recvMessage s =
            .returned (Server.storMessage session mac element) s₁ ∧
          Client.StoreEnds retrieval content (Server.dataMessages session content) rest
            (Client.storeFile retrieval (Server.storMessage session mac element) s₁) := by
    intro s mac element content rest hsame hs
    obtain ⟨s₁, hrecv, -, hs₁⟩ := Client.recvMessage_run hs
    refine ⟨s₁, hrecv,
      Client.storeFile_takes (hcarry content) (hdata content) ⟨hsame.1, ?_⟩ hs₁⟩
    rw [hsha256, ← hsame.2]
    rfl
  constructor
  · intro s mac element content hopen hretrievable
    exact ⟨Server.sendFile_run hopen hretrievable, hcarry content⟩
  · intro s files hopen hfiles
    exact Server.sendElements_run hopen hfiles
  · intro s content rest handle tmpPath hs hholds
    obtain ⟨before, final, heq, hfinal, hbefore⟩ := (hcarry content).marked
    have hmessages := hdata content
    have hbytes := (hcarry content).bytes
    rw [heq] at hs hmessages hbytes
    rw [List.append_assoc, List.singleton_append] at hs
    obtain ⟨s', hrun, hs', hgrown⟩ := Client.receiveData_takes tmpPath hmessages
      hbefore hfinal hs (Grown.open hholds)
    rw [hbytes] at hgrown
    exact ⟨s', hs.incoming ▸ hrun, hs', hgrown.holds⟩
  · intro s s' before after mac element content rest hsame hs hrun
    have hinv := times_takes (fun files s =>
        (∀ file ∈ files, file.1.2.size = file.2.length ∧
          file.1.2.hash = session.platform.sha256 file.2) ∧
        Client.Expecting (files.flatMap
          (fun file => Server.fileMessages session file.1.1 file.1.2 file.2) ++ rest) s)
      (p := Client.retrieveTurn retrieval) ?_ ⟨hsame, hs⟩ hrun
    · obtain ⟨hsame', hs'⟩ := hinv
      rw [List.flatMap_cons, List.append_assoc] at hs'
      exact hstored s' mac element content _ (hsame' _ List.mem_cons_self) hs'
    · rintro file files s value s' ⟨hsame, hs⟩ hturn
      rw [List.flatMap_cons, List.append_assoc] at hs
      obtain ⟨s₁, hrecv, hends⟩ :=
        hstored s file.1.1 file.1.2 file.2 _ (hsame _ List.mem_cons_self) hs
      have hsame' := fun other hother => hsame other (List.mem_cons_of_mem file hother)
      rw [Client.retrieveTurn, bind_of_returned hrecv, if_neg] at hturn
      · obtain ⟨_, s₂, hstore, hpure⟩ := bind_returned_iff.mp hturn
        simp only [pure_apply, Exit.returned.injEq] at hpure
        rw [hstore, hpure.2] at hends
        exact ⟨hsame', hends.returned⟩
      · exact not_not.mpr hversion

/-- Files pass from one side to the other in both directions, for every content, every
size of the blocks and every sequence of files. -/
theorem files_transferred
    (hversion : retrieval.settings.protocolVersion = session.protocolVersion)
    (hsha256 : retrieval.settings.platform.sha256 = session.platform.sha256)
    (hclient : 0 < retrieval.settings.maxDataChunkSize) (hserver : 0 < session.maxDataChunkSize) :
    Uploads retrieval.settings session ∧ Downloads session retrieval :=
  ⟨uploads hversion hsha256 hclient, downloads hversion hsha256 hserver⟩

/-- The client of the session that is an example. -/
def annaRetrieval : Client.Retrieval where
  settings :=
    { platform := Server.epochPlatform
      protocolVersion := 1
      pathToWatch := "/home".toList
      maxDataChunkSize := 15360 }
  destFolder := "/restored".toList
  tempNameSize := 8

theorem files_transferred_anna :
    Uploads annaRetrieval.settings Server.annaSession ∧
      Downloads Server.annaSession annaRetrieval :=
  files_transferred rfl rfl (by decide) (by decide)

end Transfers

end PdsBackup
