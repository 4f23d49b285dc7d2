import PdsBackup.Core.OpenFile
import PdsBackup.Server.Placement

/-!
# The temporary file of a transfer

A STOR writes to a new file in the temporary directory before it touches the
folder.  While the DATA messages come in, the tree differs from the one it
started with at that file only, and in the directories on the way to it when
they had to be made.
-/

namespace PdsBackup

open Procedure

/-- Outside of a file, and of the directories made on the way to it, nothing has
changed. -/
structure Aside (start : FileTree) (file : Path) (tree : FileTree) : Prop where
  node : ∀ other, ¬ other <:+ file → tree.node other = start.node other
  shape : ∀ other, other ≠ file → tree.shape other =
    if other <:+ file ∧ start.node other = none then some .dir else start.shape other

namespace Aside

variable {start tree : FileTree} {disk : Disk} {name : Text} {parent : Path}
variable {content : List Byte}

theorem suffix_parent {other : Path} (hne : other ≠ name :: parent) :
    other <:+ name :: parent ↔ other <:+ parent := by
  rw [List.suffix_cons_iff]
  exact or_iff_right hne

theorem refl (hdir : start.isDir parent = true) : Aside start (name :: parent) start where
  node _ _ := rfl
  shape other hother := by
    rw [if_neg]
    rintro ⟨habove, hnone⟩
    have hsome := start.isSome_of_suffix ((suffix_parent hother).mp habove)
      (start.isSome_of_isDir hdir)
    simp [hnone] at hsome

theorem of_made {disk' : Disk} (hmade : SystemCall.Made parent disk disk') :
    Aside disk.tree (name :: parent) disk'.tree where
  node other hother := hmade.node other fun h => hother (h.trans (List.suffix_cons _ _))
  shape other hother := by
    rw [hmade.shape]
    simp only [suffix_parent hother]

theorem writeFile (haside : Aside start (name :: parent) disk.tree) (hname : PlainName name)
    (hparent : disk.tree.isDir parent = true) (hfile : disk.tree.isDir (name :: parent) = false)
    (content : List Byte) :
    Aside start (name :: parent) (disk.writeFile (name :: parent) content).tree where
  node other hother := by
    have hne : other ≠ name :: parent := fun heq => hother (heq ▸ List.suffix_rfl)
    have hparent' : other ≠ parent := fun heq => hother (heq ▸ List.suffix_cons name parent)
    rw [disk.node_writeFile hname hparent hfile content hparent', if_neg hne, haside.node _ hother]
  shape other hother := by
    rw [disk.shape_writeFile hname hparent hfile, if_neg hother, haside.shape _ hother]

theorem setTime (haside : Aside start (name :: parent) disk.tree) (mtime : Int) :
    Aside start (name :: parent) (disk.setTime (name :: parent) mtime).tree where
  node other hother := by
    have hne : other ≠ name :: parent := fun heq => hother (heq ▸ List.suffix_rfl)
    rw [disk.node_setTime hne, haside.node _ hother]
  shape other hother := by
    rw [FileTree.shape, disk.node_setTime hother, ← FileTree.shape, haside.shape _ hother]

theorem unlink (haside : Aside start (name :: parent) disk.tree)
    (hholds : disk.tree.Holds (name :: parent) content) :
    Aside start (name :: parent) (disk.unlink (name :: parent)).tree := by
  obtain ⟨mtime, hfile⟩ := hholds
  have hnotDir : disk.tree.isDir (name :: parent) = false := by
    simp [FileTree.isDir, hfile]
  constructor
  · intro other hother
    have hne : other ≠ name :: parent := fun heq => hother (heq ▸ List.suffix_rfl)
    have hparent : other ≠ parent := fun heq => hother (heq ▸ List.suffix_cons name parent)
    rw [disk.node_unlink hparent, ← haside.node _ hother]
    by_cases hbelow : name :: parent <:+ other
    · rw [if_pos hbelow, disk.tree.node_below_of_not_isDir hnotDir hbelow hne]
    · rw [if_neg hbelow]
  · intro other hother
    rw [← haside.shape _ hother, disk.shape_unlink (by simp [hfile])]
    by_cases hbelow : name :: parent <:+ other
    · rw [if_pos hbelow, FileTree.shape,
        disk.tree.node_below_of_not_isDir hnotDir hbelow hother]
      rfl
    · rw [if_neg hbelow]

/-- A place with an object is a directory as it was before. -/
theorem isDir {other : Path} (haside : Aside start (name :: parent) tree)
    (hother : other ≠ name :: parent) (hdir : start.isDir other = true) :
    tree.isDir other = true := by
  have hshape := (start.isDir_iff_shape other).mp hdir
  rw [FileTree.isDir_iff_shape, haside.shape _ hother, hshape, ite_self]

/-- A file that stands in the way stood there before. -/
theorem blocked {file path : Path} (haside : Aside start file tree) (hoff : ¬ file <:+ path)
    (hblocked : SystemCall.Blocked path tree) : SystemCall.Blocked path start := by
  obtain ⟨other, content, mtime, hsuffix, hnode⟩ := hblocked
  have hne : other ≠ file := fun heq => hoff (heq ▸ hsuffix)
  rw [← FileTree.shape_file_iff, haside.shape _ hne] at hnode
  by_cases hmade : other <:+ file ∧ start.node other = none
  · simp [hmade] at hnode
  · rw [if_neg hmade, FileTree.shape_file_iff] at hnode
    exact ⟨other, content, mtime, hsuffix, hnode⟩

end Aside

namespace Server

variable {session : Session} {placement : Placement session} {start s : ServerState}

/-- The OK messages that were sent. -/
def ServerState.confirmed (s : ServerState) : List ServerMessage :=
  s.connection.outgoing.filter fun message => message.type = .OK

theorem ServerState.confirmed_sent {message : ServerMessage} (hmessage : message.type ≠ .OK) :
    (s.sent message).confirmed = s.confirmed := by
  simp [confirmed, sent, Connection.sent, hmessage]

theorem errMessage_ne_OK (code : ErrCode) : (errMessage session code).type ≠ .OK := by
  simp [errMessage]

/-- The rows and the elements are as they were, and no request was confirmed. -/
structure SameRecords (start s : ServerState) : Prop where
  database : s.database = start.database
  elements : s.elements = start.elements
  recovered : s.recovered = start.recovered
  confirmed : s.confirmed = start.confirmed

namespace SameRecords

theorem refl : SameRecords s s := ⟨rfl, rfl, rfl, rfl⟩

theorem trans {s' : ServerState} (h : SameRecords start s) (h' : SameRecords s s') :
    SameRecords start s' where
  database := h'.database.trans h.database
  elements := h'.elements.trans h.elements
  recovered := h'.recovered.trans h.recovered
  confirmed := h'.confirmed.trans h.confirmed

theorem withDisk (h : SameRecords start s) (disk : Disk) : SameRecords start (s.withDisk disk) :=
  h.trans ⟨rfl, rfl, rfl, rfl⟩

theorem sent (h : SameRecords start s) {message : ServerMessage} (hmessage : message.type ≠ .OK) :
    SameRecords start (s.sent message) :=
  h.trans ⟨rfl, rfl, rfl, ServerState.confirmed_sent hmessage⟩

theorem failed (h : SameRecords start s) (message : ServerMessage) :
    SameRecords start (s.failed message) := h.trans ⟨rfl, rfl, rfl, rfl⟩

end SameRecords

/-! ## Opening it -/

/-- The temporary directory is made when it is missing. -/
theorem makeTemporary_cases (placement : Placement session) (bytes : List Byte)
    (s : ServerState) :
    (∃ disk, when (!s.disk.present session.temporaryPath)
          (onDisk (SystemCall.createDirectories session.temporaryPath)) s =
            .returned () (s.withDisk disk) ∧
        ((disk.tree.isDir placement.temp = false ∧ disk = s.disk ∧
            SystemCall.Blocked placement.temp s.disk.tree) ∨
          (disk.tree.isDir placement.temp = true ∧
            Aside s.disk.tree (placement.tmpFile bytes) disk.tree ∧
            disk.tree.node (placement.tmpFile bytes) =
              s.disk.tree.node (placement.tmpFile bytes)))) ∨
      ∃ disk, when (!s.disk.present session.temporaryPath)
          (onDisk (SystemCall.createDirectories session.temporaryPath)) s =
            .raised .standard (s.withDisk disk) ∧
        (∀ other, ¬ other <:+ placement.tmpFile bytes →
          disk.tree.node other = s.disk.tree.node other) ∧
        disk.tree.node (placement.tmpFile bytes) = s.disk.tree.node (placement.tmpFile bytes) ∧
        (SystemCall.Blocked placement.temp s.disk.tree ∨ ¬ PathFits session.temporaryPath) := by
  have hstatus : s.disk.present session.temporaryPath =
      (s.disk.tree.node placement.temp).isSome := by
    rw [placement.temporaryPath_eq, Disk.present, Disk.status,
      s.disk.tree.status_render placement.temp_plain placement.temp_ne]
  rcases s.disk.tree.shape_cases placement.temp with hnone | ⟨content, mtime, hfile⟩ | hdir
  · rw [hstatus, hnone, placement.temporaryPath_eq]
    have hoff : ¬ placement.tmpFile bytes <:+ placement.temp := cons_not_suffix_self _ _
    rcases SystemCall.createDirectories_render placement.temp_plain placement.temp_ne s.disk with
      ⟨disk, hmake, hmade⟩ | ⟨hmake, hblocked⟩ | ⟨disk, hmake, hlong, middle, hmiddle, hmade⟩
    · exact .inl ⟨disk, onDisk_of_returned s hmake,
        .inr ⟨hmade.isDir_of_missing hnone, Aside.of_made hmade, hmade.node _ hoff⟩⟩
    · exact .inr ⟨s.disk, onDisk_of_raised s hmake, fun _ _ => rfl, rfl, .inl hblocked⟩
    · refine .inr ⟨disk, onDisk_of_raised s hmake, fun other hother => ?_, ?_, .inr hlong⟩
      · exact hmade.node other fun h => hother ((h.trans hmiddle).trans (List.suffix_cons _ _))
      · exact hmade.node _ fun h => hoff (h.trans hmiddle)
  · refine .inl ⟨s.disk, ?_, .inl ⟨by simp [FileTree.isDir, hfile], rfl,
      placement.temp, content, mtime, List.suffix_rfl, hfile⟩⟩
    rw [hstatus, hfile]
    rfl
  · refine .inl ⟨s.disk, ?_, .inr ⟨hdir, Aside.refl hdir, rfl⟩⟩
    rw [hstatus, s.disk.tree.isSome_of_isDir hdir]
    rfl

/-! ## The DATA messages -/

variable {file : Path} {content : List Byte} {incoming : List ClientMessage}

/-- While the DATA messages come in. -/
structure Receiving (start : ServerState) (file : Path) (content : List Byte)
    (incoming : List ClientMessage) (s : ServerState) : Prop where
  records : SameRecords start s
  connection : s.connection = { start.connection with incoming }
  aside : Aside start.disk.tree file s.disk.tree
  holds : s.disk.tree.Holds file content

/-- The request is given up; the temporary file may still be there. -/
structure Torn (start : ServerState) (file : Path) (s : ServerState) : Prop where
  records : SameRecords start s
  aside : Aside start.disk.tree file s.disk.tree
  file : s.disk.tree.node file = none ∨ ∃ content, s.disk.tree.Holds file content

/-- The request is given up, and nothing is left of its temporary file. -/
structure Rejected (start : ServerState) (file : Path) (s : ServerState) : Prop where
  records : SameRecords start s
  beside : ∀ other, ¬ other <:+ file → s.disk.tree.node other = start.disk.tree.node other
  file : s.disk.tree.node file = none ∨ s.disk.tree.node file = start.disk.tree.node file

namespace Rejected

theorem of_records (hrecords : SameRecords start s) (htree : s.disk.tree = start.disk.tree) :
    Rejected start file s := ⟨hrecords, fun _ _ => by rw [htree], .inr (by rw [htree])⟩

theorem sent (h : Rejected start file s) {message : ServerMessage}
    (hmessage : message.type ≠ .OK) : Rejected start file (s.sent message) :=
  ⟨h.records.sent hmessage, h.beside, h.file⟩

theorem failed (h : Rejected start file s) (message : ServerMessage) :
    Rejected start file (s.failed message) := ⟨h.records.failed message, h.beside, h.file⟩

end Rejected

/-- The payloads of a run of messages. -/
def payload (messages : List ClientMessage) : List Byte := messages.flatMap ClientMessage.data

/-- The temporary file goes, if it is there. -/
theorem remove_torn (hfile : PlainPath file) (hne : file ≠ []) (htorn : Torn start file s) :
    ∃ removed disk, onDisk (SystemCall.remove (render file)) s =
        .returned removed (s.withDisk disk) ∧ Aside start.disk.tree file disk.tree ∧
      disk.tree.node file = none := by
  obtain ⟨name, parent, rfl⟩ := List.exists_cons_of_ne_nil hne
  rcases htorn.file with hnone | ⟨content, hholds⟩
  · refine ⟨false, s.disk, onDisk_of_returned s ?_, htorn.aside, hnone⟩
    have hstatus : s.disk.tree.status (render (name :: parent)) = none := by
      rw [s.disk.tree.status_render hfile hne, hnone]
    rcases SystemCall.remove_cases (render (name :: parent)) s.disk with
      ⟨path, hresolve, hsome, -⟩ | ⟨hremove, -⟩ | ⟨errno, -, hdir⟩
    · rw [FileTree.status, hresolve, Option.bind_some] at hstatus
      simp [hstatus] at hsome
    · exact hremove
    · simp [Disk.isDirectory, Disk.status, hstatus] at hdir
  · obtain ⟨mtime, hnode⟩ := hholds
    exact ⟨true, _, onDisk_of_returned s (SystemCall.remove_render_file hfile hne hnode),
      htorn.aside.unlink ⟨mtime, hnode⟩, s.disk.node_unlink_self name parent⟩

theorem Receiving.torn (h : Receiving start file content incoming s) : Torn start file s :=
  ⟨h.records, h.aside, .inr ⟨content, h.holds⟩⟩

theorem Torn.sent (h : Torn start file s) {message : ServerMessage}
    (hmessage : message.type ≠ .OK) : Torn start file (s.sent message) :=
  ⟨h.records.sent hmessage, h.aside, h.file⟩

theorem Torn.failed (h : Torn start file s) (message : ServerMessage) :
    Torn start file (s.failed message) := ⟨h.records.failed message, h.aside, h.file⟩

/-- A run of DATA messages up to the one that is marked as the last. -/
def DataRun : List ClientMessage → Prop
  | [] => False
  | [message] => message.type = .DATA ∧ message.last = true
  | message :: messages => message.type = .DATA ∧ message.last = false ∧ DataRun messages

theorem DataRun.cons {message : ClientMessage} {messages : List ClientMessage}
    (htype : message.type = .DATA) (hlast : message.last = false) (hrun : DataRun messages) :
    DataRun (message :: messages) := by
  cases messages with
  | nil => exact hrun.elim
  | cons => exact ⟨htype, hlast, hrun⟩

theorem Receiving.next {message : ClientMessage}
    (h : Receiving start file content (message :: incoming) s) :
    Receiving start file content incoming (s.withIncoming incoming) where
  records := h.records.trans ⟨rfl, rfl, rfl, rfl⟩
  connection := by rw [ServerState.withIncoming, h.connection]
  aside := h.aside
  holds := h.holds

/-- A block is written at the end of the file. -/
theorem Receiving.append {name : Text} {parent : Path}
    (h : Receiving start (name :: parent) content incoming s) (hname : PlainName name)
    (data : List Byte) :
    ∃ s', onDisk (SystemCall.append (name :: parent) data) s = .returned () s' ∧
      Receiving start (name :: parent) (content ++ data) incoming s' := by
  obtain ⟨mtime, hnode⟩ := h.holds
  have hparent := s.disk.tree.isDir_parent h.holds.isSome
  have hnotDir := h.holds.not_isDir
  exact ⟨_, onDisk_of_returned s (SystemCall.append_of_file hnode data),
    h.records.withDisk _, h.connection, h.aside.writeFile hname hparent hnotDir _,
    FileTree.Holds.writeFile hname hparent hnotDir _⟩

/-- What ends a transfer early: the connection, or a message that is no DATA. -/
inductive Interrupts : ServerException → Prop where
  | socket (code : SocketError) : Interrupts (.socket code)
  | version : Interrupts (.protocolManager .version)
  | unexpected : Interrupts (.protocolManager .unexpected)

variable (session) in
theorem receiveData_ends {name : Text} {parent : Path} (hplain : PlainPath (name :: parent))
    (h : Receiving start (name :: parent) content incoming s) :
    (∃ taken rest s', incoming = taken ++ rest ∧ DataRun taken ∧
        receiveData session (name :: parent) (render (name :: parent)) incoming s =
          .returned () s' ∧
        Receiving start (name :: parent) (content ++ payload taken) rest s') ∨
      (∃ code s', receiveData session (name :: parent) (render (name :: parent)) incoming s =
          .raised (.socket code) s' ∧ Torn start (name :: parent) s') ∨
      ∃ exception s', receiveData session (name :: parent) (render (name :: parent)) incoming s =
          .raised exception s' ∧ (∀ code, exception ≠ .socket code) ∧ Interrupts exception ∧
        Rejected start (name :: parent) s' := by
  have hne : name :: parent ≠ [] := List.cons_ne_nil name parent
  induction incoming generalizing content s with
  | nil =>
      have hrecv : recvMessage s = .raised (.socket .closed) s := by
        simp [recvMessage, h.connection]
      exact .inr (.inl ⟨.closed, s, bind_of_raised hrecv, h.torn⟩)
  | cons message pending ih =>
      have hincoming : s.connection.incoming = message :: pending := by
        rw [h.connection]
      rw [receiveData, bind_of_returned (recvMessage_run _ hincoming)]
      have hnext := h.next
      generalize s.withIncoming pending = s₁ at hnext ⊢
      by_cases hversion : message.version ≠ session.protocolVersion
      · rw [if_pos hversion]
        rcases sendServerMessage_cases s₁ _ with hsend | hsend
        · have hmessage : (verMessage session).type ≠ .OK := by simp [verMessage]
          obtain ⟨removed, disk, hremove, haside, hgone⟩ :=
            remove_torn hplain hne (hnext.torn.sent hmessage)
          rw [sendVER, bind_of_returned hsend, bind_of_returned hremove]
          exact .inr (.inr ⟨_, _, rfl, by simp, .version,
            (hnext.records.sent hmessage).withDisk disk, haside.node, .inl hgone⟩)
        · exact .inr (.inl ⟨_, _, bind_of_raised hsend, hnext.torn.failed _⟩)
      · rw [if_neg hversion]
        by_cases htype : message.type ≠ .DATA
        · rw [if_pos htype]
          obtain ⟨removed, disk, hremove, haside, hgone⟩ := remove_torn hplain hne hnext.torn
          rw [bind_of_returned hremove]
          have hrejected : Rejected start (name :: parent) (s₁.withDisk disk) :=
            ⟨hnext.records.withDisk disk, haside.node, .inl hgone⟩
          have htorn : Torn start (name :: parent) (s₁.withDisk disk) :=
            ⟨hnext.records.withDisk disk, haside, .inl hgone⟩
          rcases refuse_cases session (s₁.withDisk disk) .unexpected
            (.protocolManager .unexpected) with hrefuse | hrefuse
          · exact .inr (.inr ⟨_, _, hrefuse, by simp, .unexpected,
              hrejected.sent (errMessage_ne_OK _)⟩)
          · exact .inr (.inl ⟨_, _, hrefuse, htorn.failed _⟩)
        · rw [if_neg htype]
          rw [not_not] at htype
          obtain ⟨s₂, happend, hwritten⟩ := hnext.append hplain.head message.data
          rw [bind_of_returned happend]
          cases hlast : message.last with
          | true =>
              refine .inl ⟨[message], pending, s₂, rfl, ⟨htype, hlast⟩, rfl, ?_⟩
              simpa [payload] using hwritten
          | false =>
              rcases ih hwritten with
                ⟨taken, rest, s', heq, htaken, hrun, hreceiving⟩ | hends
              · refine .inl ⟨message :: taken, rest, s', by rw [heq]; rfl,
                  DataRun.cons htype hlast htaken, hrun, ?_⟩
                simpa [payload] using hreceiving
              · exact .inr hends

/-- The loop with its catch clause. -/
theorem transfer_ends (hplain : PlainPath file) (hne : file ≠ [])
    (h : Receiving start file content incoming s) :
    (∃ taken rest s', incoming = taken ++ rest ∧ DataRun taken ∧
        catching (receiveData session file (render file) incoming)
            (removeOnSocketException (render file)) s = .returned () s' ∧
        Receiving start file (content ++ payload taken) rest s') ∨
      ∃ exception s', catching (receiveData session file (render file) incoming)
            (removeOnSocketException (render file)) s = .raised exception s' ∧
        Interrupts exception ∧ Rejected start file s' := by
  obtain ⟨name, parent, rfl⟩ := List.exists_cons_of_ne_nil hne
  rcases receiveData_ends session hplain h with
    ⟨taken, rest, s', heq, htaken, hrun, hreceiving⟩ | ⟨code, s', hrun, htorn⟩ |
      ⟨exception, s', hrun, hexception, hinterrupts, hrejected⟩
  · refine .inl ⟨taken, rest, s', heq, htaken, ?_, hreceiving⟩
    rw [catching_apply, hrun]
  · obtain ⟨removed, disk, hremove, haside, hgone⟩ := remove_torn hplain hne htorn
    refine .inr ⟨.socket code, s'.withDisk disk, ?_, .socket code, htorn.records.withDisk disk,
      haside.node, .inl hgone⟩
    rw [catching_apply, hrun]
    exact bind_of_returned hremove
  · refine .inr ⟨exception, s', ?_, hinterrupts, hrejected⟩
    rw [catching_apply, hrun]
    cases exception with
    | socket code => exact absurd rfl (hexception code)
    | _ => rfl

/-! ## Moving it into place -/

/-- The tree after a temporary file was moved to a path in the folder. -/
def Moved (placement : Placement session) (file : Path) (names : List Text)
    (content : List Byte) (mtime : Int) (tree tree' : FileTree) : Prop :=
  ∀ other, tree'.shape other =
    if other = file then none
    else if other = placement.inside names then some (.file content mtime)
    else if other <:+ placement.inside names.tail ∧ tree.node other = none then some .dir
    else tree.shape other

/-- What keeps a file from its place: a file in the way, a parent whose path
cannot be cut at the folder, a directory of that name, or the length of a name or
of the path. -/
def Hindered (placement : Placement session) (names : List Text) (tree : FileTree) : Prop :=
  SystemCall.Blocked (placement.inside names.tail) tree ∨
    (names.tail ≠ [] ∧ DirectoryEntry.relativePathOf session.userPath
      (session.userPath ++ render names.tail) = none) ∨
    tree.isDir (placement.inside names) = true ∨ ¬ PathFits (session.userPath ++ render names)

/-- The last steps of `moveIntoPlace`. -/
def moveInto (session : Session) (tmpPath target parent : Text) : ServerProcedure Unit := do
  let entry ← saveParent session parent
  onDisk (SystemCall.rename tmpPath target)
  resetParent session parent entry

theorem moveInto_ends {bytes : List Byte} {names : List Text} {name : Text} {mtime : Int}
    (hnames : PlainPath (name :: names))
    (hsome : (s.disk.tree.node (placement.inside names)).isSome = true)
    (hnode : s.disk.tree.node (placement.tmpFile bytes) = some (.file content mtime)) :
    (s.disk.tree.isDir (placement.inside names) = true ∧
      ∃ disk, moveInto session (render (placement.tmpFile bytes))
          (session.userPath ++ render (name :: names)) (session.userPath ++ render names) s =
            .returned () (s.withDisk disk) ∧
        ∀ other, disk.tree.shape other =
          if other = placement.tmpFile bytes then none
          else if other = placement.inside (name :: names) then some (.file content mtime)
          else s.disk.tree.shape other) ∨
    ((s.disk.tree.isDir (placement.inside names) = false ∨
        (names ≠ [] ∧ DirectoryEntry.relativePathOf session.userPath
          (session.userPath ++ render names) = none) ∨
        s.disk.tree.isDir (placement.inside (name :: names)) = true ∨
        ¬ PathFits (session.userPath ++ render (name :: names))) ∧
      ∃ s', moveInto session (render (placement.tmpFile bytes))
          (session.userPath ++ render (name :: names)) (session.userPath ++ render names) s =
            .raised .standard s') := by
  have htmp : PlainPath (placement.tmpFile bytes) := Placement.tmpFile_plain bytes
  have htmpNe : placement.tmpFile bytes ≠ [] := List.cons_ne_nil _ _
  have hplain : PlainPath (name :: placement.inside names) := Placement.inside_plain hnames
  have hbelow : placement.folder <:+ name :: placement.inside names :=
    Placement.folder_suffix_inside.trans (List.suffix_cons _ _)
  have htarget := Placement.tmpFile_ne hbelow bytes
  have hparentNe : placement.tmpFile bytes ≠ placement.inside names :=
    Placement.tmpFile_ne Placement.folder_suffix_inside bytes
  rw [moveInto]
  rcases Placement.saveParent_inside placement hnames.tail hsome with
    ⟨entry, hrun, hentry⟩ | ⟨hne, hnone, hrun⟩
  · rw [bind_of_returned hrun, placement.absolutePath_eq]
    by_cases hblocked : s.disk.tree.isDir (placement.inside names) = false ∨
        s.disk.tree.isDir (name :: placement.inside names) = true ∨
          ¬ PathFits (render (name :: placement.inside names))
    · refine .inr ⟨hblocked.imp_right .inr, ?_⟩
      obtain ⟨errno, hrename⟩ :=
        SystemCall.rename_render_raised htmp hplain hnode htmpNe hblocked
      exact ⟨_, bind_of_raised (onDisk_of_raised s hrename)⟩
    · simp only [not_or, Bool.not_eq_false, Bool.not_eq_true, not_not] at hblocked
      obtain ⟨hdir, hnotDir, hfits⟩ := hblocked
      have hrename := SystemCall.rename_render htmp hplain hnode htmpNe hdir hnotDir htarget hfits
      have hshape := s.disk.shape_move htmpNe hnode hplain.head hdir hnotDir htarget
      refine .inl ⟨hdir, ?_⟩
      have hdir' : (s.withDisk (s.disk.move (placement.tmpFile bytes)
          (name :: placement.inside names))).disk.tree.isDir (placement.inside names) = true := by
        rw [FileTree.isDir_iff_shape, ServerState.withDisk, hshape, if_neg hparentNe.symm,
          if_neg (List.cons_ne_self name _).symm, ← FileTree.isDir_iff_shape]
        exact hdir
      obtain ⟨disk, hreset, hsame, -⟩ :=
        Placement.resetParent_inside placement hnames.tail hdir' hentry
      refine ⟨disk, ?_, fun other => (hsame other).trans (hshape other)⟩
      exact (bind_of_returned (onDisk_of_returned s hrename)).trans hreset
  · exact .inr ⟨.inr (.inl ⟨hne, hnone⟩), _, bind_of_raised hrun⟩

variable (s) in
theorem moveIntoPlace_ends {bytes : List Byte} {names : List Text} {name : Text} {mtime : Int}
    {expected : DirectoryEntry} (hnames : PlainPath (name :: names))
    (hexpected : expected.absolutePath = session.userPath ++ render (name :: names))
    (hnode : s.disk.tree.node (placement.tmpFile bytes) = some (.file content mtime)) :
    (∃ disk, moveIntoPlace session (render (placement.tmpFile bytes)) expected s =
        .returned () (s.withDisk disk) ∧
      Moved placement (placement.tmpFile bytes) (name :: names) content mtime s.disk.tree
        disk.tree) ∨
    ∃ s', moveIntoPlace session (render (placement.tmpFile bytes)) expected s =
        .raised .standard s' ∧ Hindered placement (name :: names) s.disk.tree := by
  have hinside : PlainPath (placement.inside names) := Placement.inside_plain hnames.tail
  have hparentText : parentPath expected.absolutePath = session.userPath ++ render names := by
    rw [hexpected, placement.parentPath_inside hnames]
  have hpresent : s.disk.present (session.userPath ++ render names) =
      (s.disk.tree.node (placement.inside names)).isSome := by
    rw [Disk.present, Disk.status, placement.status_inside _ hnames.tail]
  have hrest : moveIntoPlace session (render (placement.tmpFile bytes)) expected s =
      (when (!(s.disk.tree.node (placement.inside names)).isSome)
          (onDisk (SystemCall.createDirectories (session.userPath ++ render names))) >>= fun _ =>
        moveInto session (render (placement.tmpFile bytes))
          (session.userPath ++ render (name :: names)) (session.userPath ++ render names)) s := by
    rw [moveIntoPlace, hparentText, read_bind_apply, hpresent, hexpected]
    rfl
  rw [hrest]
  cases hsome : (s.disk.tree.node (placement.inside names)).isSome with
  | true =>
      rw [Bool.not_true, when_false, pure_bind_apply]
      rcases moveInto_ends hnames hsome hnode with ⟨hdir, disk, hrun, hshape⟩ | ⟨hreason, s', hrun⟩
      · refine .inl ⟨disk, hrun, fun other => ?_⟩
        have hthere : ¬ (other <:+ placement.inside names ∧ s.disk.tree.node other = none) := by
          rintro ⟨hsuffix, hnone⟩
          have habove := s.disk.tree.isSome_of_suffix hsuffix hsome
          simp [hnone] at habove
        rw [hshape, List.tail_cons, if_neg hthere]
      · refine .inr ⟨s', hrun, hreason.imp_left fun hnotDir => ?_⟩
        rcases s.disk.tree.shape_cases (placement.inside names) with hnone | hfile | hdir
        · simp [hnone] at hsome
        · obtain ⟨old, oldTime, hfile⟩ := hfile
          exact ⟨_, old, oldTime, List.suffix_rfl, hfile⟩
        · simp [hdir] at hnotDir
  | false =>
      rw [Bool.not_false, when_true]
      have hnone : s.disk.tree.node (placement.inside names) = none := by simpa using hsome
      rcases SystemCall.createDirectories_render hinside Placement.inside_ne s.disk with
        ⟨disk, hmake, hmade⟩ | ⟨hmake, hblocked⟩ | ⟨disk, hmake, hlong, -⟩
      · rw [← placement.absolutePath_eq] at hmake
        have hdir := hmade.isDir_of_missing hnone
        have hnode' : (s.withDisk disk).disk.tree.node (placement.tmpFile bytes) =
            some (.file content mtime) := by
          rw [← hnode]
          exact hmade.node _ (Placement.tmpFile_not_suffix Placement.folder_suffix_inside bytes)
        have hbelow : ¬ placement.inside (name :: names) <:+ placement.inside names :=
          cons_not_suffix_self _ _
        rcases moveInto_ends hnames (disk.tree.isSome_of_isDir hdir) hnode' with
          ⟨-, disk', hrun, hshape⟩ | ⟨hreason, s', hrun⟩
        · refine .inl ⟨disk', (bind_of_returned (onDisk_of_returned s hmake)).trans hrun, ?_⟩
          intro other
          rw [hshape, List.tail_cons, ← hmade.shape]
          rfl
        · refine .inr ⟨s', (bind_of_returned (onDisk_of_returned s hmake)).trans hrun, ?_⟩
          rcases hreason with hnotDir | hparent | htarget | hlong
          · exact absurd (hdir.symm.trans hnotDir) (by simp)
          · exact .inr (.inl hparent)
          · refine .inr (.inr (.inl ?_))
            rwa [ServerState.withDisk, FileTree.isDir, hmade.node _ hbelow] at htarget
          · exact .inr (.inr (.inr hlong))
      · rw [← placement.absolutePath_eq] at hmake
        exact .inr ⟨_, bind_of_raised (onDisk_of_raised s hmake), .inl hblocked⟩
      · rw [← placement.absolutePath_eq] at hmake
        refine .inr ⟨_, bind_of_raised (onDisk_of_raised s hmake),
          .inr (.inr (.inr fun hfits => ?_))⟩
        rw [placement.absolutePath_eq] at hfits
        exact hlong (PathFits.of_append hfits)

/-- A file is hindered before the transfer as it is after it. -/
theorem Hindered.of_aside {tree tree' : FileTree} {bytes : List Byte} {names : List Text}
    (haside : Aside tree (placement.tmpFile bytes) tree')
    (hhindered : Hindered placement names tree') : Hindered placement names tree := by
  rcases hhindered with hblocked | hparent | htarget | hlong
  · exact .inl (haside.blocked
      (Placement.tmpFile_not_suffix Placement.folder_suffix_inside bytes) hblocked)
  · exact .inr (.inl hparent)
  · refine .inr (.inr (.inl ?_))
    rwa [FileTree.isDir, haside.node _
      (Placement.not_suffix_tmpFile Placement.folder_suffix_inside bytes)] at htarget
  · exact .inr (.inr (.inr hlong))

/-- The state after a transfer, before its OK is sent. -/
structure Delivered (placement : Placement session) (start : ServerState) (bytes : List Byte)
    (names : List Text) (expected : DirectoryEntry) (content : List Byte)
    (rest : List ClientMessage) (s : ServerState) : Prop where
  shape : ∀ other, s.disk.tree.shape other =
    if other = placement.tmpFile bytes then none
    else if other = placement.inside names then
      some (.file content (session.platform.getTime expected.lastWriteTime))
    else if (other <:+ placement.inside names.tail ∨ other <:+ placement.tmpFile bytes) ∧
      start.disk.tree.node other = none then some .dir
    else start.disk.tree.shape other
  database : s.database = (start.tracked session expected.relativePath
    (start.elements.lookup expected.relativePath) expected).database
  elements : s.elements = (start.tracked session expected.relativePath
    (start.elements.lookup expected.relativePath) expected).elements
  recovered : s.recovered = start.recovered
  connection : s.connection = { start.connection with incoming := rest }
  size : content.length = expected.size
  hash : session.platform.sha256 content = expected.hash
  time : session.platform.putTime (session.platform.getTime expected.lastWriteTime) =
    expected.lastWriteTime

theorem Moved.of_aside {tree tree' tree'' : FileTree} {bytes : List Byte} {names : List Text}
    {mtime : Int} (haside : Aside tree (placement.tmpFile bytes) tree')
    (hmoved : Moved placement (placement.tmpFile bytes) names content mtime tree' tree'')
    (other : Path) :
    tree''.shape other =
      if other = placement.tmpFile bytes then none
      else if other = placement.inside names then some (.file content mtime)
      else if (other <:+ placement.inside names.tail ∨ other <:+ placement.tmpFile bytes) ∧
        tree.node other = none then some .dir
      else tree.shape other := by
  rw [hmoved]
  by_cases htmp : other = placement.tmpFile bytes
  · rw [if_pos htmp, if_pos htmp]
  · have hshape := haside.shape other htmp
    rw [if_neg htmp, if_neg htmp]
    by_cases hnone : tree.node other = none
    · have hold : tree.shape other = none := (tree.shape_eq_none_iff other).mpr hnone
      by_cases hway : other <:+ placement.tmpFile bytes
      · simp only [hway, hnone, true_and, if_true] at hshape
        have hnew : tree'.node other ≠ none := by
          rw [Ne, ← FileTree.shape_eq_none_iff, hshape]
          simp
        simp [hshape, hnew, hway, hnone]
      · simp only [hway, false_and, if_false] at hshape
        have hnew : tree'.node other = none := by
          rw [← FileTree.shape_eq_none_iff, hshape, hold]
        simp [hshape, hnew, hway, hnone]
    · simp only [hnone, and_false, if_false] at hshape
      have hnew : tree'.node other ≠ none := by
        rwa [Ne, ← FileTree.shape_eq_none_iff, hshape, FileTree.shape_eq_none_iff]
      simp [hshape, hnew, hnone]

theorem acceptFile_ends {bytes : List Byte} {names : List Text} {name : Text}
    (expected : DirectoryEntry) (hidle : start.database.inTransaction = false)
    (hnames : PlainPath (name :: names))
    (hexpected : expected.absolutePath = session.userPath ++ render (name :: names))
    (h : Receiving start (placement.tmpFile bytes) content incoming s) :
    (∃ s', Delivered placement start bytes (name :: names) expected content incoming s' ∧
      (acceptFile session (render (placement.tmpFile bytes)) expected s =
          .returned () (s'.sent (okMessage session .created)) ∨
        acceptFile session (render (placement.tmpFile bytes)) expected s =
          .raised (.socket .write) (s'.failed (okMessage session .created)))) ∨
    (∃ exception s', acceptFile session (render (placement.tmpFile bytes)) expected s =
        .raised exception s' ∧ Rejected start (placement.tmpFile bytes) s') ∨
    ∃ s', acceptFile session (render (placement.tmpFile bytes)) expected s =
        .raised .standard s' ∧
      (DirectoryEntry.relativePathOf session.temporaryPath
          (render (placement.tmpFile bytes)) = none ∨
        Hindered placement (name :: names) start.disk.tree) := by
  have htmp : PlainPath (placement.tmpFile bytes) := Placement.tmpFile_plain bytes
  have htmpNe : placement.tmpFile bytes ≠ [] := List.cons_ne_nil _ _
  obtain ⟨mtime, hnode⟩ := h.holds
  have hstatus : s.disk.tree.status (render (placement.tmpFile bytes)) =
      some (.file content mtime) := by
    rw [s.disk.tree.status_render htmp htmpNe, hnode]
  have hresolve : s.disk.tree.resolve (render (placement.tmpFile bytes)) =
      some (placement.tmpFile bytes) :=
    s.disk.tree.resolve_render_of_isDir htmp (s.disk.tree.isDir_parent h.holds.isSome)
  rw [acceptFile]
  rcases loadEntry_cases session s session.temporaryPath (render (placement.tmpFile bytes)) with
    ⟨newFile, hload, hrun⟩ | ⟨hload, hrun⟩
  · rw [bind_of_returned hrun]
    obtain ⟨-, habsolute, node, hstatus', hdescribes⟩ := DirectoryEntry.load_eq_some hload
    rw [hstatus, Option.some.injEq] at hstatus'
    subst hstatus'
    rcases setTimeToFile_cases session s newFile expected.lastWriteTime with
      ⟨place, node, hplace, -, hset⟩ | ⟨hnone, -⟩
    · rw [habsolute, hresolve, Option.some.injEq] at hplace
      subst hplace
      rw [bind_of_returned hset]
      have hnode₁ := h.holds.setTime (session.platform.getTime expected.lastWriteTime)
      have haside₁ : Aside start.disk.tree (placement.tmpFile bytes)
          (s.disk.setTime (placement.tmpFile bytes)
            (session.platform.getTime expected.lastWriteTime)).tree := h.aside.setTime _
      generalize s.disk.setTime (placement.tmpFile bytes)
        (session.platform.getTime expected.lastWriteTime) = disk₁ at hnode₁ haside₁ ⊢
      have hrecords₁ := h.records.withDisk disk₁
      by_cases hdiffer : newFile.size ≠ expected.size ∨ newFile.hash ≠ expected.hash ∨
          session.platform.putTime (session.platform.getTime expected.lastWriteTime) ≠
            expected.lastWriteTime
      · rw [if_pos hdiffer]
        have htorn : Torn start (placement.tmpFile bytes) (s.withDisk disk₁) :=
          ⟨hrecords₁, haside₁, .inr ⟨content, _, hnode₁⟩⟩
        obtain ⟨removed, disk, hremove, haside, hgone⟩ := remove_torn htmp htmpNe htorn
        rw [bind_of_returned hremove]
        have hrejected : Rejected start (placement.tmpFile bytes)
            ((s.withDisk disk₁).withDisk disk) :=
          ⟨hrecords₁.withDisk disk, haside.node, .inl hgone⟩
        rcases refuse_cases session ((s.withDisk disk₁).withDisk disk) .store clientError with
          hrefuse | hrefuse
        · exact .inr (.inl ⟨_, _, hrefuse, hrejected.sent (errMessage_ne_OK _)⟩)
        · exact .inr (.inl ⟨_, _, hrefuse, hrejected.failed _⟩)
      · rw [if_neg hdiffer]
        simp only [not_or, not_not] at hdiffer
        obtain ⟨hsize, hhash, htime⟩ := hdiffer
        have hsize' : content.length = expected.size := hdescribes.size.symm.trans hsize
        have hhash' : session.platform.sha256 content = expected.hash :=
          hdescribes.hash.symm.trans hhash
        rcases moveIntoPlace_ends (s.withDisk disk₁) hnames hexpected hnode₁ with
          ⟨disk, hmove, hmoved⟩ | ⟨s', hmove, hhindered⟩
        · rw [bind_of_returned hmove, read_bind_apply]
          let moved := (s.withDisk disk₁).withDisk disk
          have helements : moved.elements = start.elements := h.records.elements
          have hidle' : moved.database.inTransaction = false :=
            (congrArg Database.inTransaction h.records.database).trans hidle
          rcases track_cases session moved expected.relativePath
            (moved.elements.lookup expected.relativePath) expected with ⟨-, htrack⟩ | ⟨hopen, -⟩
          · rw [bind_of_returned htrack]
            refine .inl ⟨moved.tracked session expected.relativePath
              (moved.elements.lookup expected.relativePath) expected, ?_,
              sendServerMessage_cases _ _⟩
            rw [helements]
            exact
              { shape := fun other => by
                  rw [ServerState.tracked_disk]
                  exact hmoved.of_aside haside₁ other
                database := ServerState.tracked_database_congr _ _ _ _ h.records.database
                elements := ServerState.tracked_elements_congr _ _ _ _ helements
                recovered := by
                  rw [ServerState.tracked_recovered]
                  exact h.records.recovered
                connection := by
                  rw [ServerState.tracked_connection]
                  exact h.connection
                size := hsize'
                hash := hhash'
                time := htime }
          · rw [hidle'] at hopen
            exact absurd hopen (by simp)
        · exact .inr (.inr ⟨s', bind_of_raised hmove, .inr (hhindered.of_aside haside₁)⟩)
    · rw [habsolute] at hnone
      simp [hstatus] at hnone
  · refine .inr (.inr ⟨s, bind_of_raised hrun, .inl ?_⟩)
    by_contra hrelative
    have hloads : ∃ entry, DirectoryEntry.load session.platform session.temporaryPath
        (render (placement.tmpFile bytes)) s.disk.tree = some entry :=
      DirectoryEntry.load_isSome (Option.isSome_iff_ne_none.mpr hrelative) (by simp [hstatus])
    obtain ⟨entry, hentry⟩ := hloads
    simp [hload] at hentry

/-! ## STOR -/

/-- The entry a STOR asks for. -/
def requested (session : Session) (message : ClientMessage) (path : Text) (h : Hash) :
    DirectoryEntry :=
  DirectoryEntry.make session.userPath path message.fileSize "file".toList
    message.lastWriteTime h

/-- The bytes the next temporary file is named by. -/
def tmpBytes (session : Session) (s : ServerState) : List Byte :=
  (List.range session.tempNameSize).map s.random

/-- A STOR went through to the state before its OK. -/
structure Stored (placement : Placement session) (start : ServerState) (message : ClientMessage)
    (names : List Text) (taken : List ClientMessage) (s : ServerState) : Prop where
  path : Validator.validatePath message.path = some (render names)
  run : DataRun taken
  delivered : ∃ h rest, Hash.ofBytes message.hash = some h ∧
    start.connection.incoming = taken ++ rest ∧
    Delivered placement start (tmpBytes session start) names
      (requested session message (render names) h) (payload taken) rest s

/-- Something keeps a STOR from its end when its transfer is complete. -/
def Stuck (placement : Placement session) (start : ServerState) (names : List Text) : Prop :=
  DirectoryEntry.relativePathOf session.temporaryPath
      (render (placement.tmpFile (tmpBytes session start))) = none ∨
    Hindered placement names start.disk.tree

theorem storeFile_ends (placement : Placement session) {message : ClientMessage}
    (hrecovered : start.recovered = true) (hidle : start.database.inTransaction = false)
    (hcanonical : ∀ path, Validator.validatePath message.path = some path → Canonical path) :
    (∃ names taken s', names ≠ [] ∧ PlainPath names ∧
        Stored placement start message names taken s' ∧
        (storeFile session message start = .returned () (s'.sent (okMessage session .created)) ∨
          storeFile session message start =
            .raised (.socket .write) (s'.failed (okMessage session .created)))) ∨
      (∃ exception s', storeFile session message start = .raised exception s' ∧
        Rejected start (placement.tmpFile (tmpBytes session start)) s') ∨
      ∃ names s', PlainPath names ∧ storeFile session message start = .raised .standard s' ∧
        Validator.validatePath message.path = some (render names) ∧
        Stuck placement start names := by
  rw [storeFile, bind_of_returned (recoverIfNeeded_of_recovered session start hrecovered)]
  cases hhash : Hash.ofBytes message.hash with
  | none => exact .inr (.inl ⟨_, start, rfl, .of_records .refl rfl⟩)
  | some h =>
  cases hpath : Validator.validatePath message.path with
  | none => exact .inr (.inl ⟨_, start, rfl, .of_records .refl rfl⟩)
  | some path =>
  cases htime : Validator.validateLastWriteTime message.lastWriteTime with
  | false => exact .inr (.inl ⟨_, start, rfl, .of_records .refl rfl⟩)
  | true =>
  obtain ⟨names, hne, hnames, rfl⟩ := (canonical_iff path).mp (hcanonical path hpath)
  obtain ⟨name, names, rfl⟩ := List.exists_cons_of_ne_nil hne
  rw [orRaise_some, orRaise_some, ensure_true, pure_bind_apply, pure_bind_apply, pure_bind_apply,
    bind_of_returned (getHexString_run start session.tempNameSize), placement.tmpPath_eq]
  have hplain : PlainPath (placement.tmpFile (tmpBytes session start)) :=
    Placement.tmpFile_plain _
  have hbytes : (List.range session.tempNameSize).map start.random = tmpBytes session start := rfl
  rw [hbytes]
  have hrecords : SameRecords start
      { start with random := fun index => start.random (index + session.tempNameSize) } :=
    ⟨rfl, rfl, rfl, rfl⟩
  have hdisk : { start with
      random := fun index => start.random (index + session.tempNameSize) }.disk = start.disk := rfl
  have hconnection : { start with
      random := fun index => start.random (index + session.tempNameSize) }.connection =
        start.connection := rfl
  generalize { start with
    random := fun index => start.random (index + session.tempNameSize) } = s₁
    at hrecords hdisk hconnection ⊢
  rw [read_bind_apply]
  rcases makeTemporary_cases placement (tmpBytes session start) s₁ with
    ⟨disk, hmake, htemp⟩ | ⟨disk, hmake, hbeside, hfile, -⟩
  · rw [bind_of_returned hmake]
    rw [hdisk] at htemp
    have hrecords' := hrecords.withDisk disk
    have hopens : SystemCall.openTruncated (render (placement.tmpFile (tmpBytes session start)))
          disk = .returned none disk ∨
        disk.tree.isDir placement.temp = true ∧
          disk.tree.isDir (placement.tmpFile (tmpBytes session start)) = false ∧
          SystemCall.openTruncated (render (placement.tmpFile (tmpBytes session start))) disk =
            .returned (some (placement.tmpFile (tmpBytes session start)))
              (disk.writeFile (placement.tmpFile (tmpBytes session start)) []) :=
      SystemCall.openTruncated_render_cases hplain disk
    rcases hopens with hopen | ⟨hdir, hnotDir, hopen⟩
    · rw [bind_of_returned (onDisk_of_returned (s₁.withDisk disk) hopen)]
      have hrejected : Rejected start (placement.tmpFile (tmpBytes session start))
          ((s₁.withDisk disk).withDisk disk) := by
        rcases htemp with ⟨-, hsame, -⟩ | ⟨-, haside, hfile⟩
        · exact .of_records (hrecords'.withDisk disk) (congrArg Disk.tree hsame)
        · exact ⟨hrecords'.withDisk disk, haside.node, .inr hfile⟩
      rcases refuse_cases session ((s₁.withDisk disk).withDisk disk) .exception internalError with
        hrefuse | hrefuse
      · exact .inr (.inl ⟨_, _, hrefuse, hrejected.sent (errMessage_ne_OK _)⟩)
      · exact .inr (.inl ⟨_, _, hrefuse, hrejected.failed _⟩)
    · have haside := (htemp.resolve_left fun h => by simp [h.1] at hdir).2.1
      rw [bind_of_returned (onDisk_of_returned (s₁.withDisk disk) hopen)]
      dsimp only
      rw [read_bind_apply]
      have hreceiving : Receiving start (placement.tmpFile (tmpBytes session start)) []
          start.connection.incoming ((s₁.withDisk disk).withDisk
            (disk.writeFile (placement.tmpFile (tmpBytes session start)) [])) :=
        ⟨hrecords'.withDisk _, hconnection, haside.writeFile hplain.head hdir hnotDir [],
          FileTree.Holds.writeFile hplain.head hdir hnotDir []⟩
      have hincoming : ((s₁.withDisk disk).withDisk (disk.writeFile
          (placement.tmpFile (tmpBytes session start)) [])).connection.incoming =
            start.connection.incoming := congrArg Connection.incoming hconnection
      rw [hincoming]
      rcases transfer_ends hplain (List.cons_ne_nil _ _) hreceiving with
        ⟨taken, rest, s', heq, htaken, hrun, hreceived⟩ | ⟨exception, s', hrun, -, hrejected⟩
      · rw [bind_of_returned hrun]
        rcases acceptFile_ends (requested session message (render (name :: names)) h)
          hidle hnames rfl hreceived with
            ⟨s'', hdelivered, hends⟩ | hrejected | ⟨s'', hraised, hstuck⟩
        · exact .inl ⟨name :: names, taken, s'', hne, hnames,
            ⟨hpath, htaken, h, rest, hhash, heq, hdelivered⟩, hends⟩
        · exact .inr (.inl hrejected)
        · exact .inr (.inr ⟨name :: names, s'', hnames, hraised, rfl, hstuck⟩)
      · exact .inr (.inl ⟨exception, s', bind_of_raised hrun, hrejected⟩)
  · rw [hdisk] at hbeside hfile
    exact .inr (.inl ⟨_, _, bind_of_raised hmake, hrecords.withDisk disk, hbeside, .inr hfile⟩)

end Server

end PdsBackup
