import PdsBackup.Client.Transfer
import PdsBackup.Client.Window
import PdsBackup.Common.Frames

/-!
# What a call adds to the stream

A call of `send` or `receive` that returns has written whole frames: a request that
comes alone, or a STOR and the messages of its file.
-/

namespace PdsBackup.Client

open Procedure

section Settings

variable {settings : Settings} {α β : Type}

/-- The routine writes nothing. -/
def Quiet (p : ClientProcedure α) : Prop :=
  ∀ written, Meets (fun s => s.connection.written = written) p
    (fun _ s => s.connection.written = written) fun _ _ => True

/-- A routine that returns has written frames. -/
def WritesFrames (settings : Settings) (p : ClientProcedure α) : Prop :=
  ∀ written, Meets (fun s => s.connection.written = written) p
    (fun _ s => ∃ requests stream, s.connection.written = written ++ stream ∧
      Framed settings.protocolVersion requests stream) fun _ _ => True

namespace Quiet

theorem pure (value : α) : Quiet (Pure.pure value) := fun _ => Meets.pure value fun _ hs => hs

theorem raise (exception : ClientException) : Quiet (Procedure.raise exception : ClientProcedure α) :=
  fun _ => Meets.raise exception fun _ _ => trivial

theorem read (f : ClientState → α) : Quiet (Procedure.read f) := fun _ =>
  Meets.read f fun _ hs => hs

theorem modify {f : ClientState → ClientState}
    (hf : ∀ s, (f s).connection.written = s.connection.written) : Quiet (Procedure.modify f) :=
  fun _ => Meets.modify f fun s hs => (hf s).trans hs

theorem orRaise (exception : ClientException) (value : Option α) :
    Quiet (Procedure.orRaise exception value) := fun _ =>
  Meets.orRaise exception value (fun _ _ _ hs => hs) fun _ _ _ => trivial

theorem bind {p : ClientProcedure α} {f : α → ClientProcedure β} (hp : Quiet p)
    (hf : ∀ value, Quiet (f value)) : Quiet (p >>= f) := fun written =>
  Meets.bind (hp written) fun value => hf value written

theorem ite {condition : Prop} [Decidable condition] {p q : ClientProcedure α} (hthen : Quiet p)
    (helse : Quiet q) : Quiet (if condition then p else q) := fun written =>
  Meets.ite (fun _ => hthen written) fun _ => helse written

theorem writesFrames {p : ClientProcedure α} (hp : Quiet p) : WritesFrames settings p := by
  intro written
  apply (hp written).consequence (fun _ hs => hs) _ fun _ _ _ => trivial
  intro _ s hs
  exact ⟨[], [], by rw [hs, List.append_nil], .nil⟩

theorem onDatabase (query : Query Unit) : Quiet (onDatabase query) := fun _ =>
  Meets.within (Meets.anything query) (fun _ _ => trivial) (fun _ _ _ hs _ => hs)
    fun _ _ _ _ _ => trivial

theorem operate (error : SocketError) : Quiet (operate error) :=
  bind (read _) fun _ => ite (raise _) (modify fun _ => rfl)

theorem recvMessage : Quiet recvMessage := by
  apply bind (operate .read)
  intro _
  apply bind (read _)
  intro incoming
  cases incoming with
  | nil => exact raise _
  | cons message incoming => exact bind (modify fun _ => rfl) fun _ => pure message

theorem note (add : History → History) : Quiet (note add) := modify fun _ => rfl

theorem pushWaiting (waiting : Waiting) : Quiet (pushWaiting waiting) :=
  bind (read _) fun _ => bind (note _) fun _ => modify fun _ => rfl

theorem frontWaiting : Quiet frontWaiting :=
  bind (read _) fun _ => bind (note _) fun _ => pure _

theorem popWaiting : Quiet popWaiting :=
  bind (read _) fun _ => bind (note _) fun _ => modify fun _ => rfl

theorem vanishedOrChanged (element : DirectoryEntry) :
    Quiet (vanishedOrChanged settings element) :=
  bind (read _) fun _ => ite (pure _) (bind (orRaise _ _) fun _ => pure _)

theorem saveConfirmed (event : Event) : Quiet (saveConfirmed event) := by
  unfold Client.saveConfirmed
  cases event.type with
  | notAStatus => exact pure ()
  | created | storeSent | modified | deleted => exact onDatabase _

theorem receiveOK (answer : Answer) : Quiet (receiveOK answer) := by
  have hsaved : Quiet (do
      Client.saveConfirmed answer.waiting.event
      Client.popWaiting
      depart answer.waiting (.answered answer)) :=
    bind (saveConfirmed _) fun _ => bind popWaiting fun _ => note _
  unfold Client.receiveOK
  split
  · exact hsaved
  · exact hsaved
  · exact hsaved
  · exact hsaved
  · exact raise _

theorem receiveERR (answer : Answer) : Quiet (receiveERR answer) := by
  have hpopped : Quiet (do
      Client.popWaiting
      depart answer.waiting (.answered answer)) := bind popWaiting fun _ => note _
  unfold Client.receiveERR
  split
  · exact hpopped
  · exact hpopped
  · exact hpopped
  · exact hpopped
  · exact hpopped
  · exact raise _
  · exact raise _

end Quiet

namespace WritesFrames

theorem after {p : ClientProcedure α} {f : α → ClientProcedure β} (hp : Quiet p)
    (hf : ∀ value, WritesFrames settings (f value)) : WritesFrames settings (p >>= f) :=
  fun written => Meets.bind (hp written) fun value => hf value written

theorem ite {condition : Prop} [Decidable condition] {p q : ClientProcedure α}
    (hthen : condition → WritesFrames settings p) (helse : ¬ condition → WritesFrames settings q) :
    WritesFrames settings (if condition then p else q) := fun written =>
  Meets.ite (fun hcondition => hthen hcondition written)
    fun hcondition => helse hcondition written

end WritesFrames

/-! ## Requests and files -/

/-- A routine that returns has written these messages. -/
def Writes (p : ClientProcedure α) (messages : List ClientMessage) : Prop :=
  ∀ written, Meets (fun s => s.connection.written = written) p
    (fun _ s => s.connection.written = written ++ messages) fun _ _ => True

theorem writes_sendClientMessage (message : ClientMessage) :
    Writes (sendClientMessage message) [message] := fun written =>
  Meets.bind (Quiet.operate .write written) fun _ =>
    Meets.modify _ fun _ hs => congrArg (· ++ [message]) hs

theorem Writes.append {p : ClientProcedure α} {f : α → ClientProcedure β}
    {messages others : List ClientMessage} (hp : Writes p messages)
    (hf : ∀ value, Writes (f value) others) : Writes (p >>= f) (messages ++ others) := by
  intro written
  apply Meets.bind (hp written)
  intro value
  rw [← List.append_assoc]
  exact hf value (written ++ messages)

variable (settings) in
theorem writes_sendBlocks (parts : List (List Byte)) :
    Writes (sendBlocks settings parts) (markLast (messageDATA settings) parts) := by
  fun_induction markLast (messageDATA settings) parts with
  | case1 => exact fun _ => Meets.pure () fun _ hs => hs.trans (List.append_nil _).symm
  | case2 block => exact writes_sendClientMessage _
  | case3 block next others ih =>
      rw [sendBlocks]
      · exact (writes_sendClientMessage _).append fun _ => ih
      · exact List.cons_ne_nil next others

theorem fileRun_markLast {parts : List (List Byte)} (hparts : parts ≠ []) :
    FileRun settings.protocolVersion (markLast (messageDATA settings) parts) := by
  constructor
  · exact forall_mem_markLast (fun _ _ => ⟨rfl, rfl⟩) parts
  · rw [← List.dropLast_append_getLast hparts, markLast_append]
    refine ⟨_, _, rfl, rfl, ?_⟩
    intro message hmessage
    obtain ⟨block, -, rfl⟩ := List.mem_map.mp hmessage
    rfl

theorem requestOf_eq_messageSTOR {event : Event} (hfile : event.element.isRegularFile = true)
    (htype : event.type = .storeSent) :
    requestOf settings event = some (messageSTOR settings event.element) := by
  rw [requestOf, hfile, if_pos rfl, htype]

theorem requestOf_type_ne_STOR {event : Event} {request : ClientMessage}
    (hrequest : requestOf settings event = some request) (htype : event.type ≠ .storeSent) :
    request.type ≠ .STOR := by
  rw [requestOf] at hrequest
  cases hfile : event.element.isRegularFile <;> cases hevent : event.type <;>
    simp only [hfile, hevent, if_true, Bool.false_eq_true, if_false, Option.some.injEq,
      reduceCtorEq] at hrequest
  all_goals first
    | exact absurd hevent htype
    | subst hrequest
      simp [messagePROB, messageDELE, messageMKD, messageRMD]

theorem requestOf_type_ne_DATA {event : Event} {request : ClientMessage}
    (hrequest : requestOf settings event = some request) : request.type ≠ .DATA := by
  have hrequested := isRequest_requestOf hrequest
  rwa [isRequest, decide_eq_true_eq] at hrequested

theorem composeMessage_writes {event : Event} {request : ClientMessage}
    (hrequest : requestOf settings event = some request) :
    Writes (composeMessage settings event) [request] := by
  rw [composeMessage, hrequest]
  intro written
  apply Meets.of_each
  intro s hs
  apply Meets.then_returned rfl
  exact (writes_sendClientMessage request written).at_state hs

/-- A file is sent, or there is none and the connection ends. -/
theorem sendFile_writes (element : DirectoryEntry) (written : List ClientMessage) :
    Meets (fun s => s.connection.written = written) (sendFile settings element)
      (fun _ s => ∃ messages, FileRun settings.protocolVersion messages ∧
        s.connection.written = written ++ messages) fun _ _ => True := by
  have hblocks : ∀ parts : List (List Byte), parts ≠ [] →
      Meets (fun s => s.connection.written = written) (sendBlocks settings parts)
        (fun _ s => ∃ messages, FileRun settings.protocolVersion messages ∧
          s.connection.written = written ++ messages) fun _ _ => True := by
    intro parts hparts
    apply (writes_sendBlocks settings parts written).consequence (fun _ hs => hs)
    · exact fun _ s hs => ⟨_, fileRun_markLast hparts, hs⟩
    · exact fun _ _ _ => trivial
  apply Meets.bind (Quiet.read _ written)
  intro status
  cases status with
  | none => exact Meets.raise _ fun _ _ => trivial
  | some node =>
      cases node with
      | file content mtime => exact hblocks _ (blocks_ne_nil _ _)
      | dir mtime => exact hblocks _ (List.cons_ne_nil _ _)

/-- The requests of a stream are those it is framed by. -/
theorem filter_isRequest_framed {requests stream : List ClientMessage}
    (hframed : Framed settings.protocolVersion requests stream) :
    stream.filter isRequest = requests := by
  induction hframed with
  | nil => rfl
  | @cons request messages requests stream hrequest hattached hrest ih =>
      have hmessages : messages.filter isRequest = [] := by
        apply List.filter_eq_nil_iff.mpr
        intro message hmessage
        simp [isRequest, hattached.data message hmessage]
      have hown : isRequest request = true := decide_eq_true hrequest
      rw [List.filter_cons_of_pos hown, List.filter_append, hmessages, ih]
      rfl

/-! ## The calls -/

theorem receiveSEND_writes (waiting : Waiting) (message : ServerMessage) :
    WritesFrames settings (receiveSEND settings waiting message) := by
  apply WritesFrames.ite
  · intro hwanted
    apply WritesFrames.after (Quiet.orRaise _ _)
    intro hash
    apply WritesFrames.ite
    · exact fun _ => (Quiet.raise _).writesFrames
    intro _
    apply WritesFrames.after Quiet.popWaiting
    intro _
    apply WritesFrames.after (Quiet.vanishedOrChanged _)
    intro skipped
    apply WritesFrames.ite
    · exact fun _ => (Quiet.bind (Quiet.read _) fun _ => Quiet.note _).writesFrames
    intro _ written
    have hrequest : requestOf settings { element := waiting.event.element, type := .storeSent } =
        some (messageSTOR settings waiting.event.element) :=
      requestOf_eq_messageSTOR hwanted.1 rfl
    apply Meets.bind (composeMessage_writes hrequest written)
    intro _
    apply Meets.bind (Quiet.pushWaiting _ _)
    intro _
    apply (sendFile_writes waiting.event.element _).consequence (fun _ hs => hs)
    · rintro _ s ⟨messages, hrun, hs⟩
      have hattached : Attached settings.protocolVersion
          (messageSTOR settings waiting.event.element) messages := hrun
      exact ⟨_, _, hs.trans (List.append_assoc _ _ _),
        framed_single (requestOf_type_ne_DATA hrequest) hattached⟩
    · exact fun _ _ _ => trivial
  · exact fun _ => (Quiet.raise _).writesFrames

theorem receive_writes : WritesFrames settings (receive settings) := by
  apply WritesFrames.after Quiet.recvMessage
  intro message
  apply WritesFrames.after Quiet.frontWaiting
  intro waiting
  apply WritesFrames.after (Quiet.read _)
  intro request
  apply WritesFrames.after (Quiet.note _)
  intro _
  apply WritesFrames.ite
  · exact fun _ => (Quiet.raise _).writesFrames
  intro _
  unfold dispatch
  cases message.type with
  | SEND => exact receiveSEND_writes _ _
  | OK => exact (Quiet.receiveOK _).writesFrames
  | ERR => exact (Quiet.receiveERR _).writesFrames
  | NOOP | VER | MKD | STOR | DATA | unknown => exact (Quiet.raise _).writesFrames

theorem send_writes {event : Event} (htype : event.type ≠ .storeSent) :
    WritesFrames settings (send settings event) := by
  apply WritesFrames.after (Quiet.read _)
  intro ring
  apply WritesFrames.ite
  · exact fun _ => (Quiet.pure _).writesFrames
  intro _
  apply WritesFrames.ite
  · exact fun _ => (Quiet.pure _).writesFrames
  intro _ written
  cases hrequest : requestOf settings event with
  | none =>
      rw [composeMessage, hrequest]
      apply Meets.of_each
      intro s _
      exact Meets.then_raised rfl trivial
  | some request =>
      apply Meets.bind (composeMessage_writes hrequest written)
      intro _
      have hpushed : Quiet (do
          let ticket ← read fun s => s.history.entered.length
          note (History.addEntered event)
          pushWaiting { event, ticket }
          pure true) :=
        Quiet.bind (Quiet.read _) fun _ => Quiet.bind (Quiet.note _) fun _ =>
          Quiet.bind (Quiet.pushWaiting _) fun _ => Quiet.pure _
      apply (hpushed _).consequence (fun _ hs => hs) _ fun _ _ hs => hs
      intro _ s hs
      have hattached : Attached settings.protocolVersion request [] := by
        rw [Attached, if_neg (requestOf_type_ne_STOR hrequest htype)]
      exact ⟨_, _, hs, framed_single (requestOf_type_ne_DATA hrequest) hattached⟩

end Settings

end PdsBackup.Client
