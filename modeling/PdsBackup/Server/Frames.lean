import PdsBackup.Common.Frames
import PdsBackup.Common.Operations
import PdsBackup.Server.Calls
import PdsBackup.Server.Files

/-!
# What a call takes of the stream

A call that returns has taken its request and, if that is a STOR, the messages of the
file: what is left of the stream begins with the next request.
-/

namespace PdsBackup.Server

open Procedure

variable {session : Session} {message : ClientMessage} {incoming rest : List ClientMessage}

section Keeps

theorem refuse_keeps {α : Type} (code : ErrCode) (exception : ServerException) :
    Keeps (Expecting incoming) (refuse session code exception : ServerProcedure α) :=
  Keeps.bind (sendServerMessage_keeps _) fun _ => Keeps.raise _

theorem forget_keeps (path : Text) : Keeps (Expecting incoming) (forget session path) :=
  Keeps.bind (expecting_unrecorded.onDatabase _) fun _ => Keeps.modify _ fun _ hs => hs

theorem forgetAll_keeps (entries : List DirectoryEntry) :
    Keeps (Expecting incoming) (forgetAll session entries) := by
  induction entries with
  | nil => exact Keeps.pure ()
  | cons entry entries ih => exact Keeps.bind (forget_keeps _) fun _ => ih

theorem saveParent_keeps (parent : Text) :
    Keeps (Expecting incoming) (saveParent session parent) :=
  Keeps.ite (fun _ => loadEntry_keeps _ _) fun _ => Keeps.pure _

theorem resetParent_keeps (parent : Text) (entry : DirectoryEntry) :
    Keeps (Expecting incoming) (resetParent session parent entry) :=
  Keeps.when _ fun _ => Keeps.bind (onDisk_keeps _) fun _ => Keeps.pure _

theorem probe_keeps : Keeps (Expecting incoming) (probe session message) := by
  apply Keeps.bind expecting_unrecorded.recoverIfNeeded
  intro _
  apply Keeps.bind (Keeps.orRaise _ _)
  intro hash
  apply Keeps.bind (Keeps.orRaise _ _)
  intro path
  apply Keeps.bind (Keeps.ensure _ _)
  intro _
  apply Keeps.bind (Keeps.read _)
  intro el
  cases el with
  | none => exact sendServerMessage_keeps _
  | some el =>
      apply Keeps.ite fun _ => refuse_keeps _ _
      intro _
      apply Keeps.ite fun _ => sendServerMessage_keeps _
      intro _
      apply Keeps.ite
      · intro _
        apply Keeps.bind (onDisk_keeps _)
        intro el
        apply Keeps.bind
        · exact Keeps.modify _ fun _ hs => hs
        · exact fun _ => sendServerMessage_keeps _
      · exact fun _ => sendServerMessage_keeps _

theorem removeFile_keeps : Keeps (Expecting incoming) (removeFile session message) := by
  apply Keeps.bind expecting_unrecorded.recoverIfNeeded
  intro _
  apply Keeps.bind (Keeps.orRaise _ _)
  intro hash
  apply Keeps.bind (Keeps.orRaise _ _)
  intro path
  apply Keeps.bind (Keeps.read _)
  intro el
  cases el with
  | none => exact sendServerMessage_keeps _
  | some el =>
      apply Keeps.bind (Keeps.read _)
      intro elExists
      apply Keeps.ite
      · exact fun _ => Keeps.bind (forget_keeps _) fun _ => sendServerMessage_keeps _
      intro _
      apply Keeps.ite fun _ => refuse_keeps _ _
      intro _
      apply Keeps.bind (saveParent_keeps _)
      intro entry
      apply Keeps.bind (onDisk_keeps _)
      intro removed
      apply Keeps.ite fun _ => Keeps.raise _
      intro _
      apply Keeps.bind (resetParent_keeps _ _)
      intro _
      exact Keeps.bind (forget_keeps _) fun _ => sendServerMessage_keeps _

theorem makeDir_keeps : Keeps (Expecting incoming) (makeDir session message) := by
  apply Keeps.bind expecting_unrecorded.recoverIfNeeded
  intro _
  apply Keeps.bind (Keeps.orRaise _ _)
  intro path
  apply Keeps.bind (Keeps.ensure _ _)
  intro _
  apply Keeps.bind (Keeps.read _)
  intro el
  apply Keeps.bind (Keeps.read _)
  intro upToDate
  apply Keeps.ite fun _ => sendServerMessage_keeps _
  intro _
  apply Keeps.bind (Keeps.read _)
  intro parentExists
  apply Keeps.bind (Keeps.ite (fun _ => saveParent_keeps _) fun _ => Keeps.pure _)
  intro entry
  apply Keeps.bind (Keeps.read _)
  intro dirExists
  apply Keeps.bind (Keeps.when _ fun _ => onDisk_keeps _)
  intro _
  apply Keeps.bind (Keeps.read _)
  intro isDirectory
  apply Keeps.ite fun _ => refuse_keeps _ _
  intro _
  apply Keeps.bind (loadEntry_keeps _ _)
  intro newDir
  apply Keeps.bind (onDisk_keeps _)
  intro newDir
  apply Keeps.bind (Keeps.when _ fun _ => resetParent_keeps _ _)
  intro _
  exact Keeps.bind (track_keeps _ _ _) fun _ => sendServerMessage_keeps _

theorem removeDir_keeps : Keeps (Expecting incoming) (removeDir session message) := by
  apply Keeps.bind expecting_unrecorded.recoverIfNeeded
  intro _
  apply Keeps.bind (Keeps.orRaise _ _)
  intro path
  apply Keeps.bind (Keeps.read _)
  intro el
  cases el with
  | none => exact sendServerMessage_keeps _
  | some el =>
      apply Keeps.bind (Keeps.read _)
      intro elExists
      apply Keeps.ite
      · exact fun _ => Keeps.bind (forget_keeps _) fun _ => sendServerMessage_keeps _
      intro _
      apply Keeps.ite fun _ => refuse_keeps _ _
      intro _
      apply Keeps.bind (saveParent_keeps _)
      intro entry
      apply Keeps.bind (onDisk_keeps _)
      intro paths
      apply Keeps.bind (Keeps.read _)
      intro disk
      apply Keeps.bind (Keeps.orRaise _ _)
      intro elementsToRemove
      apply Keeps.bind (onDisk_keeps _)
      intro count
      apply Keeps.ite fun _ => Keeps.raise _
      intro _
      apply Keeps.bind (forgetAll_keeps _)
      intro _
      apply Keeps.bind (forget_keeps _)
      intro _
      exact Keeps.bind (resetParent_keeps _ _) fun _ => sendServerMessage_keeps _

/-- A request that comes with no other message takes none. -/
theorem dispatch_keeps (htype : message.type = .PROB ∨ message.type = .DELE ∨
    message.type = .MKD ∨ message.type = .RMD) :
    Keeps (Expecting incoming) (dispatch session message) := by
  unfold dispatch
  rcases htype with htype | htype | htype | htype
  · rw [htype]
    exact probe_keeps
  · rw [htype]
    exact removeFile_keeps
  · rw [htype]
    exact makeDir_keeps
  · rw [htype]
    exact removeDir_keeps

end Keeps

/-! ## STOR -/

/-- The routine sends nothing and leaves the stream alone; an exception ends the session. -/
theorem Silent.leaves {α : Type} {p : ServerProcedure α} (hsilent : Silent p)
    (hkeeps : Keeps (Expecting incoming) p) :
    Meets (Expecting incoming) p (fun _ => Expecting incoming)
      fun exception _ => ¬ Skipped exception :=
  (Meets.and hkeeps hsilent.not_skipped).consequence (fun _ hs => ⟨hs, trivial⟩)
    (fun _ _ hs => hs.1) fun _ _ hs => hs.2

/-- What is done before a file is received. -/
theorem storing {α β : Type} {p : ServerProcedure α} {f : α → ServerProcedure β}
    {post : ServerState → Prop} (hsilent : Silent p) (hkeeps : Keeps (Expecting incoming) p)
    (hf : ∀ value, Meets (Expecting incoming) (f value) (fun _ => post)
      fun exception s => Skipped exception → post s) :
    Meets (Expecting incoming) (p >>= f) (fun _ => post)
      fun exception s => Skipped exception → post s :=
  Meets.chain (hsilent.leaves hkeeps) (fun _ _ hs hskipped => absurd hskipped hs) hf

/-- A check that succeeds. -/
theorem passing {α β : Type} {p : ServerProcedure α} {f : α → ServerProcedure β} {value : α}
    {pre : ServerState → Prop} {post : β → ServerState → Prop}
    {err : ServerException → ServerState → Prop} (hrun : ∀ s, p s = .returned value s)
    (hf : Meets pre (f value) post err) : Meets pre (p >>= f) post err :=
  Meets.of_each fun s hs => Meets.then_returned (hrun s) (hf.at_state hs)

/-- A STOR whose fields are accepted takes the messages of its file. -/
theorem storeFile_takesRun {messages : List ClientMessage}
    (hrun : FileRun session.protocolVersion messages) (htype : message.type = .STOR)
    (haccepted : Accepted message) :
    Meets (Expecting (messages ++ rest)) (storeFile session message) (fun _ => Expecting rest)
      fun exception s => Skipped exception → Expecting rest s := by
  obtain ⟨before, final, rfl, hfinal, hbefore⟩ := hrun.marked
  simp only [Accepted, htype] at haccepted
  obtain ⟨path, hpath⟩ := Option.isSome_iff_exists.mp haccepted.1
  apply storing (Silent.recoverIfNeeded session) expecting_unrecorded.recoverIfNeeded
  intro _
  apply storing (Silent.orRaise (by decide) _) (Keeps.orRaise _ _)
  intro hash
  rw [hpath]
  apply passing fun _ => rfl
  rw [haccepted.2]
  apply passing fun _ => rfl
  apply storing (Silent.getHexString _) (getHexString_keeps _)
  intro name
  apply storing (Silent.read _) (Keeps.read _)
  intro tmpPathExists
  apply storing (Silent.when _ (Silent.onDisk _)) (Keeps.when _ fun _ => onDisk_keeps _)
  intro _
  generalize session.temporaryPath ++ '/' :: name ++ ".tmp".toList = tmpPath
  apply Meets.of_each
  intro s hs
  rcases SystemCall.openTruncated_cases tmpPath s.disk with
    hnone | ⟨handle, disk, hopen, hresolve, hgrown⟩
  · apply Meets.then_returned (onDisk_of_returned s hnone)
    cases refuse_cases (α := Unit) session s .exception internalError with
    | inl hrun => exact Meets.ends_raised hrun fun hskipped => absurd hskipped (by decide)
    | inr hrun => exact Meets.ends_raised hrun fun hskipped => absurd hskipped (by decide)
  · apply Meets.then_returned (onDisk_of_returned s hopen)
    rw [Expecting, List.append_assoc, List.singleton_append] at hs
    obtain ⟨s', hreceive, hs', -⟩ := receiveData_takes tmpPath
      (s := s.withDisk disk) hrun.data hbefore hfinal hs hgrown
    have hcaught : catching (receiveData session handle tmpPath (before ++ final :: rest))
        (removeOnSocketException tmpPath) (s.withDisk disk) = .returned () s' := by
      rw [catching_apply, hreceive]
    have hincoming : (s.withDisk disk).connection.incoming = before ++ final :: rest := hs
    apply Meets.then_returned (read_apply (fun s => s.connection.incoming) (s.withDisk disk))
    rw [hincoming]
    apply Meets.then_returned hcaught
    have hkept : Keeps (Expecting rest) (acceptFile session tmpPath (DirectoryEntry.make
        session.userPath path message.fileSize "file".toList message.lastWriteTime hash)) :=
      acceptFile_keeps session tmpPath _
    exact (hkept.at_state hs').consequence (fun _ hs => hs) (fun _ _ hs => hs)
      fun _ _ hs _ => hs

/-- A call that returns has taken a frame. -/
theorem receive_takes {s s' : ServerState} {messages : List ClientMessage}
    (hincoming : s.connection.incoming = message :: (messages ++ rest))
    (hattached : Attached session.protocolVersion message messages) (haccepted : Accepted message)
    (hoperation : message.operation.isSome = true)
    (hreceive : receive session s = .returned () s') : s'.connection.incoming = rest := by
  have hread : Expecting (messages ++ rest) (s.withIncoming (messages ++ rest)) := rfl
  by_cases hstor : message.type = .STOR
  · rw [Attached, if_pos hstor] at hattached
    have htakes : Meets (Expecting (messages ++ rest)) (dispatch session message)
        (fun _ => Expecting rest) fun exception s => Skipped exception → Expecting rest s := by
      unfold dispatch
      rw [hstor]
      exact storeFile_takesRun hattached hstor haccepted
    exact receive_returns hincoming (htakes.at_state hread) hreceive
  · rw [Attached, if_neg hstor] at hattached
    subst hattached
    have htype : message.type = .PROB ∨ message.type = .DELE ∨ message.type = .MKD ∨
        message.type = .RMD := by
      unfold ClientMessage.operation at hoperation
      cases htype : message.type <;> simp_all
    have hkeeps : Keeps (Expecting rest) (dispatch session message) := dispatch_keeps htype
    apply receive_returns hincoming _ hreceive
    exact (hkeeps.at_state hread).consequence (fun _ hs => hs) (fun _ _ hs => hs)
      fun _ _ hs _ => hs

end PdsBackup.Server
