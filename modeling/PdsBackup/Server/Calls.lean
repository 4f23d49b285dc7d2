import PdsBackup.Server.Answers
import PdsBackup.Server.Steps

/-!
# Between two calls

A call that keeps the connection leaves no transaction open and no message
undelivered, and a session that has recovered stays so.  The rows are read in a
transaction of their own, during which only an exception that ends the session
can be thrown.
-/

namespace PdsBackup.Server

open Procedure

variable {known : Prop}

/-- Every message that was to be sent was sent.  The session has recovered, if
that is known. -/
structure Delivering (known : Prop) (s : ServerState) : Prop where
  delivered : s.connection.undelivered = none
  recovered : known → s.recovered = true

/-- The state a session is in between two calls. -/
structure Settled (known : Prop) (s : ServerState) : Prop extends Delivering known s where
  idle : s.database.inTransaction = false

/-- The routine leaves a settled session settled, unless the connection ends. -/
def Settles {α : Type} (known : Prop) (p : ServerProcedure α) : Prop :=
  Meets (Settled known) p (fun _ => Settled known)
    fun exception s => Skipped exception → Settled known s

/-- The same of a routine that runs while a transaction is open. -/
def Collects {α : Type} (known : Prop) (p : ServerProcedure α) : Prop :=
  Meets (Delivering known) p (fun _ => Delivering known) fun exception _ => ¬ Skipped exception

namespace Collects

variable {α β : Type}

theorem pure (value : α) : Collects known (Pure.pure value) := Meets.pure value fun _ hs => hs

theorem read (f : ServerState → α) : Collects known (Procedure.read f) := Meets.read f fun _ hs => hs

theorem orRaise (value : Option α) : Collects known (Procedure.orRaise .standard value) :=
  Meets.orRaise _ value (fun _ _ _ hs => hs) fun _ _ _ => by decide

theorem bind {p : ServerProcedure α} {f : α → ServerProcedure β} (hp : Collects known p)
    (hf : ∀ value, Collects known (f value)) : Collects known (p >>= f) := Meets.bind hp hf

theorem ite {condition : Prop} [Decidable condition] {p q : ServerProcedure α}
    (hthen : Collects known p) (helse : Collects known q) : Collects known (if condition then p else q) :=
  Meets.ite (fun _ => hthen) fun _ => helse

theorem emplaceElement (path : Text) (entry : DirectoryEntry) :
    Collects known (emplaceElement path entry) := Meets.modify _ fun _ hs => ⟨hs.delivered, hs.recovered⟩

variable (session : Session)

theorem loadEntry (basePath absolutePath : Text) :
    Collects known (loadEntry session basePath absolutePath) := bind (read _) fun _ => orRaise _

theorem recoverRow (row : Row) (toUpdate toDelete : List DirectoryEntry) :
    Collects known (recoverRow session row toUpdate toDelete) := by
  apply bind (orRaise _)
  intro bytes
  apply bind (orRaise _)
  intro hash
  apply bind (read _)
  intro disk
  apply ite (pure _)
  apply bind (loadEntry session _ _)
  intro effective
  exact ite (pure _) (bind (emplaceElement _ _) fun _ => pure _)

theorem recoverRows (rows : List Row) (toUpdate toDelete : List DirectoryEntry) :
    Collects known (recoverRows session rows toUpdate toDelete) := by
  induction rows generalizing toUpdate toDelete with
  | nil => exact pure _
  | cons row rows ih => exact bind (recoverRow session _ _ _) fun lists => ih lists.1 lists.2

theorem collectRows (mac : Text) (rows : List Row) : Collects known (collectRows session mac rows) := by
  induction rows with
  | nil => exact pure _
  | cons row rows ih =>
      exact bind (orRaise _) fun _ => bind (orRaise _) fun _ => bind ih fun _ => pure _

end Collects

namespace Settles

variable {α β : Type}

theorem pure (value : α) : Settles known (Pure.pure value) := Meets.pure value fun _ hs => hs

theorem raise (exception : ServerException) :
    Settles known (Procedure.raise exception : ServerProcedure α) :=
  Meets.raise exception fun _ hs _ => hs

theorem read (f : ServerState → α) : Settles known (Procedure.read f) := Meets.read f fun _ hs => hs

theorem orRaise (exception : ServerException) (value : Option α) :
    Settles known (Procedure.orRaise exception value) :=
  Meets.orRaise exception value (fun _ _ _ hs => hs) fun _ _ hs _ => hs

theorem ensure (exception : ServerException) (condition : Bool) :
    Settles known (Procedure.ensure exception condition) :=
  Meets.ensure exception condition (fun _ _ hs => hs) fun _ _ hs _ => hs

theorem bind {p : ServerProcedure α} {f : α → ServerProcedure β} (hp : Settles known p)
    (hf : ∀ value, Settles known (f value)) : Settles known (p >>= f) := Meets.bind hp hf

theorem ite {condition : Prop} [Decidable condition] {p q : ServerProcedure α}
    (hthen : Settles known p) (helse : Settles known q) : Settles known (if condition then p else q) :=
  Meets.ite (fun _ => hthen) fun _ => helse

theorem when {p : ServerProcedure Unit} (condition : Bool) (hp : Settles known p) :
    Settles known (Procedure.when condition p) :=
  Meets.when condition (fun _ => hp) fun _ _ hs => hs

/-- The rest of the state may change freely. -/
theorem modify {f : ServerState → ServerState} (hdatabase : ∀ s, (f s).database = s.database)
    (hundelivered : ∀ s, (f s).connection.undelivered = s.connection.undelivered)
    (hrecovered : ∀ s, s.recovered = true → (f s).recovered = true) :
    Settles known (Procedure.modify f) := by
  apply Meets.modify
  intro s hs
  constructor
  · constructor
    · rw [hundelivered]
      exact hs.delivered
    · exact fun h => hrecovered s (hs.recovered h)
  · rw [hdatabase]
    exact hs.idle

theorem onDisk {ε : Type} (p : Procedure Disk ε α) : Settles known (Server.onDisk p) := by
  apply Meets.within (Meets.anything p)
  · exact fun _ _ => trivial
  · exact fun _ _ _ hs _ => ⟨⟨hs.delivered, hs.recovered⟩, hs.idle⟩
  · exact fun _ _ _ hs _ _ => ⟨⟨hs.delivered, hs.recovered⟩, hs.idle⟩

theorem mapRows (f : List Row → List Row) : Settles known (onDatabase (Database.mapRows f)) := by
  apply Meets.of_each
  intro s hs
  rcases onDatabase_mapRows_cases s f with ⟨-, hrun⟩ | ⟨-, hrun⟩
  · exact Meets.ends_returned hrun ⟨⟨hs.delivered, hs.recovered⟩, hs.idle⟩
  · exact Meets.ends_raised hrun fun _ => hs

theorem sendServerMessage (message : ServerMessage) : Settles known (sendServerMessage message) := by
  apply Meets.of_each
  intro s hs
  rcases sendServerMessage_cases s message with hrun | hrun
  · exact Meets.ends_returned hrun ⟨⟨hs.delivered, hs.recovered⟩, hs.idle⟩
  · exact Meets.ends_raised hrun fun hskipped => absurd hskipped (by decide)

/-- The end of a transaction. -/
theorem finish : Meets (Delivering known) (onDatabase Database.finish) (fun _ => Settled known)
    fun exception s => Skipped exception → Settled known s := by
  intro s hs
  exact ⟨⟨hs.delivered, hs.recovered⟩, rfl⟩

theorem select (username mac : Text) :
    Meets (Settled known) (onDatabase (Database.select username mac)) (fun _ => Delivering known)
      fun exception s => Skipped exception → Settled known s := by
  intro s hs
  simp only [onDatabase, within, Database.select, Database.begin, bind_apply, read_apply,
    hs.idle, Bool.not_false, ensure_true, pure_apply, modify_apply]
  exact ⟨hs.delivered, hs.recovered⟩

theorem getAllMacAddresses (username : Text) :
    Settles known (onDatabase (Database.getAllMacAddresses username)) := by
  intro s hs
  simp only [onDatabase, within, Database.getAllMacAddresses, Database.begin, bind_apply,
    read_apply, hs.idle, Bool.not_false, ensure_true, pure_apply]
  exact ⟨⟨hs.delivered, hs.recovered⟩, hs.idle⟩

/-- What runs in a transaction, up to its end. -/
theorem collects {p : ServerProcedure α} {f : α → ServerProcedure β} (hp : Collects known p)
    (hf : ∀ value, Meets (Delivering known) (f value) (fun _ => Settled known)
      fun exception s => Skipped exception → Settled known s) :
    Meets (Delivering known) (p >>= f) (fun _ => Settled known)
      fun exception s => Skipped exception → Settled known s := by
  have hp' : Meets (Delivering known) p (fun _ => Delivering known)
      fun exception s => Skipped exception → Settled known s :=
    hp.consequence (fun _ hs => hs) (fun _ _ hs => hs)
      fun _ _ hexception hskipped => absurd hskipped hexception
  exact Meets.bind hp' hf

variable (session : Session)

theorem refuse (code : ErrCode) (exception : ServerException) :
    Settles known (refuse session code exception : ServerProcedure α) :=
  bind (sendServerMessage _) fun _ => raise exception

theorem recvMessage : Settles known recvMessage := by
  apply bind (read _)
  intro incoming
  cases incoming with
  | nil => exact raise _
  | cons message incoming =>
      exact bind (modify (fun _ => rfl) (fun _ => rfl) fun _ hs => hs) fun _ => pure message

theorem loadEntry (basePath absolutePath : Text) :
    Settles known (loadEntry session basePath absolutePath) := bind (read _) fun _ => orRaise _ _

theorem saveParent (parent : Text) : Settles known (saveParent session parent) :=
  ite (loadEntry session _ _) (pure _)

theorem resetParent (parent : Text) (entry : DirectoryEntry) :
    Settles known (resetParent session parent entry) := when _ (bind (onDisk _) fun _ => pure _)

theorem emplaceElement (path : Text) (entry : DirectoryEntry) :
    Settles known (emplaceElement path entry) := modify (fun _ => rfl) (fun _ => rfl) fun _ hs => hs

theorem insertElement (path : Text) (entry : DirectoryEntry) :
    Settles known (insertElement path entry) := modify (fun _ => rfl) (fun _ => rfl) fun _ hs => hs

theorem forget (relativePath : Text) : Settles known (forget session relativePath) :=
  bind (mapRows _) fun _ => modify (fun _ => rfl) (fun _ => rfl) fun _ hs => hs

theorem forgetAll (entries : List DirectoryEntry) : Settles known (forgetAll session entries) := by
  induction entries with
  | nil => exact pure ()
  | cons entry entries ih => exact bind (forget session _) fun _ => ih

theorem track (path : Text) (el : Option DirectoryEntry) (entry : DirectoryEntry) :
    Settles known (track session path el entry) := by
  cases el with
  | none => exact bind (mapRows _) fun _ => emplaceElement _ _
  | some el => exact bind (mapRows _) fun _ => insertElement _ _

theorem updateAll (entries : List DirectoryEntry) : Settles known (updateAll session entries) := by
  induction entries with
  | nil => exact pure ()
  | cons entry entries ih => exact bind (mapRows _) fun _ => bind (emplaceElement _ _) fun _ => ih

theorem deleteAll (entries : List DirectoryEntry) : Settles known (deleteAll session entries) := by
  induction entries with
  | nil => exact pure ()
  | cons entry entries ih => exact bind (mapRows _) fun _ => ih

theorem recoverFromDB : Settles known (recoverFromDB session) := by
  apply Meets.bind (select _ _)
  intro rows
  apply collects (Collects.recoverRows session rows [] [])
  intro lists
  apply Meets.bind finish
  intro _
  apply bind (updateAll session _)
  intro _
  apply bind (deleteAll session _)
  intro _
  exact modify (fun _ => rfl) (fun _ => rfl) fun _ _ => rfl

theorem recoverIfNeeded : Settles known (recoverIfNeeded session) :=
  bind (read _) fun _ => ite (pure ()) (recoverFromDB session)

theorem collectMac (mac : Text) : Settles known (collectMac session mac) := by
  apply Meets.bind (select _ _)
  intro rows
  apply collects (Collects.collectRows session mac rows)
  intro toSend
  exact Meets.bind finish fun _ => pure _

theorem collectMacs (macs : List Text) : Settles known (collectMacs session macs) := by
  induction macs with
  | nil => exact pure _
  | cons mac macs ih => exact bind (collectMac session mac) fun _ => bind ih fun _ => pure _

theorem collect (message : ClientMessage) : Settles known (collect session message) := by
  apply ite
  · apply bind
    · exact getAllMacAddresses session.username
    · exact fun macs => collectMacs session macs
  · exact ite (refuse session _ _) (bind (orRaise _ _) fun _ => collectMac session _)

theorem sendBlocks (content : List (List Byte)) : Settles known (sendBlocks session content) := by
  induction content using Server.sendBlocks.induct with
  | case1 => exact pure ()
  | case2 block => exact sendServerMessage _
  | case3 block blocks hblocks ih =>
      rw [Server.sendBlocks.eq_3 session block blocks hblocks]
      exact bind (sendServerMessage _) fun _ => ih

theorem sendFile (element : DirectoryEntry) (mac : Text) :
    Settles known (sendFile session element mac) := by
  apply bind (loadEntry session _ _)
  intro effective
  apply ite (mapRows _)
  apply bind (sendServerMessage _)
  intro _
  apply bind (read _)
  intro status
  cases status with
  | none => exact raise _
  | some node => cases node <;> exact sendBlocks session _

theorem sendElements (toSend : List (Text × DirectoryEntry)) :
    Settles known (sendElements session toSend) := by
  induction toSend with
  | nil => exact pure ()
  | cons element others ih =>
      apply bind _ fun _ => ih
      apply bind (read _)
      intro currentExists
      apply ite (mapRows _)
      exact ite (sendServerMessage _) (ite (sendFile session _ _) (pure ()))

theorem probe (message : ClientMessage) : Settles known (probe session message) := by
  apply bind (recoverIfNeeded session)
  intro _
  apply bind (orRaise _ _)
  intro h
  apply bind (orRaise _ _)
  intro path
  apply bind (ensure _ _)
  intro _
  apply bind (read _)
  intro el
  cases el with
  | none => exact sendServerMessage _
  | some el =>
      apply ite (refuse session _ _)
      apply ite (sendServerMessage _)
      apply ite _ (sendServerMessage _)
      exact bind (onDisk _) fun _ => bind (insertElement _ _) fun _ => sendServerMessage _

theorem receiveData (handle : Path) (tmpPath : Text) (incoming : List ClientMessage) :
    Settles known (receiveData session handle tmpPath incoming) := by
  induction incoming with
  | nil => exact bind recvMessage fun _ => pure ()
  | cons _ pending ih =>
      apply bind recvMessage
      intro message
      apply ite
      · exact bind (sendServerMessage _) fun _ => bind (onDisk _) fun _ => raise _
      apply ite
      · exact bind (onDisk _) fun _ => refuse session _ _
      exact bind (onDisk _) fun _ => ite (pure ()) ih

theorem transfer (handle : Path) (tmpPath : Text) (incoming : List ClientMessage) :
    Settles known (catching (Server.receiveData session handle tmpPath incoming)
      (removeOnSocketException tmpPath)) := by
  apply Meets.catching (receiveData session handle tmpPath incoming)
  intro exception s hs
  cases exception with
  | socket code =>
      simp only [removeOnSocketException, Server.onDisk, within, bind_apply]
      cases SystemCall.remove tmpPath s.disk <;>
        exact fun hskipped => absurd hskipped (by simp [Skipped])
  | _ => exact hs

theorem acceptFile (tmpPath : Text) (expected : DirectoryEntry) :
    Settles known (acceptFile session tmpPath expected) := by
  apply bind (loadEntry session _ _)
  intro newFile
  apply bind (onDisk _)
  intro newFile
  apply ite
  · exact bind (onDisk _) fun _ => refuse session _ _
  apply bind
  · apply bind (read _)
    intro parentExists
    apply bind (when _ (onDisk _))
    intro _
    apply bind (saveParent session _)
    intro entry
    exact bind (onDisk _) fun _ => resetParent session _ _
  · intro _
    apply bind (read _)
    intro el
    exact bind (track session _ _ _) fun _ => sendServerMessage _

theorem storeFile (message : ClientMessage) : Settles known (storeFile session message) := by
  apply bind (recoverIfNeeded session)
  intro _
  apply bind (orRaise _ _)
  intro h
  apply bind (orRaise _ _)
  intro path
  apply bind (ensure _ _)
  intro _
  apply bind
  · exact bind (read _) fun _ => bind (modify (fun _ => rfl) (fun _ => rfl) fun _ hs => hs) fun _ => pure _
  intro name
  apply bind (read _)
  intro tmpPathExists
  apply bind (when _ (onDisk _))
  intro _
  apply bind (onDisk _)
  intro temporaryFile
  cases temporaryFile with
  | none => exact refuse session _ _
  | some handle =>
      apply bind (read _)
      intro incoming
      exact bind (transfer session _ _ _) fun _ => acceptFile session _ _

theorem removeFile (message : ClientMessage) : Settles known (removeFile session message) := by
  apply bind (recoverIfNeeded session)
  intro _
  apply bind (orRaise _ _)
  intro h
  apply bind (orRaise _ _)
  intro path
  apply bind (read _)
  intro el
  cases el with
  | none => exact sendServerMessage _
  | some el =>
      apply bind (read _)
      intro elExists
      apply ite
      · exact bind (forget session _) fun _ => sendServerMessage _
      apply ite (refuse session _ _)
      apply bind (saveParent session _)
      intro entry
      apply bind (onDisk _)
      intro removed
      apply ite (raise _)
      apply bind (resetParent session _ _)
      intro _
      exact bind (forget session _) fun _ => sendServerMessage _

theorem makeDir (message : ClientMessage) : Settles known (makeDir session message) := by
  apply bind (recoverIfNeeded session)
  intro _
  apply bind (orRaise _ _)
  intro path
  apply bind (ensure _ _)
  intro _
  apply bind (read _)
  intro el
  apply bind (read _)
  intro upToDate
  apply ite (sendServerMessage _)
  apply bind (read _)
  intro parentExists
  apply bind (ite (saveParent session _) (pure _))
  intro entry
  apply bind (read _)
  intro dirExists
  apply bind (when _ (onDisk _))
  intro _
  apply bind (read _)
  intro isDirectory
  apply ite (refuse session _ _)
  apply bind (loadEntry session _ _)
  intro newDir
  apply bind (onDisk _)
  intro newDir
  apply bind (when _ (resetParent session _ _))
  intro _
  exact bind (track session _ _ _) fun _ => sendServerMessage _

theorem removeDir (message : ClientMessage) : Settles known (removeDir session message) := by
  apply bind (recoverIfNeeded session)
  intro _
  apply bind (orRaise _ _)
  intro path
  apply bind (read _)
  intro el
  cases el with
  | none => exact sendServerMessage _
  | some el =>
      apply bind (read _)
      intro elExists
      apply ite
      · exact bind (forget session _) fun _ => sendServerMessage _
      apply ite (refuse session _ _)
      apply bind (saveParent session _)
      intro entry
      apply bind (onDisk _)
      intro paths
      apply bind (read _)
      intro disk
      apply bind (orRaise _ _)
      intro elementsToRemove
      apply bind (onDisk _)
      intro count
      apply ite (raise _)
      apply bind (forgetAll session _)
      intro _
      apply bind (forget session _)
      intro _
      exact bind (resetParent session _ _) fun _ => sendServerMessage _

theorem dispatch (message : ClientMessage) : Settles known (dispatch session message) := by
  unfold Server.dispatch
  cases message.type with
  | PROB => exact probe session message
  | STOR => exact storeFile session message
  | DELE => exact removeFile session message
  | MKD => exact makeDir session message
  | RMD => exact removeDir session message
  | RETR =>
      apply bind (collect session message)
      intro toSend
      exact bind (sendElements session toSend) fun _ => sendServerMessage _
  | NOOP | DATA | AUTH | unknown => exact refuse session _ _

end Settles

theorem refuse_raises (session : Session) (code : ErrCode) (exception : ServerException)
    (pre : ServerState → Prop) (post : Unit → ServerState → Prop) :
    Meets pre (refuse session code exception) post fun _ _ => True := by
  intro s _
  rcases refuse_cases (α := Unit) session s code exception with hrun | hrun <;> rw [hrun] <;> trivial

/-- Only after a skipped exception does `receive` return. -/
theorem handleException_returns (session : Session) (exception : ServerException)
    (inv : ServerState → Prop) :
    Meets (fun s => Skipped exception → inv s) (handleException session exception)
      (fun _ => inv) fun _ _ => True := by
  cases exception with
  | protocolManager code =>
      cases code with
      | unexpected => exact Meets.pure () fun s hs => hs (.inr rfl)
      | client => exact Meets.pure () fun s hs => hs (.inl rfl)
      | _ => exact Meets.raise _ fun _ _ => trivial
  | socket code => exact Meets.raise _ fun _ _ => trivial
  | _ => exact refuse_raises session _ _ _ _

/-- What a call that returns keeps, by what it is dispatched to. -/
theorem receive_returns {session : Session} {inv : ServerState → Prop} {s s' : ServerState}
    {message : ClientMessage} {pending : List ClientMessage}
    (hincoming : s.connection.incoming = message :: pending)
    (hdispatch : Meets (fun s₁ => s₁ = s.withIncoming pending) (dispatch session message)
      (fun _ => inv) fun exception s => Skipped exception → inv s)
    (hreceive : receive session s = .returned () s') : inv s' := by
  rw [receive, bind_of_returned (recvMessage_run _ hincoming)] at hreceive
  by_cases hversion : message.version ≠ session.protocolVersion
  · rw [if_pos hversion] at hreceive
    simp [bind_returned_iff] at hreceive
  · rw [if_neg hversion] at hreceive
    have hcaught := Meets.catching (hdispatch.consequence (fun _ hs => hs) (fun _ _ hs => hs)
      fun exception s hs => hs) fun exception => handleException_returns session exception inv
    exact hcaught.returned rfl hreceive

/-- A call that returns has read a message. -/
theorem receive_reads {session : Session} {s s' : ServerState}
    (hreceive : receive session s = .returned () s') :
    ∃ message pending, s.connection.incoming = message :: pending := by
  cases hincoming : s.connection.incoming with
  | nil => simp [receive, recvMessage, bind_apply, hincoming] at hreceive
  | cons message pending => exact ⟨message, pending, rfl⟩

/-- A call that returns leaves the session settled. -/
theorem receive_settled {session : Session} {s s' : ServerState} (hs : Settled known s)
    (hreceive : receive session s = .returned () s') : Settled known s' := by
  obtain ⟨message, pending, hincoming⟩ := receive_reads hreceive
  apply receive_returns hincoming _ hreceive
  apply (Settles.dispatch session message).consequence
  · rintro s₁ rfl
    exact ⟨⟨hs.delivered, hs.recovered⟩, hs.idle⟩
  · exact fun _ _ hs => hs
  · exact fun _ _ hs => hs

/-- A session that was just authenticated. -/
structure Fresh (s : ServerState) : Prop where
  elements : s.elements = ∅
  recovered : s.recovered = false
  idle : s.database.inTransaction = false
  delivered : s.connection.undelivered = none

theorem Fresh.settled {s : ServerState} (hfresh : Fresh s) : Settled False s :=
  ⟨⟨hfresh.delivered, False.elim⟩, hfresh.idle⟩

theorem startSession_fresh (disk : Disk) (database : Database) (incoming : List ClientMessage)
    (hidle : database.inTransaction = false) : Fresh (startSession disk database incoming) :=
  ⟨rfl, rfl, hidle, rfl⟩

/-- The states between the calls of a session in which each call meets a
condition on the state and the message before it. -/
inductive Reached (session : Session) (condition : ServerState → ClientMessage → Prop)
    (start : ServerState) : ServerState → Prop where
  | start : Reached session condition start start
  | call {s s' : ServerState} {message : ClientMessage} {pending : List ClientMessage}
      (hreached : Reached session condition start s)
      (hincoming : s.connection.incoming = message :: pending) (hmeets : condition s message)
      (hreceive : receive session s = .returned () s') : Reached session condition start s'

theorem Reached.settled {session : Session} {condition : ServerState → ClientMessage → Prop}
    {start s : ServerState} (hstart : Settled known start)
    (hreached : Reached session condition start s) : Settled known s := by
  induction hreached with
  | start => exact hstart
  | call _ _ _ hreceive ih => exact receive_settled ih hreceive

end PdsBackup.Server
