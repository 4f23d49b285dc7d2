import PdsBackup.Server.ProtocolManager

/-!
# Answers to requests

The client matches answers to its requests by counting, so every call of
`receive` that keeps the connection has to conclude its request with one answer.
The handlers are followed here as to what they send: routines that send nothing,
and routines that conclude a request.  An exception that `receive` skips is part
of the account, since the call then returns.
-/

namespace PdsBackup.Server

open Procedure

/-- The exceptions after which `receive` keeps the connection. -/
def Skipped (exception : ServerException) : Prop :=
  exception = .protocolManager .client ∨ exception = .protocolManager .unexpected

instance (exception : ServerException) : Decidable (Skipped exception) :=
  inferInstanceAs (Decidable (_ ∨ _))

/-- The messages that were written. -/
def ServerState.outgoing (s : ServerState) : List ServerMessage := s.connection.outgoing

/-- The answers among the messages that were written. -/
def ServerState.answers (s : ServerState) : Nat := s.outgoing.countP ServerMessage.isAnswer

/-! ## Routines that send nothing -/

/-- Nothing is sent, and no exception is one that is skipped. -/
def Silent {α : Type} (p : ServerProcedure α) : Prop :=
  ∀ out, Meets (fun s => s.outgoing = out) p (fun _ s => s.outgoing = out)
    (fun exception _ => ¬ Skipped exception)

namespace Silent

variable {α β : Type}

theorem pure (value : α) : Silent (Pure.pure value) := fun _ => Meets.pure value fun _ hs => hs

theorem raise {exception : ServerException} (hexception : ¬ Skipped exception) :
    Silent (Procedure.raise exception : ServerProcedure α) :=
  fun _ => Meets.raise exception fun _ _ => hexception

theorem read (f : ServerState → α) : Silent (Procedure.read f) :=
  fun _ => Meets.read f fun _ hs => hs

theorem modify {f : ServerState → ServerState} (hf : ∀ s, (f s).outgoing = s.outgoing) :
    Silent (Procedure.modify f) :=
  fun _ => Meets.modify f fun s hs => (hf s).trans hs

theorem orRaise {exception : ServerException} (hexception : ¬ Skipped exception)
    (value : Option α) : Silent (Procedure.orRaise exception value) :=
  fun _ => Meets.orRaise exception value (fun _ _ _ hs => hs) fun _ _ _ => hexception

theorem bind {p : ServerProcedure α} {f : α → ServerProcedure β} (hp : Silent p)
    (hf : ∀ value, Silent (f value)) : Silent (p >>= f) :=
  fun out => Meets.bind (hp out) fun value => hf value out

theorem ite {condition : Prop} [Decidable condition] {p q : ServerProcedure α}
    (hthen : condition → Silent p) (helse : ¬ condition → Silent q) :
    Silent (if condition then p else q) :=
  fun out => Meets.ite (fun h => hthen h out) fun h => helse h out

/-- Work on a part of the state other than the connection. -/
theorem within {τ ε : Type} {get : ServerState → τ} {set : τ → ServerState → ServerState}
    {wrap : ε → ServerException} (hset : ∀ part s, (set part s).outgoing = s.outgoing)
    (hwrap : ∀ exception, ¬ Skipped (wrap exception)) (p : Procedure τ ε α) :
    Silent (Procedure.within get set wrap p) := fun _ =>
  Meets.within (Meets.anything p) (fun _ _ => trivial) (fun _ part s hs _ => (hset part s).trans hs)
    fun exception _ _ _ _ => hwrap exception

theorem onDisk {ε : Type} (p : Procedure Disk ε α) : Silent (Server.onDisk p) := by
  refine within (by intro disk s; rfl) ?_ p
  rintro exception (h | h) <;> cases h

theorem onDatabase (p : Query α) : Silent (Server.onDatabase p) := by
  refine within (by intro database s; rfl) ?_ p
  rintro exception (h | h) <;> cases h

theorem when {p : ServerProcedure Unit} (condition : Bool) (hp : Silent p) :
    Silent (Procedure.when condition p) := by
  cases condition with
  | true => exact hp
  | false => exact pure ()

theorem recvMessage : Silent recvMessage := by
  refine bind (read _) fun incoming => ?_
  cases incoming with
  | nil => exact raise (by decide)
  | cons message incoming => exact bind (modify fun _ => rfl) fun _ => pure message

variable (session : Session)

theorem loadEntry (basePath absolutePath : Text) :
    Silent (loadEntry session basePath absolutePath) :=
  bind (read _) fun _ => orRaise (by decide) _

theorem setTimeToFile (entry : DirectoryEntry) (time : Text) :
    Silent (setTimeToFile session entry time) := onDisk _

theorem saveParent (parent : Text) : Silent (saveParent session parent) :=
  ite (fun _ => loadEntry session _ _) fun _ => pure _

theorem resetParent (parent : Text) (entry : DirectoryEntry) :
    Silent (resetParent session parent entry) :=
  when _ (bind (setTimeToFile session _ _) fun _ => pure _)

theorem forget (relativePath : Text) : Silent (forget session relativePath) :=
  bind (onDatabase _) fun _ => modify fun _ => rfl

theorem forgetAll (entries : List DirectoryEntry) : Silent (forgetAll session entries) := by
  induction entries with
  | nil => exact pure ()
  | cons entry entries ih => exact bind (forget session _) fun _ => ih

theorem track (path : Text) (el : Option DirectoryEntry) (entry : DirectoryEntry) :
    Silent (track session path el entry) := by
  cases el with
  | none => exact bind (onDatabase _) fun _ => modify fun _ => rfl
  | some el => exact bind (onDatabase _) fun _ => modify fun _ => rfl

theorem recoverRow (row : Row) (toUpdate toDelete : List DirectoryEntry) :
    Silent (recoverRow session row toUpdate toDelete) := by
  refine bind (orRaise (by decide) _) fun bytes => bind (orRaise (by decide) _) fun hash => ?_
  refine bind (read _) fun disk => ite (fun _ => pure _) fun _ => ?_
  refine bind (loadEntry session _ _) fun effective => ite (fun _ => pure _) fun _ => ?_
  exact bind (modify fun _ => rfl) fun _ => pure _

theorem recoverRows (rows : List Row) (toUpdate toDelete : List DirectoryEntry) :
    Silent (recoverRows session rows toUpdate toDelete) := by
  induction rows generalizing toUpdate toDelete with
  | nil => exact pure _
  | cons row rows ih => exact bind (recoverRow session _ _ _) fun lists => ih lists.1 lists.2

theorem updateAll (entries : List DirectoryEntry) : Silent (updateAll session entries) := by
  induction entries with
  | nil => exact pure ()
  | cons entry entries ih =>
      exact bind (onDatabase _) fun _ => bind (modify fun _ => rfl) fun _ => ih

theorem deleteAll (entries : List DirectoryEntry) : Silent (deleteAll session entries) := by
  induction entries with
  | nil => exact pure ()
  | cons entry entries ih => exact bind (onDatabase _) fun _ => ih

theorem recoverIfNeeded : Silent (recoverIfNeeded session) := by
  refine bind (read _) fun recovered => ite (fun _ => pure ()) fun _ => ?_
  refine bind (onDatabase _) fun rows => bind (recoverRows session _ _ _) fun lists => ?_
  refine bind (onDatabase _) fun _ => bind (updateAll session _) fun _ => ?_
  exact bind (deleteAll session _) fun _ => modify fun _ => rfl

theorem getHexString (size : Nat) : Silent (getHexString size) :=
  bind (read _) fun _ => bind (modify fun _ => rfl) fun _ => pure _

theorem moveIntoPlace (tmpPath : Text) (expected : DirectoryEntry) :
    Silent (moveIntoPlace session tmpPath expected) := by
  refine bind (read _) fun parentExists => bind (when _ (onDisk _)) fun _ => ?_
  refine bind (saveParent session _) fun entry => bind (onDisk _) fun _ => ?_
  exact resetParent session _ _

theorem collectRows (mac : Text) (rows : List Row) : Silent (collectRows session mac rows) := by
  induction rows with
  | nil => exact pure _
  | cons row rows ih =>
      refine bind (orRaise (by decide) _) fun bytes => bind (orRaise (by decide) _) fun hash => ?_
      exact bind ih fun others => pure _

theorem collectMac (mac : Text) : Silent (collectMac session mac) :=
  bind (onDatabase _) fun _ => bind (collectRows session mac _) fun _ =>
    bind (onDatabase _) fun _ => pure _

theorem collectMacs (macs : List Text) : Silent (collectMacs session macs) := by
  induction macs with
  | nil => exact pure _
  | cons mac macs ih => exact bind (collectMac session mac) fun _ => bind ih fun _ => pure _

theorem not_skipped {p : ServerProcedure α} (hp : Silent p) :
    Meets (fun _ => True) p (fun _ _ => True) fun exception _ => ¬ Skipped exception :=
  Meets.of_each fun start _ => (hp start.outgoing).consequence (fun s hs => by rw [hs])
    (fun _ _ _ => trivial) fun _ _ hexception => hexception

end Silent

/-! ## Routines that send -/

/-- Whether the routine returns or raises an exception that is skipped, what it
has sent satisfies `wanted`. -/
def Sends {α : Type} (wanted : List ServerMessage → Prop) (p : ServerProcedure α) : Prop :=
  ∀ out, Meets (fun s => s.outgoing = out) p
    (fun _ s => ∃ sent, s.outgoing = out ++ sent ∧ wanted sent)
    (fun exception s => Skipped exception → ∃ sent, s.outgoing = out ++ sent ∧ wanted sent)

namespace Sends

variable {α β : Type} {wanted : List ServerMessage → Prop} {session : Session}

theorem after {p : ServerProcedure α} {f : α → ServerProcedure β} (hp : Silent p)
    (hf : ∀ value, Sends wanted (f value)) : Sends wanted (p >>= f) := fun out =>
  Meets.bind ((hp out).consequence (fun _ hs => hs) (fun _ _ hs => hs)
    fun _ _ hexception hskipped => absurd hskipped hexception) fun value => hf value out

theorem ite {condition : Prop} [Decidable condition] {p q : ServerProcedure α}
    (hthen : condition → Sends wanted p) (helse : ¬ condition → Sends wanted q) :
    Sends wanted (if condition then p else q) :=
  fun out => Meets.ite (fun h => hthen h out) fun h => helse h out

/-- What an exception that is not skipped leaves unsaid does not matter. -/
theorem raise {exception : ServerException} (hexception : ¬ Skipped exception) :
    Sends wanted (Procedure.raise exception : ServerProcedure α) :=
  fun _ => Meets.raise exception fun _ _ hskipped => absurd hskipped hexception

theorem nothing (exception : ServerException) (hwanted : wanted []) :
    Sends wanted (Procedure.raise exception : ServerProcedure α) := fun out =>
  Meets.raise exception fun s hs _ => ⟨[], by simp [hs], hwanted⟩

theorem message {message : ServerMessage} (hwanted : wanted [message]) :
    Sends wanted (sendServerMessage message) := by
  intro out
  refine Meets.bind (Silent.read _ out |>.consequence (fun _ hs => hs) (fun _ _ hs => hs)
    fun _ _ hexception hskipped => absurd hskipped hexception) fun sendsLeft => ?_
  refine Meets.ite (fun _ => ?_) fun _ => ?_
  · refine (after (Silent.modify ?_) fun _ => raise (by decide)) out
    intro s
    rfl
  · exact Meets.modify _ fun s hs => ⟨[message], by rw [← hs]; rfl, hwanted⟩

theorem refuse {code : ErrCode} {exception : ServerException}
    (hwanted : wanted [errMessage session code]) :
    Sends wanted (refuse session code exception : ServerProcedure α) := by
  intro out
  refine Meets.bind (message hwanted out) fun _ => Meets.raise exception fun s hs _ => hs

theorem accepted {exception : ServerException} {value : Option α} {f : α → ServerProcedure β}
    (hvalue : value.isSome = true) (hf : ∀ value, Sends wanted (f value)) :
    Sends wanted (orRaise exception value >>= f) := by
  obtain ⟨result, rfl⟩ := Option.isSome_iff_exists.mp hvalue
  exact hf result

theorem acceptedAs {exception : ServerException} {value : Option α} {result : α}
    {f : α → ServerProcedure β} (hvalue : value = some result) (hf : Sends wanted (f result)) :
    Sends wanted (orRaise exception value >>= f) := by
  subst hvalue
  exact hf

theorem rejected {exception : ServerException} {value : Option α} {f : α → ServerProcedure β}
    (hvalue : value.isSome = false) (hwanted : wanted []) :
    Sends wanted (orRaise exception value >>= f) := by
  rw [Option.isSome_eq_false_iff, Option.isNone_iff_eq_none] at hvalue
  subst hvalue
  exact nothing exception hwanted

/-- A failure to send is not skipped. -/
theorem not_skipped (message : ServerMessage) :
    Meets (fun _ => True) (sendServerMessage message) (fun _ _ => True)
      fun exception _ => ¬ Skipped exception := by
  intro s _
  by_cases hleft : s.connection.sendsLeft = some 0
  · simp only [sendServerMessage, read_bind_apply, hleft, if_true, modify_bind_apply, raise_apply]
    decide
  · simp [sendServerMessage, hleft]

theorem ensured {exception : ServerException} {condition : Bool}
    {f : Unit → ServerProcedure β} (hcondition : condition = true) (hf : Sends wanted (f ())) :
    Sends wanted (ensure exception condition >>= f) := by
  subst hcondition
  exact hf

theorem unensured {exception : ServerException} {condition : Bool}
    {f : Unit → ServerProcedure β} (hcondition : condition = false) (hwanted : wanted []) :
    Sends wanted (ensure exception condition >>= f) := by
  subst hcondition
  exact nothing exception hwanted

/-- A routine in the middle of a request: it sends nothing when it returns, and
concludes the request when it gives it up. -/
def Interrupted {α : Type} (wanted : List ServerMessage → Prop) (p : ServerProcedure α) : Prop :=
  ∀ out, Meets (fun s => s.outgoing = out) p (fun _ s => s.outgoing = out)
    (fun exception s => Skipped exception → ∃ sent, s.outgoing = out ++ sent ∧ wanted sent)

theorem Interrupted.of_silent {p : ServerProcedure α} (hp : Silent p) : Interrupted wanted p :=
  fun out => (hp out).consequence (fun _ hs => hs) (fun _ _ hs => hs)
    fun _ _ hexception hskipped => absurd hskipped hexception

theorem Interrupted.bind {p : ServerProcedure α} {f : α → ServerProcedure β}
    (hp : Interrupted wanted p) (hf : ∀ value, Interrupted wanted (f value)) :
    Interrupted wanted (p >>= f) := fun out => Meets.bind (hp out) fun value => hf value out

/-- The connection is given up. -/
theorem Interrupted.of_givesUp {p : ServerProcedure α}
    (hp : Meets (fun _ => True) p (fun _ _ => False) fun exception _ => ¬ Skipped exception) :
    Interrupted wanted p := fun _ =>
  hp.consequence (fun _ _ => trivial) (fun _ _ h => h.elim)
    fun _ _ hexception hskipped => absurd hskipped hexception

/-- A request that is given up never comes back. -/
theorem Interrupted.refuse {code : ErrCode} {exception : ServerException}
    (hwanted : wanted [errMessage session code]) :
    Interrupted wanted (Server.refuse session code exception : ServerProcedure α) := by
  intro out s hs
  have hends := (Sends.refuse hwanted :
    Sends wanted (Server.refuse session code exception : ServerProcedure α)) out s hs
  cases hrun : (Server.refuse session code exception : ServerProcedure α) s with
  | raised exception s' => rwa [hrun] at hends
  | returned value s' => simp [Server.refuse, bind_returned_iff] at hrun

theorem afterInterrupted {p : ServerProcedure α} {f : α → ServerProcedure β}
    (hp : Interrupted wanted p) (hf : ∀ value, Sends wanted (f value)) :
    Sends wanted (p >>= f) := fun out => Meets.bind (hp out) fun value => hf value out

end Sends

/-! ## What each request is answered with -/

/-- One answer concludes the request.  Nothing else is sent, save that RETR
sends the files first; a STOR or a RETR is not answered by a SEND. -/
def Concluded (type : ClientMessage.Type) (sent : List ServerMessage) : Prop :=
  ∃ transfers answer, sent = transfers ++ [answer] ∧ answer.isAnswer = true ∧
    (∀ message ∈ transfers, message.isAnswer = false) ∧
    (type ≠ .RETR → transfers = []) ∧
    (type = .STOR ∨ type = .RETR → answer.type = .OK ∨ answer.type = .ERR)

theorem Concluded.ok (type : ClientMessage.Type) (session : Session) (code : OkCode) :
    Concluded type [okMessage session code] :=
  ⟨[], _, rfl, rfl, by simp, fun _ => rfl, fun _ => .inl rfl⟩

theorem Concluded.err (type : ClientMessage.Type) (session : Session) (code : ErrCode) :
    Concluded type [errMessage session code] :=
  ⟨[], _, rfl, rfl, by simp, fun _ => rfl, fun _ => .inr rfl⟩

theorem Concluded.send {type : ClientMessage.Type} (session : Session) (path : Text) (hash : Hash)
    (htype : type = .PROB) : Concluded type [sendMessage session path hash] :=
  ⟨[], _, rfl, rfl, by simp, fun _ => rfl, by simp [htype]⟩

theorem Concluded.answers {type : ClientMessage.Type} {sent : List ServerMessage}
    (hsent : Concluded type sent) : sent.countP ServerMessage.isAnswer = 1 := by
  obtain ⟨transfers, answer, rfl, hanswer, htransfers, -⟩ := hsent
  have hnone : transfers.countP ServerMessage.isAnswer = 0 := by
    rw [List.countP_eq_zero]
    intro message hmessage
    simp [htransfers message hmessage]
  rw [List.countP_append, hnone]
  simp [hanswer]

/-- The fields that are validated before a request is answered are accepted. -/
def Accepted (message : ClientMessage) : Prop :=
  match message.type with
  | .PROB | .STOR | .MKD =>
      (Validator.validatePath message.path).isSome = true ∧
        Validator.validateLastWriteTime message.lastWriteTime = true
  | .DELE | .RMD => (Validator.validatePath message.path).isSome = true
  | .RETR =>
      message.all = true ∨ message.macAddress = [] ∨
        (Validator.validateMacAddress message.macAddress).isSome = true
  | .NOOP | .DATA | .AUTH | .unknown _ => True

instance (message : ClientMessage) : Decidable (Accepted message) := by
  unfold Accepted
  cases message.type <;> infer_instance

/-- A request that is accepted is concluded, and one that is not is met with
silence. -/
def Met (message : ClientMessage) (sent : List ServerMessage) : Prop :=
  if Accepted message then Concluded message.type sent else sent = []

theorem Met.silence {message : ClientMessage} (haccepted : ¬ Accepted message) :
    Met message [] := by
  rw [Met, if_neg haccepted]

theorem Met.conclusion {message : ClientMessage} {sent : List ServerMessage}
    (haccepted : Accepted message) (hsent : Concluded message.type sent) : Met message sent := by
  rw [Met, if_pos haccepted]
  exact hsent

/-! ## The handlers -/

/-- Only messages that are no answers are sent on the way. -/
def Transfers (p : ServerProcedure Unit) : Prop :=
  ∀ out, Meets (fun s => s.outgoing = out) p
    (fun _ s => ∃ sent, s.outgoing = out ++ sent ∧ ∀ message ∈ sent, message.isAnswer = false)
    (fun exception _ => ¬ Skipped exception)

theorem Transfers.of_silent {p : ServerProcedure Unit} (hp : Silent p) : Transfers p := fun out =>
  (hp out).consequence (fun _ hs => hs) (fun _ s hs => ⟨[], by simp [hs], by simp⟩)
    fun _ _ hexception => hexception

theorem Transfers.after {α : Type} {p : ServerProcedure α} {f : α → ServerProcedure Unit}
    (hp : Silent p) (hf : ∀ value, Transfers (f value)) : Transfers (p >>= f) := fun out =>
  Meets.bind (hp out) fun value => hf value out

theorem Transfers.bind {p q : ServerProcedure Unit} (hp : Transfers p) (hq : Transfers q) :
    Transfers (p >>= fun _ => q) := by
  intro out
  refine Meets.bind (hp out) fun _ => Meets.of_each fun start hstart => ?_
  obtain ⟨first, hfirst, hall⟩ := hstart
  refine (hq start.outgoing).consequence (fun s hs => by rw [hs]) (fun _ s hs => ?_)
    fun _ _ hexception => hexception
  obtain ⟨second, hsecond, hall'⟩ := hs
  refine ⟨first ++ second, by rw [hsecond, hfirst, List.append_assoc], fun message hmessage => ?_⟩
  rcases List.mem_append.mp hmessage with hmessage | hmessage
  · exact hall message hmessage
  · exact hall' message hmessage

theorem Transfers.ite {condition : Prop} [Decidable condition] {p q : ServerProcedure Unit}
    (hthen : condition → Transfers p) (helse : ¬ condition → Transfers q) :
    Transfers (if condition then p else q) :=
  fun out => Meets.ite (fun h => hthen h out) fun h => helse h out

theorem Transfers.message {message : ServerMessage} (hmessage : message.isAnswer = false) :
    Transfers (sendServerMessage message) := by
  intro out s hs
  have hsends := (Sends.message rfl :
    Sends (fun sent => sent = [message]) (sendServerMessage message)) out s hs
  have hskips := Sends.not_skipped message s trivial
  cases hrun : sendServerMessage message s with
  | returned value s' =>
      rw [hrun] at hsends
      obtain ⟨sent, hsent, rfl⟩ := hsends
      exact ⟨[message], hsent, by simpa using hmessage⟩
  | raised exception s' =>
      rw [hrun] at hskips
      exact hskips

section Handlers

variable (session : Session) {message : ClientMessage}

open Sends

theorem probe_sends (htype : message.type = .PROB) :
    Sends (Met message) (probe session message) := by
  refine after (Silent.recoverIfNeeded session) fun _ => ?_
  refine after (Silent.orRaise (by decide) _) fun h => ?_
  cases hpath : (Validator.validatePath message.path).isSome with
  | false => exact rejected hpath (Met.silence (by simp [Accepted, htype, hpath]))
  | true =>
      refine accepted hpath fun path => ?_
      cases htime : Validator.validateLastWriteTime message.lastWriteTime with
      | false => exact unensured rfl (Met.silence (by simp [Accepted, htype, htime]))
      | true =>
          have haccepted : Accepted message := by simp [Accepted, htype, hpath, htime]
          have hok := Met.conclusion haccepted (Concluded.ok message.type session .found)
          have hsend := Met.conclusion haccepted (Concluded.send session path h htype)
          refine ensured rfl (after (Silent.read _) fun el => ?_)
          cases el with
          | none => exact Sends.message hsend
          | some el =>
              refine Sends.ite (fun _ => ?_) fun _ => Sends.ite (fun _ => Sends.message hsend) fun _ => ?_
              · exact Sends.refuse (Met.conclusion haccepted (Concluded.err _ session _))
              · refine Sends.ite (fun _ => ?_) fun _ => Sends.message hok
                refine after (Silent.setTimeToFile session _ _) fun el => ?_
                exact after (Silent.modify fun _ => rfl) fun _ => Sends.message hok

theorem receiveData_interrupted {wanted : List ServerMessage → Prop}
    (hwanted : wanted [errMessage session .unexpected]) (handle : Path) (tmpPath : Text)
    (pending : List ClientMessage) :
    Interrupted wanted (receiveData session handle tmpPath pending) := by
  induction pending with
  | nil =>
      exact .of_silent (Silent.bind Silent.recvMessage fun _ => Silent.pure ())
  | cons next pending ih =>
      refine .bind (.of_silent Silent.recvMessage) fun message => ?_
      intro out
      refine Meets.ite (fun _ => ?_) fun _ => Meets.ite (fun _ => ?_) fun _ => ?_
      · refine (Interrupted.of_givesUp ?_ : Interrupted wanted _) out
        refine Meets.bind (Sends.not_skipped _) fun _ => ?_
        refine Meets.bind (Silent.not_skipped (Silent.onDisk _)) fun _ => ?_
        exact Meets.raise _ fun _ _ => by decide
      · exact (Interrupted.bind (.of_silent (Silent.onDisk _)) fun _ =>
          Interrupted.refuse hwanted) out
      · refine (Interrupted.bind (.of_silent (Silent.onDisk _)) fun _ => ?_) out
        intro out
        exact Meets.ite (fun _ => Meets.pure () fun _ hs => hs) fun _ => ih out

theorem removeOnSocketException_interrupted {wanted : List ServerMessage → Prop}
    {handle : Path} {tmpPath : Text} {pending : List ClientMessage}
    (hwanted : wanted [errMessage session .unexpected]) :
    Interrupted wanted (catching (receiveData session handle tmpPath pending)
      (removeOnSocketException tmpPath)) := by
  intro out
  refine Meets.catching (receiveData_interrupted session hwanted handle tmpPath pending out)
    fun exception => ?_
  cases exception with
  | socket code =>
      refine Meets.bind (Meets.consequence (Silent.not_skipped (Silent.onDisk _))
        (fun _ _ => trivial) (fun _ _ h => h) fun _ _ hexception hskipped =>
          absurd hskipped hexception) fun _ => ?_
      exact Meets.raise _ fun _ _ hskipped => absurd hskipped (by rintro (h | h) <;> cases h)
  | protocolManager code => exact Meets.raise _ fun _ hs => hs
  | database code => exact Meets.raise _ fun _ hs => hs
  | databasePwd => exact Meets.raise _ fun _ hs => hs
  | config => exact Meets.raise _ fun _ hs => hs
  | standard => exact Meets.raise _ fun _ hs => hs

theorem storeFile_sends (htype : message.type = .STOR) :
    Sends (Met message) (storeFile session message) := by
  refine after (Silent.recoverIfNeeded session) fun _ => ?_
  refine after (Silent.orRaise (by decide) _) fun h => ?_
  cases hpath : (Validator.validatePath message.path).isSome with
  | false => exact rejected hpath (Met.silence (by simp [Accepted, htype, hpath]))
  | true =>
      refine accepted hpath fun path => ?_
      cases htime : Validator.validateLastWriteTime message.lastWriteTime with
      | false => exact unensured rfl (Met.silence (by simp [Accepted, htype, htime]))
      | true =>
          have haccepted : Accepted message := by simp [Accepted, htype, hpath, htime]
          have hok := Met.conclusion haccepted (Concluded.ok message.type session .created)
          have herr := fun code =>
            Met.conclusion haccepted (Concluded.err message.type session code)
          refine ensured rfl (after (Silent.getHexString _) fun name => ?_)
          refine after (Silent.read _) fun tmpPathExists => ?_
          refine after (Silent.when _ (Silent.onDisk _)) fun _ => ?_
          refine after (Silent.onDisk _) fun temporaryFile => ?_
          cases temporaryFile with
          | none => exact Sends.refuse (herr _)
          | some handle =>
              refine after (Silent.read _) fun incoming => ?_
              refine afterInterrupted
                (removeOnSocketException_interrupted session (herr _)) fun _ => ?_
              refine after (Silent.loadEntry session _ _) fun newFile => ?_
              refine after (Silent.setTimeToFile session _ _) fun newFile => ?_
              refine Sends.ite (fun _ => ?_) fun _ => ?_
              · exact after (Silent.onDisk _) fun _ => Sends.refuse (herr _)
              · refine after (Silent.moveIntoPlace session _ _) fun _ => ?_
                refine after (Silent.read _) fun el => ?_
                exact after (Silent.track session _ _ _) fun _ => Sends.message hok

theorem removeFile_sends (htype : message.type = .DELE) :
    Sends (Met message) (removeFile session message) := by
  refine after (Silent.recoverIfNeeded session) fun _ => ?_
  refine after (Silent.orRaise (by decide) _) fun h => ?_
  cases hpath : (Validator.validatePath message.path).isSome with
  | false => exact rejected hpath (Met.silence (by simp [Accepted, htype, hpath]))
  | true =>
      have haccepted : Accepted message := by simp [Accepted, htype, hpath]
      have hok := fun code => Met.conclusion haccepted (Concluded.ok message.type session code)
      refine accepted hpath fun path => after (Silent.read _) fun el => ?_
      cases el with
      | none => exact Sends.message (hok _)
      | some el =>
          refine after (Silent.read _) fun elExists => Sends.ite (fun _ => ?_) fun _ => ?_
          · exact after (Silent.forget session _) fun _ => Sends.message (hok _)
          · refine Sends.ite (fun _ => ?_) fun _ => ?_
            · exact Sends.refuse (Met.conclusion haccepted (Concluded.err _ session _))
            · refine after (Silent.saveParent session _) fun entry => ?_
              refine after (Silent.onDisk _) fun removed => ?_
              refine Sends.ite (fun _ => Sends.raise (by decide)) fun _ => ?_
              refine after (Silent.resetParent session _ _) fun _ => ?_
              exact after (Silent.forget session _) fun _ => Sends.message (hok _)

theorem makeDir_sends (htype : message.type = .MKD) :
    Sends (Met message) (makeDir session message) := by
  refine after (Silent.recoverIfNeeded session) fun _ => ?_
  cases hpath : (Validator.validatePath message.path).isSome with
  | false => exact rejected hpath (Met.silence (by simp [Accepted, htype, hpath]))
  | true =>
      refine accepted hpath fun path => ?_
      cases htime : Validator.validateLastWriteTime message.lastWriteTime with
      | false => exact unensured rfl (Met.silence (by simp [Accepted, htype, htime]))
      | true =>
          have haccepted : Accepted message := by simp [Accepted, htype, hpath, htime]
          have hok := Met.conclusion haccepted (Concluded.ok message.type session .created)
          refine ensured rfl (after (Silent.read _) fun el => after (Silent.read _) fun upToDate => ?_)
          refine Sends.ite (fun _ => Sends.message hok) fun _ => ?_
          refine after (Silent.read _) fun parentExists => ?_
          refine after (Silent.ite (fun _ => Silent.saveParent session _) fun _ => Silent.pure _)
            fun entry => ?_
          refine after (Silent.read _) fun dirExists => ?_
          refine after (Silent.when _ (Silent.onDisk _)) fun _ => ?_
          refine after (Silent.read _) fun isDirectory => Sends.ite (fun _ => ?_) fun _ => ?_
          · exact Sends.refuse (Met.conclusion haccepted (Concluded.err _ session _))
          · refine after (Silent.loadEntry session _ _) fun newDir => ?_
            refine after (Silent.setTimeToFile session _ _) fun newDir => ?_
            refine after (Silent.when _ (Silent.resetParent session _ _)) fun _ => ?_
            exact after (Silent.track session _ _ _) fun _ => Sends.message hok

theorem removeDir_sends (htype : message.type = .RMD) :
    Sends (Met message) (removeDir session message) := by
  refine after (Silent.recoverIfNeeded session) fun _ => ?_
  cases hpath : (Validator.validatePath message.path).isSome with
  | false => exact rejected hpath (Met.silence (by simp [Accepted, htype, hpath]))
  | true =>
      have haccepted : Accepted message := by simp [Accepted, htype, hpath]
      have hok := fun code => Met.conclusion haccepted (Concluded.ok message.type session code)
      refine accepted hpath fun path => after (Silent.read _) fun el => ?_
      cases el with
      | none => exact Sends.message (hok _)
      | some el =>
          refine after (Silent.read _) fun elExists => Sends.ite (fun _ => ?_) fun _ => ?_
          · exact after (Silent.forget session _) fun _ => Sends.message (hok _)
          · refine Sends.ite (fun _ => ?_) fun _ => ?_
            · exact Sends.refuse (Met.conclusion haccepted (Concluded.err _ session _))
            · refine after (Silent.saveParent session _) fun entry => ?_
              refine after (Silent.onDisk _) fun paths => after (Silent.read _) fun disk => ?_
              refine after (Silent.orRaise (by decide) _) fun elementsToRemove => ?_
              refine after (Silent.onDisk _) fun count => ?_
              refine Sends.ite (fun _ => Sends.raise (by decide)) fun _ => ?_
              refine after (Silent.forgetAll session _) fun _ => ?_
              refine after (Silent.forget session _) fun _ => ?_
              exact after (Silent.resetParent session _ _) fun _ => Sends.message (hok _)

theorem sendBlocks_transfers (content : List (List Byte)) :
    Transfers (sendBlocks session content) := by
  induction content with
  | nil => exact .of_silent (Silent.pure ())
  | cons block content ih =>
      cases content with
      | nil => exact Transfers.message rfl
      | cons next content => exact Transfers.bind (Transfers.message rfl) ih

theorem sendElements_transfers (toSend : List (Text × DirectoryEntry)) :
    Transfers (sendElements session toSend) := by
  induction toSend with
  | nil => exact .of_silent (Silent.pure ())
  | cons element others ih =>
      refine Transfers.bind (Transfers.after (Silent.read _) fun currentExists => ?_) ih
      refine Transfers.ite (fun _ => .of_silent (Silent.onDatabase _)) fun _ => ?_
      refine Transfers.ite (fun _ => Transfers.message rfl) fun _ => ?_
      refine Transfers.ite (fun _ => ?_) fun _ => .of_silent (Silent.pure ())
      refine Transfers.after (Silent.loadEntry session _ _) fun effective => ?_
      refine Transfers.ite (fun _ => .of_silent (Silent.onDatabase _)) fun _ => ?_
      refine Transfers.bind (Transfers.message rfl) (Transfers.after (Silent.read _) fun status => ?_)
      cases status with
      | none => exact .of_silent (Silent.raise (by decide))
      | some node => cases node <;> exact sendBlocks_transfers session _

theorem retrieveUserData_sends (htype : message.type = .RETR) :
    Sends (Met message) (retrieveUserData session message) := by
  by_cases haccepted : Accepted message
  · have hsend : ∀ toSend, Sends (Met message)
        (sendElements session toSend >>= fun _ => sendOK session .retrieved) := by
      intro toSend out
      refine Meets.bind ((sendElements_transfers session toSend out).consequence
        (fun _ hs => hs) (fun _ _ hs => hs) fun _ _ hexception hskipped =>
          absurd hskipped hexception) fun _ => Meets.of_each fun start hstart => ?_
      obtain ⟨transfers, hout, htransfers⟩ := hstart
      refine ((Sends.message ?_ : Sends (fun sent => Met message (transfers ++ sent))
        (sendOK session .retrieved)) start.outgoing).consequence (fun s hs => by rw [hs])
          (fun _ s hs => ?_) fun _ s hs hskipped => ?_
      · refine Met.conclusion haccepted ⟨transfers, _, rfl, rfl, htransfers, ?_, ?_⟩
        · simp [htype]
        · exact fun _ => .inl rfl
      · obtain ⟨sent, hsent, hmet⟩ := hs
        exact ⟨transfers ++ sent, by rw [hsent, hout, List.append_assoc], hmet⟩
      · obtain ⟨sent, hsent, hmet⟩ := hs hskipped
        exact ⟨transfers ++ sent, by rw [hsent, hout, List.append_assoc], hmet⟩
    refine afterInterrupted ?_ hsend
    rw [collect]
    by_cases hall : message.all = true
    · rw [if_pos hall]
      exact .of_silent (Silent.bind (Silent.onDatabase _) fun macs => Silent.collectMacs session macs)
    · rw [if_neg hall]
      by_cases hmac : message.macAddress = []
      · rw [if_pos hmac]
        exact Interrupted.refuse (Met.conclusion haccepted (Concluded.err _ session _))
      · rw [if_neg hmac]
        have hvalid : (Validator.validateMacAddress message.macAddress).isSome = true := by
          simpa [Accepted, htype, hall, hmac] using haccepted
        obtain ⟨mac, hmac'⟩ := Option.isSome_iff_exists.mp hvalid
        rw [hmac']
        exact .of_silent (Silent.collectMac session mac)
  · have hfields := haccepted
    simp only [Accepted, htype, not_or, Bool.not_eq_true, Option.isSome_eq_false_iff,
      Option.isNone_iff_eq_none] at hfields
    obtain ⟨hall, hmac, hvalid⟩ := hfields
    have hcollect : collect session message = raise clientError := by
      rw [collect, if_neg (by simp [hall]), if_neg hmac, hvalid]
      rfl
    rw [retrieveUserData, hcollect]
    exact (nothing clientError (Met.silence haccepted) :
      Sends (Met message) (raise clientError : ServerProcedure Unit))

theorem dispatch_sends (message : ClientMessage) :
    Sends (Met message) (dispatch session message) := by
  have hrefuse : ∀ htype : Accepted message, Sends (Met message)
      (refuse session .unexpected (.protocolManager .unexpected) : ServerProcedure Unit) :=
    fun haccepted => Sends.refuse (Met.conclusion haccepted (Concluded.err _ session _))
  unfold dispatch
  cases htype : message.type with
  | PROB => exact probe_sends session htype
  | STOR => exact storeFile_sends session htype
  | DELE => exact removeFile_sends session htype
  | MKD => exact makeDir_sends session htype
  | RMD => exact removeDir_sends session htype
  | RETR => exact retrieveUserData_sends session htype
  | NOOP => exact hrefuse (by simp [Accepted, htype])
  | DATA => exact hrefuse (by simp [Accepted, htype])
  | AUTH => exact hrefuse (by simp [Accepted, htype])
  | unknown number => exact hrefuse (by simp [Accepted, htype])

end Handlers

/-! ## Calls of `receive` -/

/-- A call that returns has sent what handling its message sends. -/
theorem receive_sends {wanted : List ServerMessage → Prop} {session : Session}
    {s s' : ServerState} {message : ClientMessage}
    (hmessage : s.connection.incoming.head? = some message)
    (hsends : Sends wanted (dispatch session message))
    (hreceive : receive session s = .returned () s') :
    ∃ sent, s'.outgoing = s.outgoing ++ sent ∧ wanted sent := by
  obtain ⟨rest, hincoming⟩ : ∃ rest, s.connection.incoming = message :: rest := by
    cases hincoming : s.connection.incoming with
    | nil => simp [hincoming] at hmessage
    | cons first rest => exact ⟨rest, by simpa [hincoming] using hmessage⟩
  obtain ⟨first, s₁, hrecv, hrest⟩ := bind_returned_iff.mp hreceive
  have hfirst : first = message ∧ s₁.outgoing = s.outgoing := by
    simp only [recvMessage, read_bind_apply, hincoming, modify_bind_apply, pure_apply,
      Exit.returned.injEq] at hrecv
    exact ⟨hrecv.1.symm, by rw [← hrecv.2]; rfl⟩
  obtain ⟨rfl, hout⟩ := hfirst
  by_cases hversion : first.version ≠ session.protocolVersion
  · rw [if_pos hversion] at hrest
    simp [bind_returned_iff] at hrest
  · rw [if_neg hversion, catching_apply] at hrest
    have hends := hsends s.outgoing s₁ hout
    cases hrun : dispatch session first s₁ with
    | returned value s₂ =>
        rw [hrun] at hends hrest
        simp only [Exit.returned.injEq, true_and] at hrest
        rwa [← hrest]
    | raised exception s₂ =>
        rw [hrun] at hends hrest
        have hskipped : Skipped exception ∧ s' = s₂ := by
          cases exception with
          | protocolManager code =>
              cases code <;> simp_all [handleException, Skipped]
          | socket code => simp [handleException] at hrest
          | database code => simp [handleException, refuse, bind_returned_iff] at hrest
          | databasePwd => simp [handleException, refuse, bind_returned_iff] at hrest
          | config => simp [handleException, refuse, bind_returned_iff] at hrest
          | standard => simp [handleException, refuse, bind_returned_iff] at hrest
        rw [hskipped.2]
        exact hends hskipped.1

/-- A call that returns has met the message it read. -/
theorem receive_met {session : Session} {s s' : ServerState} {message : ClientMessage}
    (hmessage : s.connection.incoming.head? = some message)
    (hreceive : receive session s = .returned () s') :
    ∃ sent, s'.outgoing = s.outgoing ++ sent ∧ Met message sent :=
  receive_sends hmessage (dispatch_sends session message) hreceive

/-- A run of calls that return, each with the message it read and what was sent
in it.  Between two calls everything may change but what was sent. -/
inductive Serves (session : Session) :
    ServerState → List (ClientMessage × List ServerMessage) → ServerState → Prop where
  | done (s : ServerState) : Serves session s [] s
  | call {s s₁ s₂ s' : ServerState} {message : ClientMessage} {sent : List ServerMessage}
      {calls : List (ClientMessage × List ServerMessage)}
      (hmessage : s.connection.incoming.head? = some message)
      (hreceive : receive session s = .returned () s₁)
      (hsent : s₁.outgoing = s.outgoing ++ sent) (hbetween : s₂.outgoing = s₁.outgoing)
      (hrest : Serves session s₂ calls s') : Serves session s ((message, sent) :: calls) s'

theorem Serves.met {session : Session} {s s' : ServerState}
    {calls : List (ClientMessage × List ServerMessage)} (hserves : Serves session s calls s') :
    ∀ call ∈ calls, Met call.1 call.2 := by
  induction hserves with
  | done s => simp
  | call hmessage hreceive hsent hbetween hrest ih =>
      intro call hcall
      rcases List.mem_cons.mp hcall with rfl | hcall
      · obtain ⟨sent', hsent', hmet⟩ := receive_met hmessage hreceive
        rw [hsent'] at hsent
        rwa [← List.append_cancel_left hsent]
      · exact ih call hcall

theorem Met.answers {message : ClientMessage} {sent : List ServerMessage}
    (hmet : Met message sent) :
    sent.countP ServerMessage.isAnswer = if Accepted message then 1 else 0 := by
  unfold Met at hmet
  by_cases haccepted : Accepted message
  · rw [if_pos haccepted] at hmet ⊢
    exact hmet.answers
  · rw [if_neg haccepted] at hmet ⊢
    simp [hmet]

theorem Met.concluded_iff {message : ClientMessage} {sent : List ServerMessage}
    (hmet : Met message sent) : Concluded message.type sent ↔ Accepted message := by
  constructor
  · intro hconcluded
    by_contra haccepted
    have hanswers := hmet.answers
    rw [hconcluded.answers, if_neg haccepted] at hanswers
    simp at hanswers
  · intro haccepted
    rwa [Met, if_pos haccepted] at hmet

theorem Serves.answers {session : Session} {s s' : ServerState}
    {calls : List (ClientMessage × List ServerMessage)} (hserves : Serves session s calls s') :
    s'.answers = s.answers + calls.countP fun call => Accepted call.1 := by
  have hmet := hserves.met
  induction hserves with
  | done s => rfl
  | @call s s₁ s₂ s' message sent calls hmessage hreceive hsent hbetween hrest ih =>
      have hfirst := (hmet _ List.mem_cons_self).answers
      rw [ih fun call hcall => hmet call (List.mem_cons_of_mem _ hcall), ServerState.answers,
        hbetween, hsent, List.countP_append, hfirst, List.countP_cons, ServerState.answers]
      by_cases haccepted : Accepted message
      · simp [haccepted]
        omega
      · simp [haccepted]

/-- Over a run, each call concludes its request with one answer, and there are
as many answers as calls, exactly when the fields of every request pass the
validation. -/
theorem one_answer_per_call_iff {session : Session} {s s' : ServerState}
    {calls : List (ClientMessage × List ServerMessage)} (hserves : Serves session s calls s') :
    (∀ call ∈ calls, Concluded call.1.type call.2 ↔ Accepted call.1) ∧
      (s'.answers = s.answers + calls.length ↔ ∀ call ∈ calls, Accepted call.1) := by
  refine ⟨fun call hcall => (hserves.met call hcall).concluded_iff, ?_⟩
  rw [hserves.answers, Nat.add_left_cancel_iff, List.countP_eq_length]
  simp

/-- A directory, a file in it, and a request whose path is not accepted. -/
def filling : ServerState :=
  startSession annaDisk {}
    (mkdRequest "/d".toList :: storRequest "/d/f".toList 0 ++ [mkdRequest "docs".toList])

/-- The calls that serve them, with what each sends. -/
def fillingCalls : List (ClientMessage × List ServerMessage) :=
  [(mkdRequest "/d".toList, [okMessage annaSession .created]),
    ({ version := 1, type := .STOR, path := "/d/f".toList, lastWriteTime := epoch,
       hash := emptyFileHash }, [okMessage annaSession .created]),
    (mkdRequest "docs".toList, [])]

/-- The first two requests are concluded, and one answer is missing. -/
theorem one_answer_per_call_filling : ∃ s', Serves annaSession filling fillingCalls s' ∧
    Concluded .MKD [okMessage annaSession .created] ∧
      Concluded .STOR [okMessage annaSession .created] ∧ s'.answers ≠ filling.answers + 3 := by
  let made := (receive annaSession filling).state
  let stored := (receive annaSession made).state
  let ended := (receive annaSession stored).state
  have hmake : receive annaSession filling = .returned () made :=
    Exit.eq_returned_of_returns (by decide +kernel)
  have hstore : receive annaSession made = .returned () stored :=
    Exit.eq_returned_of_returns (by decide +kernel)
  have hend : receive annaSession stored = .returned () ended :=
    Exit.eq_returned_of_returns (by decide +kernel)
  have hserves : Serves annaSession filling fillingCalls ended :=
    .call rfl hmake (by decide +kernel) rfl <|
      .call (by decide +kernel) hstore (by decide +kernel) rfl <|
        .call (by decide +kernel) hend (by decide +kernel) rfl <| .done ended
  obtain ⟨hcalls, hcount⟩ := one_answer_per_call_iff hserves
  refine ⟨ended, hserves, (hcalls _ List.mem_cons_self).mpr (by decide +kernel),
    (hcalls _ (List.mem_cons_of_mem _ List.mem_cons_self)).mpr (by decide +kernel), fun hall => ?_⟩
  have haccepted : Accepted (mkdRequest "docs".toList) :=
    hcount.mp hall _ (List.mem_cons_of_mem _ (List.mem_cons_of_mem _ List.mem_cons_self))
  exact absurd haccepted (by decide +kernel)

/-- A request whose path does not begin with a slash is read, and never answered. -/
theorem not_one_answer_per_call :
    ¬ ∀ (session : Session) (s s' : ServerState) (message : ClientMessage),
      s.connection.incoming.head? = some message → message.version = session.protocolVersion →
      receive session s = .returned () s' →
      ∃ sent, s'.outgoing = s.outgoing ++ sent ∧ Concluded message.type sent := by
  intro hclaim
  have hreturns : (receive annaSession
      (startSession annaDisk {} [mkdRequest "docs".toList])).returns = true := by
    decide +kernel
  have hsilent : (receive annaSession
      (startSession annaDisk {} [mkdRequest "docs".toList])).state.outgoing = [] := by
    decide +kernel
  obtain ⟨sent, hsent, hconcluded⟩ := hclaim annaSession _ _ (mkdRequest "docs".toList) rfl rfl
    (Exit.eq_returned_of_returns hreturns)
  obtain ⟨transfers, answer, rfl, -⟩ := hconcluded
  rw [hsilent] at hsent
  simp at hsent

end PdsBackup.Server
