import PdsBackup.Client.Alignment
import Mathlib.Logic.Function.Basic

/-!
# What becomes of the events

Every event that `send` puts in the window is to stay there until it is answered
or its file has gone.  A socket that fails between the two window operations of
the SEND branch breaks this.  The confirmed events are entered into the table
`savedFiles`, which is to be what they say: inserting, updating or removing is
chosen by the type of the event alone.
-/

namespace PdsBackup.Client

open Procedure

section Settings

variable {settings : Settings} {account next : Account} {folder : FileTree} {left : Option Nat}

/-! ## Events in the window -/

/-- The entry is the event that got this ticket, or its successor. -/
def Waiting.StandsFor (waiting : Waiting) (ticket : Nat) (event : Event) : Prop :=
  waiting.ticket = ticket ∧ (waiting.event = event ∨ waiting.event = event.successor)

theorem Waiting.StandsFor.successor {waiting : Waiting} {ticket : Nat} {event : Event}
    (hstands : waiting.StandsFor ticket event) : waiting.successor.StandsFor ticket event := by
  apply And.intro hstands.1
  cases hstands.2 with
  | inl hsame => exact .inr (congrArg Event.successor hsame)
  | inr hsuccessor =>
      apply Or.inr
      rw [Waiting.successor, hsuccessor]
      rfl

variable (settings) in
/-- An OK or an ERR was processed, or the file had gone or changed. -/
def Departure.Justified (answers : List Answer) (departure : Departure) : Prop :=
  match departure.reason with
  | .answered answer => answer ∈ answers ∧ answer.waiting = departure.waiting ∧
      (answer.message.type = .OK ∨ answer.message.type = .ERR)
  | .dropped folder => intact settings.platform folder departure.waiting.event.element = false

theorem Departure.Justified.mono {answers more : List Answer} {departure : Departure}
    (hjustified : departure.Justified settings answers) (hanswers : answers <+: more) :
    departure.Justified settings more := by
  cases hreason : departure.reason with
  | answered answer =>
      simp only [Justified, hreason] at hjustified ⊢
      exact ⟨hanswers.subset hjustified.1, hjustified.2⟩
  | dropped folder =>
      simp only [Justified, hreason] at hjustified ⊢
      exact hjustified

variable (settings) in
/-- The event is in the window, or it has left it for a reason. -/
def Account.AccountsFor (account : Account) (ticket : Nat) (event : Event) : Prop :=
  (∃ waiting ∈ account.waiting, waiting.StandsFor ticket event) ∨
    ∃ departure ∈ account.history.departures,
      departure.waiting.StandsFor ticket event ∧
        departure.Justified settings account.history.answers

variable (settings) in
/-- No event is lost. -/
def Account.Accounted (account : Account) : Prop :=
  ∀ ticket event, account.history.entered[ticket]? = some event →
    account.AccountsFor settings ticket event

/-- Every entry stays, has a successor or leaves for a reason. -/
theorem Account.AccountsFor.carry {ticket : Nat} {event : Event}
    (haccounts : account.AccountsFor settings ticket event)
    (hdepartures : account.history.departures <+: next.history.departures)
    (hanswers : account.history.answers <+: next.history.answers)
    (hwaiting : ∀ waiting ∈ account.waiting, waiting ∈ next.waiting ∨
      waiting.successor ∈ next.waiting ∨ ∃ departure ∈ next.history.departures,
        departure.waiting = waiting ∧ departure.Justified settings next.history.answers) :
    next.AccountsFor settings ticket event := by
  cases haccounts with
  | inl hwaits =>
      obtain ⟨waiting, hmem, hstands⟩ := hwaits
      rcases hwaiting waiting hmem with hstays | hsucceeded | ⟨departure, hdeparted, rfl, hjustified⟩
      · exact .inl ⟨waiting, hstays, hstands⟩
      · exact .inl ⟨waiting.successor, hsucceeded, hstands.successor⟩
      · exact .inr ⟨departure, hdeparted, hstands, hjustified⟩
  | inr hdeparted =>
      obtain ⟨departure, hmem, hstands, hjustified⟩ := hdeparted
      exact .inr ⟨departure, hdepartures.subset hmem, hstands, hjustified.mono hanswers⟩

theorem Account.Accounted.carry (haccounted : account.Accounted settings)
    (hentered : next.history.entered = account.history.entered)
    (hdepartures : account.history.departures <+: next.history.departures)
    (hanswers : account.history.answers <+: next.history.answers)
    (hwaiting : ∀ waiting ∈ account.waiting, waiting ∈ next.waiting ∨
      waiting.successor ∈ next.waiting ∨ ∃ departure ∈ next.history.departures,
        departure.waiting = waiting ∧ departure.Justified settings next.history.answers) :
    next.Accounted settings := by
  intro ticket event hevent
  rw [hentered] at hevent
  exact (haccounted ticket event hevent).carry hdepartures hanswers hwaiting

/-- Nothing is taken from the window. -/
theorem Account.Accounted.of_subset (haccounted : account.Accounted settings)
    (hentered : next.history.entered = account.history.entered)
    (hdepartures : account.history.departures <+: next.history.departures)
    (hanswers : account.history.answers <+: next.history.answers)
    (hwaiting : account.waiting ⊆ next.waiting) : next.Accounted settings :=
  haccounted.carry hentered hdepartures hanswers fun _ hmem => .inl (hwaiting hmem)

/-- The head leaves for a reason. -/
theorem Account.Accounted.depart {head : Waiting} {others : List Waiting} {reason : Reason}
    (haccounted : account.Accounted settings) (hwaiting : account.waiting = head :: others)
    (hnext : next.waiting = others) (hentered : next.history.entered = account.history.entered)
    (hdepartures : next.history.departures = account.history.departures ++ [⟨head, reason⟩])
    (hanswers : account.history.answers <+: next.history.answers)
    (hjustified : Departure.Justified settings next.history.answers ⟨head, reason⟩) :
    next.Accounted settings := by
  apply haccounted.carry hentered _ hanswers
  · intro waiting hmem
    rw [hwaiting] at hmem
    cases List.mem_cons.mp hmem with
    | inl hhead =>
        rw [hhead, hdepartures]
        exact .inr (.inr ⟨_, List.mem_concat_self, rfl, hjustified⟩)
    | inr hothers => exact .inl (hnext ▸ hothers)
  · rw [hdepartures]
    exact List.prefix_append _ _

theorem Account.Accounted.sending {event : Event} {accepted : Bool}
    (haccounted : account.Accounted settings)
    (hsending : Sending settings account event accepted next) : next.Accounted settings := by
  cases hsending with
  | full => exact haccounted
  | unsupported => exact haccounted
  | sent =>
      intro ticket entered hentered
      cases getElem?_concat hentered with
      | inl hold =>
          apply Account.AccountsFor.carry (haccounted ticket entered hold)
          · exact List.prefix_rfl
          · exact List.prefix_rfl
          · exact fun waiting hmem => .inl (List.mem_append_left _ hmem)
      | inr hlast =>
          exact .inl ⟨_, List.mem_concat_self, hlast.1.symm, .inl hlast.2⟩

/-! ## Runs without a failure between the window operations -/

variable (settings) in
/-- The next message makes the head a successor, and the socket fails when the
request for it is written. -/
def Interruptible (system : System) : Prop :=
  system.client.connection.operationsLeft = some 1 ∧
    ∃ head message, system.client.waitingForResponse.toList.head? = some head ∧
      system.client.connection.incoming.head? = some message ∧
      settings.protocolVersion = message.version ∧ message.type = .SEND ∧
      Wanted head.event message ∧
      intact settings.platform system.client.folder head.event.element = true

variable (settings) in
/-- The connection may fail, but not where an event would be lost. -/
def Uninterrupted (system : System) : Action → Prop
  | .readable => ¬ Interruptible settings system
  | _ => True

theorem Account.Accounted.receiving {ending : Option ClientException}
    (haccounted : account.Accounted settings)
    (hreceiving : Receiving settings folder left account ending next)
    (hended : Phase.after ending ≠ .ended)
    (huninterrupted : left = some 1 → ∀ head others message incoming,
      account.waiting = head :: others → account.incoming = message :: incoming →
      settings.protocolVersion = message.version → message.type = .SEND →
      Wanted head.event message → intact settings.platform folder head.event.element = false) :
    next.Accounted settings := by
  cases hreceiving with
  | unread => exact haccounted
  | rejected hwaiting hincoming =>
      exact haccounted.of_subset rfl List.prefix_rfl (List.prefix_append _ _)
        (List.Subset.refl _)
  | unreadable => exact absurd rfl hended
  | confirmed hwaiting hincoming htype =>
      exact haccounted.depart hwaiting rfl rfl rfl (List.prefix_append _ _)
        ⟨List.mem_concat_self, rfl, .inl htype⟩
  | refused hwaiting hincoming htype =>
      exact haccounted.depart hwaiting rfl rfl rfl (List.prefix_append _ _)
        ⟨List.mem_concat_self, rfl, .inr htype⟩
  | dropped hwaiting hincoming htype hwanted hintact =>
      exact haccounted.depart hwaiting rfl rfl rfl (List.prefix_append _ _)
        hintact
  | interrupted hwaiting hincoming hversion htype hwanted hintact hleft =>
      rw [huninterrupted hleft _ _ _ _ hwaiting hincoming hversion htype hwanted] at hintact
      exact absurd hintact (by simp)
  | @succeeded head others _ _ _ _ hwaiting =>
      refine haccounted.carry rfl List.prefix_rfl (List.prefix_append _ _) ?_
      intro waiting hmem
      rw [hwaiting] at hmem
      cases List.mem_cons.mp hmem with
      | inl hhead => exact .inr (.inl (hhead ▸ List.mem_concat_self))
      | inr hothers => exact .inl (List.mem_append_left _ hothers)

theorem accounted_step {system next : System} {action : Action}
    (haccounted : system.phase ≠ .ended → system.client.account.Accounted settings)
    (huninterrupted : Uninterrupted settings system action)
    (hstep : step settings action system = some next) (hended : next.phase ≠ .ended) :
    next.client.account.Accounted settings := by
  have hkeeps : next.client.account = system.client.account → system.phase ≠ .ended →
      next.client.account.Accounted settings := fun haccount hphase =>
    haccount ▸ haccounted hphase
  have hrunning : ∀ {phase : Phase}, system.phase = phase → phase ≠ .ended →
      system.client.account.Accounted settings := fun hphase hne =>
    haccounted (hphase ▸ hne)
  cases stepped_of_step hstep with
  | change haccount hphase => exact hkeeps haccount (hphase ▸ hended)
  | detect hclient hphase => exact hkeeps (by rw [hclient]) (hphase ▸ hended)
  | weaken haccount hphase => exact hkeeps haccount (hphase ▸ hended)
  | arrive hconnected haccount =>
      rw [haccount]
      exact (hrunning hconnected (by decide)).of_subset rfl List.prefix_rfl List.prefix_rfl
        (List.Subset.refl _)
  | connected hdisconnected _ haccount =>
      rw [haccount]
      exact (hrunning hdisconnected (by decide)).of_subset rfl List.prefix_rfl List.prefix_rfl
        (List.Subset.refl _)
  | unconnected hdisconnected haccount =>
      rw [haccount]
      exact (hrunning hdisconnected (by decide)).of_subset rfl List.prefix_rfl List.prefix_rfl
        (List.Subset.refl _)
  | sent hconnected hsending => exact (hrunning hconnected (by decide)).sending hsending
  | unsent hconnected haccount => exact hkeeps haccount (by simp [hconnected])
  | closed hconnected _ haccount => exact hkeeps haccount (by simp [hconnected])
  | received hconnected hreceiving hphase =>
      apply (hrunning hconnected (by decide)).receiving hreceiving (hphase ▸ hended)
      intro hleft head others message incoming hwaiting hincoming hversion htype hwanted
      by_contra hintact
      apply huninterrupted
      have hhead : system.client.account.waiting.head? = some head := by rw [hwaiting]; rfl
      have hmessage : system.client.account.incoming.head? = some message := by
        rw [hincoming]; rfl
      exact ⟨hleft, head, message, hhead, hmessage, hversion, htype, hwanted,
        (Bool.not_eq_false _).mp hintact⟩
  | unasked hconnected _ hwaiting hrecorded =>
      refine (hrunning hconnected (by decide)).carry hrecorded.1 hrecorded.2.1 hrecorded.2.2 ?_
      intro waiting hmem
      rw [hwaiting] at hmem
      exact absurd hmem (by simp)
  | disconnect hconnected hclient =>
      exact hkeeps (by rw [hclient]) (by simp [hconnected])

/-- The client before its first connection. -/
structure Fresh (start : System) : Prop where
  phase : start.phase = .disconnected
  waiting : start.client.waitingForResponse.toList = []
  history : start.client.history = {}

variable (settings) in
/-- The server answers in order, no entry is passed over when the window is re-sent,
and the socket does not fail between the two window operations of a SEND. -/
def Undisturbed (system : System) (action : Action) : Prop :=
  Lawful settings system action ∧ Uninterrupted settings system action

variable (settings) in
/-- Every event is in the window or has left it for a reason, and the answers that
are reasons were answers to the request for the event. -/
structure NoneLost (system : System) : Prop where
  accounted : system.client.account.Accounted settings
  answers : ∀ answer ∈ system.client.history.answers, answer.Matched settings

theorem Fresh.kept {start : System} (hfresh : Fresh start) : Kept settings {} start := by
  apply Kept.mk
  · intro hconnected
    simp [hfresh.phase] at hconnected
  · rw [hfresh.history]
    exact Since.of_length _ _
  · rw [hfresh.history]
    exact Since.of_length _ _

theorem Fresh.accounted {start : System} (hfresh : Fresh start) :
    start.client.account.Accounted settings := by
  intro ticket event hevent
  have hentered : start.client.account.history.entered = [] :=
    congrArg History.entered hfresh.history
  rw [hentered] at hevent
  exact absurd hevent (by simp)

/-- In every run that is not disturbed no event is lost. -/
theorem none_lost {start system : System} {actions : List Action} (hfresh : Fresh start)
    (hrun : Run settings (Undisturbed settings) start actions system)
    (hrunning : system.phase ≠ .ended) : NoneLost settings system := by
  constructor
  · induction hrun with
    | start => exact hfresh.accounted
    | turn _ hallowed hstep ih => exact accounted_step ih hallowed.2 hstep hrunning
  · exact (hfresh.kept.run (fun _ _ => And.left) hrun).answers.forall_mem

theorem fresh_clientWith (folder : FileTree) (room : Nat) (eventQueue : List Event) :
    Fresh ⟨clientWith folder room [], eventQueue, .disconnected⟩ where
  phase := rfl
  waiting := by
    rw [CircularVector.toList_eq_nil_iff]
    rfl
  history := rfl

/-- A connection fails while the window is sent again, and the next one does not. -/
def retrying : List Action :=
  [.detect { element := directoryElement "/b".toList, type := .created }, .connect none,
    .writable, .weaken (some 0), .readable, .connect (some 0), .connect none,
    .arrive (serverMessage .OK 1), .readable]

theorem none_lost_retrying :
    ∃ system, Run homeSettings (Undisturbed homeSettings)
        ⟨clientWith homeFolder 1 [], [], .disconnected⟩ retrying system ∧
      NoneLost homeSettings system := by
  have hperforms : (performs homeSettings (fun system action =>
      decide (Lawful homeSettings system action) &&
        system.client.connection.operationsLeft ≠ some 1) retrying
      ⟨clientWith homeFolder 1 [], [], .disconnected⟩).any
        (fun system => system.phase ≠ .ended) = true := by
    decide +kernel
  have hchecked : ∀ system action, (decide (Lawful homeSettings system action) &&
      system.client.connection.operationsLeft ≠ some 1) = true →
        Undisturbed homeSettings system action := by
    intro system action hcheck
    rw [Bool.and_eq_true, decide_eq_true_eq, decide_eq_true_eq] at hcheck
    apply And.intro hcheck.1
    cases action with
    | readable => exact fun hinterruptible => hcheck.2 hinterruptible.1
    | _ => trivial
  obtain ⟨system, hrun, hphase⟩ := exists_run_of_performs hchecked hperforms
  exact ⟨system, hrun, none_lost (fresh_clientWith homeFolder 1 []) hrun
    (of_decide_eq_true hphase)⟩

/-- The file is wanted, and the socket fails after the answer was read. -/
def losing : List Action :=
  [.change sendingFolder, .connect none,
    .detect { element := fileElement "/a".toList, type := .created }, .writable,
    .arrive (sendMessage (fileElement "/a".toList)), .weaken (some 1), .readable]

/-- The event is neither in the window nor has it left for a reason. -/
theorem not_none_lost :
    ¬ ∀ (settings : Settings) (start system : System) (actions : List Action), Fresh start →
      Run settings (Lawful settings) start actions system → system.phase ≠ .ended →
        NoneLost settings system := by
  intro hall
  have hperforms : (performs homeSettings (fun system action =>
      decide (Lawful homeSettings system action)) losing
      ⟨clientWith homeFolder 1 [], [], .disconnected⟩).any (fun system =>
        system.phase ≠ .ended && system.client.history.entered.length == 1 &&
          system.client.waitingForResponse.toList.isEmpty &&
          system.client.history.departures.isEmpty) = true := by
    decide +kernel
  obtain ⟨system, hrun, htest⟩ :=
    exists_run_of_performs (fun _ _ => of_decide_eq_true) hperforms
  simp only [Bool.and_eq_true, decide_eq_true_eq, beq_iff_eq, List.isEmpty_iff] at htest
  obtain ⟨⟨⟨hphase, hentered⟩, hwaiting⟩, hdepartures⟩ := htest
  have hnone := hall _ _ _ _ (fresh_clientWith homeFolder 1 []) hrun hphase
  obtain ⟨event, hevent⟩ := List.length_eq_one_iff.mp hentered
  have hfirst : system.client.account.history.entered[0]? = some event := by
    show system.client.history.entered[0]? = some event
    rw [hevent]
    rfl
  rcases hnone.accounted 0 event hfirst with ⟨waiting, hmem, -⟩ | ⟨departure, hmem, -⟩
  · have hempty : system.client.account.waiting = [] := hwaiting
    rw [hempty] at hmem
    exact absurd hmem (by simp)
  · have hempty : system.client.account.history.departures = [] := hdepartures
    rw [hempty] at hmem
    exact absurd hmem (by simp)

/-! ## The table of what was confirmed -/

/-- A table of rows by their paths. -/
abbrev Table := Text → Option Row

def tableOf (rows : List Row) : Table := fun path => Database.rowAt path rows

/-- What the table is to be after an event was confirmed. -/
def recorded (table : Table) (event : Event) : Table :=
  match event.type with
  | .created | .modified | .storeSent =>
      Function.update table event.element.relativePath (some (Row.ofEntry event.element))
  | .deleted => Function.update table event.element.relativePath none
  | .notAStatus => table

/-- The event that an OK has confirmed. -/
def Departure.confirmed (departure : Departure) : Option Event :=
  match departure.reason with
  | .answered answer => if answer.message.type = .OK then some departure.waiting.event else none
  | .dropped _ => none

/-- The events that were confirmed, in the order in which they left the window. -/
def acknowledged (departures : List Departure) : List Event :=
  departures.filterMap Departure.confirmed

theorem acknowledged_concat (departures : List Departure) (departure : Departure) :
    acknowledged (departures ++ [departure]) =
      acknowledged departures ++ departure.confirmed.toList := by
  rw [acknowledged, List.filterMap_append]
  cases hconfirmed : departure.confirmed with
  | none => rw [List.filterMap_cons_none hconfirmed]; rfl
  | some event => rw [List.filterMap_cons_some hconfirmed]; rfl

/-- Where a row is to be updated, there is one. -/
def Founded (rows : List Row) (event : Event) : Prop :=
  event.type = .modified → (Database.rowAt event.element.relativePath rows).isSome = true

/-- The statement chosen by the type does what the event says exactly if a row that
it updates exists. -/
theorem tableOf_savedRows_iff (rows : List Row) (event : Event) :
    tableOf (savedRows event rows) = recorded (tableOf rows) event ↔ Founded rows event := by
  cases htype : event.type with
  | notAStatus => simp [Founded, savedRows, recorded, htype]
  | created | storeSent =>
      simp only [Founded, savedRows, recorded, htype, reduceCtorEq, false_implies, iff_true]
      funext path
      rw [Function.update_apply]
      exact Database.rowAt_insertRow event.element path rows
  | deleted =>
      simp only [Founded, savedRows, recorded, htype, reduceCtorEq, false_implies, iff_true]
      funext path
      rw [Function.update_apply]
      exact Database.rowAt_removeRow event.element.relativePath path rows
  | modified =>
      simp only [Founded, savedRows, recorded, htype, true_implies]
      constructor
      · intro hequal
        have hown := congrFun hequal event.element.relativePath
        rw [Function.update_self, tableOf, Database.rowAt_updateRow, if_pos rfl] at hown
        rw [← Option.isSome_map, hown]
        rfl
      · intro hfounded
        funext path
        rw [Function.update_apply, tableOf, Database.rowAt_updateRow]
        split
        · rename_i hpath
          rw [hpath]
          obtain ⟨row, hrow⟩ := Option.isSome_iff_exists.mp hfounded
          rw [hrow]
          rfl
        · rfl

/-- The server answers in order and each request at most once. -/
def Orderly (system : System) : Action → Prop
  | .arrive _ => system.expects
  | _ => True

instance Orderly.decidable (system : System) (action : Action) :
    Decidable (Orderly system action) :=
  match action with
  | .arrive _ => inferInstanceAs (Decidable (_ < _))
  | .connect _ => .isTrue trivial
  | .change _ => .isTrue trivial
  | .detect _ => .isTrue trivial
  | .weaken _ => .isTrue trivial
  | .writable => .isTrue trivial
  | .readable => .isTrue trivial
  | .disconnect => .isTrue trivial

/-- An OK for a modified element finds its row. -/
def Grounded (system : System) : Action → Prop
  | .readable => ∀ head message,
      system.client.waitingForResponse.toList.head? = some head →
      system.client.connection.incoming.head? = some message → message.type = .OK →
      Founded system.client.database.rows head.event
  | _ => True

/-- Every message that arrives finds an entry in the window. -/
structure Account.Covered (account : Account) : Prop where
  window : account.window.Covers
  solicited : account.Solicited

theorem Account.Covered.sending {event : Event} {accepted : Bool} (hcovered : account.Covered)
    (hsending : Sending settings account event accepted next) : next.Covered := by
  apply Account.Covered.mk _ (hcovered.solicited.sending hsending)
  cases hsending.move with
  | inl hsame =>
      rw [hsame]
      exact hcovered.window
  | inr hmove => exact hcovered.window.move hmove

variable (settings) in
/-- Whatever is passed over when the window is sent again, there are no more
requests than entries. -/
theorem covered_resent : (account.fresh.asksAll
    (resent settings folder account.waiting)).Covered := by
  constructor
  · show ([] ++ resent settings folder account.waiting).length ≤ 0 + account.waiting.length
    rw [List.nil_append, Nat.zero_add]
    exact (length_resent_le settings account.waiting).trans (List.length_filter_le _ _)
  · exact Nat.zero_le _

/-- The table is what the confirmed events say. -/
structure Recording (start system : System) : Prop where
  covered : system.phase = .connected → system.client.account.Covered
  table : tableOf system.client.database.rows =
    (acknowledged system.client.history.departures).foldl recorded
      (tableOf start.client.database.rows)

theorem Recording.of_departures {start system next : System} (hrecording : Recording start system)
    (hcovered : next.phase = .connected → next.client.account.Covered)
    (hrows : next.client.database.rows = system.client.database.rows)
    (hacknowledged : acknowledged next.client.history.departures =
      acknowledged system.client.history.departures) : Recording start next where
  covered := hcovered
  table := by rw [hrows, hacknowledged, hrecording.table]

theorem Recording.of_account {start system next : System} (hrecording : Recording start system)
    (hcovered : next.phase = .connected → next.client.account.Covered)
    (haccount : next.client.account = account)
    (hdatabase : account.database = system.client.account.database)
    (hhistory : account.history = system.client.account.history) : Recording start next := by
  rw [← haccount] at hdatabase hhistory
  exact hrecording.of_departures hcovered (congrArg Database.rows hdatabase)
    (congrArg (fun history => acknowledged history.departures) hhistory)

theorem Recording.received {start system next : System} {ending : Option ClientException}
    (hrecording : Recording start system) (hconnected : system.phase = .connected)
    (hgrounded : Grounded system .readable)
    (hreceiving : Receiving settings system.client.folder left system.client.account ending
      next.client.account)
    (hphase : next.phase = Phase.after ending) : Recording start next := by
  have hcovered : next.phase = .connected → next.client.account.Covered := by
    intro hnext
    rw [hphase] at hnext
    rw [eq_none_of_after hnext] at hreceiving
    exact ⟨(hrecording.covered hconnected).window.move hreceiving.move,
      (hrecording.covered hconnected).solicited.receiving hreceiving⟩
  generalize haccount : next.client.account = account at hreceiving
  have hrows : next.client.database.rows = account.database.rows :=
    congrArg (fun account => account.database.rows) haccount
  have hdepartures : next.client.history.departures = account.history.departures :=
    congrArg (fun account => account.history.departures) haccount
  cases hreceiving with
  | unread =>
      exact hrecording.of_departures hcovered hrows (congrArg acknowledged hdepartures)
  | rejected =>
      exact hrecording.of_departures hcovered hrows (congrArg acknowledged hdepartures)
  | unreadable =>
      exact hrecording.of_departures hcovered hrows (congrArg acknowledged hdepartures)
  | @confirmed head others message incoming hwaiting hincoming htype =>
      apply Recording.mk hcovered
      rw [hrows, hdepartures]
      have hfounded : Founded system.client.database.rows head.event := by
        have hhead : system.client.account.waiting.head? = some head := by rw [hwaiting]; rfl
        have hmessage : system.client.account.incoming.head? = some message := by
          rw [hincoming]; rfl
        exact hgrounded head message hhead hmessage htype
      have hconfirmed : Departure.confirmed ⟨head, .answered
          (system.client.account.answerOf head message)⟩ = some head.event := if_pos htype
      have hleave : acknowledged (system.client.history.departures ++
          [⟨head, .answered (system.client.account.answerOf head message)⟩]) =
            acknowledged system.client.history.departures ++ [head.event] := by
        rw [acknowledged_concat, hconfirmed]
        rfl
      calc tableOf (savedRows head.event system.client.database.rows)
        _ = recorded (tableOf system.client.database.rows) head.event :=
          (tableOf_savedRows_iff _ _).mpr hfounded
        _ = (acknowledged system.client.history.departures ++ [head.event]).foldl recorded
            (tableOf start.client.database.rows) := by
          rw [List.foldl_append, ← hrecording.table]
          rfl
        _ = _ := by rw [← hleave]; rfl
  | @refused head _ message _ _ _ htype =>
      apply hrecording.of_departures hcovered hrows
      have hrefused : Departure.confirmed ⟨head, .answered
          (system.client.account.answerOf head message)⟩ = none :=
        if_neg (by simp [Account.answerOf, htype])
      rw [hdepartures]
      exact (acknowledged_concat _ _).trans (by rw [hrefused]; exact List.append_nil _)
  | dropped =>
      apply hrecording.of_departures hcovered hrows
      rw [hdepartures]
      exact (acknowledged_concat _ _).trans (List.append_nil _)
  | interrupted =>
      exact hrecording.of_departures hcovered hrows (congrArg acknowledged hdepartures)
  | succeeded =>
      exact hrecording.of_departures hcovered hrows (congrArg acknowledged hdepartures)

theorem Recording.sent {start system next : System} {event : Event} {accepted : Bool}
    (hrecording : Recording start system) (hconnected : system.phase = .connected)
    (hsending : Sending settings system.client.account event accepted next.client.account) :
    Recording start next := by
  have hcovered := (hrecording.covered hconnected).sending hsending
  generalize haccount : next.client.account = account at hsending
  have hrows : next.client.database.rows = account.database.rows :=
    congrArg (fun account => account.database.rows) haccount
  have hdepartures : next.client.history.departures = account.history.departures :=
    congrArg (fun account => account.history.departures) haccount
  cases hsending with
  | full =>
      exact hrecording.of_departures (fun _ => hcovered) hrows (congrArg acknowledged hdepartures)
  | unsupported =>
      exact hrecording.of_departures (fun _ => hcovered) hrows (congrArg acknowledged hdepartures)
  | sent =>
      exact hrecording.of_departures (fun _ => hcovered) hrows (congrArg acknowledged hdepartures)

theorem Recording.step {start system next : System} {action : Action}
    (hrecording : Recording start system) (horderly : Orderly system action)
    (hgrounded : Grounded system action) (hstep : step settings action system = some next) :
    Recording start next := by
  have hkeeps : next.client.account = system.client.account →
      (next.phase = .connected → system.phase = .connected) → Recording start next := by
    intro haccount hphase
    refine hrecording.of_account ?_ haccount rfl rfl
    intro hnext
    rw [haccount]
    exact hrecording.covered (hphase hnext)
  cases stepped_of_step hstep with
  | change haccount hphase => exact hkeeps haccount (hphase ▸ id)
  | detect hclient hphase => exact hkeeps (by rw [hclient]) (hphase ▸ id)
  | weaken haccount hphase => exact hkeeps haccount (hphase ▸ id)
  | arrive hconnected haccount =>
      refine hrecording.of_account ?_ haccount rfl rfl
      intro _
      rw [haccount]
      exact ⟨(hrecording.covered hconnected).window, Account.Solicited.arriving horderly⟩
  | connected _ _ haccount =>
      refine hrecording.of_account ?_ haccount rfl rfl
      intro _
      rw [haccount]
      exact covered_resent settings
  | unconnected _ haccount hphase =>
      exact hrecording.of_account (fun hnext => absurd hnext hphase) haccount rfl rfl
  | sent hconnected hsending => exact hrecording.sent hconnected hsending
  | unsent hconnected haccount => exact hkeeps haccount fun _ => hconnected
  | closed hconnected _ haccount => exact hkeeps haccount fun _ => hconnected
  | received hconnected hreceiving hphase =>
      exact hrecording.received hconnected hgrounded hreceiving hphase
  | unasked hconnected hincoming hwaiting =>
      have hcovered := hrecording.covered hconnected
      exact absurd hwaiting
        (hcovered.window.waiting_ne_nil (hcovered.solicited.lt hincoming))
  | disconnect hconnected hclient => exact hkeeps (by rw [hclient]) fun _ => hconnected

/-- If every OK for a modified element finds the row of its path, the table is always
what the confirmed events say. -/
theorem table_records_acknowledged {start system : System} {actions : List Action}
    (hfresh : Fresh start)
    (hrun : Run settings (fun system action => Orderly system action ∧ Grounded system action)
      start actions system) :
    tableOf system.client.database.rows =
      (acknowledged system.client.history.departures).foldl recorded
        (tableOf start.client.database.rows) := by
  have hrecording : Recording start system := by
    induction hrun with
    | start =>
        apply Recording.mk fun hconnected => by simp [hfresh.phase] at hconnected
        rw [hfresh.history]
        rfl
    | turn _ hallowed hstep ih => exact ih.step hallowed.1 hallowed.2 hstep
  exact hrecording.table

/-- A directory is created and then modified; both are confirmed. -/
def modifying (code : Nat) (type : ServerMessage.Type) : List Action :=
  [.connect none, .detect { element := directoryElement "/b".toList, type := .created },
    .writable, .arrive (serverMessage type code), .readable,
    .detect { element := directoryElement "/b".toList, type := .modified }, .writable,
    .arrive (serverMessage .OK OkCode.created.code), .readable]

theorem table_records_modified :
    ∃ system, Run homeSettings (fun system action => Orderly system action ∧ Grounded system action)
        ⟨clientWith homeFolder 1 [], [], .disconnected⟩
        (modifying OkCode.created.code .OK) system ∧
      tableOf system.client.database.rows =
        (acknowledged system.client.history.departures).foldl recorded (tableOf []) := by
  have hperforms : (performs homeSettings (fun system action =>
      decide (Orderly system action) &&
        system.client.waitingForResponse.toList.head?.all fun head =>
          head.event.type ≠ .modified ||
            (Database.rowAt head.event.element.relativePath system.client.database.rows).isSome)
      (modifying OkCode.created.code .OK)
      ⟨clientWith homeFolder 1 [], [], .disconnected⟩).any (fun _ => true) = true := by
    decide +kernel
  have hchecked : ∀ system action, (decide (Orderly system action) &&
      system.client.waitingForResponse.toList.head?.all fun head =>
        head.event.type ≠ .modified ||
          (Database.rowAt head.event.element.relativePath
            system.client.database.rows).isSome) = true →
        Orderly system action ∧ Grounded system action := by
    intro system action hcheck
    rw [Bool.and_eq_true, decide_eq_true_eq] at hcheck
    apply And.intro hcheck.1
    cases action with
    | readable =>
        intro head message hhead _ _ hmodified
        have hrow := hcheck.2
        rw [hhead, Option.all_some, hmodified] at hrow
        simpa using hrow
    | _ => trivial
  obtain ⟨system, hrun, -⟩ := exists_run_of_performs hchecked hperforms
  exact ⟨system, hrun, table_records_acknowledged (fresh_clientWith homeFolder 1 []) hrun⟩

/-- The directory was refused when it was created: there is no row to update. -/
theorem not_table_records :
    ¬ ∀ (settings : Settings) (start system : System) (actions : List Action), Fresh start →
      Run settings Orderly start actions system →
        tableOf system.client.database.rows =
          (acknowledged system.client.history.departures).foldl recorded
            (tableOf start.client.database.rows) := by
  intro hall
  have hperforms : (performs homeSettings (fun system action => decide (Orderly system action))
      (modifying ErrCode.notADir.code .ERR)
      ⟨clientWith homeFolder 1 [], [], .disconnected⟩).any (fun system =>
        system.client.database.rows.isEmpty &&
          acknowledged system.client.history.departures ==
            [{ element := directoryElement "/b".toList, type := .modified }]) = true := by
    decide +kernel
  obtain ⟨system, hrun, htest⟩ :=
    exists_run_of_performs (fun _ _ => of_decide_eq_true) hperforms
  rw [Bool.and_eq_true, List.isEmpty_iff, beq_iff_eq] at htest
  have htable := hall _ _ _ _ (fresh_clientWith homeFolder 1 []) hrun
  rw [htest.1, htest.2] at htable
  exact absurd (congrFun htable "/b".toList) (by decide)

end Settings

end PdsBackup.Client
