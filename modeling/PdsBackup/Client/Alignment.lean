import PdsBackup.Client.Communicate

/-!
# The window and the answers

As long as the server answers each request of a connection once and in order, and
no entry is passed over when the window is re-sent, the window is the list of the
unanswered requests: the calls of the client are moves of a sliding window.  On one
connection without failures this needs no more; after a reconnection it needs that
every file whose transfer had begun is still there as it was.
-/

namespace PdsBackup.Client

open Procedure

section Settings

variable (settings : Settings)

/-- The request an entry of the window waits for. -/
def asked (waiting : Waiting) : Option ClientMessage := requestOf settings waiting.event

variable {settings} {folder : FileTree} {left : Option Nat} {account next : Account}

/-! ## Calls as moves -/

theorem Sending.move {event : Event} {accepted : Bool}
    (hsending : Sending settings account event accepted next) :
    next = account ∨ SlidingWindow.Move (asked settings) account.window next.window := by
  cases hsending with
  | full => exact .inl rfl
  | unsupported => exact .inl rfl
  | sent hrequest => exact .inr (.ask hrequest)

/-- A call of `receive` that returns settles the head or makes it the tail. -/
theorem Receiving.move (hreceiving : Receiving settings folder left account none next) :
    SlidingWindow.Move (asked settings) account.window next.window := by
  cases hreceiving with
  | confirmed hwaiting => exact .settle hwaiting
  | refused hwaiting => exact .settle hwaiting
  | dropped hwaiting => exact .settle hwaiting
  | succeeded hwaiting _ _ _ _ hrequest => exact .succeed hwaiting hrequest

/-- What every call of `receive` does that gets to read a message. -/
structure Taken (account next : Account) (head : Waiting) (message : ServerMessage) : Prop where
  head_eq : account.waiting.head? = some head
  incoming : account.incoming = message :: next.incoming
  received : next.received = account.received + 1
  requests : account.requests <+: next.requests
  entered : next.history.entered = account.history.entered
  answers : next.history.answers = account.history.answers ++ [account.answerOf head message]
  departures : account.history.departures <+: next.history.departures
  calls : ∃ calls, next.history.calls = account.history.calls ++ calls ∧
    ∀ call ∈ calls, call.allowed = true

theorem Receiving.taken {ending : Option ClientException}
    (hreceiving : Receiving settings folder left account ending next) :
    next = account ∧ ending.any ClientException.isSocket = true ∧
        (left = none → account.incoming = []) ∨
      ∃ head message, Taken account next head message := by
  have hcalls : ∀ {calls all : List WindowCall}, all = account.history.calls ++ calls →
      (calls.all fun call => call.allowed) = true →
      ∃ calls, all = account.history.calls ++ calls ∧ ∀ call ∈ calls, call.allowed = true :=
    fun heq hall => ⟨_, heq, List.all_eq_true.mp hall⟩
  have hfront : ∀ {head : Waiting} {message : ServerMessage} {incoming : List ServerMessage},
      (account.takes head message incoming).history.calls =
        account.history.calls ++ [.front false] := rfl
  cases hreceiving with
  | unread hsocket hleft => exact .inl ⟨rfl, hsocket, hleft⟩
  | rejected hwaiting hincoming hsocket =>
      exact .inr ⟨_, _, by rw [hwaiting]; rfl, hincoming, rfl, List.prefix_rfl, rfl, rfl,
        List.prefix_rfl, hcalls hfront rfl⟩
  | unreadable hwaiting hincoming =>
      exact .inr ⟨_, _, by rw [hwaiting]; rfl, hincoming, rfl, List.prefix_rfl, rfl, rfl,
        List.prefix_rfl, hcalls (List.append_assoc _ _ _) rfl⟩
  | confirmed hwaiting hincoming =>
      exact .inr ⟨_, _, by rw [hwaiting]; rfl, hincoming, rfl, List.prefix_rfl, rfl, rfl,
        List.prefix_append _ _, hcalls (List.append_assoc _ _ _) rfl⟩
  | refused hwaiting hincoming =>
      exact .inr ⟨_, _, by rw [hwaiting]; rfl, hincoming, rfl, List.prefix_rfl, rfl, rfl,
        List.prefix_append _ _, hcalls (List.append_assoc _ _ _) rfl⟩
  | dropped hwaiting hincoming =>
      exact .inr ⟨_, _, by rw [hwaiting]; rfl, hincoming, rfl, List.prefix_rfl, rfl, rfl,
        List.prefix_append _ _, hcalls (List.append_assoc _ _ _) rfl⟩
  | interrupted hwaiting hincoming =>
      exact .inr ⟨_, _, by rw [hwaiting]; rfl, hincoming, rfl, List.prefix_rfl, rfl, rfl,
        List.prefix_rfl, hcalls (List.append_assoc _ _ _) rfl⟩
  | succeeded hwaiting hincoming =>
      exact .inr ⟨_, _, by rw [hwaiting]; rfl, hincoming, rfl, List.prefix_append _ _, rfl, rfl,
        List.prefix_rfl, hcalls ((congrArg (· ++ _) (List.append_assoc _ _ _)).trans
          (List.append_assoc _ _ _)) rfl⟩

/-! ## Keeping the window and the requests together -/

/-- No message is on its way that answers nothing. -/
def Account.Solicited (account : Account) : Prop :=
  account.received + account.incoming.length ≤ account.requests.length

theorem Account.Solicited.lt (hsolicited : account.Solicited) (hincoming : account.incoming ≠ []) :
    account.window.answered < account.window.asked.length := by
  have hpos := List.length_pos_iff.mpr hincoming
  rw [Account.Solicited] at hsolicited
  show account.received < account.requests.length
  omega

/-- A message arrives that is expected. -/
theorem Account.Solicited.arriving {message : ServerMessage}
    (hexpected : account.received + account.incoming.length < account.requests.length) :
    Account.Solicited { account with incoming := account.incoming ++ [message] } := by
  show account.received + (account.incoming ++ [message]).length ≤ account.requests.length
  rw [List.length_append, List.length_singleton]
  exact hexpected

theorem Account.Solicited.sending {event : Event} {accepted : Bool}
    (hsolicited : account.Solicited)
    (hsending : Sending settings account event accepted next) : next.Solicited := by
  cases hsending with
  | full => exact hsolicited
  | unsupported => exact hsolicited
  | sent hrequest =>
      show account.received + account.incoming.length ≤ (account.requests ++ [_]).length
      rw [List.length_append]
      exact Nat.le_add_right_of_le hsolicited

theorem Account.Solicited.receiving (hsolicited : account.Solicited)
    {ending : Option ClientException}
    (hreceiving : Receiving settings folder left account ending next) : next.Solicited := by
  rcases hreceiving.taken with ⟨hsame, -, -⟩ | ⟨head, message, htaken⟩
  · rw [hsame]
    exact hsolicited
  · have hlength := htaken.requests.length_le
    rw [Account.Solicited, htaken.incoming, List.length_cons] at hsolicited
    rw [Account.Solicited, htaken.received]
    omega

variable (settings) in
/-- The window is what is unanswered, and no message is on its way that answers
nothing. -/
structure Account.Aligned (account : Account) : Prop where
  window : SlidingWindow.Aligned (asked settings) account.window
  solicited : account.Solicited

theorem Account.Aligned.waiting_ne_nil (haligned : account.Aligned settings)
    (hincoming : account.incoming ≠ []) : account.waiting ≠ [] :=
  haligned.window.waiting_ne_nil (haligned.solicited.lt hincoming)

theorem Account.Aligned.sending {event : Event} {accepted : Bool}
    (haligned : account.Aligned settings)
    (hsending : Sending settings account event accepted next) : next.Aligned settings := by
  apply Account.Aligned.mk _ (haligned.solicited.sending hsending)
  cases hsending.move with
  | inl hsame =>
      rw [hsame]
      exact haligned.window
  | inr hmove => exact haligned.window.move hmove

theorem Account.Aligned.receiving (haligned : account.Aligned settings)
    (hreceiving : Receiving settings folder left account none next) :
    next.Aligned settings :=
  ⟨haligned.window.move hreceiving.move, haligned.solicited.receiving hreceiving⟩

variable (settings) in
/-- The answer was applied to the event that its request was made of. -/
def Answer.Matched (answer : Answer) : Prop :=
  ∃ request, answer.request = some request ∧ asked settings answer.waiting = some request

/-- The answer that is taken is the answer to the request of the head. -/
theorem Account.Aligned.answerOf (haligned : account.Aligned settings) {head : Waiting}
    (hhead : account.waiting.head? = some head) (message : ServerMessage) :
    (account.answerOf head message).Matched settings := by
  obtain ⟨others, hwaiting⟩ : ∃ others, account.waiting = head :: others := by
    cases hwaiting : account.waiting with
    | nil => simp [hwaiting] at hhead
    | cons first others =>
        rw [hwaiting, List.head?_cons, Option.some.injEq] at hhead
        exact ⟨others, by rw [hhead]⟩
  obtain ⟨request, hrequest, hrank, -⟩ := haligned.window.request_head hwaiting
  exact ⟨request, hrank, hrequest⟩

theorem resent_aligned (hrequested : Requested settings folder account.waiting)
    (hnone : ∀ waiting ∈ account.waiting, skipped settings folder waiting = false) :
    (account.fresh.asksAll (resent settings folder account.waiting)).Aligned settings := by
  have hresent := (resent_eq_iff settings hrequested).mpr hnone
  have hrequests : (account.fresh.asksAll (resent settings folder account.waiting)).requests =
      resent settings folder account.waiting := List.nil_append _
  constructor
  · constructor
    · exact Nat.zero_le _
    · show account.waiting.map (asked settings) = ((account.fresh.asksAll _).requests.drop 0).map some
      rw [hrequests, List.drop_zero, hresent]
      rfl
  · exact Nat.zero_le _

/-! ## Runs -/

/-- The messages that have arrived. -/
def arrivals (actions : List Action) : List ServerMessage :=
  actions.filterMap fun
    | .arrive message => some message
    | _ => none

/-- The message answers a request that no message has answered. -/
def System.expects (system : System) : Prop :=
  system.client.connection.received + system.client.connection.incoming.length <
    system.client.connection.requests.length

variable (settings) in
/-- The server answers in order and each request at most once; no entry is passed
over when the window is re-sent. -/
def Lawful (system : System) : Action → Prop
  | .arrive _ => system.expects
  | .connect _ => ∀ waiting ∈ system.client.waitingForResponse.toList,
      skipped settings system.client.folder waiting = false
  | _ => True

instance Lawful.decidable (system : System) (action : Action) :
    Decidable (Lawful settings system action) :=
  match action with
  | .arrive _ => inferInstanceAs (Decidable (_ < _))
  | .connect _ => List.decidableBAll _ _
  | .change _ => .isTrue trivial
  | .detect _ => .isTrue trivial
  | .weaken _ => .isTrue trivial
  | .writable => .isTrue trivial
  | .readable => .isTrue trivial
  | .disconnect => .isTrue trivial

/-- All entries of a record from a rank on. -/
def Since {α : Type} (past : Nat) (holds : α → Prop) (entries : List α) : Prop :=
  ∀ rank entry, past ≤ rank → entries[rank]? = some entry → holds entry

theorem Since.append {α : Type} {past : Nat} {holds : α → Prop} {entries : List α}
    (hsince : Since past holds entries) {added : List α} (hadded : ∀ entry ∈ added, holds entry) :
    Since past holds (entries ++ added) := by
  intro rank entry hpast hentry
  by_cases hrank : rank < entries.length
  · rw [List.getElem?_append_left hrank] at hentry
    exact hsince rank entry hpast hentry
  · rw [List.getElem?_append_right (Nat.le_of_not_lt hrank)] at hentry
    exact hadded entry (List.mem_of_getElem? hentry)

theorem Since.of_length {α : Type} (holds : α → Prop) (entries : List α) :
    Since entries.length holds entries := by
  intro rank entry hpast hentry
  rw [List.getElem?_eq_none hpast] at hentry
  simp at hentry

theorem Since.forall_mem {α : Type} {holds : α → Prop} {entries : List α}
    (hsince : Since 0 holds entries) : ∀ entry ∈ entries, holds entry := by
  intro entry hentry
  obtain ⟨rank, hrank⟩ := List.mem_iff_getElem?.mp hentry
  exact hsince rank entry (Nat.zero_le rank) hrank

variable (settings) in
/-- What lawful actions keep, with the record from some point on. -/
structure Kept (past : History) (system : System) : Prop where
  aligned : system.phase = .connected → system.client.account.Aligned settings
  calls : Since past.calls.length (fun call => call.allowed = true) system.client.history.calls
  answers : Since past.answers.length (Answer.Matched settings) system.client.history.answers

theorem Kept.received {past : History} {system next : System} (hkept : Kept settings past system)
    (hconnected : system.phase = .connected) {left : Option Nat} {ending : Option ClientException}
    (hreceiving : Receiving settings system.client.folder left system.client.account ending
      next.client.account)
    (haligned : next.phase = .connected → next.client.account.Aligned settings) :
    Kept settings past next := by
  apply Kept.mk haligned
  · rcases hreceiving.taken with ⟨hsame, -, -⟩ | ⟨head, message, htaken⟩
    · have hhistory : next.client.history = system.client.history :=
        congrArg Account.history hsame
      rw [hhistory]
      exact hkept.calls
    · obtain ⟨calls, hcalls, hallowed⟩ := htaken.calls
      have hall : next.client.history.calls = system.client.history.calls ++ calls := hcalls
      rw [hall]
      exact hkept.calls.append hallowed
  · rcases hreceiving.taken with ⟨hsame, -, -⟩ | ⟨head, message, htaken⟩
    · have hhistory : next.client.history = system.client.history :=
        congrArg Account.history hsame
      rw [hhistory]
      exact hkept.answers
    · have hall : next.client.history.answers = system.client.history.answers ++ [_] :=
        htaken.answers
      rw [hall]
      apply hkept.answers.append
      intro answer hanswer
      rw [List.mem_singleton.mp hanswer]
      exact (hkept.aligned hconnected).answerOf htaken.head_eq message

/-- Nothing is added to the record of calls and answers. -/
theorem Kept.of_history {past : History} {system next : System} (hkept : Kept settings past system)
    (hcalls : next.client.history.calls = system.client.history.calls)
    (hanswers : next.client.history.answers = system.client.history.answers)
    (haligned : next.phase = .connected → next.client.account.Aligned settings) :
    Kept settings past next where
  aligned := haligned
  calls := hcalls ▸ hkept.calls
  answers := hanswers ▸ hkept.answers

theorem Kept.sent {past : History} {system next : System} (hkept : Kept settings past system)
    (hconnected : system.phase = .connected) {event : Event} {accepted : Bool}
    (hsending : Sending settings system.client.account event accepted next.client.account) :
    Kept settings past next := by
  have haligned := (hkept.aligned hconnected).sending hsending
  generalize haccount : next.client.account = account at hsending haligned
  have hhistory : next.client.history = account.history := congrArg Account.history haccount
  have hnext : next.phase = .connected → next.client.account.Aligned settings := fun _ =>
    haccount ▸ haligned
  cases hsending with
  | full =>
      exact hkept.of_history (congrArg History.calls hhistory)
        (congrArg History.answers hhistory) hnext
  | unsupported =>
      exact hkept.of_history (congrArg History.calls hhistory)
        (congrArg History.answers hhistory) hnext
  | sent hrequest =>
      apply Kept.mk hnext
      · rw [hhistory]
        apply hkept.calls.append
        intro call hcall
        rw [List.mem_singleton.mp hcall]
        rfl
      · rw [hhistory]
        exact hkept.answers

theorem eq_none_of_after {ending : Option ClientException}
    (hphase : Phase.after ending = .connected) : ending = none := by
  cases ending with
  | none => rfl
  | some error => cases hsocket : error.isSocket <;> simp [Phase.after, hsocket] at hphase

/-- One step. -/
theorem Kept.step {past : History} {system next : System} {action : Action} (hkept : Kept settings past system)
    (hlawful : Lawful settings system action)
    (hstep : step settings action system = some next) : Kept settings past next := by
  have hsame : ∀ {account : Account}, next.client.account = account →
      next.client.history = account.history := fun h => congrArg Account.history h
  cases stepped_of_step hstep with
  | change haccount hphase hleft =>
      exact hkept.of_history (congrArg History.calls (hsame haccount))
        (congrArg History.answers (hsame haccount))
        fun hnext => haccount ▸ hkept.aligned (hphase ▸ hnext)
  | detect hclient hphase =>
      apply hkept.of_history (by rw [hclient]) (by rw [hclient])
      intro hnext
      rw [hclient]
      exact hkept.aligned (hphase ▸ hnext)
  | weaken haccount hphase =>
      exact hkept.of_history (congrArg History.calls (hsame haccount))
        (congrArg History.answers (hsame haccount))
        fun hnext => haccount ▸ hkept.aligned (hphase ▸ hnext)
  | arrive hconnected haccount =>
      apply hkept.of_history (congrArg History.calls (hsame haccount))
        (congrArg History.answers (hsame haccount))
      intro _
      rw [haccount]
      exact ⟨(hkept.aligned hconnected).window, Account.Solicited.arriving hlawful⟩
  | connected _ hrequested haccount =>
      apply hkept.of_history (congrArg History.calls (hsame haccount))
        (congrArg History.answers (hsame haccount))
      intro _
      rw [haccount]
      exact resent_aligned hrequested hlawful
  | unconnected _ haccount hphase =>
      exact hkept.of_history (congrArg History.calls (hsame haccount))
        (congrArg History.answers (hsame haccount)) fun hnext => absurd hnext hphase
  | sent hconnected hsending => exact hkept.sent hconnected hsending
  | unsent _ haccount hphase =>
      exact hkept.of_history (congrArg History.calls (hsame haccount))
        (congrArg History.answers (hsame haccount)) fun hnext => absurd hnext hphase
  | closed _ _ haccount hphase =>
      exact hkept.of_history (congrArg History.calls (hsame haccount))
        (congrArg History.answers (hsame haccount)) fun hnext => by simp [hphase] at hnext
  | received hconnected hreceiving hphase =>
      apply hkept.received hconnected hreceiving
      intro hnext
      rw [hphase] at hnext
      rw [eq_none_of_after hnext] at hreceiving
      exact (hkept.aligned hconnected).receiving hreceiving
  | unasked hconnected hincoming hwaiting =>
      exact absurd hwaiting ((hkept.aligned hconnected).waiting_ne_nil hincoming)
  | disconnect _ hclient hphase =>
      exact hkept.of_history (by rw [hclient]) (by rw [hclient]) fun hnext => by
        simp [hphase] at hnext

theorem Kept.run {past : History} {start system : System} {allowed : System → Action → Prop}
    (hallowed : ∀ system action, allowed system action → Lawful settings system action)
    (hstart : Kept settings past start) {actions : List Action}
    (hrun : Run settings allowed start actions system) : Kept settings past system := by
  induction hrun with
  | start => exact hstart
  | turn _ hturn hstep ih => exact ih.step (hallowed _ _ hturn) hstep

/-! ## One connection -/

/-- A connection has just been opened, and nothing waits for an answer. -/
structure Opened (start : System) : Prop where
  phase : start.phase = .connected
  waiting : start.client.waitingForResponse.toList = []
  connection : start.client.connection = {}
  answers : start.client.history.answers = []
  calls : start.client.history.calls = []

/-- The connection does not fail, and the server answers in order and each request
at most once. -/
def Unbroken (system : System) : Action → Prop
  | .change _ => True
  | .detect _ => True
  | .arrive _ => system.expects
  | .writable => True
  | .readable => system.client.connection.incoming ≠ []
  | .weaken _ => False
  | .connect _ => False
  | .disconnect => False

instance Unbroken.decidable (system : System) (action : Action) :
    Decidable (Unbroken system action) :=
  match action with
  | .change _ => .isTrue trivial
  | .detect _ => .isTrue trivial
  | .arrive _ => inferInstanceAs (Decidable (_ < _))
  | .writable => .isTrue trivial
  | .readable => inferInstanceAs (Decidable (_ ≠ _))
  | .weaken _ => .isFalse id
  | .connect _ => .isFalse id
  | .disconnect => .isFalse id

variable (settings) in
theorem Unbroken.lawful {system : System} {action : Action} (hunbroken : Unbroken system action) :
    Lawful settings system action := by
  cases action with
  | arrive message => exact hunbroken
  | connect operationsLeft => exact hunbroken.elim
  | change folder => trivial
  | detect event => trivial
  | weaken operationsLeft => trivial
  | writable => trivial
  | readable => trivial
  | disconnect => trivial

variable (settings) in
/-- What can be seen of one connection: the window is the list of the unanswered
requests, its operations were called as they may be, and the answers taken are the
first ones that arrived, each applied to the event of the request of its rank. -/
structure InStep (actions : List Action) (system : System) : Prop where
  window : system.phase ≠ .ended →
    system.client.waitingForResponse.toList.map (asked settings) =
      (system.client.connection.requests.drop system.client.connection.received).map some
  calls : ∀ call ∈ system.client.history.calls, call.allowed = true
  messages : system.client.history.answers.map Answer.message =
    (arrivals actions).take system.client.connection.received
  answers : ∀ (rank : Nat) (answer : Answer), system.client.history.answers[rank]? = some answer →
    ∃ request, system.client.connection.requests[rank]? = some request ∧
      asked settings answer.waiting = some request

/-- The record of the answers has their ranks. -/
structure Ranked (arrived : List ServerMessage) (account : Account) : Prop where
  length : account.history.answers.length = account.received
  messages : account.history.answers.map Answer.message ++ account.incoming = arrived
  requests : ∀ (rank : Nat) (answer : Answer), account.history.answers[rank]? = some answer →
    answer.request = account.requests[rank]?

/-- Nothing has failed on the connection. -/
structure Steady (system : System) : Prop where
  phase : system.phase ≠ .disconnected
  left : system.phase = .connected → system.client.connection.operationsLeft = none

theorem arrivals_append (actions : List Action) (action : Action) :
    arrivals (actions ++ [action]) = arrivals actions ++ arrivals [action] :=
  List.filterMap_append

/-- The requests of the answers stay where they are. -/
theorem Ranked.asking {arrived : List ServerMessage} (hranked : Ranked arrived account)
    (haligned : account.Aligned settings) {requests : List ClientMessage}
    (hrequests : account.requests <+: requests) :
    ∀ (rank : Nat) (answer : Answer), account.history.answers[rank]? = some answer →
      answer.request = requests[rank]? := by
  intro rank answer hanswer
  obtain ⟨more, rfl⟩ := hrequests
  have hrank := (List.getElem?_eq_some_iff.mp hanswer).1
  have hle : account.received ≤ account.requests.length := haligned.window.answered_le
  rw [hranked.length] at hrank
  rw [List.getElem?_append_left (Nat.lt_of_lt_of_le hrank hle)]
  exact hranked.requests rank answer hanswer

/-- What was added has the last rank. -/
theorem getElem?_concat {α : Type} {entries : List α} {added entry : α} {rank : Nat}
    (hentry : (entries ++ [added])[rank]? = some entry) :
    entries[rank]? = some entry ∨ rank = entries.length ∧ added = entry := by
  by_cases hrank : rank < entries.length
  · rw [List.getElem?_append_left hrank] at hentry
    exact .inl hentry
  · have hlast : rank = entries.length := by
      have hlt := (List.getElem?_eq_some_iff.mp hentry).1
      rw [List.length_append, List.length_singleton] at hlt
      omega
    rw [hlast, List.getElem?_concat_length, Option.some.injEq] at hentry
    exact .inr ⟨hlast, hentry⟩

/-- The answer that is taken has the rank of the message it takes. -/
theorem Ranked.taken {arrived : List ServerMessage} {head : Waiting} {message : ServerMessage}
    (hranked : Ranked arrived account) (haligned : account.Aligned settings)
    (htaken : Taken account next head message) : Ranked arrived next := by
  have hlength := hranked.length
  have hle := haligned.solicited
  rw [Account.Solicited, htaken.incoming, List.length_cons] at hle
  apply Ranked.mk
  · rw [htaken.answers, htaken.received, List.length_append, hlength]
    rfl
  · rw [← hranked.messages, htaken.incoming, htaken.answers, List.map_append]
    exact List.append_assoc _ _ _
  · intro rank answer hanswer
    rw [htaken.answers] at hanswer
    cases getElem?_concat hanswer with
    | inl hold => exact hranked.asking haligned htaken.requests rank answer hold
    | inr hlast =>
        obtain ⟨requests, hrequests⟩ := htaken.requests
        rw [← hlast.2, hlast.1, hlength, ← hrequests, List.getElem?_append_left (by omega)]
        rfl

theorem Ranked.sending {arrived : List ServerMessage} {event : Event} {accepted : Bool}
    (hranked : Ranked arrived account) (haligned : account.Aligned settings)
    (hsending : Sending settings account event accepted next) : Ranked arrived next := by
  cases hsending with
  | full => exact hranked
  | unsupported => exact hranked
  | sent =>
      exact ⟨hranked.length, hranked.messages,
        hranked.asking haligned (List.prefix_append _ _)⟩

theorem Ranked.step {actions : List Action} {system next : System} {action : Action}
    (hranked : Ranked (arrivals actions) system.client.account)
    (haligned : system.phase = .connected → system.client.account.Aligned settings)
    (hunbroken : Unbroken system action) (hstep : step settings action system = some next) :
    Ranked (arrivals (actions ++ [action])) next.client.account := by
  have hnothing : arrivals [action] = [] →
      arrivals (actions ++ [action]) = arrivals actions := by
    intro hnil
    rw [arrivals_append, hnil, List.append_nil]
  cases stepped_of_step hstep with
  | change haccount =>
      rw [haccount, hnothing rfl]
      exact hranked
  | detect hclient =>
      rw [hclient, hnothing rfl]
      exact hranked
  | weaken => exact hunbroken.elim
  | arrive _ haccount =>
      rw [haccount, arrivals_append, ← hranked.messages, List.append_assoc]
      exact ⟨hranked.length, rfl, hranked.requests⟩
  | connected => exact hunbroken.elim
  | unconnected => exact hunbroken.elim
  | sent hconnected hsending =>
      rw [hnothing rfl]
      exact hranked.sending (haligned hconnected) hsending
  | unsent _ haccount =>
      rw [haccount, hnothing rfl]
      exact hranked
  | closed _ hincoming => exact absurd hincoming hunbroken
  | received hconnected hreceiving =>
      rw [hnothing rfl]
      rcases hreceiving.taken with ⟨hsame, -, -⟩ | ⟨head, message, htaken⟩
      · rw [hsame]
        exact hranked
      · exact hranked.taken (haligned hconnected) htaken
  | unasked hconnected hincoming hwaiting =>
      exact absurd hwaiting ((haligned hconnected).waiting_ne_nil hincoming)
  | disconnect => exact hunbroken.elim

/-- A call of `receive` without failures of the socket has a message to read. -/
theorem Receiving.not_isSocket {ending : Option ClientException} {error : ClientException}
    (hreceiving : Receiving settings folder none account ending next)
    (hincoming : account.incoming ≠ []) (hending : ending = some error) :
    error.isSocket = false := by
  cases hreceiving with
  | unread _ hleft => exact absurd (hleft rfl) hincoming
  | rejected _ _ hsocket => exact Option.some.inj hending ▸ hsocket
  | unreadable => exact Option.some.inj hending ▸ rfl
  | confirmed => simp at hending
  | refused => simp at hending
  | dropped => simp at hending
  | interrupted _ _ _ _ _ _ hleft => simp at hleft
  | succeeded _ _ _ _ _ _ hsocket => exact hsocket rfl error hending

theorem Steady.step {system next : System} {action : Action} (hsteady : Steady system)
    (haligned : system.phase = .connected → system.client.account.Aligned settings)
    (hunbroken : Unbroken system action) (hstep : step settings action system = some next) :
    Steady next := by
  have hkeeps : next.phase = system.phase →
      next.client.connection.operationsLeft = system.client.connection.operationsLeft →
      Steady next := by
    intro hphase hleft
    exact ⟨hphase ▸ hsteady.phase, fun hnext => hleft.trans (hsteady.left (hphase ▸ hnext))⟩
  cases stepped_of_step hstep with
  | change _ hphase hleft => exact hkeeps hphase hleft
  | detect hclient hphase => exact hkeeps hphase (by rw [hclient])
  | weaken => exact hunbroken.elim
  | arrive hconnected _ hphase hleft => exact hkeeps (hphase.trans hconnected.symm) hleft
  | connected => exact hunbroken.elim
  | unconnected => exact hunbroken.elim
  | sent hconnected _ hphase hleft =>
      exact ⟨by simp [hphase], fun _ => hleft (hsteady.left hconnected)⟩
  | unsent hconnected _ hphase hleft =>
      have hended := hleft (hsteady.left hconnected)
      exact ⟨by simp [hended], fun hnext => absurd hnext hphase⟩
  | closed _ hincoming => exact absurd hincoming hunbroken
  | @received _ ending hconnected hreceiving hphase hleft =>
      rw [hsteady.left hconnected] at hreceiving
      apply Steady.mk _ fun _ => hleft (hsteady.left hconnected)
      rw [hphase]
      cases hending : ending with
      | none => simp [Phase.after]
      | some error => simp [Phase.after, hreceiving.not_isSocket hunbroken hending]
  | unasked hconnected hincoming hwaiting =>
      exact absurd hwaiting ((haligned hconnected).waiting_ne_nil hincoming)
  | disconnect => exact hunbroken.elim

/-- What holds along one connection. -/
structure Connected (settings : Settings) (actions : List Action) (system : System) : Prop where
  kept : Kept settings {} system
  ranked : Ranked (arrivals actions) system.client.account
  steady : Steady system

variable (settings) in
theorem Opened.connected {start : System} (hopened : Opened start) :
    Connected settings [] start := by
  have hconnection := hopened.connection
  have haccount : start.client.account.incoming = [] ∧ start.client.account.received = 0 ∧
      start.client.account.requests = [] := by
    simp [ClientState.account, hconnection, Connection.requests]
  obtain ⟨hincoming, hreceived, hrequests⟩ := haccount
  constructor
  · constructor
    · intro _
      constructor
      · exact .of_nothing hopened.waiting hrequests hreceived
      · rw [Account.Solicited, hincoming, hreceived]
        exact Nat.zero_le _
    · rw [hopened.calls]
      exact Since.of_length _ _
    · rw [hopened.answers]
      exact Since.of_length _ _
  · have hanswers : start.client.account.history.answers = [] := hopened.answers
    constructor
    · rw [hanswers, hreceived]
      rfl
    · rw [hanswers, hincoming]
      rfl
    · simp [hanswers]
  · exact ⟨by simp [hopened.phase], fun _ => by rw [hconnection]⟩

theorem Connected.run {start system : System} {actions : List Action}
    (hstart : Connected settings [] start)
    (hrun : Run settings Unbroken start actions system) :
    Connected settings actions system := by
  induction hrun with
  | start => exact hstart
  | turn _ hunbroken hstep ih =>
      exact ⟨ih.kept.step (hunbroken.lawful settings) hstep,
        ih.ranked.step ih.kept.aligned hunbroken hstep,
        ih.steady.step ih.kept.aligned hunbroken hstep⟩

/-- On one connection without failures, with each request answered at most once and
in order, the window and the unanswered requests are the same list. -/
theorem window_in_step {start system : System} {actions : List Action} (hopened : Opened start)
    (hrun : Run settings Unbroken start actions system) : InStep settings actions system := by
  have hconnected := (hopened.connected settings).run hrun
  constructor
  · intro hphase
    have hphase : system.phase = .connected := by
      have hsteady := hconnected.steady.phase
      cases hcases : system.phase <;> simp_all
    exact (hconnected.kept.aligned hphase).window.requests
  · exact hconnected.kept.calls.forall_mem
  · have hlength : (system.client.history.answers.map Answer.message).length =
        system.client.connection.received := by
      rw [List.length_map]
      exact hconnected.ranked.length
    rw [← hconnected.ranked.messages, ← hlength]
    exact (List.take_left' rfl).symm
  · intro rank answer hanswer
    have hmem := List.mem_of_getElem? hanswer
    obtain ⟨request, hrequest, hasked⟩ := hconnected.kept.answers.forall_mem answer hmem
    apply Exists.intro request
    rw [← hrequest]
    exact ⟨(hconnected.ranked.requests rank answer hanswer).symm, hrequest ▸ hasked⟩

theorem opened_clientWith (folder : FileTree) (room : Nat) (eventQueue : List Event) :
    Opened ⟨clientWith folder room [], eventQueue, .connected⟩ where
  phase := rfl
  waiting := by
    rw [CircularVector.toList_eq_nil_iff]
    rfl
  connection := rfl
  answers := rfl
  calls := rfl

/-- A file is found, asked for, sent and confirmed, with a window of one entry. -/
def storing : List Action :=
  [.change (homeFolder.putFile ["a".toList, "home".toList] [] 0),
    .detect { element := fileElement "/a".toList, type := .created }, .writable,
    .arrive (sendMessage (fileElement "/a".toList)), .readable,
    .arrive (serverMessage .OK 1), .readable]

theorem window_in_step_storing :
    ∃ system, Run homeSettings Unbroken ⟨clientWith homeFolder 1 [], [], .connected⟩ storing
        system ∧ InStep homeSettings storing system := by
  have hperforms : (performs homeSettings (fun system action => decide (Unbroken system action))
      storing ⟨clientWith homeFolder 1 [], [], .connected⟩).any (fun _ => true) = true := by
    decide +kernel
  obtain ⟨system, hrun, -⟩ := exists_run_of_performs (fun _ _ => of_decide_eq_true) hperforms
  exact ⟨system, hrun, window_in_step (opened_clientWith homeFolder 1 []) hrun⟩

/-! ## After a reconnection -/

/-- What may happen on the connection that was just opened: it may fail, but the
server answers in order and each request at most once. -/
def Answered (system : System) : Action → Prop
  | .arrive _ => system.expects
  | .connect _ => False
  | _ => True

variable (settings) in
theorem Answered.lawful {system : System} {action : Action} (hanswered : Answered system action) :
    Lawful settings system action := by
  cases action with
  | arrive message => exact hanswered
  | connect operationsLeft => exact hanswered.elim
  | change folder => trivial
  | detect event => trivial
  | weaken operationsLeft => trivial
  | writable => trivial
  | readable => trivial
  | disconnect => trivial

variable (settings) in
/-- The requests on the new connection are those of the window, and from then on
every answer is applied to the event of the request of its rank. -/
structure Reestablished (client next : ClientState) : Prop where
  requests : next.connection.requests.map some =
    client.waitingForResponse.toList.map (asked settings)
  answers : ∀ eventQueue actions system,
    Run settings Answered ⟨next, eventQueue, .connected⟩ actions system →
      Since client.history.answers.length (Answer.Matched settings)
        system.client.history.answers

/-- The window is re-established exactly if each file that was being sent is still
there with the hash of its event. -/
theorem reestablished_iff {operationsLeft : Option Nat} {client next : ClientState}
    (hreturned : recoverFromError settings (reconnected operationsLeft client) =
      .returned () next) :
    Reestablished settings client next ↔
      ∀ waiting ∈ client.waitingForResponse.toList,
        skipped settings client.folder waiting = false := by
  have hat : At client.account.fresh client.folder operationsLeft
      (reconnected operationsLeft client) :=
    (reconnected operationsLeft client).at_account
  have hends := meets_recoverFromError settings _ hat
  rw [hreturned] at hends
  obtain ⟨hrequested, habout⟩ := hends
  have hrequested : Requested settings client.folder client.waitingForResponse.toList := hrequested
  have haccount := habout.account_eq
  have hrequests : next.connection.requests =
      resent settings client.folder client.waitingForResponse.toList :=
    (congrArg Account.requests haccount).trans (List.nil_append _)
  have hequal := resent_eq_iff settings hrequested
  constructor
  · intro hreestablished
    apply hequal.mp
    rw [← hrequests]
    exact hreestablished.requests
  · intro hnone
    constructor
    · rw [hrequests]
      exact hequal.mpr hnone
    · intro eventQueue actions system hrun
      have hkept : Kept settings client.history ⟨next, eventQueue, .connected⟩ := by
        have hhistory : next.history = client.history := congrArg Account.history haccount
        constructor
        · intro _
          show next.account.Aligned settings
          rw [haccount]
          exact resent_aligned hrequested hnone
        · show Since _ _ next.history.calls
          rw [hhistory]
          exact Since.of_length _ _
        · show Since _ _ next.history.answers
          rw [hhistory]
          exact Since.of_length _ _
      exact (hkept.run (fun _ _ => Answered.lawful settings) hrun).answers

/-- The window of a client that was sending `/a` when `/b` was created. -/
def sendingWindow : List Waiting :=
  [{ event := { element := fileElement "/a".toList, type := .storeSent }, ticket := 0 },
    { event := { element := fileElement "/b".toList, type := .created }, ticket := 1 }]

/-- A folder in which `/a` still is as it was. -/
def sendingFolder : FileTree := homeFolder.putFile ["a".toList, "home".toList] [] 0

theorem returned_of_exception (exit : Exit ClientState ClientException Unit)
    (hexception : exit.exception = none) : exit = .returned () exit.state := by
  cases exit with
  | returned value s => rfl
  | raised exception s => simp [Exit.exception] at hexception

theorem reestablished_iff_unchanged :
    ∃ next, recoverFromError homeSettings
        (reconnected none (clientWith sendingFolder 2 sendingWindow)) = .returned () next ∧
      Reestablished homeSettings (clientWith sendingFolder 2 sendingWindow) next := by
  have hreturned := returned_of_exception (recoverFromError homeSettings
    (reconnected none (clientWith sendingFolder 2 sendingWindow))) (by decide +kernel)
  have hunchanged : ((clientWith sendingFolder 2 sendingWindow).waitingForResponse.toList.all
      fun waiting => !skipped homeSettings sendingFolder waiting) = true := by
    decide +kernel
  refine ⟨_, hreturned, (reestablished_iff hreturned).mpr ?_⟩
  intro waiting hwaiting
  exact (Bool.not_eq_true' _).mp (List.all_eq_true.mp hunchanged waiting hwaiting)

/-- `/a` has been deleted: the answer to the request for `/b` is applied to it. -/
theorem not_reestablished :
    ¬ ∀ (settings : Settings) (operationsLeft : Option Nat) (client next : ClientState),
      recoverFromError settings (reconnected operationsLeft client) = .returned () next →
        Reestablished settings client next := by
  intro hall
  have hreturned := returned_of_exception (recoverFromError homeSettings
    (reconnected none (clientWith homeFolder 2 sendingWindow))) (by decide +kernel)
  have hlengths := congrArg List.length (hall _ _ _ _ hreturned).requests
  rw [List.length_map, List.length_map] at hlengths
  exact absurd hlengths (by decide +kernel)

end Settings

end PdsBackup.Client
