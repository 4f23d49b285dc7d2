import PdsBackup.Client.Communicate
import PdsBackup.Common.Acceptance
import PdsBackup.Core.PathText
import PdsBackup.Server.Answers

/-!
# Names and times on both sides

The client takes the names of its entries from a directory and formats their
times; the server checks both with expressions of its own, and rewrites the
paths.  What follows is where the two agree.
-/

namespace PdsBackup.Client

open Procedure TimeText Validator

/-- An entry the watcher can report: names below the watched folder, outermost
last, and a modification time. -/
structure Reported (element : DirectoryEntry) (names : Path) (mtime : Int) : Prop where
  below : names ≠ []
  plain : PlainPath names
  relativePath : element.relativePath = render names
  lastWriteTime : element.lastWriteTime = timeText mtime

/-- The requests that are made of an entry. -/
def carried (settings : Settings) (element : DirectoryEntry) : List ClientMessage :=
  [messagePROB settings element, messageSTOR settings element, messageDELE settings element,
    messageMKD settings element, messageRMD settings element]

/-- The requests that have a time. -/
def isTimed (message : ClientMessage) : Bool := message.type ≠ .DELE ∧ message.type ≠ .RMD

/-- The server accepts the path, as it is, and the time. -/
structure AcceptedAsIs (message : ClientMessage) : Prop where
  path : validatePath message.path = some message.path
  lastWriteTime : isTimed message = true → validateLastWriteTime message.lastWriteTime = true

/-- Every SEND names a path. -/
def Echoes (path : Text) (sent : List ServerMessage) : Prop :=
  ∀ message ∈ sent, message.type = .SEND → message.path = path

/-- The two sides agree on an entry. -/
structure Agreed (settings : Settings) (element : DirectoryEntry) : Prop where
  accepted : ∀ message ∈ carried settings element, AcceptedAsIs message
  distinct : ∀ other : DirectoryEntry, (∀ message ∈ carried settings other, AcceptedAsIs message) →
    validatePath other.relativePath = validatePath element.relativePath →
      other.relativePath = element.relativePath
  echoed : ∀ (session : Server.Session) (s s' : Server.ServerState),
    s.connection.incoming.head? = some (messagePROB settings element) →
      Server.receive session s = .returned () s' →
        ∃ sent, s'.outgoing = s.outgoing ++ sent ∧ Echoes element.relativePath sent

/-! ## The condition -/

/-- No name has a backslash or an illegal character, and the year of the time is
written as four digits. -/
structure Expressible (names : Path) (mtime : Int) : Prop where
  names : ∀ name ∈ names, ∀ c ∈ name, c ≠ '\\' ∧ c ∉ illegalCharacters
  year : 1000 ≤ (localtime mtime).year ∧ (localtime mtime).year ≤ 9999

theorem mem_render {names : Path} {c : Char} :
    c ∈ render names ↔ ∃ name ∈ names, c = '/' ∨ c ∈ name := by
  induction names with
  | nil => simp
  | cons name names ih =>
      rw [render_cons, List.mem_append, ih, List.mem_cons]
      simp [or_comm]

theorem exists_render_eq_cons {names : Path} (hne : names ≠ []) :
    ∃ rest, render names = '/' :: rest := by
  induction names with
  | nil => exact absurd rfl hne
  | cons name names ih =>
      by_cases hnames : names = []
      · exact ⟨name, by rw [hnames]; rfl⟩
      · obtain ⟨rest, hrest⟩ := ih hnames
        exact ⟨rest ++ '/' :: name, by rw [render_cons, hrest]; rfl⟩

/-- The server takes the path of an entry as it is unless one of its names has a
backslash or an illegal character. -/
theorem validatePath_render_iff {names : Path} (hne : names ≠ []) (hplain : PlainPath names) :
    validatePath (render names) = some (render names) ↔
      ∀ name ∈ names, ∀ c ∈ name, c ≠ '\\' ∧ c ∉ illegalCharacters := by
  obtain ⟨rest, hrest⟩ := exists_render_eq_cons hne
  have hlast : (render names).getLast? ≠ some '/' := by
    obtain ⟨name, parent, rfl⟩ := List.exists_cons_of_ne_nil hne
    exact getLast?_render hplain.head
  have hslash : '/' ≠ '\\' ∧ '/' ∉ illegalCharacters := by decide
  rw [hrest] at hlast
  rw [hrest, validatePath_eq_self_iff hlast]
  constructor
  · intro hall name hname c hc
    have hmem : c ∈ '/' :: rest := hrest ▸ mem_render.mpr ⟨name, hname, .inr hc⟩
    cases List.mem_cons.mp hmem with
    | inl heq => exact heq ▸ hslash
    | inr hmem => exact hall c hmem
  · intro hall c hc
    have hmem : c ∈ render names := hrest ▸ List.mem_cons_of_mem '/' hc
    obtain ⟨name, hname, heq | hmem⟩ := mem_render.mp hmem
    · exact heq ▸ hslash
    · exact hall name hname c hmem

theorem accepted_iff (settings : Settings) {element : DirectoryEntry} {names : Path} {mtime : Int}
    (hreported : Reported element names mtime) :
    (∀ message ∈ carried settings element, AcceptedAsIs message) ↔ Expressible names mtime := by
  have hpath := validatePath_render_iff hreported.below hreported.plain
  have htime := validateLastWriteTime_putTime (localtime mtime)
  rw [← hreported.relativePath] at hpath
  rw [show putTime (localtime mtime) = element.lastWriteTime from hreported.lastWriteTime.symm]
    at htime
  constructor
  · intro haccepted
    have hprob := haccepted (messagePROB settings element) List.mem_cons_self
    exact ⟨hpath.mp hprob.path, htime.mp (hprob.lastWriteTime rfl)⟩
  · intro hexpressible message hmessage
    have hpath := hpath.mpr hexpressible.names
    have htime := htime.mpr hexpressible.year
    simp only [carried, List.mem_cons, List.not_mem_nil, or_false] at hmessage
    rcases hmessage with rfl | rfl | rfl | rfl | rfl
    · exact ⟨hpath, fun _ => htime⟩
    · exact ⟨hpath, fun _ => htime⟩
    · exact ⟨hpath, fun htimed => by simp [isTimed, messageDELE] at htimed⟩
    · exact ⟨hpath, fun _ => htime⟩
    · exact ⟨hpath, fun htimed => by simp [isTimed, messageRMD] at htimed⟩

/-! ## The echo -/

section Echo

open Server

variable {path : Text}

theorem Echoes.nothing : Echoes path [] := by simp [Echoes]

theorem Echoes.ok (session : Session) (code : OkCode) : Echoes path [okMessage session code] := by
  simp [Echoes, okMessage]

theorem Echoes.err (session : Session) (code : ErrCode) :
    Echoes path [errMessage session code] := by
  simp [Echoes, errMessage]

theorem Echoes.send (session : Session) (hash : Hash) :
    Echoes path [Server.sendMessage session path hash] := by
  simp [Echoes, Server.sendMessage]

/-- A PROB whose path is taken as it is is answered about that path. -/
theorem probe_echoes (session : Session) {message : ClientMessage}
    (hpath : validatePath message.path = some message.path) :
    Sends (Echoes message.path) (probe session message) := by
  apply Sends.after (Silent.recoverIfNeeded session)
  intro _
  refine Sends.after (Silent.orRaise (by decide) _) fun h => ?_
  apply Sends.acceptedAs hpath
  cases htime : validateLastWriteTime message.lastWriteTime with
  | false => exact Sends.unensured rfl Echoes.nothing
  | true =>
      apply Sends.ensured rfl
      apply Sends.after (Silent.read _)
      intro el
      cases el with
      | none => exact Sends.message (Echoes.send session h)
      | some el =>
          apply Sends.ite (fun _ => Sends.refuse (Echoes.err session _))
          intro _
          apply Sends.ite (fun _ => Sends.message (Echoes.send session h))
          intro _
          apply Sends.ite _ fun _ => Sends.message (Echoes.ok session _)
          intro _
          apply Sends.after (Silent.setTimeToFile session _ _)
          intro el
          exact Sends.after (Silent.modify fun _ => rfl) fun _ =>
            Sends.message (Echoes.ok session _)

end Echo

/-- The two sides agree on an entry exactly when its names and its time can be
said in the server's expressions. -/
theorem agreed_iff (settings : Settings) {element : DirectoryEntry} {names : Path} {mtime : Int}
    (hreported : Reported element names mtime) :
    Agreed settings element ↔ Expressible names mtime := by
  have haccepted := accepted_iff settings hreported
  constructor
  · exact fun hagreed => haccepted.mp hagreed.accepted
  · intro hexpressible
    have hmessages := haccepted.mpr hexpressible
    have hpath := (hmessages _ List.mem_cons_self).path
    refine ⟨hmessages, ?_, ?_⟩
    · intro other hother hsame
      have hotherPath := (hother _ List.mem_cons_self).path
      exact Option.some.inj (hotherPath.symm.trans (hsame.trans hpath))
    · intro session s s' hmessage hreceive
      exact Server.receive_sends hmessage (probe_echoes session hpath) hreceive

/-- A file in the watched folder that was written when 1970 began. -/
def entryNamed (name : Text) : DirectoryEntry where
  relativePath := '/' :: name
  absolutePath := "/home/".toList ++ name
  type := .file
  lastWriteTime := timeText 0

theorem reported_entryNamed {name : Text} (hname : PlainName name) :
    Reported (entryNamed name) [name] 0 :=
  ⟨List.cons_ne_nil _ _, fun _ hmem => List.mem_singleton.mp hmem ▸ hname, rfl, rfl⟩

theorem agreed_report : Agreed homeSettings (entryNamed "report.txt".toList) := by
  apply (agreed_iff homeSettings (reported_entryNamed (by decide))).mpr
  refine ⟨?_, by decide⟩
  intro name hname c hc
  obtain rfl := List.mem_singleton.mp hname
  have hall : "report.txt".toList.all (fun c => c ≠ '\\' ∧ c ∉ illegalCharacters) = true := by decide
  simpa using List.all_eq_true.mp hall c hc

/-- The server takes `a\b` for a file in a directory, and `a:b` for no path. -/
theorem not_agreed :
    Reported (entryNamed "a\\b".toList) ["a\\b".toList] 0 ∧
      validatePath (entryNamed "a\\b".toList).relativePath = some "/a/b".toList ∧
      Reported (entryNamed "a:b".toList) ["a:b".toList] 0 ∧
      validatePath (entryNamed "a:b".toList).relativePath = none ∧
      ¬ ∀ (settings : Settings) (element : DirectoryEntry) (names : Path) (mtime : Int),
        Reported element names mtime → Agreed settings element := by
  have hcolon : Reported (entryNamed "a:b".toList) ["a:b".toList] 0 :=
    reported_entryNamed (by decide)
  have hnone : validatePath (entryNamed "a:b".toList).relativePath = none := by decide +kernel
  refine ⟨reported_entryNamed (by decide), by decide +kernel, hcolon, hnone, ?_⟩
  intro hagreed
  have haccepted := (hagreed homeSettings _ _ _ hcolon).accepted _ List.mem_cons_self
  exact absurd (hnone.symm.trans haccepted.path) (by simp)

end PdsBackup.Client
