import PdsBackup.Client.Scan
import PdsBackup.System.Ledgers

/-!
# The folder that is watched

The watcher looks at one entry after the other, and what its action accepts is queued.
In between, the folder changes, and both parties of the connection take their turns.
An element is missed when the last event on its path is given up; what is not missed
the server has as it is in the folder, as soon as nothing is pending and a scan of the
folder finds nothing to report.
-/

namespace PdsBackup

open Procedure Schedule

/-! ## What the watcher reports -/

namespace Client

/-- The folder's text, as a regular expression, cuts a path where the folder ends. -/
def Cuts (settings : Settings) : Prop :=
  ∀ names found, PlainPath names → DirectoryEntry.relativePathOf settings.pathToWatch
    (settings.pathToWatch ++ render names) = some found → found = render names

/-- What is recorded of an entry that was read. -/
def Reading.record (reading : Reading) : Record where
  type := if reading.type = .file then "file".toList else "directory".toList
  hash := stringToHex reading.hash.str

section Settings

variable (settings : Settings)

/-- What the map of the watcher says of each path. -/
def watched (paths : KeyedMap Text DirectoryEntry) : Text → Option Record := fun path =>
  (paths.lookup (settings.pathToWatch ++ path)).map DirectoryEntry.record

/-- An entry that was reported, under its path in the folder. -/
structure Traced (path : Text) (element : DirectoryEntry) : Prop where
  relative : path = settings.pathToWatch ++ element.relativePath
  absolute : element.absolutePath = path
  below : Below settings.pathToWatch path
  acceptable : Acceptable { element, type := .deleted }

def Mapped (paths : KeyedMap Text DirectoryEntry) : Prop := paths.All (Traced settings)

/-- What becomes of the map when a report is accepted. -/
structure Reports (paths : KeyedMap Text DirectoryEntry) (event : Event)
    (after : KeyedMap Text DirectoryEntry) : Prop where
  noticed : Noticed event
  mapped : Mapped settings after
  watched : watched settings after =
    TableOperation.shallow (watched settings paths) event.operation

/-- A round of the watcher leaves the map as it is, or it takes over what is reported. -/
inductive Watches (paths : KeyedMap Text DirectoryEntry) : Watcher → Prop
  | silent : Watches paths { paths }
  | rejected {event : Event} : Watches paths { paths, notices := [⟨event, false⟩] }
  | accepted {event : Event} {after : KeyedMap Text DirectoryEntry}
      (hreports : Reports settings paths event after) :
      Watches paths { paths := after, notices := [⟨event, true⟩] }

variable {settings} {tree : FileTree} {paths : KeyedMap Text DirectoryEntry}
variable {path : Text} {element : DirectoryEntry} {accepted : Bool} {watcher : Watcher}

theorem watched_insert (hpath : path = settings.pathToWatch ++ element.relativePath) :
    watched settings (paths.insert path element) =
      Function.update (watched settings paths) element.relativePath (some element.record) := by
  funext other
  rw [watched, KeyedMap.lookup_insert, Function.update_apply, hpath]
  by_cases hother : other = element.relativePath
  · rw [if_pos hother, if_pos (by rw [hother])]
    rfl
  · rw [if_neg hother, if_neg fun heq => hother (List.append_cancel_left heq)]
    rfl

theorem watched_erase (hpath : path = settings.pathToWatch ++ element.relativePath) :
    watched settings (paths.erase path) =
      Function.update (watched settings paths) element.relativePath none := by
  funext other
  rw [watched, KeyedMap.lookup_erase, Function.update_apply, hpath]
  by_cases hother : other = element.relativePath
  · rw [if_pos hother, if_pos (by rw [hother])]
    rfl
  · rw [if_neg hother, if_neg fun heq => hother (List.append_cancel_left heq)]
    rfl

theorem Event.outcome_deleted {event : Event} (htype : event.type = .deleted) :
    event.operation.outcome = none := by
  rw [Event.operation, htype]
  cases event.element.isRegularFile <;> simp [TableOperation.outcome]

theorem Event.outcome_present {event : Event}
    (htype : event.type = .created ∨ event.type = .modified) :
    event.operation.outcome = some event.element.record := by
  cases htype with
  | inl hcreated =>
      rw [Event.operation, hcreated]
      rfl
  | inr hmodified =>
      rw [Event.operation, hmodified]
      rfl

/-- A round of the first loop. -/
theorem watches_look (hmapped : Mapped settings paths) (hentry : paths.lookup path = some element)
    (hrun : reportDeleted (fun _ _ => accepted) tree [⟨path, element⟩] { paths } =
      .returned () watcher) : Watches settings paths watcher := by
  rw [reportDeleted] at hrun
  cases hstatus : tree.status path with
  | some node =>
      rw [hstatus] at hrun
      cases hrun
      exact .silent
  | none =>
      rw [hstatus] at hrun
      cases accepted with
      | false =>
          cases hrun
          exact .rejected
      | true =>
          cases hrun
          have htraced := hmapped path element hentry
          apply Watches.accepted
          constructor
          · exact ⟨htraced.acceptable, by simp⟩
          · exact hmapped.erase path
          · rw [watched_erase htraced.relative, TableOperation.shallow, Event.key_operation,
              Event.outcome_deleted rfl]
            rfl

theorem watches_of_reported (hmapped : Mapped settings paths) (event : Event)
    (htype : event.type = .created ∨ event.type = .modified)
    (htraced : Traced settings path event.element)
    (hrun : (do
        let accepted ← perform (fun _ _ => accepted) event
        when accepted (modify fun w => { w with paths := w.paths.insert path event.element }) :
          WatcherProcedure Unit) { paths } = .returned () watcher) :
    Watches settings paths watcher := by
  cases accepted with
  | false =>
      cases hrun
      exact .rejected
  | true =>
      cases hrun
      apply Watches.accepted
      constructor
      · apply Noticed.mk (htraced.acceptable.withType event.type)
        cases htype with
        | inl hcreated => simp [hcreated]
        | inr hmodified => simp [hmodified]
      · exact hmapped.insert htraced
      · rw [watched_insert htraced.relative, TableOperation.shallow, Event.key_operation,
          Event.outcome_present htype]
        rfl

/-- A round of the second loop. -/
theorem watches_visit (hcuts : Cuts settings) (hmapped : Mapped settings paths) {names : Path}
    (hne : names ≠ []) (hnames : PlainPath names)
    (hacceptable : ∀ element, DirectoryEntry.load settings.platform settings.pathToWatch
      (settings.pathToWatch ++ render names) tree = some element →
        Acceptable { element, type := .created })
    (hrun : visitFile settings (fun _ _ => accepted) tree (settings.pathToWatch ++ render names)
      { paths } = .returned () watcher) : Watches settings paths watcher := by
  cases hload : DirectoryEntry.load settings.platform settings.pathToWatch
      (settings.pathToWatch ++ render names) tree with
  | none => simp [visitFile, hload] at hrun
  | some current =>
      obtain ⟨hrelative, habsolute, -⟩ := DirectoryEntry.load_eq_some hload
      have htraced : Traced settings (settings.pathToWatch ++ render names) current := by
        constructor
        · rw [hcuts names _ hnames hrelative]
        · exact habsolute
        · exact ⟨names, hne, hnames, rfl⟩
        · exact (hacceptable current hload).withType .deleted
      rw [visitFile, hload, orRaise_some, pure_bind_apply, read_bind_apply] at hrun
      cases hold : paths.lookup (settings.pathToWatch ++ render names) with
      | none =>
          simp only [hold, habsolute] at hrun
          exact watches_of_reported hmapped { element := current, type := .created } (.inl rfl)
            htraced hrun
      | some el =>
          simp only [hold] at hrun
          cases hdiffers : differs el current with
          | false =>
              rw [hdiffers] at hrun
              cases hrun
              exact .silent
          | true =>
              rw [hdiffers] at hrun
              exact watches_of_reported hmapped { element := current, type := .modified }
                (.inr rfl) htraced hrun

end Settings

end Client

/-! ## Both parties and the watcher -/

/-- The parties and the map of the watcher.  The paths that are missed are not kept by
the source; they are what the statement refers to. -/
structure Backup where
  parties : Parties
  paths : KeyedMap Text DirectoryEntry := ∅
  missed : List Text := []

namespace Backup

/-- The watcher looks at an entry of its map or at one of the folder, and its action
accepts what it reports or not; or something happens at one of the parties. -/
inductive Turn where
  | look (path : Text) (accepted : Bool)
  | visit (names : Path) (accepted : Bool)
  | parties (action : Parties.Turn)

section Settings

variable (settings : Client.Settings) (session : Server.Session)

def folder (backup : Backup) : FileTree := backup.parties.client.client.folder

/-- What the action has accepted is in the queue. -/
def watch (round : Client.WatcherProcedure Unit) (backup : Backup) : Option Backup :=
  match round { paths := backup.paths } with
  | .raised _ _ => none
  | .returned _ watcher =>
      match watcher.notices with
      | [⟨event, true⟩] => do
          let parties ← Parties.act settings (.detect event) backup.parties
          pure {
            parties
            paths := watcher.paths
            missed := backup.missed.filter fun path => path ≠ event.path }
      | _ => some { backup with paths := watcher.paths }

/-- What is missed when a message is read. -/
def overlooked (parties : Parties) : Parties.Turn → List Text
  | .client .readable => (Client.System.misses settings parties.client).toList
  | _ => []

def turn : Turn → Backup → Option Backup
  | .look path accepted, backup => do
      let element ← backup.paths.lookup path
      watch settings (Client.reportDeleted (fun _ _ => accepted) backup.folder [⟨path, element⟩])
        backup
  | .visit names accepted, backup =>
      watch settings (Client.visitFile settings (fun _ _ => accepted) backup.folder
        (settings.pathToWatch ++ render names)) backup
  | .parties action, backup => do
      let parties ← Parties.turn settings session action backup.parties
      pure { backup with
        parties
        missed := overlooked settings backup.parties action ++ backup.missed }

/-- Only the watcher reports, and what it reports has a path and a time that are
accepted. -/
def Allowed (backup : Backup) : Turn → Prop
  | .look _ _ => True
  | .visit names _ => names ≠ [] ∧ PlainPath names ∧ ∀ element,
      DirectoryEntry.load settings.platform settings.pathToWatch
        (settings.pathToWatch ++ render names) backup.folder = some element →
          Client.Acceptable { element, type := .created }
  | .parties action => Parties.Informed session backup.parties action ∧
      ∀ event, action ≠ .client (.detect event)

/-- What is due is what the watcher has seen, except of a path that is missed. -/
structure Pursued (backup : Backup) : Prop where
  mapped : Client.Mapped settings backup.paths
  due : ∀ path, path ∉ backup.missed →
    backup.parties.client.due path = Client.watched settings backup.paths path

variable {settings} {session} {backup next : Backup}

variable (session) in
/-- What is reported is due from then on. -/
theorem Pursued.detected (hpursued : Pursued settings backup) {event : Client.Event}
    {parties : Parties} {paths : KeyedMap Text DirectoryEntry}
    (hturn : Parties.turn settings session (.client (.detect event)) backup.parties = some parties)
    (hmapped : Client.Mapped settings paths)
    (hwatched : Client.watched settings paths =
      TableOperation.shallow (Client.watched settings backup.paths) event.operation) :
    Pursued settings {
      parties
      paths
      missed := backup.missed.filter fun path => path ≠ event.path } := by
  obtain ⟨client, hstep, rfl⟩ := Parties.turn_client hturn
  obtain rfl := Option.some.inj hstep
  apply Pursued.mk hmapped
  intro path hmissed
  have hdue : Client.System.due { backup.parties.client with
      eventQueue := backup.parties.client.eventQueue ++ [event] } =
        TableOperation.shallow backup.parties.client.due event.operation :=
    Client.due_detected rfl (List.append_assoc _ _ _).symm
  have hown : path ≠ event.operation.key → path ∉ backup.missed := by
    intro hother hold
    rw [Client.Event.key_operation] at hother
    exact hmissed (List.mem_filter.mpr ⟨hold, decide_eq_true hother⟩)
  rw [hwatched]
  calc Client.System.due { backup.parties.client with
        eventQueue := backup.parties.client.eventQueue ++ [event] } path
    _ = TableOperation.shallow backup.parties.client.due event.operation path :=
      congrFun hdue path
    _ = _ := TableOperation.shallow_congr fun hother => hpursued.due path (hown hother)

variable (session) in
/-- A round of the watcher: the parties go on as they are, or an event is reported to
them. -/
theorem Pursued.watched (hpursued : Pursued settings backup)
    {round : Client.WatcherProcedure Unit}
    (hround : ∀ watcher, round { paths := backup.paths } = .returned () watcher →
      Client.Watches settings backup.paths watcher)
    (hturn : watch settings round backup = some next) :
    Pursued settings next ∧ (next.parties = backup.parties ∨ ∃ event, Client.Noticed event ∧
      Parties.turn settings session (.client (.detect event)) backup.parties =
        some next.parties) := by
  rw [watch] at hturn
  cases hrun : round { paths := backup.paths } with
  | raised exception watcher => simp [hrun] at hturn
  | returned value watcher =>
      rw [hrun] at hturn
      cases hround watcher hrun with
      | silent =>
          cases hturn
          exact ⟨hpursued, .inl rfl⟩
      | rejected =>
          cases hturn
          exact ⟨hpursued, .inl rfl⟩
      | accepted hreports =>
          obtain ⟨parties, hact, hnext⟩ := Option.bind_eq_some_iff.mp hturn
          cases hnext
          exact ⟨hpursued.detected session hact hreports.mapped hreports.watched,
            .inr ⟨_, hreports.noticed, hact⟩⟩

theorem due_deliver (sent : List ServerMessage) (client : Client.System) :
    (Parties.deliver settings sent client).due = client.due := by
  induction sent generalizing client with
  | nil => rfl
  | cons message sent ih =>
      have hone : ((Client.step settings (.arrive message) client).getD client).due =
          client.due := by
        cases hphase : client.phase <;> simp only [Client.step, hphase] <;> rfl
      exact (ih _).trans hone

/-- A turn of one of the parties misses what it gives up. -/
theorem Pursued.turned (hpursued : Pursued settings backup) {start parties : Parties}
    (hopened : Client.Opened start.client)
    (hjoined : Parties.Joined settings start backup.parties) {action : Parties.Turn}
    (hinformed : Parties.Informed session backup.parties action)
    (hdetect : ∀ event, action ≠ .client (.detect event))
    (hturn : Parties.turn settings session action backup.parties = some parties)
    (hconnected : parties.client.phase = .connected) :
    Pursued settings { backup with
      parties
      missed := overlooked settings backup.parties action ++ backup.missed } := by
  constructor
  · exact hpursued.mapped
  intro path hmissed
  rw [List.mem_append, not_or] at hmissed
  rw [← hpursued.due path hmissed.2]
  cases action with
  | client action =>
      obtain ⟨client, hstep, rfl⟩ := Parties.turn_client hturn
      have hprogressed := hinformed.1.progressed hjoined.sound (hjoined.aligned hopened)
        hinformed.2 hstep hconnected
      apply hprogressed.due
      · rintro event rfl
        exact hdetect event rfl
      · rintro rfl hmisses
        exact hmissed.1 (Option.mem_toList.mpr hmisses)
  | serve =>
      obtain ⟨request, pending, server, sent, -, -, -, rfl⟩ := Parties.turn_serve hturn
      exact congrFun (due_deliver sent backup.parties.client) path

theorem phase_of_watch {round : Client.WatcherProcedure Unit}
    (hturn : watch settings round backup = some next) :
    next.parties.client.phase = backup.parties.client.phase := by
  rw [watch] at hturn
  split at hturn
  · simp at hturn
  · split at hturn
    · cases hturn
      rfl
    · cases hturn
      rfl

theorem connected_of_turn {action : Turn} (hallowed : Allowed settings session backup action)
    (hturn : turn settings session action backup = some next)
    (hnext : next.parties.client.phase = .connected) :
    backup.parties.client.phase = .connected := by
  cases action with
  | look path accepted =>
      obtain ⟨element, -, hwatch⟩ := Option.bind_eq_some_iff.mp hturn
      exact (phase_of_watch hwatch).symm.trans hnext
  | visit names accepted => exact (phase_of_watch hturn).symm.trans hnext
  | parties action =>
      obtain ⟨parties, hparties, hown⟩ := Option.bind_eq_some_iff.mp hturn
      cases hown
      exact Parties.connected_of_turn hallowed.1.1 hparties hnext

/-- A turn of the watcher. -/
theorem Pursued.rounds (hcuts : Client.Cuts settings) (hpursued : Pursued settings backup)
    {action : Turn} (hallowed : Allowed settings session backup action)
    (hwatcher : ∀ own, action ≠ .parties own)
    (hturn : turn settings session action backup = some next) :
    Pursued settings next ∧ (next.parties = backup.parties ∨ ∃ event, Client.Noticed event ∧
      Parties.turn settings session (.client (.detect event)) backup.parties =
        some next.parties) := by
  cases action with
  | look path accepted =>
      obtain ⟨element, hentry, hwatch⟩ := Option.bind_eq_some_iff.mp hturn
      exact hpursued.watched session
        (fun _ hrun => Client.watches_look hpursued.mapped hentry hrun) hwatch
  | visit names accepted =>
      exact hpursued.watched session (fun _ hrun => Client.watches_visit hcuts hpursued.mapped
        hallowed.1 hallowed.2.1 hallowed.2.2 hrun) hturn
  | parties own => exact absurd rfl (hwatcher own)

/-- What the parties do in a run is a run of the parties, and it pursues what the watcher
has seen. -/
theorem Pursued.run (hcuts : Client.Cuts settings) {start : Backup}
    (hopening : Parties.Opening settings session start.parties)
    (hpursued : Pursued settings start)
    (halong : Along (turn settings session) (Allowed settings session) start backup)
    (hconnected : backup.parties.client.phase = .connected) :
    Along (Parties.turn settings session) (Parties.Informed session) start.parties
      backup.parties ∧ Pursued settings backup := by
  induction halong with
  | start => exact ⟨.start, hpursued⟩
  | @turn before after action _ hallowed hturn ih =>
      obtain ⟨halong, hbefore⟩ := ih (connected_of_turn hallowed hturn hconnected)
      by_cases hwatcher : ∀ own, action ≠ .parties own
      · obtain ⟨hafter, hparties⟩ := hbefore.rounds hcuts hallowed hwatcher hturn
        cases hparties with
        | inl hsame => exact ⟨hsame ▸ halong, hafter⟩
        | inr hdetected =>
            obtain ⟨event, hnoticed, hdetected⟩ := hdetected
            have hinformed : Parties.Informed session before.parties (.client (.detect event)) :=
              ⟨hnoticed, trivial⟩
            exact ⟨.turn halong hinformed hdetected, hafter⟩
      · push Not at hwatcher
        obtain ⟨own, rfl⟩ := hwatcher
        obtain ⟨parties, hparties, hnext⟩ := Option.bind_eq_some_iff.mp hturn
        cases hnext
        have hjoined := hopening.run (halong.mono fun _ _ => And.left)
          (connected_of_turn hallowed hturn hconnected)
        exact ⟨.turn halong hallowed.1 hparties, hbefore.turned hopening.client hjoined
          hallowed.1 hallowed.2 hparties hconnected⟩

/-! ## When there is nothing to report -/

variable (settings) in
/-- What is recorded of the folder: of each path, what the iterator delivers there. -/
def contents (place : Path) (folder : FileTree) (path : Text) : Option Record :=
  (Client.snapshot settings.platform folder
    (SystemCall.listing settings.pathToWatch place folder)
    (settings.pathToWatch ++ path)).map Client.Reading.record

variable {place : Path} {files : List Text} {folder : FileTree}
variable {paths : KeyedMap Text DirectoryEntry}

theorem watched_eq_contents
    (hfiles : files.Perm (SystemCall.listing settings.pathToWatch place folder))
    (hreadings : Client.Watcher.readings { paths } =
      Client.snapshot settings.platform folder files) :
    Client.watched settings paths = contents settings place folder := by
  funext path
  calc Client.watched settings paths path
    _ = (Client.Watcher.readings { paths } (settings.pathToWatch ++ path)).map
          Client.Reading.record := by
      rw [Client.Watcher.readings, Option.map_map]
      rfl
    _ = contents settings place folder path := by
      rw [hreadings, Client.snapshot_congr hfiles]
      rfl

/-- A scan that reports nothing has found the folder as the watcher knows it. -/
theorem readings_of_quiet {action : Client.WatcherAction} {watcher : Client.Watcher}
    (hfolder : FolderAt folder settings.pathToWatch place)
    (hfiles : files.Perm (SystemCall.listing settings.pathToWatch place folder))
    (hmapped : Client.Mapped settings paths)
    (hscan : Client.scan settings action folder files { paths } = .returned () watcher)
    (hquiet : watcher.notices = []) :
    Client.Watcher.readings { paths } = Client.snapshot settings.platform folder files := by
  have hknown : Client.Known settings.pathToWatch paths := fun path element hentry =>
    ⟨(hmapped path element hentry).absolute, (hmapped path element hentry).below⟩
  obtain ⟨other, notices, hscanned⟩ := Client.scanned (w := { paths }) action hfolder hfiles
    (Client.relativePath_of_scan hscan) hknown
  cases hscan.symm.trans hscanned.run
  obtain rfl : notices = [] := (List.nil_append notices).symm.trans
    (hscanned.noted.symm.trans hquiet)
  exact hscanned.reconciles.eq_of_nil

variable (settings session place) in
/-- The ledger of the session and its disk have what is in the folder. -/
structure BackedUp (backup : Backup) : Prop where
  within : ∀ path record, path ∉ backup.missed →
    backup.parties.server.ledger session path = some record →
      contents settings place backup.folder path = some record
  same : ∀ path, path ∉ backup.missed →
    ¬ TableOperation.Orphan Below (Parties.confirmed backup.parties.exchanges) path →
      backup.parties.server.ledger session path = contents settings place backup.folder path
  stored : backup.parties.server.recovered = true → ∀ path record, path ∉ backup.missed →
    ¬ TableOperation.Orphan Below (Parties.confirmed backup.parties.exchanges) path →
      contents settings place backup.folder path = some record →
        ∃ node, backup.parties.server.disk.status (session.userPath ++ path) = some node ∧
          node.record session.platform = record

theorem Pursued.backedUp {unique : Prop} (placement : Server.Placement session)
    (hserver : Server.Cuts session) (hclient : Client.Cuts settings) {start : Backup}
    (hpursued : Pursued settings start)
    (hopening : Parties.Opening settings session start.parties)
    (hbeginning : Parties.Beginning session unique start.parties)
    (halong : Along (turn settings session) (Allowed settings session) start backup)
    (hconnected : backup.parties.client.phase = .connected)
    (hpending : backup.parties.client.pending = []) {action : Client.WatcherAction}
    (hfolder : FolderAt backup.folder settings.pathToWatch place)
    (hfiles : files.Perm (SystemCall.listing settings.pathToWatch place backup.folder))
    {watcher : Client.Watcher}
    (hscan : Client.scan settings action backup.folder files { paths := backup.paths } =
      .returned () watcher)
    (hquiet : watcher.notices = []) : BackedUp settings session place backup := by
  obtain ⟨hparties, hafter⟩ := hpursued.run hclient hopening halong hconnected
  have hkept := hopening.keeps placement hserver hbeginning hparties hconnected
  have hjoined := hopening.run (hparties.mono fun _ _ => And.left) hconnected
  obtain ⟨hidle, -⟩ := List.append_eq_nil_iff.mp hpending
  have hagree := hkept.agree hbeginning hopening.client hjoined hconnected
    (List.map_eq_nil_iff.mp hidle)
  have hwatched := watched_eq_contents hfiles
    (readings_of_quiet hfolder hfiles hafter.mapped hscan hquiet)
  have hclient : ∀ path, path ∉ backup.missed → backup.parties.client.client.ledger path =
      contents settings place backup.folder path := by
    intro path hmissed
    have hdue := hafter.due path hmissed
    rw [hwatched, Client.System.due, hpending] at hdue
    exact hdue
  constructor
  · intro path record hmissed hrecord
    rw [← hclient path hmissed]
    exact hagree.within path record hrecord
  · intro path hmissed horphan
    rw [← hclient path hmissed]
    exact hagree.same path horphan
  · intro hrecovered path record hmissed horphan hrecord
    apply (hkept.tracked hrecovered).stored
    rw [hagree.same path horphan, hclient path hmissed, hrecord]

variable (settings session) in
/-- A check of what is allowed. -/
def permits (backup : Backup) : Turn → Bool
  | .look _ _ => true
  | .visit names _ => decide (names ≠ [] ∧ PlainPath names) &&
      (DirectoryEntry.load settings.platform settings.pathToWatch
        (settings.pathToWatch ++ render names) backup.folder).all fun element =>
          decide (Client.Acceptable { element, type := .created })
  | .parties (.client (.detect _)) => false
  | .parties action => Parties.permits session backup.parties action

theorem allowed_of_permits {action : Turn}
    (hpermits : permits settings session backup action = true) :
    Allowed settings session backup action := by
  cases action with
  | look path accepted => trivial
  | visit names accepted =>
      rw [permits, Bool.and_eq_true, decide_eq_true_eq, Option.all_eq_true] at hpermits
      exact ⟨hpermits.1.1, hpermits.1.2, fun element hload =>
        of_decide_eq_true (hpermits.2 element hload)⟩
  | parties action =>
      cases action with
      | serve => exact ⟨Parties.informed_of_permits hpermits, by simp⟩
      | client action =>
          cases action with
          | detect event => simp [permits] at hpermits
          | _ => exact ⟨Parties.informed_of_permits hpermits, by simp⟩

end Settings

end Backup

end PdsBackup
