import PdsBackup.Client.SavedFiles
import PdsBackup.System.Watching

/-!
# The watcher after a restart

A client that starts reads its database into the map of the watcher, and queues what
is still in the folder as modified.  What is queued says nothing new, so that what is
due is what the watcher has seen.
-/

namespace PdsBackup

open Procedure Schedule

namespace Client

section Settings

variable (settings : Settings)

/-- An element that was reported, under its own path. -/
def Restorable (element : DirectoryEntry) : Prop :=
  Traced settings (settings.pathToWatch ++ element.relativePath) element

variable {settings}

/-- What is read of the row of an element. -/
def recalled (element : DirectoryEntry) : Visit where
  path := element.relativePath
  type := element.typeName
  size := columnInt (element.size % 2 ^ 64)
  lastWriteTime := element.lastWriteTime
  hash := element.hash.str

/-- The element that is made of it. -/
def reread (element : DirectoryEntry) : DirectoryEntry :=
  { element with size := columnInt (element.size % 2 ^ 64) }

variable {action : WatcherAction} {tree : FileTree} {w w' : Watcher}
variable {element : DirectoryEntry} {elements : List DirectoryEntry}

theorem visit_ofEntry (hrestorable : Restorable settings element) :
    (Row.ofEntry element).visit = some (recalled element) := by
  have hpath : nul ∉ element.relativePath := by
    obtain ⟨names, -, hnames, heq⟩ := hrestorable.below
    rw [List.append_cancel_left heq]
    exact nul_notMem_render hnames
  have htime : nul ∉ element.lastWriteTime :=
    Validator.notMem_of_matchesPattern hrestorable.acceptable.time (by decide +kernel)
  have hname : nul ∉ element.typeName := by
    rw [DirectoryEntry.typeName]
    split <;> decide
  rw [Row.visit, readColumns, Row.ofEntry, cString_eq_self (nul_notMem_hex _),
    hexToString_stringToHex, cString_eq_self hpath, cString_eq_self hname, cString_eq_self htime]
  rfl

theorem mapM_visit (hrestorable : ∀ element ∈ elements, Restorable settings element) :
    (elements.map Row.ofEntry).mapM Row.visit = some (elements.map recalled) := by
  induction elements with
  | nil => rfl
  | cons element elements ih =>
      obtain ⟨hfirst, hothers⟩ := List.forall_mem_cons.mp hrestorable
      rw [List.map_cons, List.mapM_cons, visit_ofEntry hfirst, ih hothers]
      rfl

theorem make_recalled (hrestorable : Restorable settings element) :
    DirectoryEntry.make settings.pathToWatch element.relativePath
        (columnInt (element.size % 2 ^ 64)) element.typeName element.lastWriteTime element.hash =
      reread element := by
  cases hrestorable.acceptable.kind with
  | inl hfile =>
      have htype : element.type = .file := hfile
      have hname : element.typeName = "file".toList := if_pos htype
      rw [DirectoryEntry.make, ← hrestorable.absolute, hname, if_pos rfl, ← htype]
      rfl
  | inr hdirectory =>
      have htype : element.type = .directory := hdirectory.1
      have hname : element.typeName = "directory".toList := if_neg (by simp [htype])
      rw [DirectoryEntry.make, ← hrestorable.absolute, hname,
        if_neg (show "directory".toList ≠ "file".toList by decide), if_pos rfl, ← htype]
      rfl

theorem traced_reread (hrestorable : Restorable settings element) :
    Traced settings (settings.pathToWatch ++ element.relativePath) (reread element) := by
  have hacceptable := hrestorable.acceptable
  constructor
  · rfl
  · exact hrestorable.absolute
  · exact hrestorable.below
  · exact ⟨hacceptable.path, hacceptable.canonical, hacceptable.time, hacceptable.kind⟩

theorem recoverPath_run (hrestorable : Restorable settings element) :
    recoverPath settings (recalled element) w = .returned () { w with
      paths := w.paths.insert (settings.pathToWatch ++ element.relativePath) (reread element) } := by
  have hmade := make_recalled hrestorable
  rw [recoverPath, recalled, Hash.ofBytes_str, orRaise_some, pure_bind_apply]
  rw [hmade, modify_apply, ← hrestorable.absolute]
  rfl

theorem rowAt_ofEntry_cons (path : Text) :
    records (tableOf ((element :: elements).map Row.ofEntry)) path =
      if path = element.relativePath then some element.record
      else records (tableOf (elements.map Row.ofEntry)) path := by
  rw [records, tableOf, List.map_cons, Database.rowAt_cons]
  by_cases hpath : path = element.relativePath
  · rw [if_pos hpath, if_pos (show (Row.ofEntry element).path = path from hpath.symm)]
    rfl
  · rw [if_neg hpath, if_neg (show (Row.ofEntry element).path ≠ path from Ne.symm hpath)]
    rfl

theorem records_eq_none {path : Text} (hpath : path ∉ elements.map DirectoryEntry.relativePath) :
    records (tableOf (elements.map Row.ofEntry)) path = none := by
  induction elements with
  | nil => rfl
  | cons element elements ih =>
      rw [List.map_cons, List.mem_cons, not_or] at hpath
      rw [rowAt_ofEntry_cons, if_neg hpath.1, ih hpath.2]

/-- The map has what the table has. -/
theorem recoverPaths_run (hrestorable : ∀ element ∈ elements, Restorable settings element)
    (honce : (elements.map DirectoryEntry.relativePath).Nodup)
    (hmapped : Mapped settings w.paths) :
    ∃ paths, recoverPaths settings (elements.map recalled) w = .returned () { w with paths } ∧
      Mapped settings paths ∧ ∀ path, watched settings paths path =
        (records (tableOf (elements.map Row.ofEntry)) path).or (watched settings w.paths path) := by
  induction elements generalizing w with
  | nil => exact ⟨w.paths, rfl, hmapped, fun _ => rfl⟩
  | cons element elements ih =>
      obtain ⟨hfirst, hothers⟩ := List.forall_mem_cons.mp hrestorable
      obtain ⟨hfresh, honce⟩ := List.nodup_cons.mp honce
      have htraced := traced_reread hfirst
      obtain ⟨paths, hrun, hafter, hwatched⟩ := ih (w := { w with
        paths := w.paths.insert (settings.pathToWatch ++ element.relativePath) (reread element) })
        hothers honce (hmapped.insert htraced)
      refine ⟨paths, ?_, hafter, ?_⟩
      · rw [List.map_cons, recoverPaths, bind_of_returned (recoverPath_run hfirst)]
        exact hrun
      · intro path
        rw [hwatched, watched_insert htraced.relative, rowAt_ofEntry_cons, Function.update_apply]
        by_cases hpath : path = element.relativePath
        · rw [if_pos hpath, records_eq_none (hpath ▸ hfresh)]
          exact if_pos hpath
        · rw [if_neg hpath, if_neg (show path ≠ (reread element).relativePath from hpath)]

variable (action tree w) in
/-- What is reported is in the map, as modified. -/
theorem reportKnown_run (entries : List (Sigma fun _ : Text => DirectoryEntry)) :
    ∃ notices, reportKnown action tree entries w =
        .returned () { w with notices := w.notices ++ notices } ∧
      ∀ notice ∈ notices, notice.event.type = .modified ∧
        ∃ path, ⟨path, notice.event.element⟩ ∈ entries := by
  induction entries generalizing w with
  | nil => exact ⟨[], by rw [List.append_nil]; rfl, fun _ hmem => absurd hmem List.not_mem_nil⟩
  | cons entry entries ih =>
      obtain ⟨path, element⟩ := entry
      have hlater : ∀ notices : List Notice, (∀ notice ∈ notices,
          notice.event.type = .modified ∧ ∃ path, ⟨path, notice.event.element⟩ ∈ entries) →
            ∀ notice ∈ notices, notice.event.type = .modified ∧
              ∃ other, ⟨other, notice.event.element⟩ ∈
                (⟨path, element⟩ : Sigma fun _ : Text => DirectoryEntry) :: entries := by
        intro notices hnotices notice hmem
        obtain ⟨htype, other, hother⟩ := hnotices notice hmem
        exact ⟨htype, other, List.mem_cons_of_mem _ hother⟩
      rw [reportKnown]
      cases hstatus : tree.status path with
      | none =>
          obtain ⟨notices, hrun, hnotices⟩ := ih w
          exact ⟨notices, hrun, hlater notices hnotices⟩
      | some node =>
          generalize hevent : ({ element, type := .modified } : Event) = event
          have hown : event.type = .modified ∧ ∃ other, ⟨other, event.element⟩ ∈
              (⟨path, element⟩ : Sigma fun _ : Text => DirectoryEntry) :: entries := by
            rw [← hevent]
            exact ⟨rfl, path, List.mem_cons_self⟩
          cases haccepted : action w.notices event with
          | true =>
              obtain ⟨notices, hrun, hnotices⟩ :=
                ih { w with notices := w.notices ++ [⟨event, true⟩] }
              refine ⟨⟨event, true⟩ :: notices, ?_, ?_⟩
              · rw [Option.isSome_some, if_pos rfl, bind_of_returned (perform_run haccepted),
                  if_pos rfl, hrun, List.append_assoc]
                rfl
              · exact List.forall_mem_cons.mpr ⟨hown, hlater notices hnotices⟩
          | false =>
              refine ⟨[⟨event, false⟩], ?_, ?_⟩
              · rw [Option.isSome_some, if_pos rfl, bind_of_returned (perform_run haccepted)]
                rfl
              · exact List.forall_mem_cons.mpr ⟨hown, fun _ hmem => absurd hmem List.not_mem_nil⟩

/-- The events that were accepted. -/
def queued (notices : List Notice) : List Event :=
  (notices.filter Notice.accepted).map Notice.event

end Settings

end Client

namespace Backup

section Settings

variable (settings : Client.Settings)

/-- The watcher recovers from the database, and what its action accepts is queued. -/
def restart (action : Client.WatcherAction) (parties : Parties) : Option Backup := do
  let visits ← parties.client.client.database.rows.mapM Client.Row.visit
  match Client.recoverFromDB settings action parties.client.client.folder visits {} with
  | .raised _ _ => none
  | .returned _ watcher => some {
      parties := { parties with
        client := { parties.client with eventQueue := Client.queued watcher.notices } }
      paths := watcher.paths }

variable {settings}

/-- After a restart, what is due is what the watcher has seen. -/
theorem restart_pursues (action : Client.WatcherAction) {parties : Parties}
    {elements : List DirectoryEntry}
    (hrows : parties.client.client.database.rows = elements.map Client.Row.ofEntry)
    (hrestorable : ∀ element ∈ elements, Client.Restorable settings element)
    (honce : (elements.map DirectoryEntry.relativePath).Nodup)
    (hwaiting : parties.client.client.waitingForResponse.toList = []) :
    ∃ backup, restart settings action parties = some backup ∧ Pursued settings backup ∧
      ∀ event ∈ backup.parties.client.eventQueue, Client.Noticed event := by
  obtain ⟨paths, hrecover, hmapped, hwatched⟩ := Client.recoverPaths_run (w := {}) hrestorable
    honce KeyedMap.All.empty
  obtain ⟨notices, hreport, hnotices⟩ := Client.reportKnown_run action
    parties.client.client.folder { paths } paths.entries
  have hrun : Client.recoverFromDB settings action parties.client.client.folder
      (elements.map Client.recalled) {} = .returned () { paths, notices } := by
    rw [Client.recoverFromDB, bind_of_returned hrecover]
    exact hreport
  have hledger : Client.watched settings paths = parties.client.client.ledger := by
    funext path
    rw [hwatched, Client.ClientState.ledger, hrows]
    exact Option.or_none
  have hqueued : ∀ event ∈ Client.queued notices, event.type = .modified ∧
      Client.Acceptable { element := event.element, type := .deleted } ∧
        Client.watched settings paths event.path = some event.element.record := by
    intro event hmem
    obtain ⟨notice, hnotice, rfl⟩ := List.mem_map.mp hmem
    obtain ⟨htype, path, hentry⟩ := hnotices notice (List.mem_of_mem_filter hnotice)
    have hlookup := AList.mem_lookup_iff.mpr hentry
    have htraced := hmapped path _ hlookup
    refine ⟨htype, htraced.acceptable, ?_⟩
    rw [Client.watched, Client.Event.path, ← htraced.relative]
    exact congrArg (Option.map DirectoryEntry.record) hlookup
  have hrestart : restart settings action parties = some {
      parties := { parties with
        client := { parties.client with eventQueue := Client.queued notices } }
      paths } := by
    rw [restart, hrows, Client.mapM_visit hrestorable, Option.bind_eq_bind, Option.bind_some, hrun]
  refine ⟨_, hrestart, ⟨hmapped, ?_⟩, ?_⟩
  · intro path _
    have hpending : Client.System.pending { parties.client with
        eventQueue := Client.queued notices } = Client.queued notices := by
      rw [Client.System.pending, hwaiting]
      rfl
    show Client.System.due { parties.client with eventQueue := Client.queued notices } path =
      Client.watched settings paths path
    rw [Client.System.due, hpending, hledger]
    apply congrFun
    apply TableOperation.foldl_shallow_self
    intro operation hoperation
    obtain ⟨event, hmem, rfl⟩ := List.mem_map.mp hoperation
    obtain ⟨htype, -, hwatched⟩ := hqueued event hmem
    rw [Client.Event.outcome_present (.inr htype), Client.Event.key_operation, ← hwatched,
      hledger]
  · intro event hmem
    obtain ⟨htype, hacceptable, -⟩ := hqueued event hmem
    exact ⟨hacceptable.withType event.type, by simp [htype]⟩

theorem restart_parties {action : Client.WatcherAction} {parties : Parties} {start : Backup}
    (hrestart : restart settings action parties = some start) :
    ∃ eventQueue, start.parties =
      { parties with client := { parties.client with eventQueue } } := by
  obtain ⟨visits, -, hrecovered⟩ := Option.bind_eq_some_iff.mp hrestart
  cases hrun : Client.recoverFromDB settings action parties.client.client.folder visits {} with
  | raised exception watcher => simp [hrun] at hrecovered
  | returned value watcher =>
      rw [hrun] at hrecovered
      cases hrecovered
      exact ⟨_, rfl⟩

variable {session : Server.Session} {unique : Prop} {place : Path} {files : List Text}

/-- From a restart on, whenever nothing is pending and a scan has nothing to report, the
folder is backed up. -/
theorem folder_backed_up (placement : Server.Placement session) (hserver : Server.Cuts session)
    (hclient : Client.Cuts settings) {parties : Parties}
    (hopening : Parties.Opening settings session parties)
    (hbeginning : Parties.Beginning session unique parties) {elements : List DirectoryEntry}
    (hrows : parties.client.client.database.rows = elements.map Client.Row.ofEntry)
    (hrestorable : ∀ element ∈ elements, Client.Restorable settings element)
    (honce : (elements.map DirectoryEntry.relativePath).Nodup) {action : Client.WatcherAction}
    {start backup : Backup} (hrestart : restart settings action parties = some start)
    (halong : Along (turn settings session) (Allowed settings session) start backup)
    (hconnected : backup.parties.client.phase = .connected)
    (hpending : backup.parties.client.pending = []) {answering : Client.WatcherAction}
    (hfolder : FolderAt backup.folder settings.pathToWatch place)
    (hfiles : files.Perm (SystemCall.listing settings.pathToWatch place backup.folder))
    {watcher : Client.Watcher}
    (hscan : Client.scan settings answering backup.folder files { paths := backup.paths } =
      .returned () watcher)
    (hquiet : watcher.notices = []) : BackedUp settings session place backup := by
  obtain ⟨recovered, hrecovered, hpursued, hnoticed⟩ := restart_pursues action hrows hrestorable
    honce hopening.client.waiting
  obtain rfl := Option.some.inj (hrecovered.symm.trans hrestart)
  obtain ⟨eventQueue, hparties⟩ := restart_parties hrestart
  have hopening' : Parties.Opening settings session recovered.parties := by
    constructor
    · exact hopening.version
    · have hopened := hopening.client
      rw [hparties]
      exact ⟨hopened.phase, hopened.waiting, hopened.connection, hopened.answers, hopened.calls⟩
    · exact hnoticed
    · rw [hparties]
      exact hopening.incoming
    · rw [hparties]
      exact hopening.exchanges
  have hbeginning' : Parties.Beginning session unique recovered.parties := by
    rw [hparties]
    exact ⟨hbeginning.known, hbeginning.settled, hbeginning.ledger⟩
  exact hpursued.backedUp placement hserver hclient hopening' hbeginning' halong hconnected
    hpending hfolder hfiles hscan hquiet

end Settings

def annaBackup : Backup where
  parties := Parties.annaParties

/-- A file and a directory are found, and the directory is removed again. -/
def finding : List Turn :=
  [.parties (.client (.change (Client.sendingFolder.putDir ["b".toList, "home".toList] 0))),
    .visit ["a".toList] true, .visit ["b".toList] true, .parties (.client .writable),
    .parties (.client .writable), .parties .serve, .parties .serve,
    .parties (.client .readable), .parties (.client (.change Client.sendingFolder)),
    .look "/home/b".toList true, .parties .serve, .parties (.client .readable),
    .parties (.client .readable), .parties (.client .writable), .parties .serve,
    .parties (.client .readable)]

theorem restart_anna :
    restart Parties.annaSettings (fun _ _ => true) Parties.annaParties = some annaBackup := rfl

theorem folder_backed_up_anna :
    ∃ backup, Along (turn Parties.annaSettings Server.annaSession)
        (Allowed Parties.annaSettings Server.annaSession) annaBackup backup ∧
      BackedUp Parties.annaSettings Server.annaSession ["home".toList] backup ∧
      backup.missed = [] ∧
      contents Parties.annaSettings ["home".toList] backup.folder "/a".toList =
        some Parties.annaFile.record ∧
      contents Parties.annaSettings ["home".toList] backup.folder "/b".toList = none := by
  have hruns : (runs (checked (permits Parties.annaSettings Server.annaSession)
      (turn Parties.annaSettings Server.annaSession)) finding annaBackup).any (fun backup =>
        backup.parties.client.phase = .connected && backup.parties.client.pending = [] &&
        backup.folder.resolve "/home".toList = some ["home".toList] &&
        backup.folder.isDir ["home".toList] &&
        (match Client.scan Parties.annaSettings (fun _ _ => true) backup.folder
            (SystemCall.listing "/home".toList ["home".toList] backup.folder)
            { paths := backup.paths } with
          | .returned _ watcher => watcher.notices = []
          | .raised _ _ => false) &&
        backup.missed = [] &&
        contents Parties.annaSettings ["home".toList] backup.folder "/a".toList =
          some Parties.annaFile.record &&
        contents Parties.annaSettings ["home".toList] backup.folder "/b".toList = none) = true := by
    decide +kernel
  obtain ⟨backup, hbackup, htest⟩ := (Option.any_eq_true _ _).mp hruns
  simp only [Bool.and_eq_true, decide_eq_true_eq, and_assoc] at htest
  obtain ⟨hconnected, hpending, hresolves, hisDir, hscanned, hmissed, hfile, hnone⟩ := htest
  have hfolder : FolderAt backup.folder "/home".toList ["home".toList] :=
    ⟨hresolves, hisDir, by decide, by decide⟩
  have halong : Along (turn Parties.annaSettings Server.annaSession)
      (Allowed Parties.annaSettings Server.annaSession) annaBackup backup :=
    along_of_runs (fun _ _ => allowed_of_permits) hbackup
  split at hscanned
  · next value watcher hscan =>
      have hnothing : ∀ element ∈ ([] : List DirectoryEntry),
          Client.Restorable Parties.annaSettings element := fun _ hmem =>
        absurd hmem List.not_mem_nil
      refine ⟨backup, halong, ?_, hmissed, hfile, hnone⟩
      exact folder_backed_up Server.annaPlacement (Server.cuts_of_literal (by decide +kernel))
        (fun names found _ hfound =>
          DirectoryEntry.relativePathOf_append (by decide +kernel) hfound)
        Parties.opening_anna Parties.beginning_anna rfl hnothing List.nodup_nil restart_anna halong
        hconnected hpending hfolder (List.Perm.refl _) hscan (by simpa using hscanned)
  · simp at hscanned

end Backup

end PdsBackup
