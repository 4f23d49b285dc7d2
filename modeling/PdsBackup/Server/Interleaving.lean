import PdsBackup.Server.Concurrency

/-!
# A retrieval beside a backup

One session of a user retrieves while another one, on another machine, backs up.
The rows are collected first; then the elements are sent one by one, and between
any two of them the other session may handle requests.
-/

namespace PdsBackup.Server

open Procedure

/-- The two sessions, and the elements that are still to be sent. -/
structure Beside where
  disk : Disk
  database : Database
  retriever : Own
  backup : Own
  toSend : List (Text × DirectoryEntry) := []

namespace Beside

def retrieverView (beside : Beside) : ServerState := beside.retriever.view beside.disk beside.database

def backupView (beside : Beside) : ServerState := beside.backup.view beside.disk beside.database

/-- The rows have been collected. -/
def collected (toSend : List (Text × DirectoryEntry)) (s : ServerState) (beside : Beside) : Beside :=
  { beside with
    disk := s.disk
    database := s.database
    retriever := .left (.returned () s)
    toSend }

/-- The first element has been handled.  An exception ends the retrieval. -/
def sent (exit : Exit ServerState ServerException Unit) (others : List (Text × DirectoryEntry))
    (beside : Beside) : Beside :=
  { beside with
    disk := exit.state.disk
    database := exit.state.database
    retriever := .left exit
    toSend := if exit.returns then others else [] }

def requested (exit : Exit ServerState ServerException Unit) (beside : Beside) : Beside :=
  { beside with
    disk := exit.state.disk
    database := exit.state.database
    backup := .left exit }

end Beside

/-- The states of the two sessions.  Each element is handled where it meets a
condition, and each request likewise. -/
inductive Interleaved (retriever backup : Session)
    (onElement : Beside → Text × DirectoryEntry → Prop) (onRequest : Beside → Prop)
    (start : Beside) : Beside → Prop where
  | start : Interleaved retriever backup onElement onRequest start start
  | collect {beside : Beside} {message : ClientMessage} {toSend : List (Text × DirectoryEntry)}
      {s : ServerState} (hbefore : Interleaved retriever backup onElement onRequest start beside)
      (hdone : beside.toSend = [])
      (hcollect : collect retriever message beside.retrieverView = .returned toSend s) :
      Interleaved retriever backup onElement onRequest start (beside.collected toSend s)
  | element {beside : Beside} {element : Text × DirectoryEntry}
      {others : List (Text × DirectoryEntry)}
      (hbefore : Interleaved retriever backup onElement onRequest start beside)
      (hnext : beside.toSend = element :: others) (hmeets : onElement beside element) :
      Interleaved retriever backup onElement onRequest start
        (beside.sent (sendElement retriever element.1 element.2 beside.retrieverView) others)
  | request {beside : Beside} {message : ClientMessage} {pending : List ClientMessage}
      (hbefore : Interleaved retriever backup onElement onRequest start beside)
      (hopen : beside.backup.ended = false)
      (hincoming : beside.backupView.connection.incoming = message :: pending)
      (hbacks : Backs message) (hmeets : onRequest beside) :
      Interleaved retriever backup onElement onRequest start
        (beside.requested (receive backup beside.backupView))

variable {retriever backup session : Session} {message : ClientMessage}

/-! ## Requests -/

theorem rowsAt_forgottenAll_of_lookup (entries : List DirectoryEntry) {s : ServerState}
    (h : HasRows session s) : HasRows session (s.forgottenAll session entries) := by
  induction entries generalizing s with
  | nil => exact h
  | cons entry entries ih =>
      apply ih
      intro path hsome
      have hlookup : ((s.elements.erase entry.relativePath).lookup path).isSome = true := hsome
      have hrows : rowsAt session path (s.database.rows.filter fun row =>
          !row.isAt session.username session.mac entry.relativePath) ≠ [] := by
        rw [KeyedMap.lookup_erase] at hlookup
        rw [rowsAt_remove]
        by_cases hpath : path = entry.relativePath
        · simp [hpath] at hlookup
        · rw [if_neg hpath] at hlookup ⊢
          exact h path hlookup
      exact hrows

/-- A request leaves every path of the map with a row. -/
theorem Effect.hasRows {s s' : ServerState} (h : Effect session message s s')
    (htype : message.type ≠ .RETR) (hrows : HasRows session s) : HasRows session s' := by
  cases h with
  | nothing hsame => exact HasRows.ofTables s s' hsame hrows
  | retimed path entry hmem hsame =>
      apply HasRows.ofTables _ s' hsame
      intro other hother
      have hlookup : ((s.elements.insert path entry).lookup other).isSome = true := hother
      rw [KeyedMap.lookup_insert] at hlookup
      by_cases heq : other = path
      · exact hrows other (heq ▸ hmem)
      · rw [if_neg heq] at hlookup
        exact hrows other hlookup
  | forgot entries hsame =>
      exact HasRows.ofTables _ s' hsame (rowsAt_forgottenAll_of_lookup entries hrows)
  | tracked path entry hpath hentry hsame =>
      apply HasRows.ofTables _ s' hsame
      intro other hother
      cases hlookup : s.elements.lookup path with
      | none =>
          rw [hlookup] at hother
          have hother : ((KeyedMap.emplace s.elements entry.relativePath entry).lookup
            other).isSome = true := hother
          show rowsAt session other
            (s.database.rows ++ [Row.ofEntry session.username session.mac entry]) ≠ []
          rw [rowsAt_insert]
          by_cases heq : other = entry.relativePath
          · rw [if_pos heq]
            exact List.append_ne_nil_of_right_ne_nil _ (List.cons_ne_nil _ _)
          · rw [KeyedMap.lookup_emplace, if_neg heq] at hother
            rw [if_neg heq]
            exact hrows other hother
      | some el =>
          rw [hlookup] at hother
          have hother : ((s.elements.insert path entry).lookup other).isSome = true := hother
          have hbefore : rowsAt session other s.database.rows ≠ [] := by
            apply hrows
            rw [KeyedMap.lookup_insert] at hother
            by_cases heq : other = path
            · rw [heq, hlookup]
              rfl
            · rwa [if_neg heq] at hother
          show rowsAt session other (s.database.rows.map fun row =>
            if row.isAt session.username session.mac entry.relativePath then row.updated entry
            else row) ≠ []
          rw [rowsAt_update]
          split
          · simpa using hbefore
          · exact hbefore
  | withdrew hretr => exact absurd hretr htype

/-- The rows of the session can be read back. -/
def RowsReadable (session : Session) (rows : List Row) : Prop :=
  ∀ row ∈ rows, row.isOf session.username session.mac = true → Readable session row.path

theorem receive_hasRows {s : ServerState} {pending : List ClientMessage}
    (hincoming : s.connection.incoming = message :: pending) (hbacks : Backs message)
    (hrows : HasRows session s)
    (hfresh : s.recovered = false → s.elements = ∅ ∧ RowsReadable session s.database.rows) :
    HasRows session (receive session s).state := by
  have htype : message.type ≠ .RETR := by
    intro hretr
    simp [Backs, hretr] at hbacks
  have hrecovers : ∀ start : ServerState, SameTables s start → s.recovered = false →
      Meets (fun t => t = start) (recoverFromDB session) (fun _ => HasRows session)
        fun _ => HasRows session := by
    intro start hstart hunrecovered
    obtain ⟨helements, hreadable⟩ := hfresh hunrecovered
    exact recoverFromDB_hasRows (hstart.elements.trans helements) (hstart.rows ▸ hreadable)
  have hhandled : Handled session message s (receive session s).state := receive_handled hincoming
  cases hhandled with
  | skipped hsame => exact HasRows.ofTables s _ hsame hrows
  | direct hready heffect => exact heffect.hasRows htype hrows
  | recovering start middle hstart hunrecovered hrecover heffect =>
      exact heffect.hasRows htype ((hrecovers start hstart hunrecovered).returned rfl hrecover)
  | failing start middle exception hstart hunrecovered hrecover hsame =>
      exact HasRows.ofTables middle _ hsame
        ((hrecovers start hstart hunrecovered).raised rfl hrecover)

/-! ## Elements -/

/-- An element whose path the backup has in its map is up to date. -/
def Undisturbed (retriever backup : Session) (beside : Beside) (element : Text × DirectoryEntry) :
    Prop :=
  retriever.username = backup.username → element.1 = backup.mac →
    (beside.backup.elements.lookup element.2.relativePath).isSome = true →
      UpToDate retriever beside.disk element.1 element.2

/-- Every path in a map has a row. -/
def Covered (session : Session) (elements : KeyedMap Text DirectoryEntry) (rows : List Row) : Prop :=
  ∀ path, (elements.lookup path).isSome = true → rowsAt session path rows ≠ []

theorem covered_ofStores (elements : KeyedMap Text DirectoryEntry) :
    OfStores fun s => Covered session elements s.database.rows := by
  intro s s' hsame hs
  rw [Covered, hsame.rows]
  exact hs

/-- Rows of another user or of another machine do not matter. -/
theorem rowsAt_remove_other {username mac path removed : Text} {rows : List Row}
    (hother : username ≠ session.username ∨ mac ≠ session.mac ∨ removed ≠ path) :
    rowsAt session path (rows.filter fun row => !row.isAt username mac removed) =
      rowsAt session path rows := by
  rw [rowsAt, List.filter_filter]
  apply List.filter_congr
  intro row _
  by_cases hat : row.isAt session.username session.mac path = true
  · obtain ⟨hof, hpath⟩ := isAt_iff.mp hat
    simp only [Row.isOf, decide_eq_true_eq] at hof
    have hkept : row.isAt username mac removed = false := by
      rw [Bool.eq_false_iff]
      intro hremoved
      obtain ⟨hof', hpath'⟩ := isAt_iff.mp hremoved
      simp only [Row.isOf, decide_eq_true_eq] at hof'
      rcases hother with hne | hne | hne
      · exact hne (hof'.1.symm.trans hof.1)
      · exact hne (hof'.2.symm.trans hof.2)
      · exact hne (hpath'.symm.trans hpath)
    simp [hkept]
  · simp [hat]

theorem sendElement_covered {beside : Beside} {element : Text × DirectoryEntry}
    (hundisturbed : Undisturbed retriever backup beside element)
    (hcovered : Covered backup beside.backup.elements beside.database.rows) :
    Covered backup beside.backup.elements
      (sendElement retriever element.1 element.2 beside.retrieverView).state.database.rows := by
  have hkeeps : OfStores fun s => Covered backup beside.backup.elements s.database.rows ∧
      s.disk = beside.disk :=
    fun s s' hsame hs => ⟨covered_ofStores _ s s' hsame hs.1, hsame.disk.trans hs.2⟩
  have hsent : Keeps (fun s => Covered backup beside.backup.elements s.database.rows ∧
      s.disk = beside.disk) (sendElement retriever element.1 element.2) := by
    apply hkeeps.sendElement
    rintro s ⟨hs, hdisk⟩
    by_cases htracked : retriever.username = backup.username ∧ element.1 = backup.mac ∧
        (beside.backup.elements.lookup element.2.relativePath).isSome = true
    · rw [hdisk]
      exact .inl (hundisturbed htracked.1 htracked.2.1 htracked.2.2)
    · refine .inr ⟨fun path hpath => ?_, hdisk⟩
      have hother : retriever.username ≠ backup.username ∨ element.1 ≠ backup.mac ∨
          element.2.relativePath ≠ path := by
        by_contra hsame
        simp only [ne_eq, not_or, not_not] at hsame
        exact htracked ⟨hsame.1, hsame.2.1, hsame.2.2 ▸ hpath⟩
      exact fun hnone => hs path hpath ((rowsAt_remove_other hother).symm.trans hnone)
  exact (hsent.state (s := beside.retrieverView) ⟨hcovered, rfl⟩).1

/-! ## Every run -/

/-- Every path of the backup has a row, and a backup that has not recovered yet
knows none. -/
structure Retained (backup : Session) (beside : Beside) : Prop where
  covered : Covered backup beside.backup.elements beside.database.rows
  fresh : beside.backup.ended = false → beside.backup.recovered = false →
    beside.backup.elements = ∅

/-- Before its recovery the backup can read its rows back. -/
def Legible (backup : Session) (beside : Beside) : Prop :=
  beside.backup.recovered = false → RowsReadable backup beside.database.rows

theorem Retained.collected {beside : Beside} {toSend : List (Text × DirectoryEntry)} {s : ServerState}
    (h : Retained backup beside)
    (hcollect : collect retriever message beside.retrieverView = .returned toSend s) :
    Retained backup (beside.collected toSend s) where
  covered := by
    have hsame := (Untouching.collect retriever message beside.retrieverView).returned
      (SameTables.refl _) hcollect
    have hrows : s.database.rows = beside.database.rows := hsame.rows
    show Covered backup beside.backup.elements s.database.rows
    rw [hrows]
    exact h.covered
  fresh := h.fresh

theorem Retained.requested {beside : Beside} {pending : List ClientMessage} (h : Retained backup beside)
    (hopen : beside.backup.ended = false)
    (hincoming : beside.backupView.connection.incoming = message :: pending)
    (hbacks : Backs message) (hlegible : Legible backup beside) :
    Retained backup (beside.requested (receive backup beside.backupView)) where
  covered := by
    apply receive_hasRows hincoming hbacks h.covered
    exact fun hunrecovered => ⟨h.fresh hopen hunrecovered, hlegible hunrecovered⟩
  fresh := by
    intro hgoing hunrecovered
    have hreturns : (receive backup beside.backupView).returns = true := by
      simpa [Beside.requested, Own.left] using hgoing
    have hrecovered := receive_recovers hincoming hbacks (Exit.eq_returned_of_returns hreturns)
    exact absurd (hrecovered.symm.trans hunrecovered) (by decide)

theorem Interleaved.kept {start beside : Beside} (hstart : Retained backup start)
    (hruns : Interleaved retriever backup (Undisturbed retriever backup) (Legible backup) start
      beside) : Retained backup beside := by
  induction hruns with
  | start => exact hstart
  | collect hbefore hdone hcollect ih => exact ih.collected hcollect
  | element hbefore hnext hundisturbed ih =>
      exact ⟨sendElement_covered hundisturbed ih.covered, ih.fresh⟩
  | request hbefore hopen hincoming hbacks hlegible ih =>
      exact ih.requested hopen hincoming hbacks hlegible

/-- However the retrieval and the backup take turns, each path the backup has in
its map and on the disk has a row, as long as no element is handled that the
backup has changed since it was collected. -/
theorem rows_survive {start beside : Beside} (hempty : start.backup.elements = ∅)
    (hruns : Interleaved retriever backup (Undisturbed retriever backup) (Legible backup) start
      beside) (path : Text) (htracked : (beside.backup.elements.lookup path).isSome = true)
    (_ : beside.disk.present (backup.userPath ++ path) = true) :
    rowsAt backup path beside.database.rows ≠ [] := by
  have hstart : Retained backup start := by
    refine ⟨fun other hother => ?_, fun _ _ => hempty⟩
    simp [hempty] at hother
  exact (hruns.kept hstart).covered path htracked

/-! ### A file that is stored again -/

/-- The libraries on the empty file and on a file with the one character `a`. -/
def letterPlatform : Platform where
  sha256 content := if content = [] then epochPlatform.sha256 [] else ⟨[0xca, 0x97, 0x81, 0x12,
    0xca, 0x1b, 0xbd, 0xca, 0xfa, 0xc2, 0x31, 0xb3, 0x9a, 0x23, 0xdc, 0x4d, 0xa7, 0x86, 0xef, 0xf8,
    0x14, 0x7c, 0x4e, 0x72, 0xb9, 0x80, 0x77, 0x85, 0xaf, 0xee, 0x48, 0xbb], rfl⟩
  putTime := epochPlatform.putTime
  getTime := epochPlatform.getTime

def backupSession : Session := { annaSession with platform := letterPlatform }

/-- Another machine of `anna`'s. -/
def retrieverSession : Session := { backupSession with mac := "7:8:9:a:b:c".toList }

def retrRequest : ClientMessage :=
  { version := 1, type := .RETR, macAddress := backupSession.mac }

/-- The request for a file with the one character `a`, and its DATA message. -/
def letterRequest (path : Text) : List ClientMessage :=
  [{ version := 1, type := .STOR, path, fileSize := 1, lastWriteTime := epoch,
      hash := (letterPlatform.sha256 [0x61]).str },
    { version := 1, type := .DATA, data := [0x61], last := true }]

def besideStart (incoming : List ClientMessage) : Beside where
  disk := annaDisk
  database := {}
  retriever := { connection := { incoming := [] } }
  backup := { connection := { incoming } }

def Beside.callBackup (beside : Beside) : Beside :=
  beside.requested (receive backupSession beside.backupView)

def Beside.callCollect (beside : Beside) : Beside :=
  match collect retrieverSession retrRequest beside.retrieverView with
  | .returned toSend s => beside.collected toSend s
  | .raised _ _ => beside

def Beside.callElement (beside : Beside) : Beside :=
  match beside.toSend with
  | element :: others =>
      beside.sent (sendElement retrieverSession element.1 element.2 beside.retrieverView) others
  | [] => beside

section Calls

variable {onElement : Beside → Text × DirectoryEntry → Prop} {onRequest : Beside → Prop}
variable {start beside : Beside}

theorem Interleaved.callCollect
    (h : Interleaved retrieverSession backupSession onElement onRequest start beside)
    (hdone : beside.toSend = []) :
    Interleaved retrieverSession backupSession onElement onRequest start beside.callCollect := by
  unfold Beside.callCollect
  cases hcollect : Server.collect retrieverSession retrRequest beside.retrieverView with
  | returned toSend s => exact h.collect hdone hcollect
  | raised exception s => exact h

theorem Interleaved.callElement
    (h : Interleaved retrieverSession backupSession onElement onRequest start beside)
    (hmeets : ∀ element ∈ beside.toSend.head?, onElement beside element) :
    Interleaved retrieverSession backupSession onElement onRequest start beside.callElement := by
  unfold Beside.callElement
  cases hnext : beside.toSend with
  | cons element others => exact h.element hnext (hmeets element (by simp [hnext]))
  | nil => exact h

end Calls

/-- The file is stored and its row is collected. -/
def storedOnce : Beside :=
  (besideStart (storRequest "/a".toList 0 ++ letterRequest "/a".toList)).callBackup.callCollect

/-- The file is stored again before it is compared with the row. -/
def storedAgain : Beside := storedOnce.callBackup

theorem interleaved_storedOnce {onElement : Beside → Text × DirectoryEntry → Prop}
    {onRequest : Beside → Prop}
    (hmeets : onRequest (besideStart (storRequest "/a".toList 0 ++ letterRequest "/a".toList))) :
    Interleaved retrieverSession backupSession onElement onRequest
      (besideStart (storRequest "/a".toList 0 ++ letterRequest "/a".toList)) storedOnce := by
  have hstored : Interleaved retrieverSession backupSession onElement onRequest
      (besideStart (storRequest "/a".toList 0 ++ letterRequest "/a".toList))
      (besideStart (storRequest "/a".toList 0 ++ letterRequest "/a".toList)).callBackup :=
    .request .start rfl rfl (.inr (.inl rfl)) hmeets
  exact hstored.callCollect rfl

/-- When the file is not stored again, its row stays. -/
theorem rows_survive_untouched :
    rowsAt backupSession "/a".toList storedOnce.callElement.database.rows ≠ [] := by
  have hlegible : Legible backupSession
      (besideStart (storRequest "/a".toList 0 ++ letterRequest "/a".toList)) := by
    intro _ row hrow
    exact absurd hrow List.not_mem_nil
  have hchecked : (storedOnce.toSend.head?.all fun element =>
      storedOnce.disk.present element.2.absolutePath &&
        (DirectoryEntry.load letterPlatform (retrieverSession.basePath ++
          retrieverSession.relativeRoot element.1) element.2.absolutePath
          storedOnce.disk.tree).all fun effective => element.2.hash = effective.hash) = true := by
    decide +kernel
  have hundisturbed : ∀ element ∈ storedOnce.toSend.head?,
      Undisturbed retrieverSession backupSession storedOnce element := by
    intro element helement _ _ _
    rw [Option.mem_def] at helement
    rw [helement, Option.all_some, Bool.and_eq_true] at hchecked
    refine ⟨hchecked.1, fun _ effective hload => ?_⟩
    have hhash := hchecked.2
    rw [show DirectoryEntry.load letterPlatform _ _ _ = some effective from hload] at hhash
    simpa using hhash
  have hends : (storedOnce.callElement.backup.elements.lookup "/a".toList).isSome = true ∧
      storedOnce.callElement.disk.present (backupSession.userPath ++ "/a".toList) = true := by
    decide +kernel
  exact rows_survive rfl ((interleaved_storedOnce hlegible).callElement hundisturbed) "/a".toList
    hends.1 hends.2

theorem not_rows_survive :
    ¬ ∀ (retriever backup : Session) (start beside : Beside),
      retriever.username = backup.username → retriever.mac ≠ backup.mac →
      Fresh start.backupView → start.toSend = [] → start.database.rows = [] →
      Interleaved retriever backup (fun _ _ => True) (fun _ => True) start beside →
      ∀ path, (beside.backup.elements.lookup path).isSome = true →
        beside.disk.present (backup.userPath ++ path) = true →
          rowsAt backup path beside.database.rows ≠ [] := by
  intro hclaim
  have hopen : storedOnce.backup.ended = false ∧
      storedOnce.backupView.connection.incoming = letterRequest "/a".toList := by
    decide +kernel
  have hagain : Interleaved retrieverSession backupSession (fun _ _ => True) (fun _ => True)
      (besideStart (storRequest "/a".toList 0 ++ letterRequest "/a".toList)) storedAgain :=
    (interleaved_storedOnce trivial).request hopen.1 hopen.2 (.inr (.inl rfl)) trivial
  have hrows := hclaim retrieverSession backupSession _ _ rfl (by decide) ⟨rfl, rfl, rfl, rfl⟩ rfl
    rfl (hagain.callElement fun _ _ => trivial) "/a".toList
  revert hrows
  decide +kernel

end PdsBackup.Server
