import PdsBackup.Server.Feasible

/-!
# Sizes, times and hashes

The attributes of a tracked path are kept in its element, in its row and on the
disk.  Recovery makes them equal.  A request that changes a file, or the time of
a directory by what it does in it, has to change all three: each handler is
followed at the paths it does not act on as well.
-/

namespace PdsBackup.Server

open Procedure

variable {session : Session}

/-- The element has the attributes of the object at its path. -/
def Described (session : Session) (tree : FileTree) (path : Text) (el : DirectoryEntry) : Prop :=
  ∃ node, tree.status (session.userPath ++ path) = some node ∧
    DirectoryEntry.Describes session.platform node el

/-- The row has the attributes of the element; a size is kept in 64 bits. -/
structure Records (row : Row) (el : DirectoryEntry) : Prop where
  size : row.size = el.size % 2 ^ 64
  lastWriteTime : row.lastWriteTime = el.lastWriteTime
  hash : row.columns.hashBytes = some el.hash.str

/-- The attributes of an element, of its object and in its rows are the same. -/
structure AttributesAt (session : Session) (s : ServerState) (path : Text)
    (el : DirectoryEntry) : Prop where
  described : Described session s.disk.tree path el
  records : ∀ row ∈ rowsAt session path s.database.rows, Records row el

def AttributesAgree (session : Session) (s : ServerState) : Prop :=
  ∀ path el, s.elements.lookup path = some el → AttributesAt session s path el

theorem records_ofEntry (username mac : Text) (entry : DirectoryEntry) :
    Records (Row.ofEntry username mac entry) entry :=
  ⟨rfl, rfl, (agrees_ofEntry username mac entry).hash⟩

theorem records_updated (row : Row) (entry : DirectoryEntry) : Records (row.updated entry) entry :=
  ⟨rfl, rfl, (agrees_updated row entry).hash⟩

theorem eq_of_fields {entry other : DirectoryEntry}
    (hrelative : entry.relativePath = other.relativePath)
    (habsolute : entry.absolutePath = other.absolutePath) (hsize : entry.size = other.size)
    (htype : entry.type = other.type) (htime : entry.lastWriteTime = other.lastWriteTime)
    (hhash : entry.hash = other.hash) : entry = other := by
  cases entry
  cases other
  cases hrelative
  cases habsolute
  cases hsize
  cases htype
  cases htime
  cases hhash
  rfl

theorem Described.of_load {tree : FileTree} {path : Text} {el : DirectoryEntry}
    (hload : DirectoryEntry.load session.platform session.userPath (session.userPath ++ path)
      tree = some el) : Described session tree path el :=
  (DirectoryEntry.load_eq_some hload).2.2

theorem AttributesAgree.sent {s : ServerState} (h : AttributesAgree session s)
    (message : ServerMessage) : AttributesAgree session (s.sent message) := by
  intro path el hlookup
  obtain ⟨hdescribed, hrecords⟩ := h path el hlookup
  exact ⟨hdescribed, hrecords⟩

/-! ## Recovery -/

/-- The columns of the row tell what is in it: its time ends at no NUL, and a
size that seems to be that on the disk is. -/
structure Whole (session : Session) (tree : FileTree) (row : Row) : Prop where
  lastWriteTime : nul ∉ row.lastWriteTime
  size : ∀ el, DirectoryEntry.load session.platform session.userPath
    (session.userPath ++ row.path) tree = some el → row.columnSize = el.size → row.size = el.size

/-- The rows of the session are whole. -/
def RowsWhole (session : Session) (s : ServerState) : Prop :=
  ∀ row ∈ s.database.rows, row.isOf session.username session.mac = true →
    Whole session s.disk.tree row

theorem columnSize_lt (row : Row) : row.columnSize < 2 ^ 64 := by
  unfold Row.columnSize
  split <;> omega

/-- The row has the attributes of what is on the disk. -/
def Recorded (session : Session) (tree : FileTree) (row : Row) : Prop :=
  ∃ el, DirectoryEntry.load session.platform session.userPath (session.userPath ++ row.path)
    tree = some el ∧ Records row el

/-- An element of the list has the path. -/
def Collected (entries : List DirectoryEntry) (path : Text) : Prop :=
  ∃ entry ∈ entries, entry.relativePath = path

theorem Collected.append {entries : List DirectoryEntry} {path : Text}
    (h : Collected entries path) (entry : DirectoryEntry) : Collected (entries ++ [entry]) path := by
  obtain ⟨listed, hlisted, hpath⟩ := h
  exact ⟨listed, List.mem_append_left _ hlisted, hpath⟩

/-- What holds while the rows are gone over, and while what was collected is
applied. -/
structure Recording (session : Session) (tree : FileTree) (rest : List Row)
    (toUpdate toDelete : List DirectoryEntry) (s : ServerState) : Prop where
  disk : s.disk.tree = tree
  element : ∀ path el, s.elements.lookup path = some el →
    DirectoryEntry.load session.platform session.userPath (session.userPath ++ path) tree =
      some el
  row : ∀ row ∈ s.database.rows, row.isOf session.username session.mac = true →
    row ∈ rest ∨ Recorded session tree row ∨ Collected toUpdate row.path ∨
      Collected toDelete row.path
  update : ∀ entry ∈ toUpdate, DirectoryEntry.load session.platform session.userPath
    (session.userPath ++ entry.relativePath) tree = some entry

namespace Recording

variable {tree : FileTree} {rest : List Row} {toUpdate toDelete : List DirectoryEntry}
variable {s : ServerState} {row : Row} {entry : DirectoryEntry}

theorem collected_append (hentry : entry.relativePath = row.path)
    (entries : List DirectoryEntry) : Collected (entries ++ [entry]) row.path :=
  ⟨entry, List.mem_append_right entries (List.mem_singleton.mpr rfl), hentry⟩

theorem collectDelete (h : Recording session tree (row :: rest) toUpdate toDelete s)
    (hentry : entry.relativePath = row.path) :
    Recording session tree rest toUpdate (toDelete ++ [entry]) s where
  disk := h.disk
  element := h.element
  update := h.update
  row other hother hof := by
    rcases h.row other hother hof with hrest | hrecorded | hupdate | hdelete
    · cases List.mem_cons.mp hrest with
      | inl heq =>
          rw [heq]
          exact .inr (.inr (.inr (collected_append hentry toDelete)))
      | inr hrest => exact .inl hrest
    · exact .inr (.inl hrecorded)
    · exact .inr (.inr (.inl hupdate))
    · exact .inr (.inr (.inr (hdelete.append entry)))

theorem collectUpdate (h : Recording session tree (row :: rest) toUpdate toDelete s)
    (hentry : entry.relativePath = row.path)
    (hload : DirectoryEntry.load session.platform session.userPath
      (session.userPath ++ row.path) tree = some entry) :
    Recording session tree rest (toUpdate ++ [entry]) toDelete s where
  disk := h.disk
  element := h.element
  update listed hlisted := by
    cases List.mem_append.mp hlisted with
    | inl hold => exact h.update listed hold
    | inr hnew =>
        rw [List.mem_singleton.mp hnew, hentry]
        exact hload
  row other hother hof := by
    rcases h.row other hother hof with hrest | hrecorded | hupdate | hdelete
    · cases List.mem_cons.mp hrest with
      | inl heq =>
          rw [heq]
          exact .inr (.inr (.inl (collected_append hentry toUpdate)))
      | inr hrest => exact .inl hrest
    · exact .inr (.inl hrecorded)
    · exact .inr (.inr (.inl (hupdate.append entry)))
    · exact .inr (.inr (.inr hdelete))

theorem collectElement (h : Recording session tree (row :: rest) toUpdate toDelete s)
    (hload : DirectoryEntry.load session.platform session.userPath
      (session.userPath ++ row.path) tree = some entry) (hrecords : Records row entry) :
    Recording session tree rest toUpdate toDelete
      { s with elements := s.elements.emplace row.path entry } where
  disk := h.disk
  update := h.update
  element path el hlookup := by
    have hlookup' : (s.elements.emplace row.path entry).lookup path = some el := hlookup
    rw [KeyedMap.lookup_emplace] at hlookup'
    by_cases hpath : path = row.path
    · rw [if_pos hpath, Option.some.injEq] at hlookup'
      rw [hpath]
      cases hold : s.elements.lookup row.path with
      | none =>
          rw [hold, Option.getD_none] at hlookup'
          rwa [← hlookup']
      | some old =>
          rw [hold, Option.getD_some] at hlookup'
          rw [← hlookup']
          exact h.element row.path old hold
    · rw [if_neg hpath] at hlookup'
      exact h.element path el hlookup'
  row other hother hof := by
    cases h.row other hother hof with
    | inl hrest =>
        cases List.mem_cons.mp hrest with
        | inl heq =>
            rw [heq]
            exact .inr (.inl ⟨entry, hload, hrecords⟩)
        | inr hrest => exact .inl hrest
    | inr hdone => exact .inr hdone

/-- A row that does not differ from what was read has its attributes. -/
theorem records_of_same {bytes : List Byte} {hash : Hash} (hwhole : Whole session tree row)
    (hload : DirectoryEntry.load session.platform session.userPath
      (session.userPath ++ row.path) tree = some entry)
    (hbytes : row.columns.hashBytes = some bytes) (hhash : Hash.ofBytes bytes = some hash)
    (hsize : entry.size = row.columns.size)
    (htime : entry.lastWriteTime = row.columns.lastWriteTime) (hsame : entry.hash = hash) :
    Records row entry where
  size := by
    have hcolumn : row.columnSize = entry.size := hsize.symm
    have hlt := columnSize_lt row
    rw [hwhole.size entry hload hcolumn, Nat.mod_eq_of_lt (by omega)]
  lastWriteTime := by
    rw [htime]
    exact (cString_eq_self hwhole.lastWriteTime).symm
  hash := by
    rw [hbytes, hsame, ← (Hash.ofBytes_eq_some_iff bytes hash).mp hhash]
    rfl

theorem recoverRow (hcuts : Cuts session) {rows : List Row} (hcanonical : Canonical row.path)
    (hwhole : Whole session tree row) :
    Meets (fun s => s.database.rows = rows ∧
        Recording session tree (row :: rest) toUpdate toDelete s)
      (recoverRow session row.columns toUpdate toDelete)
      (fun lists s => s.database.rows = rows ∧ Recording session tree rest lists.1 lists.2 s)
      fun exception _ => ¬ Skipped exception := by
  apply Meets.bind_orRaise
  · exact fun _ _ => by decide
  intro bytes hbytes
  apply Meets.bind_orRaise
  · exact fun _ _ => by decide
  intro hash hhash
  apply Meets.of_each
  rintro s ⟨rfl, hs⟩
  have hpath : row.columns.path = row.path := cString_eq_self (nul_notMem_of_canonical hcanonical)
  have habsolute : (DirectoryEntry.make session.userPath row.columns.path row.columns.size
      row.columns.type row.columns.lastWriteTime hash).absolutePath =
        session.userPath ++ row.path := by rw [← hpath]; rfl
  have hrelative : (DirectoryEntry.make session.userPath row.columns.path row.columns.size
      row.columns.type row.columns.lastWriteTime hash).relativePath = row.path := hpath
  have hsize : (DirectoryEntry.make session.userPath row.columns.path row.columns.size
      row.columns.type row.columns.lastWriteTime hash).size = row.columns.size := rfl
  have htime : (DirectoryEntry.make session.userPath row.columns.path row.columns.size
      row.columns.type row.columns.lastWriteTime hash).lastWriteTime =
        row.columns.lastWriteTime := rfl
  have hhash' : (DirectoryEntry.make session.userPath row.columns.path row.columns.size
      row.columns.type row.columns.lastWriteTime hash).hash = hash := rfl
  have hkey : row.columns.path = row.path := hpath
  apply Meets.then_returned (Procedure.read_apply ServerState.disk s)
  generalize DirectoryEntry.make session.userPath row.columns.path row.columns.size
    row.columns.type row.columns.lastWriteTime hash = current
      at habsolute hrelative hsize htime hhash' ⊢
  rw [habsolute, hkey]
  apply Meets.ite
  · intro _
    apply Meets.ends_returned rfl
    exact ⟨rfl, hs.collectDelete hrelative⟩
  · intro _
    rcases loadEntry_cases session s session.userPath (session.userPath ++ row.path) with
      ⟨effective, hload, hrun⟩ | ⟨-, hrun⟩
    · apply Meets.then_returned hrun
      have hbacked := Backed.of_load hcuts hcanonical hload
      rw [hs.disk] at hload
      apply Meets.ite
      · exact fun _ => Meets.ends_returned rfl ⟨rfl, hs.collectUpdate hbacked.relativePath hload⟩
      · intro hsame
        simp only [not_or, not_not] at hsame
        obtain ⟨htype, hsize', htime', hhash''⟩ := hsame
        have hcurrent : effective = current :=
          eq_of_fields (hbacked.relativePath.trans hrelative.symm)
            (hbacked.absolutePath.trans habsolute.symm) hsize' htype htime' hhash''
        apply Meets.then_returned (Procedure.modify_apply _ s)
        apply Meets.ends_returned rfl
        rw [← hcurrent]
        exact ⟨rfl, hs.collectElement hload (records_of_same hwhole hload hbytes hhash
          (hsize'.trans hsize) (htime'.trans htime) (hhash''.trans hhash'))⟩
    · exact Meets.then_raised hrun (by decide)

theorem recoverRows (hcuts : Cuts session) {rows : List Row}
    (hrest : ∀ row ∈ rest, Canonical row.path ∧ Whole session tree row) :
    Meets (fun s => s.database.rows = rows ∧ Recording session tree rest toUpdate toDelete s)
      (recoverRows session rest toUpdate toDelete)
      (fun lists s => s.database.rows = rows ∧ Recording session tree [] lists.1 lists.2 s)
      fun exception _ => ¬ Skipped exception := by
  induction rest generalizing toUpdate toDelete with
  | nil => exact Meets.pure _ fun s hs => hs
  | cons row rest ih =>
      obtain ⟨hcanonical, hwhole⟩ := hrest row List.mem_cons_self
      apply Meets.bind (recoverRow hcuts hcanonical hwhole)
      exact fun lists => ih fun other hother => hrest other (List.mem_cons_of_mem row hother)

theorem applyUpdate (h : Recording session tree [] (entry :: toUpdate) toDelete s) :
    Recording session tree [] toUpdate toDelete (Recovering.applied session entry s) where
  disk := h.disk
  update listed hlisted := h.update listed (List.mem_cons_of_mem entry hlisted)
  element path el hlookup := by
    have hload := h.update entry List.mem_cons_self
    have hlookup' : (s.elements.emplace entry.relativePath entry).lookup path = some el := hlookup
    rw [KeyedMap.lookup_emplace] at hlookup'
    by_cases hpath : path = entry.relativePath
    · rw [if_pos hpath, Option.some.injEq] at hlookup'
      rw [hpath]
      cases hold : s.elements.lookup entry.relativePath with
      | none =>
          rw [hold, Option.getD_none] at hlookup'
          rwa [← hlookup']
      | some old =>
          rw [hold, Option.getD_some] at hlookup'
          rw [← hlookup']
          exact h.element entry.relativePath old hold
    · rw [if_neg hpath] at hlookup'
      exact h.element path el hlookup'
  row other hother hof := by
    obtain ⟨row, hrow, rfl⟩ := List.mem_map.mp hother
    by_cases hat : row.isAt session.username session.mac entry.relativePath = true
    · rw [if_pos hat]
      have hpath : row.path = entry.relativePath := (isAt_iff.mp hat).2
      refine .inr (.inl ⟨entry, ?_, records_updated row entry⟩)
      rw [Row.updated, hpath]
      exact h.update entry List.mem_cons_self
    · rw [if_neg hat] at hof ⊢
      rcases h.row row hrow hof with hrest | hrecorded | hupdate | hdelete
      · exact .inl hrest
      · exact .inr (.inl hrecorded)
      · obtain ⟨listed, hlisted, hpath⟩ := hupdate
        cases List.mem_cons.mp hlisted with
        | inl heq => exact absurd (isAt_iff.mpr ⟨hof, by rw [← hpath, heq]⟩) hat
        | inr hlisted => exact .inr (.inr (.inl ⟨listed, hlisted, hpath⟩))
      · exact .inr (.inr (.inr hdelete))

theorem updateAll : ∀ toUpdate : List DirectoryEntry,
    Meets (Recording session tree [] toUpdate toDelete) (updateAll session toUpdate)
      (fun _ => Recording session tree [] [] toDelete) fun exception _ => ¬ Skipped exception
  | [] => Meets.pure () fun _ hs => hs
  | entry :: toUpdate => by
      apply Meets.of_each
      intro s hs
      cases onDatabase_mapRows_cases s fun rows => rows.map fun row =>
        if row.isAt session.username session.mac entry.relativePath then row.updated entry
        else row with
      | inl hidle =>
          apply Meets.then_returned hidle.2
          apply Meets.then_returned (Procedure.modify_apply _ _)
          exact (updateAll toUpdate).at_state hs.applyUpdate
      | inr hopen => exact Meets.then_raised hopen.2 (by decide)

theorem applyDelete {rows : List Row}
    (h : Recording session tree [] [] (entry :: toDelete) s)
    (hrows : rows = s.database.rows.filter fun row =>
      !row.isAt session.username session.mac entry.relativePath) :
    Recording session tree [] [] toDelete { s with database := { s.database with rows } } where
  disk := h.disk
  element := h.element
  update := h.update
  row row hrow hof := by
    rw [hrows] at hrow
    obtain ⟨hmem, hkept⟩ := List.mem_filter.mp hrow
    rcases h.row row hmem hof with hrest | hrecorded | hupdate | hdelete
    · exact .inl hrest
    · exact .inr (.inl hrecorded)
    · exact .inr (.inr (.inl hupdate))
    · obtain ⟨listed, hlisted, hpath⟩ := hdelete
      cases List.mem_cons.mp hlisted with
      | inl heq =>
          have hat : row.isAt session.username session.mac entry.relativePath = true :=
            isAt_iff.mpr ⟨hof, by rw [← hpath, heq]⟩
          simp [hat] at hkept
      | inr hlisted => exact .inr (.inr (.inr ⟨listed, hlisted, hpath⟩))

theorem deleteAll : ∀ toDelete : List DirectoryEntry,
    Meets (Recording session tree [] [] toDelete) (deleteAll session toDelete)
      (fun _ => Recording session tree [] [] []) fun exception _ => ¬ Skipped exception
  | [] => Meets.pure () fun _ hs => hs
  | entry :: toDelete => by
      apply Meets.of_each
      intro s hs
      cases onDatabase_mapRows_cases s fun rows => rows.filter fun row =>
        !row.isAt session.username session.mac entry.relativePath with
      | inl hidle =>
          apply Meets.then_returned hidle.2
          exact (deleteAll toDelete).at_state (hs.applyDelete rfl)
      | inr hopen => exact Meets.then_raised hopen.2 (by decide)

/-- When nothing is left to do, the rows and the elements are what is on the disk. -/
theorem attributesAgree (h : Recording session tree [] [] [] s) :
    AttributesAgree session { s with recovered := true } := by
  intro path el hlookup
  have hload := h.element path el hlookup
  constructor
  · rw [← h.disk] at hload
    exact .of_load hload
  · intro row hrow
    obtain ⟨hmem, hat⟩ := List.mem_filter.mp hrow
    obtain ⟨hof, hpath⟩ := isAt_iff.mp hat
    rcases h.row row hmem hof with hrest | hrecorded | hupdate | hdelete
    · simp at hrest
    · obtain ⟨found, hfound, hrecords⟩ := hrecorded
      rw [hpath, hload, Option.some.injEq] at hfound
      rwa [hfound]
    · obtain ⟨listed, hlisted, -⟩ := hupdate
      simp at hlisted
    · obtain ⟨listed, hlisted, -⟩ := hdelete
      simp at hlisted

end Recording

/-- Recovery makes the attributes equal. -/
theorem recoverFromDB_attributes (hcuts : Cuts session) {s : ServerState}
    (helements : s.elements = ∅) (hcanonical : RowsCanonical session s.database.rows)
    (hwhole : RowsWhole session s) :
    Meets (fun s' => s' = s) (recoverFromDB session) (fun _ => AttributesAgree session)
      fun exception _ => ¬ Skipped exception := by
  have hrows : ∀ row ∈ s.database.rows.filter (Row.isOf session.username session.mac),
      Canonical row.path ∧ Whole session s.disk.tree row := by
    intro row hrow
    obtain ⟨hmem, hof⟩ := List.mem_filter.mp hrow
    exact ⟨hcanonical row hmem hof, hwhole row hmem hof⟩
  have hselect : Meets (fun s' => s' = s)
      (onDatabase (Database.select session.username session.mac))
      (fun rows s' => (s'.database.rows = s.database.rows ∧
          Recording session s.disk.tree rows [] [] s') ∧
        rows = s.database.rows.filter (Row.isOf session.username session.mac))
      fun exception _ => ¬ Skipped exception := by
    intro s' hs'
    rw [hs']
    simp only [onDatabase, within, Database.select, Database.begin, bind_apply, read_apply]
    cases s.database.inTransaction with
    | true =>
        have hended : ¬ Skipped (.database .prepare) := by decide
        exact hended
    | false =>
        refine ⟨⟨rfl, rfl, ?_, ?_, by simp⟩, rfl⟩
        · intro path el hlookup
          have hlookup' : s.elements.lookup path = some el := hlookup
          simp [helements] at hlookup'
        · exact fun row hrow hof => .inl (List.mem_filter.mpr ⟨hrow, hof⟩)
  apply Meets.bind hselect
  intro rows
  apply Meets.given
  intro hselected
  rw [hselected]
  apply Meets.bind (Recording.recoverRows hcuts hrows)
  intro lists
  have hfinish : Meets (fun s' => s'.database.rows = s.database.rows ∧
        Recording session s.disk.tree [] lists.1 lists.2 s') (onDatabase Database.finish)
      (fun _ => Recording session s.disk.tree [] lists.1 lists.2)
      fun exception _ => ¬ Skipped exception := by
    intro s' hs'
    obtain ⟨hdisk, helement, hrow, hupdate⟩ := hs'.2
    exact ⟨hdisk, helement, hrow, hupdate⟩
  apply Meets.bind hfinish
  intro _
  apply Meets.bind (Recording.updateAll lists.1)
  intro _
  apply Meets.bind (Recording.deleteAll lists.2)
  intro _
  exact Meets.modify _ fun s hs => hs.attributesAgree

end PdsBackup.Server
