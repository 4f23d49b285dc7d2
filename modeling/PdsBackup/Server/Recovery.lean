import PdsBackup.Server.Agreement
import PdsBackup.Server.Records

/-!
# What recovering does to the records

Recovering takes rows out and updates others; it enters none.  Every path that
can be read back from its row is in the map afterwards, or has lost its rows.
-/

namespace PdsBackup.Server

open Procedure

/-- What a row is about. -/
def Row.key (row : Row) : Text × Text × Text := (row.username, row.mac, row.path)

/-- No row is about anything new. -/
def Fewer (rows rows' : List Row) : Prop := (rows'.map Row.key).Sublist (rows.map Row.key)

namespace Fewer

variable {rows rows' rows'' : List Row} {username mac path : Text} {entry : DirectoryEntry}

theorem refl (rows : List Row) : Fewer rows rows := List.Sublist.refl _

theorem trans (h : Fewer rows rows') (h' : Fewer rows' rows'') : Fewer rows rows'' :=
  List.Sublist.trans h' h

theorem filter (keep : Row → Bool) : Fewer rows (rows.filter keep) :=
  List.Sublist.map Row.key List.filter_sublist

theorem update : Fewer rows (rows.map fun row =>
    if row.isAt username mac entry.relativePath then row.updated entry else row) := by
  have hkeys : (rows.map fun row =>
      if row.isAt username mac entry.relativePath then row.updated entry else row).map Row.key =
        rows.map Row.key := by
    rw [List.map_map]
    apply List.map_congr_left
    intro row _
    by_cases hat : row.isAt username mac entry.relativePath = true
    · simp [hat, Row.key, Row.updated]
    · simp [hat]
  rw [Fewer, hkeys]

end Fewer

/-- What is written in a row under a path is read back as that path. -/
structure Readable (session : Session) (path : Text) : Prop where
  text : nul ∉ path
  cut : ∀ found, DirectoryEntry.relativePathOf session.userPath (session.userPath ++ path) =
    some found → found = path

section Recovery

variable {session : Session} {start : ServerState} {path : Text}

theorem mapRows_fewer {f : List Row → List Row} (hf : ∀ rows, Fewer rows (f rows)) :
    Keeps (fun s => Fewer start.database.rows s.database.rows) (onDatabase (Database.mapRows f)) := by
  apply Meets.of_each
  intro s hs
  cases onDatabase_mapRows_cases s f with
  | inl hrun => exact Meets.ends_returned hrun.2 (hs.trans (hf _))
  | inr hrun => exact Meets.ends_raised hrun.2 hs

theorem fewer_ofTables : OfTables fun s => Fewer start.database.rows s.database.rows := by
  intro s s' hsame hs
  rw [hsame.rows]
  exact hs

theorem emplaceElement_fewer (path : Text) (entry : DirectoryEntry) :
    Keeps (fun s => Fewer start.database.rows s.database.rows) (emplaceElement path entry) :=
  Keeps.modify _ fun _ hs => hs

/-- The rows are gone over without a change to them. -/
theorem recoverRow_rows (row : Row) (toUpdate toDelete : List DirectoryEntry) (rows : List Row) :
    Keeps (fun s => s.database.rows = rows) (recoverRow session row toUpdate toDelete) := by
  apply Keeps.bind (Keeps.orRaise _ _)
  intro bytes
  apply Keeps.bind (Keeps.orRaise _ _)
  intro hash
  apply Keeps.bind (Keeps.read _)
  intro disk
  apply Keeps.ite
  · exact fun _ => Keeps.pure _
  · intro _
    apply Keeps.bind (Keeps.bind (Keeps.read _) fun _ => Keeps.orRaise _ _)
    intro effective
    apply Keeps.ite
    · exact fun _ => Keeps.pure _
    · exact fun _ => Keeps.bind (Keeps.modify _ fun _ hs => hs) fun _ => Keeps.pure _

theorem recoverRows_rows (rest : List Row) (toUpdate toDelete : List DirectoryEntry)
    (rows : List Row) :
    Keeps (fun s => s.database.rows = rows) (recoverRows session rest toUpdate toDelete) := by
  induction rest generalizing toUpdate toDelete with
  | nil => exact Keeps.pure _
  | cons row rest ih => exact Keeps.bind (recoverRow_rows _ _ _ _) fun lists => ih _ _

theorem updateAll_fewer (entries : List DirectoryEntry) :
    Keeps (fun s => Fewer start.database.rows s.database.rows) (updateAll session entries) := by
  induction entries with
  | nil => exact Keeps.pure ()
  | cons entry entries ih =>
      apply Keeps.bind (mapRows_fewer fun rows => Fewer.update)
      exact fun _ => Keeps.bind (emplaceElement_fewer _ _) fun _ => ih

theorem deleteAll_fewer (entries : List DirectoryEntry) :
    Keeps (fun s => Fewer start.database.rows s.database.rows) (deleteAll session entries) := by
  induction entries with
  | nil => exact Keeps.pure ()
  | cons entry entries ih => exact Keeps.bind (mapRows_fewer fun rows => Fewer.filter _) fun _ => ih

theorem recoverFromDB_fewer :
    Keeps (fun s => Fewer start.database.rows s.database.rows) (recoverFromDB session) := by
  apply Keeps.bind ((Untouching.select _ _).keeps fewer_ofTables)
  intro rows
  have hrows : Keeps (fun s => Fewer start.database.rows s.database.rows)
      (recoverRows session rows [] []) := by
    apply Meets.of_each
    intro s hs
    apply ((recoverRows_rows rows [] [] s.database.rows).at_state rfl).consequence (fun _ h => h)
    · exact fun _ s' heq => by rw [heq]; exact hs
    · exact fun _ s' heq => by rw [heq]; exact hs
  apply Keeps.bind hrows
  intro lists
  apply Keeps.bind (Untouching.finish.keeps fewer_ofTables)
  intro _
  apply Keeps.bind (updateAll_fewer _)
  intro _
  apply Keeps.bind (deleteAll_fewer _)
  exact fun _ => Keeps.modify _ fun _ hs => hs

/-! ## The rows that are found -/

/-- The path is in the map, or is to be updated or deleted. -/
def Noted (path : Text) (lists : List DirectoryEntry × List DirectoryEntry) (s : ServerState) :
    Prop :=
  (s.elements.lookup path).isSome = true ∨ (∃ entry ∈ lists.1, entry.relativePath = path) ∨
    ∃ entry ∈ lists.2, entry.relativePath = path

theorem isSome_lookup_emplace {elements : KeyedMap Text DirectoryEntry} (key : Text)
    (entry : DirectoryEntry) (hsome : (elements.lookup path).isSome = true) :
    ((KeyedMap.emplace elements key entry).lookup path).isSome = true := by
  rw [KeyedMap.lookup_emplace]
  split
  · rfl
  · exact hsome

theorem isSome_lookup_emplace_self (elements : KeyedMap Text DirectoryEntry) (entry : DirectoryEntry) :
    ((KeyedMap.emplace elements path entry).lookup path).isSome = true := by
  rw [KeyedMap.lookup_emplace, if_pos rfl]
  rfl

theorem Noted.append {toUpdate toDelete : List DirectoryEntry} {s : ServerState}
    (h : Noted path (toUpdate, toDelete) s) (more more' : List DirectoryEntry) :
    Noted path (toUpdate ++ more, toDelete ++ more') s := by
  cases h with
  | inl hsome => exact .inl hsome
  | inr hlisted =>
      cases hlisted with
      | inl hupdate =>
          obtain ⟨entry, hmem, hentry⟩ := hupdate
          exact .inr (.inl ⟨entry, List.mem_append_left _ hmem, hentry⟩)
      | inr hdelete =>
          obtain ⟨entry, hmem, hentry⟩ := hdelete
          exact .inr (.inr ⟨entry, List.mem_append_left _ hmem, hentry⟩)

/-- A row whose path can be read back is noted; what was noted stays so. -/
theorem recoverRow_notes (hreadable : Readable session path) {known : Prop} (row : Row)
    (toUpdate toDelete : List DirectoryEntry) :
    Meets (fun s => known → Noted path (toUpdate, toDelete) s)
      (recoverRow session row.columns toUpdate toDelete)
      (fun lists s => row.path = path ∨ known → Noted path lists s) fun _ _ => True := by
  apply Meets.bind_orRaise (fun _ _ => trivial)
  intro bytes hbytes
  apply Meets.bind_orRaise (fun _ _ => trivial)
  intro hash hhash
  apply Meets.of_each
  intro s hs
  apply Meets.then_returned (Procedure.read_apply ServerState.disk s)
  have hcolumn : row.path = path → row.columns.path = path := by
    rintro rfl
    exact cString_eq_self hreadable.text
  apply Meets.ite
  · intro _
    apply Meets.ends_returned rfl
    intro hknown
    cases hknown with
    | inl hpath =>
        exact .inr (.inr ⟨_, List.mem_append_right _ List.mem_cons_self, hcolumn hpath⟩)
    | inr hknown => exact (List.append_nil toUpdate) ▸ (hs hknown).append [] _
  · intro _
    cases loadEntry_cases session s session.userPath (DirectoryEntry.make session.userPath
        row.columns.path row.columns.size row.columns.type row.columns.lastWriteTime
        hash).absolutePath with
    | inr hrun => exact Meets.then_raised hrun.2 trivial
    | inl hloaded =>
        obtain ⟨effective, hload, hrun⟩ := hloaded
        have heffective : row.path = path → effective.relativePath = path := by
          intro hpath
          have hcut := (DirectoryEntry.load_eq_some hload).1
          rw [show (DirectoryEntry.make session.userPath row.columns.path row.columns.size
            row.columns.type row.columns.lastWriteTime hash).absolutePath =
              session.userPath ++ row.columns.path from rfl, hcolumn hpath] at hcut
          exact hreadable.cut _ hcut
        apply Meets.then_returned hrun
        apply Meets.ite
        · intro _
          apply Meets.ends_returned rfl
          intro hknown
          cases hknown with
          | inl hpath =>
              exact .inr (.inl ⟨_, List.mem_append_right _ List.mem_cons_self, heffective hpath⟩)
          | inr hknown => exact (List.append_nil toDelete) ▸ (hs hknown).append _ []
        · intro _
          apply Meets.then_returned (Procedure.modify_apply _ s)
          apply Meets.ends_returned rfl
          intro hknown
          cases hknown with
          | inl hpath =>
              refine .inl ?_
              rw [hcolumn hpath]
              exact isSome_lookup_emplace_self _ _
          | inr hknown => exact (hs hknown).imp_left (isSome_lookup_emplace _ _)

theorem recoverRows_notes (hreadable : Readable session path) {known : Prop} (rows : List Row)
    (toUpdate toDelete : List DirectoryEntry) :
    Meets (fun s => known → Noted path (toUpdate, toDelete) s)
      (recoverRows session rows toUpdate toDelete)
      (fun lists s => (∃ row ∈ rows, row.path = path) ∨ known → Noted path lists s)
      fun _ _ => True := by
  induction rows generalizing known toUpdate toDelete with
  | nil =>
      apply Meets.pure
      intro s hs hknown
      exact hs (hknown.resolve_left (by simp))
  | cons row rows ih =>
      apply Meets.bind (recoverRow_notes hreadable row toUpdate toDelete)
      intro lists
      apply (ih lists.1 lists.2).consequence (fun _ hs => hs)
      · intro lists' s hs hknown
        apply hs
        rw [List.exists_mem_cons_iff] at hknown
        exact or_left_comm.mp (or_assoc.mp hknown)
      · exact fun _ _ h => h

/-- The path has no rows, or is accounted for. -/
def Settling (session : Session) (path : Text) (lists : List DirectoryEntry × List DirectoryEntry)
    (s : ServerState) : Prop :=
  rowsAt session path s.database.rows = [] ∨ Noted path lists s

theorem updateAll_settles (toUpdate toDelete : List DirectoryEntry) :
    Meets (Settling session path (toUpdate, toDelete)) (updateAll session toUpdate)
      (fun _ => Settling session path ([], toDelete)) fun _ _ => True := by
  induction toUpdate with
  | nil => exact Meets.pure () fun _ hs => hs
  | cons entry toUpdate ih =>
      apply Meets.of_each
      intro s hs
      cases onDatabase_mapRows_cases s fun rows => rows.map fun row =>
        if row.isAt session.username session.mac entry.relativePath then row.updated entry
        else row with
      | inr hrun => exact Meets.then_raised hrun.2 trivial
      | inl hrun =>
          apply Meets.then_returned hrun.2
          apply Meets.then_returned (Procedure.modify_apply _ _)
          apply ih.at_state
          cases hs with
          | inl hnone =>
              refine .inl ?_
              rw [rowsAt_update, hnone]
              split <;> rfl
          | inr hnoted =>
              refine .inr ?_
              cases hnoted with
              | inl hsome => exact .inl (isSome_lookup_emplace _ _ hsome)
              | inr hlisted =>
                  cases hlisted with
                  | inr hdelete => exact .inr (.inr hdelete)
                  | inl hupdate =>
                      rw [List.exists_mem_cons_iff] at hupdate
                      cases hupdate with
                      | inl hentry =>
                          rw [← hentry]
                          exact .inl (isSome_lookup_emplace_self _ _)
                      | inr hlater => exact .inr (.inl hlater)

theorem deleteAll_settles (toDelete : List DirectoryEntry) :
    Meets (Settling session path ([], toDelete)) (deleteAll session toDelete)
      (fun _ => Settling session path ([], [])) fun _ _ => True := by
  induction toDelete with
  | nil => exact Meets.pure () fun _ hs => hs
  | cons entry toDelete ih =>
      apply Meets.of_each
      intro s hs
      cases onDatabase_mapRows_cases s fun rows => rows.filter fun row =>
        !row.isAt session.username session.mac entry.relativePath with
      | inr hrun => exact Meets.then_raised hrun.2 trivial
      | inl hrun =>
          apply Meets.then_returned hrun.2
          apply ih.at_state
          have hrows := rowsAt_remove session path entry.relativePath s.database.rows
          by_cases hpath : path = entry.relativePath
          · rw [if_pos hpath] at hrows
            exact .inl hrows
          · rw [if_neg hpath] at hrows
            cases hs with
            | inl hnone => exact .inl (hrows.trans hnone)
            | inr hnoted =>
                refine .inr (hnoted.imp_right (Or.imp_right ?_))
                rintro ⟨listed, hlisted, rfl⟩
                cases List.mem_cons.mp hlisted with
                | inl heq => exact absurd (congrArg DirectoryEntry.relativePath heq) hpath
                | inr hmem => exact ⟨listed, hmem, rfl⟩

/-- The rows that are selected are those of the session. -/
theorem select_rows (session : Session) :
    Meets (fun s => s = start) (onDatabase (Database.select session.username session.mac))
      (fun rows s => (SameTables start s ∧ s.disk = start.disk) ∧
        rows = start.database.rows.filter (Row.isOf session.username session.mac))
      fun _ => SameTables start := by
  rintro s rfl
  simp only [onDatabase, within, Database.select, Database.begin, bind_apply, read_apply]
  cases s.database.inTransaction with
  | true => exact SameTables.refl s
  | false => exact ⟨⟨⟨rfl, rfl, rfl⟩, rfl⟩, rfl⟩

/-- A path that can be read back is in the map afterwards, or has no rows. -/
theorem recoverFromDB_settles (hreadable : Readable session path) :
    Meets (fun _ => True) (recoverFromDB session)
      (fun _ s => rowsAt session path s.database.rows = [] ∨ (s.elements.lookup path).isSome = true)
      fun _ _ => True := by
  apply Meets.of_each
  intro start _
  apply Meets.chain (select_rows session) (fun _ _ _ => trivial)
  intro rows
  apply Meets.given
  rintro rfl
  have hrows : Meets (fun s => SameTables start s ∧ s.disk = start.disk) (recoverRows session
      (start.database.rows.filter (Row.isOf session.username session.mac)) [] [])
      (fun lists => Settling session path lists) fun _ _ => True := by
    apply Meets.of_each
    rintro s ⟨hs, -⟩
    rintro t rfl
    have hnotes : Meets (fun t => False → Noted path ([], []) t) _ _ _ :=
      recoverRows_notes hreadable (start.database.rows.filter
        (Row.isOf session.username session.mac)) [] []
    have hkept : Keeps (fun t' => t'.database.rows = t.database.rows) (recoverRows session
        (start.database.rows.filter (Row.isOf session.username session.mac)) [] []) :=
      recoverRows_rows _ [] [] _
    have hnoted := hnotes t False.elim
    have hsame := hkept t rfl
    cases hrun : recoverRows session (start.database.rows.filter
        (Row.isOf session.username session.mac)) [] [] t with
    | raised exception s' => trivial
    | returned lists s' =>
        rw [hrun] at hnoted hsame
        by_cases hnone : rowsAt session path s'.database.rows = []
        · exact .inl hnone
        · refine .inr (hnoted (.inl ?_))
          obtain ⟨row, hrow⟩ := List.exists_mem_of_ne_nil _ hnone
          obtain ⟨hmem, hat⟩ := List.mem_filter.mp hrow
          rw [hsame, hs.rows] at hmem
          obtain ⟨hof, hpath⟩ := isAt_iff.mp hat
          exact ⟨row, List.mem_filter.mpr ⟨hmem, hof⟩, hpath⟩
  apply Meets.bind hrows
  intro lists
  have hfinish : Keeps (Settling session path lists) (onDatabase Database.finish) := by
    apply Untouching.finish.keeps
    intro s s' hsame hs
    rw [Settling, Noted, hsame.rows, hsame.elements]
    exact hs
  apply Meets.chain hfinish (fun _ _ _ => trivial)
  intro _
  apply Meets.bind (updateAll_settles lists.1 lists.2)
  intro _
  apply Meets.bind (deleteAll_settles lists.2)
  intro _
  apply Meets.modify
  intro s hs
  exact hs.imp_right fun hnoted => hnoted.resolve_right (by simp)

/-! ## The rows of the map -/

/-- Every path in the map has a row. -/
def HasRows (session : Session) (s : ServerState) : Prop :=
  ∀ path, (s.elements.lookup path).isSome = true → rowsAt session path s.database.rows ≠ []

theorem HasRows.ofTables : OfTables (HasRows session) := by
  intro s s' hsame hs path hsome
  rw [hsame.elements] at hsome
  rw [hsame.rows]
  exact hs path hsome

/-- What is in the map or to be updated has a row and is on the disk; what is to
be deleted is not on the disk. -/
structure Sorted (session : Session) (disk : Disk) (lists : List DirectoryEntry × List DirectoryEntry)
    (s : ServerState) : Prop where
  held : ∀ path, (s.elements.lookup path).isSome = true ∨
    (∃ entry ∈ lists.1, entry.relativePath = path) →
      rowsAt session path s.database.rows ≠ [] ∧ disk.present (session.userPath ++ path) = true
  gone : ∀ entry ∈ lists.2, disk.present (session.userPath ++ entry.relativePath) = false

namespace Sorted

variable {disk : Disk} {toUpdate toDelete : List DirectoryEntry} {s : ServerState} {row : Row}

theorem hasRows {lists : List DirectoryEntry × List DirectoryEntry}
    (h : Sorted session disk lists s) : HasRows session s :=
  fun path hsome => (h.held path (.inl hsome)).1

theorem ofTables (lists : List DirectoryEntry × List DirectoryEntry) :
    OfTables (Sorted session disk lists) := by
  intro s s' hsame hs
  refine ⟨fun path hpath => ?_, hs.gone⟩
  rw [hsame.elements] at hpath
  rw [hsame.rows]
  exact hs.held path hpath

theorem recoverRow (hreadable : Readable session row.path)
    (hrow : row ∈ rowsAt session row.path start.database.rows) :
    Meets (fun s => (s.database.rows = start.database.rows ∧ s.disk = start.disk) ∧
        Sorted session start.disk (toUpdate, toDelete) s)
      (Server.recoverRow session row.columns toUpdate toDelete)
      (fun lists s => (s.database.rows = start.database.rows ∧ s.disk = start.disk) ∧
        Sorted session start.disk lists s)
      fun _ => HasRows session := by
  have hcolumn : row.columns.path = row.path := cString_eq_self hreadable.text
  apply Meets.bind_orRaise (fun _ hs => hs.2.hasRows)
  intro bytes hbytes
  apply Meets.bind_orRaise (fun _ hs => hs.2.hasRows)
  intro hash hhash
  apply Meets.of_each
  rintro s ⟨⟨hrows, hdisk⟩, hs⟩
  have hsome : rowsAt session row.path s.database.rows ≠ [] := by
    rw [hrows]
    exact List.ne_nil_of_mem hrow
  apply Meets.then_returned (Procedure.read_apply ServerState.disk s)
  rw [hcolumn]
  have habsolute : (DirectoryEntry.make session.userPath row.path row.columns.size
      row.columns.type row.columns.lastWriteTime hash).absolutePath =
        session.userPath ++ row.path := rfl
  rw [habsolute, hdisk]
  apply Meets.ite
  · intro hmissing
    apply Meets.ends_returned rfl
    refine ⟨⟨hrows, hdisk⟩, hs.held, ?_⟩
    intro entry hentry
    cases List.mem_append.mp hentry with
    | inl hmem => exact hs.gone entry hmem
    | inr hmem =>
        rw [List.mem_singleton.mp hmem]
        exact (by simpa using hmissing : start.disk.present (session.userPath ++ row.path) = false)
  · intro hpresent
    have hpresent : start.disk.present (session.userPath ++ row.path) = true := by
      simpa using hpresent
    cases loadEntry_cases session s session.userPath (session.userPath ++ row.path) with
    | inr hrun => exact Meets.then_raised hrun.2 hs.hasRows
    | inl hloaded =>
        obtain ⟨effective, hload, hrun⟩ := hloaded
        have heffective := hreadable.cut _ (DirectoryEntry.load_eq_some hload).1
        apply Meets.then_returned hrun
        apply Meets.ite
        · intro _
          apply Meets.ends_returned rfl
          refine ⟨⟨hrows, hdisk⟩, ?_, hs.gone⟩
          rintro path (hlookup | ⟨entry, hentry, rfl⟩)
          · exact hs.held path (.inl hlookup)
          · cases List.mem_append.mp hentry with
            | inl hmem => exact hs.held _ (.inr ⟨entry, hmem, rfl⟩)
            | inr hmem =>
                rw [List.mem_singleton.mp hmem, heffective]
                exact ⟨hsome, hpresent⟩
        · intro _
          apply Meets.then_returned (Procedure.modify_apply _ s)
          apply Meets.ends_returned rfl
          refine ⟨⟨hrows, hdisk⟩, ?_, hs.gone⟩
          rintro path (hlookup | hlisted)
          · by_cases hpath : path = row.path
            · subst hpath
              exact ⟨hsome, hpresent⟩
            · simp only [KeyedMap.lookup_emplace, if_neg hpath] at hlookup
              exact hs.held path (.inl hlookup)
          · exact hs.held path (.inr hlisted)

theorem recoverRows (rest : List Row)
    (hrest : ∀ row ∈ rest, Readable session row.path ∧
      row ∈ rowsAt session row.path start.database.rows) :
    Meets (fun s => (s.database.rows = start.database.rows ∧ s.disk = start.disk) ∧
        Sorted session start.disk (toUpdate, toDelete) s)
      (Server.recoverRows session rest toUpdate toDelete)
      (fun lists => Sorted session start.disk lists) fun _ => HasRows session := by
  induction rest generalizing toUpdate toDelete with
  | nil => exact Meets.pure _ fun s hs => hs.2
  | cons row rest ih =>
      obtain ⟨hreadable, hrow⟩ := hrest row List.mem_cons_self
      apply Meets.bind (recoverRow hreadable hrow)
      exact fun lists => ih fun other hother => hrest other (List.mem_cons_of_mem row hother)

theorem updateAll (toUpdate : List DirectoryEntry) :
    Meets (Sorted session disk (toUpdate, toDelete)) (Server.updateAll session toUpdate)
      (fun _ => Sorted session disk ([], toDelete)) fun _ => HasRows session := by
  induction toUpdate with
  | nil => exact Meets.pure () fun _ hs => hs
  | cons entry toUpdate ih =>
      apply Meets.of_each
      intro s hs
      cases onDatabase_mapRows_cases s fun rows => rows.map fun row =>
        if row.isAt session.username session.mac entry.relativePath then row.updated entry
        else row with
      | inr hrun => exact Meets.then_raised hrun.2 hs.hasRows
      | inl hrun =>
          apply Meets.then_returned hrun.2
          apply Meets.then_returned (Procedure.modify_apply _ _)
          apply ih.at_state
          refine ⟨fun path hpath => ?_, hs.gone⟩
          have hheld : rowsAt session path s.database.rows ≠ [] ∧
              disk.present (session.userPath ++ path) = true := by
            apply hs.held
            cases hpath with
            | inr hlisted =>
                obtain ⟨listed, hmem, heq⟩ := hlisted
                exact .inr ⟨listed, List.mem_cons_of_mem entry hmem, heq⟩
            | inl hlookup =>
                by_cases heq : path = entry.relativePath
                · exact .inr ⟨entry, List.mem_cons_self, heq.symm⟩
                · simp only [KeyedMap.lookup_emplace, if_neg heq] at hlookup
                  exact .inl hlookup
          refine ⟨?_, hheld.2⟩
          rw [rowsAt_update]
          split
          · simpa using hheld.1
          · exact hheld.1

theorem deleteAll (toDelete : List DirectoryEntry) :
    Meets (Sorted session disk ([], toDelete)) (Server.deleteAll session toDelete)
      (fun _ => Sorted session disk ([], [])) fun _ => HasRows session := by
  induction toDelete with
  | nil => exact Meets.pure () fun _ hs => hs
  | cons entry toDelete ih =>
      apply Meets.of_each
      intro s hs
      cases onDatabase_mapRows_cases s fun rows => rows.filter fun row =>
        !row.isAt session.username session.mac entry.relativePath with
      | inr hrun => exact Meets.then_raised hrun.2 hs.hasRows
      | inl hrun =>
          apply Meets.then_returned hrun.2
          apply ih.at_state
          refine ⟨fun path hpath => ?_, fun listed hlisted =>
            hs.gone listed (List.mem_cons_of_mem entry hlisted)⟩
          obtain ⟨hsome, hpresent⟩ := hs.held path hpath
          refine ⟨?_, hpresent⟩
          have hne : path ≠ entry.relativePath := by
            rintro rfl
            rw [hs.gone entry List.mem_cons_self] at hpresent
            exact absurd hpresent (by decide)
          rw [rowsAt_remove, if_neg hne]
          exact hsome

end Sorted

/-- After a recovery every path in the map has a row, if every row of the
session can be read back. -/
theorem recoverFromDB_hasRows (helements : start.elements = ∅)
    (hreadable : ∀ row ∈ start.database.rows, row.isOf session.username session.mac = true →
      Readable session row.path) :
    Meets (fun s => s = start) (recoverFromDB session) (fun _ => HasRows session)
      fun _ => HasRows session := by
  have hstart : HasRows session start := by
    intro path hsome
    simp [helements] at hsome
  apply Meets.chain (select_rows session) (fun _ s hsame => HasRows.ofTables start s hsame hstart)
  intro rows
  apply Meets.given
  rintro rfl
  have hrest : ∀ row ∈ start.database.rows.filter (Row.isOf session.username session.mac),
      Readable session row.path ∧ row ∈ rowsAt session row.path start.database.rows := by
    intro row hrow
    obtain ⟨hmem, hof⟩ := List.mem_filter.mp hrow
    exact ⟨hreadable row hmem hof, List.mem_filter.mpr ⟨hmem, isAt_iff.mpr ⟨hof, rfl⟩⟩⟩
  have hrows : Meets (fun s => SameTables start s ∧ s.disk = start.disk)
      (recoverRows session (start.database.rows.filter
        (Row.isOf session.username session.mac)) [] [])
      (fun lists => Sorted session start.disk lists) fun _ => HasRows session := by
    apply (Sorted.recoverRows _ hrest).consequence _ (fun _ _ h => h) fun _ _ h => h
    rintro s ⟨hsame, hdisk⟩
    refine ⟨⟨hsame.rows, hdisk⟩, ?_, by simp⟩
    rintro path (hlookup | ⟨entry, hentry, -⟩)
    · simp [hsame.elements, helements] at hlookup
    · simp at hentry
  apply Meets.bind hrows
  intro lists
  apply Meets.chain (Untouching.finish.keeps (Sorted.ofTables lists)) fun _ _ hs => hs.hasRows
  intro _
  apply Meets.bind (Sorted.updateAll lists.1)
  intro _
  apply Meets.bind (Sorted.deleteAll lists.2)
  intro _
  exact Meets.modify _ fun s hs => hs.hasRows

end Recovery

/-! ## A call of a session that may have to recover -/

section Calls

variable {session : Session} {message : ClientMessage}

theorem recoverFromDB_recovered {s s' : ServerState}
    (hrecover : recoverFromDB session s = .returned () s') : s'.recovered = true := by
  have hmeets : Meets (fun _ => True) (recoverFromDB session) (fun _ s => s.recovered = true)
      fun _ _ => True := by
    apply Meets.bind (Meets.anything _)
    intro rows
    apply Meets.bind (Meets.anything _)
    intro lists
    apply Meets.bind (Meets.anything _)
    intro _
    apply Meets.bind (Meets.anything _)
    intro _
    apply Meets.bind (Meets.anything _)
    exact fun _ => Meets.modify _ fun _ _ => rfl
  exact hmeets.returned trivial hrecover

/-- How a call comes to its effect. -/
inductive Handled (session : Session) (message : ClientMessage) (s s' : ServerState) : Prop where
  | skipped (hsame : SameTables s s')
  | direct (hready : s.recovered = true ∨ ¬ Backs message) (heffect : Effect session message s s')
  | recovering (start middle : ServerState) (hstart : SameTables s start)
      (hunrecovered : s.recovered = false)
      (hrecover : recoverFromDB session start = .returned () middle)
      (heffect : Effect session message middle s')
  | failing (start middle : ServerState) (exception : ServerException)
      (hstart : SameTables s start) (hunrecovered : s.recovered = false)
      (hrecover : recoverFromDB session start = .raised exception middle)
      (hsame : SameTables middle s')

theorem Handled.ofTables {s : ServerState} : OfTables (Handled session message s) := by
  intro t t' hsame hhandled
  cases hhandled with
  | skipped h => exact .skipped (h.trans hsame)
  | direct hready heffect => exact .direct hready (Effect.ofTables t t' hsame heffect)
  | recovering start middle hstart hunrecovered hrecover heffect =>
      exact .recovering start middle hstart hunrecovered hrecover
        (Effect.ofTables t t' hsame heffect)
  | failing start middle exception hstart hunrecovered hrecover h =>
      exact .failing start middle exception hstart hunrecovered hrecover (h.trans hsame)

/-- Requests that need no recovery do without the map. -/
theorem dispatch_affects_of_not_backs {start : ServerState} (hbacks : ¬ Backs message) :
    Affects session message start (dispatch session message) := by
  unfold dispatch
  cases htype : message.type with
  | RETR => exact retrieveUserData_affects htype
  | NOOP | DATA | AUTH | unknown => exact Affects.of_untouching (Untouching.refuse session _ _)
  | _ => exact absurd (by simp [Backs, htype]) hbacks

theorem dispatch_handled {s start : ServerState} (hstart : SameTables s start) :
    Meets (fun t => t = start) (dispatch session message) (fun _ => Handled session message s)
      fun _ => Handled session message s := by
  by_cases hready : s.recovered = true ∨ ¬ Backs message
  · have haffects : Affects session message s (dispatch session message) := by
      cases hready with
      | inl hrecovered => exact dispatch_affects hrecovered
      | inr hbacks => exact dispatch_affects_of_not_backs hbacks
    apply (haffects.at_state hstart).consequence (fun _ h => h)
    · exact fun _ _ heffect => .direct hready heffect
    · exact fun _ _ heffect => .direct hready heffect
  · rw [not_or, not_not, Bool.not_eq_true] at hready
    obtain ⟨hunrecovered, hbacks⟩ := hready
    have hrun : recoverIfNeeded session start = recoverFromDB session start := by
      simp [recoverIfNeeded, hstart.recovered.trans hunrecovered]
    rintro t rfl
    cases hrecover : recoverFromDB session t with
    | returned _ middle =>
        have hrecovered := recoverFromDB_recovered hrecover
        rw [dispatch_of_recovers hbacks (hrun.trans hrecover) hrecovered]
        have haffects : Affects session message middle (dispatch session message) :=
          dispatch_affects hrecovered
        apply haffects.consequence (fun _ h => h) _ _ middle (SameTables.refl middle)
        · exact fun _ _ heffect => .recovering t middle hstart hunrecovered hrecover heffect
        · exact fun _ _ heffect => .recovering t middle hstart hunrecovered hrecover heffect
    | raised exception middle =>
        obtain ⟨rest, heq⟩ := dispatch_backs session hbacks
        rw [heq, bind_of_raised (hrun.trans hrecover)]
        exact .failing t middle exception hstart hunrecovered hrecover (SameTables.refl middle)

theorem receive_handled {s : ServerState} {pending : List ClientMessage}
    (hincoming : s.connection.incoming = message :: pending) :
    Handled session message s (receive session s).state :=
  receive_state Handled.ofTables hincoming (.skipped (SameTables.refl s))
    (dispatch_handled ⟨rfl, rfl, rfl⟩)

theorem Effect.recovered {s s' : ServerState} (h : Effect session message s s') :
    s'.recovered = s.recovered := by
  cases h with
  | nothing hsame => exact hsame.recovered
  | retimed path entry hmem hsame => exact hsame.recovered
  | forgot entries hsame =>
      exact hsame.recovered.trans (forgottenAll_frame session s entries).2.2.2
  | tracked path entry hpath hentry hsame =>
      exact hsame.recovered.trans (ServerState.tracked_recovered session path _ entry)
  | withdrew htype keep hrows helements hrecovered => exact hrecovered

/-- A request of a backup that does not end the session leaves it recovered. -/
theorem receive_recovers {s s' : ServerState} {pending : List ClientMessage}
    (hincoming : s.connection.incoming = message :: pending) (hbacks : Backs message)
    (hreceive : receive session s = .returned () s') : s'.recovered = true := by
  have hdispatch : Meets (fun t => t = s.withIncoming pending) (dispatch session message)
      (fun _ s => s.recovered = true) fun exception s => Skipped exception → s.recovered = true := by
    rintro t rfl
    cases hrecover : recoverIfNeeded session (s.withIncoming pending) with
    | returned _ middle =>
        have hrecovered : middle.recovered = true := by
          by_cases hs : (s.withIncoming pending).recovered = true
          · rw [recoverIfNeeded_of_recovered session _ hs] at hrecover
            simp only [Exit.returned.injEq, true_and] at hrecover
            rwa [← hrecover]
          · have hrun : recoverFromDB session (s.withIncoming pending) = .returned () middle := by
              simpa [recoverIfNeeded, hs] using hrecover
            exact recoverFromDB_recovered hrun
        rw [dispatch_of_recovers hbacks hrecover hrecovered]
        have haffects : Affects session message middle (dispatch session message) :=
          dispatch_affects hrecovered
        have hends := haffects middle (SameTables.refl middle)
        cases hrun : dispatch session message middle with
        | returned _ s' =>
            rw [hrun] at hends
            exact hends.recovered.trans hrecovered
        | raised exception s' =>
            rw [hrun] at hends
            exact fun _ => hends.recovered.trans hrecovered
    | raised exception middle =>
        obtain ⟨rest, heq⟩ := dispatch_backs session hbacks
        have hsilent : Silent (recoverIfNeeded session) := Silent.recoverIfNeeded session
        rw [heq, bind_of_raised hrecover]
        exact fun hskipped => absurd hskipped ((hsilent _).raised rfl hrecover)
  exact receive_returns hincoming hdispatch hreceive

end Calls

end PdsBackup.Server
