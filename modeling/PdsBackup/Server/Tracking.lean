import PdsBackup.Server.Transfer
import PdsBackup.Server.Calls

/-!
# The tracked set

The map of elements, the rows of the database and the folder tell the same story
about every path: a path that is in the map has one row, and the object of the
recorded type at that path; a path that is not in the map has no row.  The
statement is about one path at a time, so a step has to be followed only at the
paths it acts on.
-/

namespace PdsBackup.Server

open Procedure

variable {session : Session} {unique : Prop}

/-! ## The rows of a path -/

/-- The rows of a path of the session. -/
def rowsAt (session : Session) (path : Text) (rows : List Row) : List Row :=
  rows.filter (Row.isAt session.username session.mac path)

theorem isAt_iff {username mac path : Text} {row : Row} :
    row.isAt username mac path = true ↔ row.isOf username mac = true ∧ row.path = path := by
  simp [Row.isAt]

theorem isAt_path {username mac path other : Text} {row : Row}
    (hrow : row.isAt username mac path = true) :
    row.isAt username mac other = decide (path = other) := by
  obtain ⟨hof, rfl⟩ := isAt_iff.mp hrow
  simp [Row.isAt, hof]

variable (session) in
theorem rowsAt_remove (path removed : Text) (rows : List Row) :
    rowsAt session path
        (rows.filter fun row => !row.isAt session.username session.mac removed) =
      if path = removed then [] else rowsAt session path rows := by
  rw [rowsAt, List.filter_filter]
  by_cases hpath : path = removed
  · subst hpath
    simp
  · rw [if_neg hpath]
    apply List.filter_congr
    intro row _
    by_cases hrow : row.isAt session.username session.mac path = true
    · simp [isAt_path hrow, hpath]
    · simp [hrow]

/-- Removing rows of another machine. -/
theorem rowsAt_remove_of_ne {mac : Text} (hmac : mac ≠ session.mac) (path removed : Text)
    (rows : List Row) :
    rowsAt session path (rows.filter fun row => !row.isAt session.username mac removed) =
      rowsAt session path rows := by
  rw [rowsAt, List.filter_filter]
  apply List.filter_congr
  intro row _
  by_cases hrow : row.isAt session.username session.mac path = true
  · have hother : row.isAt session.username mac removed = false := by
      obtain ⟨hof, -⟩ := isAt_iff.mp hrow
      simp only [Row.isOf, decide_eq_true_eq] at hof
      simp [Row.isAt, Row.isOf, hof.2, hmac.symm]
    simp [hother]
  · simp [hrow]

variable (session) in
theorem rowsAt_insert (path : Text) (entry : DirectoryEntry) (rows : List Row) :
    rowsAt session path (rows ++ [Row.ofEntry session.username session.mac entry]) =
      if path = entry.relativePath then
        rowsAt session path rows ++ [Row.ofEntry session.username session.mac entry]
      else rowsAt session path rows := by
  rw [rowsAt, List.filter_append, ← rowsAt]
  by_cases hpath : path = entry.relativePath
  · subst hpath
    simp [Row.isAt, Row.isOf, Row.ofEntry]
  · have hother : entry.relativePath ≠ path := fun heq => hpath heq.symm
    simp [hpath, Row.isAt, Row.isOf, Row.ofEntry, hother]

variable (session) in
theorem rowsAt_update (path : Text) (entry : DirectoryEntry) (rows : List Row) :
    rowsAt session path (rows.map fun row =>
        if row.isAt session.username session.mac entry.relativePath then row.updated entry
        else row) =
      if path = entry.relativePath then
        (rowsAt session path rows).map (Row.updated entry)
      else rowsAt session path rows := by
  have hkept : ∀ (row : Row) (other : Text), (row.updated entry).isAt session.username session.mac
      other = row.isAt session.username session.mac other := fun _ _ => rfl
  induction rows with
  | nil => simp [rowsAt]
  | cons row rows ih =>
      simp only [rowsAt] at ih ⊢
      by_cases hrow : row.isAt session.username session.mac entry.relativePath = true
      · by_cases hpath : path = entry.relativePath
        · subst hpath
          simp [hrow, hkept, ih]
        · have hother : row.isAt session.username session.mac path = false := by
            simpa [isAt_path hrow] using fun heq => hpath heq.symm
          simp [hrow, hkept, hother, ih, hpath]
      · by_cases hpath : path = entry.relativePath
        · subst hpath
          simp [hrow, ih]
        · by_cases hat : row.isAt session.username session.mac path = true
          · simp [hrow, hat, ih, hpath]
          · simp [hrow, hat, ih, hpath]

/-! ## One path -/

/-- What is at a path of the session, less the time of a directory. -/
def shapeAt (session : Session) (tree : FileTree) (path : Text) : Option FileTree.Shape :=
  (tree.status (session.userPath ++ path)).map FileTree.Shape.ofNode

theorem shapeAt_render (placement : Placement session) (tree : FileTree) {names : List Text}
    (hnames : PlainPath names) :
    shapeAt session tree (render names) = tree.shape (placement.inside names) := by
  rw [shapeAt, placement.status_inside tree hnames, FileTree.shape]

/-- The row records the element. -/
structure Agrees (row : Row) (entry : DirectoryEntry) : Prop where
  type : row.columns.type = entry.typeName
  hash : row.columns.hashBytes = some entry.hash.str

/-- The element has the type and the hash of the object, and the time of a file. -/
def Matches (platform : Platform) (entry : DirectoryEntry) : FileTree.Shape → Prop
  | .file content mtime => entry.type = .file ∧ entry.hash = platform.sha256 content ∧
      entry.lastWriteTime = platform.putTime mtime
  | .dir => entry.type = .directory ∧ entry.hash = .zero

/-- The element is that of the object at its path. -/
structure Backed (session : Session) (tree : FileTree) (path : Text)
    (entry : DirectoryEntry) : Prop where
  canonical : Canonical path
  relativePath : entry.relativePath = path
  absolutePath : entry.absolutePath = session.userPath ++ path
  object : ∃ shape, shapeAt session tree path = some shape ∧
    Matches session.platform entry shape

/-- What the three stores say about a path. -/
def TrackedAt (session : Session) (tree : FileTree) (rows : List Row)
    (elements : KeyedMap Text DirectoryEntry) (path : Text) : Prop :=
  match elements.lookup path with
  | none => rowsAt session path rows = []
  | some entry => Backed session tree path entry ∧ rowsAt session path rows ≠ [] ∧
      ∀ row ∈ rowsAt session path rows, Agrees row entry

/-- No path of the session has two rows, if that is known. -/
def Single (session : Session) (unique : Prop) (rows : List Row) : Prop :=
  unique → ∀ path, (rowsAt session path rows).length ≤ 1

/-- The invariant of a session that has recovered. -/
structure Tracked (session : Session) (unique : Prop) (s : ServerState) : Prop where
  recovered : s.recovered = true
  single : Single session unique s.database.rows
  at_path : ∀ path, TrackedAt session s.disk.tree s.database.rows s.elements path

theorem Single.remove {rows : List Row} (h : Single session unique rows) (removed : Text) :
    Single session unique
      (rows.filter fun row => !row.isAt session.username session.mac removed) := by
  intro hunique path
  rw [rowsAt_remove]
  by_cases hpath : path = removed
  · simp [hpath]
  · rw [if_neg hpath]
    exact h hunique path

theorem Single.update {rows : List Row} (h : Single session unique rows) (entry : DirectoryEntry) :
    Single session unique (rows.map fun row =>
      if row.isAt session.username session.mac entry.relativePath then row.updated entry
      else row) := by
  intro hunique path
  rw [rowsAt_update]
  by_cases hpath : path = entry.relativePath
  · rw [if_pos hpath, List.length_map]
    exact h hunique path
  · rw [if_neg hpath]
    exact h hunique path

/-- A row may be added where there is none. -/
theorem Single.insert {rows : List Row} (h : Single session unique rows) {entry : DirectoryEntry}
    (hnone : rowsAt session entry.relativePath rows = []) :
    Single session unique (rows ++ [Row.ofEntry session.username session.mac entry]) := by
  intro hunique path
  rw [rowsAt_insert]
  by_cases hpath : path = entry.relativePath
  · rw [if_pos hpath, hpath, hnone]
    simp
  · rw [if_neg hpath]
    exact h hunique path

/-! ### Agreement -/

theorem nul_notMem_stringToHex (input : List Byte) : nul ∉ stringToHex input := fun hnul =>
  absurd (mem_hexDigits_of_mem_stringToHex input hnul) (by decide)

theorem agrees_ofEntry (username mac : Text) (entry : DirectoryEntry) :
    Agrees (Row.ofEntry username mac entry) entry := by
  constructor
  · have hnul : nul ∉ entry.typeName := by
      unfold DirectoryEntry.typeName
      split <;> decide
    exact cString_eq_self hnul
  · have hhash : (Row.ofEntry username mac entry).columns.hash = stringToHex entry.hash.str :=
      cString_eq_self (nul_notMem_stringToHex _)
    rw [Row.hashBytes, hhash, hexToString_stringToHex]

theorem agrees_updated (row : Row) (entry : DirectoryEntry) : Agrees (row.updated entry) entry :=
  ⟨(agrees_ofEntry row.username row.mac entry).type, (agrees_ofEntry row.username row.mac entry).hash⟩

theorem Matches.type_eq {platform : Platform} {entry other : DirectoryEntry}
    {shape : FileTree.Shape} (h : Matches platform entry shape)
    (hother : Matches platform other shape) :
    entry.type = other.type ∧ entry.hash = other.hash := by
  cases shape with
  | file content mtime => exact ⟨h.1.trans hother.1.symm, h.2.1.trans hother.2.1.symm⟩
  | dir => exact ⟨h.1.trans hother.1.symm, h.2.trans hother.2.symm⟩

/-- A row that records an element records every element of the same object. -/
theorem Agrees.of_backed {row : Row} {tree : FileTree} {path : Text}
    {entry other : DirectoryEntry} (hrow : Agrees row entry)
    (hentry : Backed session tree path entry) (hother : Backed session tree path other) :
    Agrees row other := by
  obtain ⟨shape, hshape, hmatches⟩ := hentry.object
  obtain ⟨shape', hshape', hmatches'⟩ := hother.object
  rw [hshape, Option.some.injEq] at hshape'
  subst hshape'
  obtain ⟨htype, hhash⟩ := hmatches.type_eq hmatches'
  constructor
  · rw [hrow.type, DirectoryEntry.typeName, DirectoryEntry.typeName, htype]
  · rw [hrow.hash, hhash]

/-! ### Elements that were read -/

/-- The folder's text, as a regular expression, cuts a canonical path where the
folder ends. -/
def Cuts (session : Session) : Prop :=
  ∀ path found, Canonical path → DirectoryEntry.relativePathOf session.userPath
    (session.userPath ++ path) = some found → found = path

/-- It does if no character in it is an operator. -/
theorem cuts_of_literal (hliteral : Regex.Literal session.userPath) : Cuts session :=
  fun _ _ _ hfound => DirectoryEntry.relativePathOf_append hliteral hfound

theorem matches_of_describes {platform : Platform} {node : Node} {entry : DirectoryEntry}
    (h : DirectoryEntry.Describes platform node entry) :
    Matches platform entry (.ofNode node) := by
  cases node with
  | file content mtime => exact ⟨h.type, h.hash, h.lastWriteTime⟩
  | dir mtime => exact ⟨h.type, h.hash⟩

/-- An element that was read is that of the object at its path. -/
theorem Backed.of_load {tree : FileTree} {path : Text} {entry : DirectoryEntry}
    (hcuts : Cuts session) (hpath : Canonical path)
    (hload : DirectoryEntry.load session.platform session.userPath (session.userPath ++ path)
      tree = some entry) : Backed session tree path entry := by
  obtain ⟨hrelative, habsolute, node, hstatus, hdescribes⟩ := DirectoryEntry.load_eq_some hload
  constructor
  · exact hpath
  · exact hcuts path _ hpath hrelative
  · exact habsolute
  · exact ⟨.ofNode node, by rw [shapeAt, hstatus, Option.map_some], matches_of_describes hdescribes⟩

theorem agrees_make {row : Row} {bytes : List Byte} {hash : Hash} (basePath : Text)
    (hbytes : row.columns.hashBytes = some bytes) (hhash : Hash.ofBytes bytes = some hash)
    (htype : (DirectoryEntry.make basePath row.columns.path row.columns.size row.columns.type
      row.columns.lastWriteTime hash).type ≠ .notFileNorDirectory) :
    Agrees row (DirectoryEntry.make basePath row.columns.path row.columns.size row.columns.type
      row.columns.lastWriteTime hash) := by
  constructor
  · exact (DirectoryEntry.typeName_make htype).symm
  · rw [hbytes, ← (Hash.ofBytes_eq_some_iff bytes hash).mp hhash]
    rfl

/-- An element that does not differ from what was read is backed as well. -/
theorem backed_of_same {tree : FileTree} {path : Text} {entry other : DirectoryEntry}
    (hother : Backed session tree path other) (hrelative : entry.relativePath = path)
    (habsolute : entry.absolutePath = session.userPath ++ path) (htype : other.type = entry.type)
    (htime : other.lastWriteTime = entry.lastWriteTime) (hhash : other.hash = entry.hash) :
    Backed session tree path entry := by
  obtain ⟨shape, hshape, hmatches⟩ := hother.object
  refine ⟨hother.canonical, hrelative, habsolute, shape, hshape, ?_⟩
  cases shape with
  | file content mtime =>
      exact ⟨htype.symm.trans hmatches.1, hhash.symm.trans hmatches.2.1,
        htime.symm.trans hmatches.2.2⟩
  | dir => exact ⟨htype.symm.trans hmatches.1, hhash.symm.trans hmatches.2⟩

theorem Backed.type_ne {tree : FileTree} {path : Text} {entry : DirectoryEntry}
    (h : Backed session tree path entry) : entry.type ≠ .notFileNorDirectory := by
  obtain ⟨shape, -, hmatches⟩ := h.object
  cases shape with
  | file content mtime => simp [hmatches.1]
  | dir => simp [hmatches.1]

/-! ## Recovery -/

/-- A session that has not recovered: no elements, and canonical rows. -/
structure Prepared (session : Session) (unique : Prop) (s : ServerState) : Prop where
  recovered : s.recovered = false
  single : Single session unique s.database.rows
  elements : s.elements = ∅
  rows : ∀ row ∈ s.database.rows, row.isOf session.username session.mac = true →
    Canonical row.path

/-- The row is still to be looked at, or will be updated. -/
def Due (rest : List Row) (toUpdate : List DirectoryEntry) (path : Text) (row : Row) : Prop :=
  row ∈ rest ∨ ∃ entry ∈ toUpdate, entry.relativePath = path

theorem Due.cons {rest : List Row} {toUpdate : List DirectoryEntry} {path : Text} {row other : Row}
    (h : Due (row :: rest) toUpdate path other) : other = row ∨ Due rest toUpdate path other := by
  rcases h with hmem | hupdate
  · exact (List.mem_cons.mp hmem).imp_right .inl
  · exact .inr (.inr hupdate)

/-- What holds while the rows are gone over, and while what was collected is
applied. -/
structure Recovering (session : Session) (unique : Prop) (rest : List Row)
    (toUpdate toDelete : List DirectoryEntry) (s : ServerState) : Prop where
  single : Single session unique s.database.rows
  element : ∀ path entry, s.elements.lookup path = some entry →
    Backed session s.disk.tree path entry ∧ rowsAt session path s.database.rows ≠ [] ∧
      ∀ row ∈ rowsAt session path s.database.rows, Agrees row entry ∨ Due rest toUpdate path row
  missing : ∀ path, s.elements.lookup path = none →
    ∀ row ∈ rowsAt session path s.database.rows, Due rest toUpdate path row ∨
      ∃ entry ∈ toDelete, entry.relativePath = path
  update : ∀ entry ∈ toUpdate, Backed session s.disk.tree entry.relativePath entry ∧
    rowsAt session entry.relativePath s.database.rows ≠ []
  delete : ∀ entry ∈ toDelete, shapeAt session s.disk.tree entry.relativePath = none

namespace Recovering

variable {rest : List Row} {toUpdate toDelete : List DirectoryEntry} {s : ServerState} {row : Row}

theorem path_eq_of_mem_rowsAt {path : Text} {rows : List Row} (hrow : row ∈ rowsAt session path rows) :
    row.path = path := (isAt_iff.mp (List.mem_filter.mp hrow).2).2

/-- The row is not on the disk any more. -/
theorem collectDelete {entry : DirectoryEntry} (h : Recovering session unique (row :: rest) toUpdate toDelete s)
    (hentry : entry.relativePath = row.path)
    (hgone : shapeAt session s.disk.tree row.path = none) :
    Recovering session unique rest toUpdate (toDelete ++ [entry]) s where
  single := h.single
  element := by
    intro path element hlookup
    obtain ⟨hbacked, hsome, hrows⟩ := h.element path element hlookup
    refine ⟨hbacked, hsome, fun other hother => (hrows other hother).imp_right fun hdue => ?_⟩
    apply hdue.cons.resolve_left
    rintro rfl
    obtain ⟨shape, hshape, -⟩ := hbacked.object
    rw [← path_eq_of_mem_rowsAt hother, hgone] at hshape
    simp at hshape
  missing := by
    intro path hlookup other hother
    rcases h.missing path hlookup other hother with hdue | ⟨listed, hlisted, heq⟩
    · rcases hdue.cons with rfl | hdue
      · exact .inr ⟨entry, by simp, hentry.trans (path_eq_of_mem_rowsAt hother)⟩
      · exact .inl hdue
    · exact .inr ⟨listed, List.mem_append_left _ hlisted, heq⟩
  update := h.update
  delete := by
    intro listed hlisted
    rcases List.mem_append.mp hlisted with hlisted | hlisted
    · exact h.delete listed hlisted
    · rw [List.mem_singleton.mp hlisted, hentry]
      exact hgone

/-- The row differs from what is on the disk. -/
theorem collectUpdate {entry : DirectoryEntry} (h : Recovering session unique (row :: rest) toUpdate toDelete s)
    (hbacked : Backed session s.disk.tree row.path entry)
    (hrow : row ∈ rowsAt session row.path s.database.rows) :
    Recovering session unique rest (toUpdate ++ [entry]) toDelete s := by
  have hentry := hbacked.relativePath
  have hdue : ∀ {path : Text} {other : Row}, other ∈ rowsAt session path s.database.rows →
      Due (row :: rest) toUpdate path other → Due rest (toUpdate ++ [entry]) path other := by
    intro path other hother hdue
    rcases hdue.cons with rfl | hmem | ⟨listed, hlisted, heq⟩
    · exact .inr ⟨entry, by simp, hentry.trans (path_eq_of_mem_rowsAt hother)⟩
    · exact .inl hmem
    · exact .inr ⟨listed, List.mem_append_left _ hlisted, heq⟩
  constructor
  · exact h.single
  · intro path element hlookup
    obtain ⟨hbacked, hsome, hrows⟩ := h.element path element hlookup
    exact ⟨hbacked, hsome, fun other hother => (hrows other hother).imp_right (hdue hother)⟩
  · intro path hlookup other hother
    exact (h.missing path hlookup other hother).imp_left (hdue hother)
  · intro listed hlisted
    rcases List.mem_append.mp hlisted with hlisted | hlisted
    · exact h.update listed hlisted
    · rw [List.mem_singleton.mp hlisted, hentry]
      exact ⟨hbacked, List.ne_nil_of_mem hrow⟩
  · exact h.delete

/-- The row is as the disk has it. -/
theorem collectElement {entry : DirectoryEntry} (h : Recovering session unique (row :: rest) toUpdate toDelete s)
    (hbacked : Backed session s.disk.tree row.path entry) (hagrees : Agrees row entry)
    (hrow : row ∈ rowsAt session row.path s.database.rows) :
    Recovering session unique rest toUpdate toDelete
      { s with elements := s.elements.emplace row.path entry } := by
  constructor
  · exact h.single
  · intro path element hlookup
    have hlookup' : (s.elements.emplace row.path entry).lookup path = some element := hlookup
    rw [KeyedMap.lookup_emplace] at hlookup'
    by_cases hpath : path = row.path
    · subst hpath
      rw [if_pos rfl, Option.some.injEq] at hlookup'
      cases hold : s.elements.lookup row.path with
      | some old =>
          rw [hold, Option.getD_some] at hlookup'
          subst hlookup'
          obtain ⟨hold', hsome, hrows⟩ := h.element row.path old hold
          refine ⟨hold', hsome, fun other hother => ?_⟩
          rcases hrows other hother with hagree | hdue
          · exact .inl hagree
          · rcases hdue.cons with rfl | hdue
            · exact .inl (hagrees.of_backed hbacked hold')
            · exact .inr hdue
      | none =>
          rw [hold, Option.getD_none] at hlookup'
          subst hlookup'
          refine ⟨hbacked, List.ne_nil_of_mem hrow, fun other hother => ?_⟩
          rcases h.missing row.path hold other hother with hdue | ⟨listed, hlisted, heq⟩
          · rcases hdue.cons with rfl | hdue
            · exact .inl hagrees
            · exact .inr hdue
          · obtain ⟨shape, hshape, -⟩ := hbacked.object
            have hgone := h.delete listed hlisted
            rw [heq, hshape] at hgone
            simp at hgone
    · rw [if_neg hpath] at hlookup'
      obtain ⟨hbacked, hsome, hrows⟩ := h.element path element hlookup'
      refine ⟨hbacked, hsome, fun other hother => (hrows other hother).imp_right fun hdue => ?_⟩
      apply hdue.cons.resolve_left
      rintro rfl
      exact hpath (path_eq_of_mem_rowsAt hother).symm
  · intro path hlookup other hother
    have hlookup' : (s.elements.emplace row.path entry).lookup path = none := hlookup
    rw [KeyedMap.lookup_emplace] at hlookup'
    by_cases hpath : path = row.path
    · simp [hpath] at hlookup'
    · rw [if_neg hpath] at hlookup'
      refine (h.missing path hlookup' other hother).imp_left fun hdue => ?_
      apply hdue.cons.resolve_left
      rintro rfl
      exact hpath (path_eq_of_mem_rowsAt hother).symm
  · exact h.update
  · exact h.delete

variable (session) in
theorem recoverRow (hcuts : Cuts session) {rows : List Row} (hcanonical : Canonical row.path)
    (hrow : row ∈ rowsAt session row.path rows) :
    Meets (fun s => s.database.rows = rows ∧ Recovering session unique (row :: rest) toUpdate toDelete s)
      (recoverRow session row.columns toUpdate toDelete)
      (fun lists s => s.database.rows = rows ∧ Recovering session unique rest lists.1 lists.2 s)
      fun exception _ => ¬ Skipped exception := by
  apply Meets.bind_orRaise
  · exact fun _ _ => by decide
  intro bytes hbytes
  apply Meets.bind_orRaise
  · exact fun _ _ => by decide
  intro hash hhash
  apply Meets.of_each
  rintro s ⟨rfl, hs⟩
  have hpath : row.columns.path = row.path := cString_eq_self (nul_notMem_of_canonical hcanonical)
  have hmade := agrees_make session.userPath hbytes hhash
  have habsolute : (DirectoryEntry.make session.userPath row.columns.path row.columns.size
      row.columns.type row.columns.lastWriteTime hash).absolutePath =
        session.userPath ++ row.path := by rw [← hpath]; rfl
  have hrelative : (DirectoryEntry.make session.userPath row.columns.path row.columns.size
      row.columns.type row.columns.lastWriteTime hash).relativePath = row.path := hpath
  have hkey : row.columns.path = row.path := hpath
  apply Meets.then_returned (Procedure.read_apply ServerState.disk s)
  generalize DirectoryEntry.make session.userPath row.columns.path row.columns.size
    row.columns.type row.columns.lastWriteTime hash = current at hmade habsolute hrelative ⊢
  rw [habsolute, hkey]
  apply Meets.ite
  · intro hmissing
    apply Meets.ends_returned rfl
    refine ⟨rfl, hs.collectDelete hrelative ?_⟩
    simpa [shapeAt, Disk.present, Disk.status] using hmissing
  · intro _
    rcases loadEntry_cases session s session.userPath (session.userPath ++ row.path) with
      ⟨effective, hload, hrun⟩ | ⟨-, hrun⟩
    · apply Meets.then_returned hrun
      have hbacked := Backed.of_load hcuts hcanonical hload
      apply Meets.ite
      · exact fun _ => Meets.ends_returned rfl ⟨rfl, hs.collectUpdate hbacked hrow⟩
      · intro hsame
        simp only [not_or, not_not] at hsame
        obtain ⟨htype, -, htime, hhash'⟩ := hsame
        have hcurrent := backed_of_same hbacked hrelative habsolute htype htime hhash'
        apply Meets.then_returned (Procedure.modify_apply _ s)
        apply Meets.ends_returned rfl
        exact ⟨rfl, hs.collectElement hcurrent (hmade hcurrent.type_ne) hrow⟩
    · exact Meets.then_raised hrun (by decide)

variable (session) in
theorem recoverRows (hcuts : Cuts session) {rows : List Row}
    (hrest : ∀ row ∈ rest, Canonical row.path ∧ row ∈ rowsAt session row.path rows) :
    Meets (fun s => s.database.rows = rows ∧ Recovering session unique rest toUpdate toDelete s)
      (recoverRows session rest toUpdate toDelete)
      (fun lists s => s.database.rows = rows ∧ Recovering session unique [] lists.1 lists.2 s)
      fun exception _ => ¬ Skipped exception := by
  induction rest generalizing toUpdate toDelete with
  | nil => exact Meets.pure _ fun s hs => hs
  | cons row rest ih =>
      obtain ⟨hcanonical, hrow⟩ := hrest row List.mem_cons_self
      apply Meets.bind (recoverRow session hcuts hcanonical hrow)
      exact fun lists => ih fun other hother => hrest other (List.mem_cons_of_mem row hother)

/-- An element that was collected is updated in the database and entered. -/
def applied (session : Session) (entry : DirectoryEntry) (s : ServerState) : ServerState :=
  { s with
    database := { s.database with
      rows := s.database.rows.map fun row =>
        if row.isAt session.username session.mac entry.relativePath then row.updated entry
        else row }
    elements := s.elements.emplace entry.relativePath entry }

theorem applyUpdate {entry : DirectoryEntry}
    (h : Recovering session unique [] (entry :: toUpdate) toDelete s) :
    Recovering session unique [] toUpdate toDelete (applied session entry s) := by
  obtain ⟨hbacked, hsome⟩ := h.update entry List.mem_cons_self
  have hrows := fun path => rowsAt_update session path entry s.database.rows
  have hlookup := fun path => KeyedMap.lookup_emplace s.elements entry.relativePath path entry
  have hdue : ∀ {path : Text} {row : Row}, path ≠ entry.relativePath →
      Due [] (entry :: toUpdate) path row → Due [] toUpdate path row := by
    rintro path row hpath (hmem | ⟨listed, hlisted, heq⟩)
    · simp at hmem
    · rcases List.mem_cons.mp hlisted with rfl | hlisted
      · exact absurd heq.symm hpath
      · exact .inr ⟨listed, hlisted, heq⟩
  constructor
  · exact h.single.update entry
  · intro path element hfound
    have hfound' := (hlookup path).symm.trans hfound
    by_cases hpath : path = entry.relativePath
    · subst hpath
      rw [if_pos rfl, Option.some.injEq] at hfound'
      have helement : Backed session s.disk.tree entry.relativePath element := by
        cases hold : s.elements.lookup entry.relativePath with
        | none =>
            rw [hold, Option.getD_none] at hfound'
            rwa [← hfound']
        | some old =>
            rw [hold, Option.getD_some] at hfound'
            rw [← hfound']
            exact (h.element _ old hold).1
      have hat := hrows entry.relativePath
      rw [if_pos rfl] at hat
      refine ⟨helement, ?_, ?_⟩
      · intro hnil
        exact hsome (List.map_eq_nil_iff.mp (hat.symm.trans hnil))
      · intro row hrow
        obtain ⟨old, -, rfl⟩ := List.mem_map.mp (hat ▸ hrow)
        exact .inl ((agrees_updated old entry).of_backed hbacked helement)
    · rw [if_neg hpath] at hfound'
      have hat := hrows path
      rw [if_neg hpath] at hat
      obtain ⟨helement, hne, hall⟩ := h.element path element hfound'
      refine ⟨helement, fun hnil => hne (hat.symm.trans hnil), fun row hrow => ?_⟩
      exact (hall row (hat ▸ hrow)).imp_right (hdue hpath)
  · intro path hnone row hrow
    have hnone' := (hlookup path).symm.trans hnone
    by_cases hpath : path = entry.relativePath
    · simp [hpath] at hnone'
    · rw [if_neg hpath] at hnone'
      have hat := hrows path
      rw [if_neg hpath] at hat
      exact (h.missing path hnone' row (hat ▸ hrow)).imp_left (hdue hpath)
  · intro listed hlisted
    obtain ⟨hlistedBacked, hne⟩ := h.update listed (List.mem_cons_of_mem entry hlisted)
    refine ⟨hlistedBacked, fun hnil => hne ?_⟩
    have hat := (hrows listed.relativePath).symm.trans hnil
    by_cases hpath : listed.relativePath = entry.relativePath
    · rw [if_pos hpath] at hat
      exact List.map_eq_nil_iff.mp hat
    · rwa [if_neg hpath] at hat
  · exact h.delete

theorem updateAll : ∀ toUpdate : List DirectoryEntry,
    Meets (Recovering session unique [] toUpdate toDelete) (updateAll session toUpdate)
      (fun _ => Recovering session unique [] [] toDelete) fun exception _ => ¬ Skipped exception
  | [] => Meets.pure () fun _ hs => hs
  | entry :: toUpdate => by
      apply Meets.of_each
      intro s hs
      rcases onDatabase_mapRows_cases s fun rows => rows.map fun row =>
        if row.isAt session.username session.mac entry.relativePath then row.updated entry
        else row with ⟨-, hrun⟩ | ⟨-, hrun⟩
      · apply Meets.then_returned hrun
        apply Meets.then_returned (Procedure.modify_apply _ _)
        exact (updateAll toUpdate).at_state hs.applyUpdate
      · exact Meets.then_raised hrun (by decide)

/-- The rows of an element that is gone are removed. -/
theorem applyDelete {entry : DirectoryEntry} {rows : List Row}
    (h : Recovering session unique [] [] (entry :: toDelete) s)
    (hrows : rows = s.database.rows.filter fun row =>
      !row.isAt session.username session.mac entry.relativePath) :
    Recovering session unique [] [] toDelete
      { s with database := { s.database with rows } } := by
  have hat := fun path =>
    rowsAt_remove session path entry.relativePath s.database.rows
  rw [← hrows] at hat
  have hgone := h.delete entry List.mem_cons_self
  constructor
  · rw [hrows]
    exact h.single.remove _
  · intro path element hlookup
    obtain ⟨hbacked, hsome, hall⟩ := h.element path element hlookup
    have hpath : path ≠ entry.relativePath := by
      rintro rfl
      obtain ⟨shape, hshape, -⟩ := hbacked.object
      simp [hgone] at hshape
    have hsame := hat path
    rw [if_neg hpath] at hsame
    exact ⟨hbacked, fun hnil => hsome (hsame.symm.trans hnil), fun row hrow =>
      hall row (hsame ▸ hrow)⟩
  · intro path hlookup row hrow
    have hsame := hat path
    by_cases hpath : path = entry.relativePath
    · rw [if_pos hpath] at hsame
      simp [hsame] at hrow
    · rw [if_neg hpath] at hsame
      rcases h.missing path hlookup row (hsame ▸ hrow) with hdue | ⟨listed, hlisted, heq⟩
      · exact .inl hdue
      · rcases List.mem_cons.mp hlisted with rfl | hlisted
        · exact absurd heq.symm hpath
        · exact .inr ⟨listed, hlisted, heq⟩
  · simp
  · exact fun listed hlisted => h.delete listed (List.mem_cons_of_mem entry hlisted)

theorem deleteAll : ∀ toDelete : List DirectoryEntry,
    Meets (Recovering session unique [] [] toDelete) (deleteAll session toDelete)
      (fun _ => Recovering session unique [] [] []) fun exception _ => ¬ Skipped exception
  | [] => Meets.pure () fun _ hs => hs
  | entry :: toDelete => by
      apply Meets.of_each
      intro s hs
      rcases onDatabase_mapRows_cases s fun rows => rows.filter fun row =>
        !row.isAt session.username session.mac entry.relativePath with ⟨-, hrun⟩ | ⟨-, hrun⟩
      · apply Meets.then_returned hrun
        exact (deleteAll toDelete).at_state (hs.applyDelete rfl)
      · exact Meets.then_raised hrun (by decide)

/-- When nothing is left to do, every path is tracked. -/
theorem tracked (h : Recovering session unique [] [] [] s) :
    Tracked session unique { s with recovered := true } where
  recovered := rfl
  single := h.single
  at_path path := by
    have hdue : ∀ row, ¬ Due [] [] path row := by simp [Due]
    unfold TrackedAt
    cases hlookup : s.elements.lookup path with
    | none =>
        apply List.eq_nil_iff_forall_not_mem.mpr
        intro row hrow
        rcases h.missing path hlookup row hrow with hrow | hlisted
        · exact hdue row hrow
        · simp at hlisted
    | some entry =>
        obtain ⟨hbacked, hsome, hall⟩ := h.element path entry hlookup
        exact ⟨hbacked, hsome, fun row hrow => (hall row hrow).resolve_right (hdue row)⟩

end Recovering

/-- The rows that are read are all that is to be looked at. -/
theorem Prepared.recovering {s : ServerState} (h : Prepared session unique s)
    (inTransaction : Bool) :
    Recovering session unique (s.database.rows.filter (Row.isOf session.username session.mac)) [] []
      { s with database := { s.database with inTransaction } } := by
  constructor
  · exact h.single
  · intro path entry hlookup
    have hlookup' : s.elements.lookup path = some entry := hlookup
    simp [h.elements] at hlookup'
  · intro path _ row hrow
    obtain ⟨hmem, hat⟩ := List.mem_filter.mp hrow
    exact .inl (.inl (List.mem_filter.mpr ⟨hmem, (isAt_iff.mp hat).1⟩))
  · simp
  · simp

theorem recoverFromDB_tracked (hcuts : Cuts session) {s : ServerState} (h : Prepared session unique s) :
    Meets (fun s' => s' = s) (recoverFromDB session) (fun _ => Tracked session unique)
      fun exception _ => ¬ Skipped exception := by
  have hrows : ∀ row ∈ s.database.rows.filter (Row.isOf session.username session.mac),
      Canonical row.path ∧ row ∈ rowsAt session row.path s.database.rows := by
    intro row hrow
    obtain ⟨hmem, hof⟩ := List.mem_filter.mp hrow
    exact ⟨h.rows row hmem hof, List.mem_filter.mpr ⟨hmem, isAt_iff.mpr ⟨hof, rfl⟩⟩⟩
  have hselect : Meets (fun s' => s' = s)
      (onDatabase (Database.select session.username session.mac))
      (fun rows s' => (s'.database.rows = s.database.rows ∧ Recovering session unique rows [] [] s') ∧
        rows = s.database.rows.filter (Row.isOf session.username session.mac))
      fun exception _ => ¬ Skipped exception := by
    rintro s' rfl
    simp only [onDatabase, within, Database.select, Database.begin, bind_apply, read_apply]
    cases s'.database.inTransaction with
    | true =>
        have hended : ¬ Skipped (.database .prepare) := by decide
        exact hended
    | false => exact ⟨⟨rfl, h.recovering true⟩, rfl⟩
  apply Meets.bind hselect
  intro rows
  apply Meets.given
  rintro rfl
  apply Meets.bind (Recovering.recoverRows session hcuts hrows)
  intro lists
  have hfinish : Meets (fun s' => s'.database.rows = s.database.rows ∧
        Recovering session unique [] lists.1 lists.2 s') (onDatabase Database.finish)
      (fun _ => Recovering session unique [] lists.1 lists.2) fun exception _ => ¬ Skipped exception := by
    rintro s' ⟨-, hs⟩
    exact ⟨hs.single, hs.element, hs.missing, hs.update, hs.delete⟩
  apply Meets.bind hfinish
  intro _
  apply Meets.bind (Recovering.updateAll lists.1)
  intro _
  apply Meets.bind (Recovering.deleteAll lists.2)
  intro _
  exact Meets.modify _ fun s hs => hs.tracked

/-! ## What a step keeps -/

section Steps

variable {tree tree' : FileTree} {rows rows' : List Row} {path other : Text}
variable {elements elements' : KeyedMap Text DirectoryEntry} {entry : DirectoryEntry}
variable {s s' : ServerState}

/-- What was at a path is still there. -/
def Remains (session : Session) (tree tree' : FileTree) (path : Text) : Prop :=
  Canonical path → ∀ shape, shapeAt session tree path = some shape →
    shapeAt session tree' path = some shape

theorem Backed.mono (h : Backed session tree path entry) (hremains : Remains session tree tree' path) :
    Backed session tree' path entry := by
  obtain ⟨shape, hshape, hmatches⟩ := h.object
  exact ⟨h.canonical, h.relativePath, h.absolutePath, shape, hremains h.canonical shape hshape,
    hmatches⟩

theorem TrackedAt.mono (h : TrackedAt session tree rows elements path)
    (hremains : Remains session tree tree' path)
    (hrows : rowsAt session path rows' = rowsAt session path rows)
    (hlookup : elements'.lookup path = elements.lookup path) :
    TrackedAt session tree' rows' elements' path := by
  unfold TrackedAt at h ⊢
  rw [hlookup, hrows]
  cases hfound : elements.lookup path with
  | none =>
      rw [hfound] at h
      exact h
  | some entry =>
      rw [hfound] at h
      exact ⟨h.1.mono hremains, h.2⟩

theorem Tracked.backed (h : Tracked session unique s) (hlookup : s.elements.lookup path = some entry) :
    Backed session s.disk.tree path entry := by
  have hat := h.at_path path
  rw [TrackedAt, hlookup] at hat
  exact hat.1

theorem Tracked.rowsAt_eq_nil (h : Tracked session unique s)
    (hlookup : s.elements.lookup path = none) : rowsAt session path s.database.rows = [] := by
  have hat := h.at_path path
  rw [TrackedAt, hlookup] at hat
  exact hat

/-- The records are the same, and so is the disk at every path that is tracked. -/
theorem Tracked.of_same (h : Tracked session unique s) (hrecovered : s'.recovered = s.recovered)
    (hrows : s'.database.rows = s.database.rows) (helements : s'.elements = s.elements)
    (hremains : ∀ path, Remains session s.disk.tree s'.disk.tree path) :
    Tracked session unique s' where
  recovered := hrecovered.trans h.recovered
  single := hrows ▸ h.single
  at_path path := (h.at_path path).mono (hremains path) (by rw [hrows]) (by rw [helements])

theorem Tracked.sent (h : Tracked session unique s) (message : ServerMessage) :
    Tracked session unique (s.sent message) := ⟨h.recovered, h.single, h.at_path⟩

variable (session) in
/-- What is left when several paths are forgotten. -/
theorem forgottenAll_at (entries : List DirectoryEntry) (s : ServerState) (path : Text) :
    (path ∈ entries.map DirectoryEntry.relativePath →
      (s.forgottenAll session entries).elements.lookup path = none ∧
        rowsAt session path (s.forgottenAll session entries).database.rows = []) ∧
    (path ∉ entries.map DirectoryEntry.relativePath →
      (s.forgottenAll session entries).elements.lookup path = s.elements.lookup path ∧
        rowsAt session path (s.forgottenAll session entries).database.rows =
          rowsAt session path s.database.rows) := by
  induction entries generalizing s with
  | nil => exact ⟨by simp, fun _ => ⟨rfl, rfl⟩⟩
  | cons entry entries ih =>
      obtain ⟨hgone, hkept⟩ := ih (s.forgotten session entry.relativePath)
      have hlookup := KeyedMap.lookup_erase s.elements entry.relativePath path
      have hrows := rowsAt_remove session path entry.relativePath s.database.rows
      rw [List.map_cons, List.mem_cons]
      by_cases hmem : path ∈ entries.map DirectoryEntry.relativePath
      · exact ⟨fun _ => hgone hmem, fun hnot => absurd (.inr hmem) hnot⟩
      · obtain ⟨hlookup', hrows'⟩ := hkept hmem
        by_cases hpath : path = entry.relativePath
        · rw [if_pos hpath] at hlookup hrows
          exact ⟨fun _ => ⟨hlookup'.trans hlookup, hrows'.trans hrows⟩,
            fun hnot => absurd (.inl hpath) hnot⟩
        · rw [if_neg hpath] at hlookup hrows
          exact ⟨fun h => (h.elim hpath hmem).elim,
            fun _ => ⟨hlookup'.trans hlookup, hrows'.trans hrows⟩⟩

theorem Single.forgottenAll (entries : List DirectoryEntry) (s : ServerState)
    (h : Single session unique s.database.rows) :
    Single session unique (s.forgottenAll session entries).database.rows := by
  induction entries generalizing s with
  | nil => exact h
  | cons entry entries ih => exact ih (s.forgotten session entry.relativePath) (h.remove _)

/-- Paths may be forgotten together with what is at them. -/
theorem Tracked.forgottenAll (h : Tracked session unique s) (entries : List DirectoryEntry)
    (hremains : ∀ path, path ∉ entries.map DirectoryEntry.relativePath →
      Remains session s.disk.tree s'.disk.tree path)
    (hrecovered : s'.recovered = s.recovered)
    (hrows : s'.database.rows = (s.forgottenAll session entries).database.rows)
    (helements : s'.elements = (s.forgottenAll session entries).elements) :
    Tracked session unique s' where
  recovered := hrecovered.trans h.recovered
  single := hrows ▸ h.single.forgottenAll entries s
  at_path path := by
    obtain ⟨hgone, hkept⟩ := forgottenAll_at session entries s path
    rw [← helements, ← hrows] at hgone hkept
    by_cases hpath : path ∈ entries.map DirectoryEntry.relativePath
    · obtain ⟨hlookup, hrowsAt⟩ := hgone hpath
      rw [TrackedAt, hlookup]
      exact hrowsAt
    · obtain ⟨hlookup, hrowsAt⟩ := hkept hpath
      exact (h.at_path path).mono (hremains path hpath) hrowsAt hlookup

variable (session s) in
theorem lookup_tracked (hentry : entry.relativePath = path) (other : Text) :
    (s.tracked session path (s.elements.lookup path) entry).elements.lookup other =
      if other = path then some entry else s.elements.lookup other := by
  cases hlookup : s.elements.lookup path with
  | none =>
      subst hentry
      exact KeyedMap.lookup_emplace_of_not_mem s.elements other entry hlookup
  | some el => exact KeyedMap.lookup_insert s.elements path other entry

theorem rowsAt_tracked_of_ne (hentry : entry.relativePath = path) (hother : other ≠ path)
    (el : Option DirectoryEntry) :
    rowsAt session other (s.tracked session path el entry).database.rows =
      rowsAt session other s.database.rows := by
  subst hentry
  cases el with
  | none => exact (rowsAt_insert session other entry s.database.rows).trans (if_neg hother)
  | some el => exact (rowsAt_update session other entry s.database.rows).trans (if_neg hother)

/-- What is recorded of an element that was entered or updated. -/
theorem Tracked.agrees_tracked (h : Tracked session unique s) (hentry : entry.relativePath = path) :
    rowsAt session path (s.tracked session path (s.elements.lookup path) entry).database.rows ≠ [] ∧
      ∀ row ∈ rowsAt session path
        (s.tracked session path (s.elements.lookup path) entry).database.rows, Agrees row entry := by
  subst hentry
  have hat := h.at_path entry.relativePath
  unfold TrackedAt at hat
  cases hlookup : s.elements.lookup entry.relativePath with
  | none =>
      rw [hlookup] at hat
      have hrows : rowsAt session entry.relativePath
          (s.tracked session entry.relativePath none entry).database.rows =
            rowsAt session entry.relativePath s.database.rows ++ [_] :=
        (rowsAt_insert session entry.relativePath entry s.database.rows).trans (if_pos rfl)
      rw [hrows, hat, List.nil_append]
      simp [agrees_ofEntry]
  | some el =>
      rw [hlookup] at hat
      have hrows : rowsAt session entry.relativePath
          (s.tracked session entry.relativePath (some el) entry).database.rows =
            (rowsAt session entry.relativePath s.database.rows).map (Row.updated entry) :=
        (rowsAt_update session entry.relativePath entry s.database.rows).trans (if_pos rfl)
      rw [hrows]
      refine ⟨fun hnil => hat.2.1 (List.map_eq_nil_iff.mp hnil), fun row hrow => ?_⟩
      obtain ⟨old, -, rfl⟩ := List.mem_map.mp hrow
      exact agrees_updated old entry

theorem Tracked.single_tracked (h : Tracked session unique s) (hentry : entry.relativePath = path) :
    Single session unique
      (s.tracked session path (s.elements.lookup path) entry).database.rows := by
  subst hentry
  cases hlookup : s.elements.lookup entry.relativePath with
  | none => exact h.single.insert (h.rowsAt_eq_nil hlookup)
  | some el => exact h.single.update entry

/-- An element of the object at its path is entered, or updated. -/
theorem Tracked.tracked (h : Tracked session unique s) (hbacked : Backed session tree' path entry)
    (hremains : ∀ other, other ≠ path → Remains session s.disk.tree tree' other)
    (htree : s'.disk.tree = tree') (hrecovered : s'.recovered = s.recovered)
    (hrows : s'.database.rows =
      (s.tracked session path (s.elements.lookup path) entry).database.rows)
    (helements : s'.elements = (s.tracked session path (s.elements.lookup path) entry).elements) :
    Tracked session unique s' where
  recovered := hrecovered.trans h.recovered
  single := hrows ▸ h.single_tracked hbacked.relativePath
  at_path other := by
    have hlookup := lookup_tracked session s hbacked.relativePath other
    rw [← helements] at hlookup
    by_cases hother : other = path
    · rw [if_pos hother] at hlookup
      rw [TrackedAt, hlookup, hother, hrows, htree]
      exact ⟨hbacked, h.agrees_tracked hbacked.relativePath⟩
    · rw [if_neg hother] at hlookup
      rw [htree]
      refine (h.at_path other).mono (hremains other hother) ?_ hlookup
      rw [hrows]
      exact rowsAt_tracked_of_ne hbacked.relativePath hother _

end Steps

end PdsBackup.Server
