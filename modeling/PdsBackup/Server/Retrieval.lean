import PdsBackup.Server.Steps

/-!
# Retrieving

What RETR does to the stores: it collects the rows of the machines that are asked
for, sends what is on the disk, and removes the rows of elements that are gone or
have changed.  A condition on the stores survives it if it survives the removal
of a row whose element is not up to date.
-/

namespace PdsBackup.Server

open Procedure

variable {session : Session} {start : ServerState} {message : ClientMessage}

/-- The element a row is retrieved as. -/
def rowEntry (session : Session) (mac : Text) (row : Row) : Option DirectoryEntry := do
  let bytes ← row.columns.hashBytes
  let hash ← Hash.ofBytes bytes
  some (DirectoryEntry.make (session.basePath ++ session.relativeRoot mac) row.columns.path
    row.columns.size row.columns.type row.columns.lastWriteTime hash)

/-- The element is on the disk, and with the content it was stored with. -/
def UpToDate (session : Session) (disk : Disk) (mac : Text) (entry : DirectoryEntry) : Prop :=
  disk.present entry.absolutePath = true ∧
    (entry.isRegularFile = true → ∀ effective, DirectoryEntry.load session.platform
      (session.basePath ++ session.relativeRoot mac) entry.absolutePath disk.tree =
        some effective → entry.hash = effective.hash)

/-- The machines a RETR asks for. -/
def requestedMacs (session : Session) (message : ClientMessage) (s : ServerState) : List Text :=
  if message.all then
    ((s.database.rows.filter fun row => row.username = session.username).map
      Row.mac).eraseDups.map cString
  else (Validator.validateMacAddress message.macAddress).toList

/-- Nothing but the connection and the transaction has changed. -/
structure SameStores (start s : ServerState) : Prop where
  disk : s.disk = start.disk
  rows : s.database.rows = start.database.rows
  elements : s.elements = start.elements
  recovered : s.recovered = start.recovered

namespace SameStores

theorem sendServerMessage (message : ServerMessage) :
    Keeps (SameStores start) (sendServerMessage message) := by
  apply Meets.of_each
  intro s hs
  rcases sendServerMessage_cases s message with hrun | hrun
  · exact Meets.ends_returned hrun ⟨hs.disk, hs.rows, hs.elements, hs.recovered⟩
  · exact Meets.ends_raised hrun ⟨hs.disk, hs.rows, hs.elements, hs.recovered⟩

theorem select (username mac : Text) :
    Meets (SameStores start) (onDatabase (Database.select username mac))
      (fun rows s => SameStores start s ∧ rows = start.database.rows.filter (Row.isOf username mac))
      fun _ => SameStores start := by
  intro s hs
  simp only [onDatabase, within, Database.select, Database.begin, bind_apply, read_apply]
  cases s.database.inTransaction with
  | true => exact ⟨hs.disk, hs.rows, hs.elements, hs.recovered⟩
  | false => exact ⟨⟨hs.disk, hs.rows, hs.elements, hs.recovered⟩, by rw [hs.rows]⟩

theorem finish : Keeps (SameStores start) (onDatabase Database.finish) := by
  intro s hs
  exact ⟨hs.disk, hs.rows, hs.elements, hs.recovered⟩

theorem getAllMacAddresses (username : Text) :
    Meets (SameStores start) (onDatabase (Database.getAllMacAddresses username))
      (fun macs s => SameStores start s ∧ macs = ((start.database.rows.filter fun row =>
        row.username = username).map Row.mac).eraseDups.map cString)
      fun _ => SameStores start := by
  intro s hs
  simp only [onDatabase, within, Database.getAllMacAddresses, Database.begin, bind_apply,
    read_apply]
  cases s.database.inTransaction with
  | true => exact ⟨hs.disk, hs.rows, hs.elements, hs.recovered⟩
  | false => exact ⟨⟨hs.disk, hs.rows, hs.elements, hs.recovered⟩, by rw [hs.rows]⟩

/-- The elements that are collected for a machine are those of its rows. -/
theorem collectRows (mac : Text) (rows : List Row) :
    Meets (SameStores start) (collectRows session mac rows)
      (fun toSend s => SameStores start s ∧ ∀ element ∈ toSend,
        element.1 = mac ∧ ∃ row ∈ rows, rowEntry session mac row = some element.2)
      fun _ => SameStores start := by
  induction rows with
  | nil => exact Meets.pure _ fun s hs => ⟨hs, by simp⟩
  | cons row rows ih =>
      apply Meets.bind_orRaise
      · exact fun _ hs => hs
      intro bytes hbytes
      apply Meets.bind_orRaise
      · exact fun _ hs => hs
      intro hash hhash
      apply Meets.bind ih
      intro others
      apply Meets.given
      intro hothers
      apply Meets.pure
      intro s hs
      refine ⟨hs, fun element helement => ?_⟩
      rcases List.mem_cons.mp helement with rfl | helement
      · exact ⟨rfl, row, List.mem_cons_self, by simp [rowEntry, hbytes, hhash]⟩
      · obtain ⟨hmac, other, hother, hentry⟩ := hothers element helement
        exact ⟨hmac, other, List.mem_cons_of_mem row hother, hentry⟩

theorem collectMac (mac : Text) :
    Meets (SameStores start) (collectMac session mac)
      (fun toSend s => SameStores start s ∧ ∀ element ∈ toSend, element.1 = mac ∧
        ∃ row ∈ start.database.rows, row.isOf session.username mac = true ∧
          rowEntry session mac row = some element.2)
      fun _ => SameStores start := by
  apply Meets.bind (select session.username mac)
  intro rows
  apply Meets.given
  rintro rfl
  apply Meets.bind (collectRows mac _)
  intro toSend
  apply Meets.given
  intro htoSend
  apply Meets.bind finish
  intro _
  apply Meets.pure
  intro s hs
  refine ⟨hs, fun element helement => ?_⟩
  obtain ⟨hmac, row, hrow, hentry⟩ := htoSend element helement
  obtain ⟨hrow, hof⟩ := List.mem_filter.mp hrow
  exact ⟨hmac, row, hrow, hof, hentry⟩

theorem collectMacs (macs : List Text) :
    Meets (SameStores start) (collectMacs session macs)
      (fun toSend s => SameStores start s ∧ ∀ element ∈ toSend, element.1 ∈ macs ∧
        ∃ row ∈ start.database.rows, row.isOf session.username element.1 = true ∧
          rowEntry session element.1 row = some element.2)
      fun _ => SameStores start := by
  induction macs with
  | nil => exact Meets.pure _ fun s hs => ⟨hs, by simp⟩
  | cons mac macs ih =>
      apply Meets.bind (collectMac mac)
      intro toSend
      apply Meets.given
      intro htoSend
      apply Meets.bind ih
      intro others
      apply Meets.given
      intro hothers
      apply Meets.pure
      intro s hs
      refine ⟨hs, fun element helement => ?_⟩
      rcases List.mem_append.mp helement with helement | helement
      · obtain ⟨hmac, hrow⟩ := htoSend element helement
        rw [hmac]
        exact ⟨List.mem_cons_self, hrow⟩
      · obtain ⟨hmac, hrow⟩ := hothers element helement
        exact ⟨List.mem_cons_of_mem mac hmac, hrow⟩

/-- What is collected for a RETR are the rows of the machines it asks for. -/
theorem collect :
    Meets (SameStores start) (collect session message)
      (fun toSend s => SameStores start s ∧ ∀ element ∈ toSend,
        element.1 ∈ requestedMacs session message start ∧
        ∃ row ∈ start.database.rows, row.isOf session.username element.1 = true ∧
          rowEntry session element.1 row = some element.2)
      fun _ => SameStores start := by
  unfold Server.collect requestedMacs
  apply Meets.ite
  · intro hall
    rw [if_pos hall]
    apply Meets.bind (getAllMacAddresses session.username)
    intro macs
    apply Meets.given
    rintro rfl
    exact collectMacs _
  · intro hall
    rw [if_neg hall]
    apply Meets.ite
    · intro _
      exact Meets.bind (sendServerMessage _) fun _ => Meets.raise _ fun _ hs => hs
    · intro _
      apply Meets.bind_orRaise
      · exact fun _ hs => hs
      intro mac hmac
      rw [hmac]
      apply (collectMac mac).consequence (fun _ hs => hs) _ (fun _ _ hs => hs)
      rintro toSend s ⟨hs, htoSend⟩
      refine ⟨hs, fun element helement => ?_⟩
      obtain ⟨heq, hrow⟩ := htoSend element helement
      rw [heq]
      exact ⟨by simp, hrow⟩

end SameStores

/-- Without the rows of a path of a machine. -/
def ServerState.without (session : Session) (mac path : Text) (s : ServerState) : ServerState :=
  { s with
    database := { s.database with
      rows := s.database.rows.filter fun row => !row.isAt session.username mac path } }

/-- The condition is about the stores. -/
def OfStores (inv : ServerState → Prop) : Prop := ∀ s s', SameStores s s' → inv s → inv s'

namespace OfStores

variable {inv : ServerState → Prop}

theorem sendServerMessage (hinv : OfStores inv) (message : ServerMessage) :
    Keeps inv (sendServerMessage message) := by
  apply Meets.of_each
  intro s hs
  rcases sendServerMessage_cases s message with hrun | hrun
  · exact Meets.ends_returned hrun (hinv s _ ⟨rfl, rfl, rfl, rfl⟩ hs)
  · exact Meets.ends_raised hrun (hinv s _ ⟨rfl, rfl, rfl, rfl⟩ hs)

theorem sendBlocks (hinv : OfStores inv) (content : List (List Byte)) :
    Keeps inv (sendBlocks session content) := by
  induction content using Server.sendBlocks.induct with
  | case1 => exact Keeps.pure ()
  | case2 block => exact hinv.sendServerMessage _
  | case3 block blocks hblocks ih =>
      rw [Server.sendBlocks.eq_3 session block blocks hblocks]
      exact Keeps.bind (hinv.sendServerMessage _) fun _ => ih

/-- An element that is not up to date is taken out of the database. -/
theorem sendFile (hinv : OfStores inv) {mac : Text} {entry : DirectoryEntry}
    (hfile : entry.isRegularFile = true)
    (hentry : ∀ s, inv s → UpToDate session s.disk mac entry ∨
      inv (s.without session mac entry.relativePath)) :
    Keeps inv (sendFile session entry mac) := by
  apply Meets.of_each
  intro s hs
  rcases loadEntry_cases session s (session.basePath ++ session.relativeRoot mac)
    entry.absolutePath with ⟨effective, hload, hrun⟩ | ⟨-, hrun⟩
  · apply Meets.then_returned hrun
    apply Meets.ite
    · intro hstale
      have hremoved := (hentry s hs).resolve_left fun hupToDate =>
        hstale (hupToDate.2 hfile effective hload)
      rcases onDatabase_mapRows_cases s fun rows =>
        rows.filter fun row => !row.isAt session.username mac entry.relativePath with
          ⟨-, hrun⟩ | ⟨-, hrun⟩
      · exact Meets.ends_returned hrun hremoved
      · exact Meets.ends_raised hrun hs
    · intro _
      apply Meets.at_state _ hs
      apply Keeps.bind (hinv.sendServerMessage _)
      intro _
      apply Keeps.bind (Keeps.read _)
      intro status
      cases status with
      | none => exact Keeps.raise _
      | some node => cases node <;> exact hinv.sendBlocks _
  · exact Meets.then_raised hrun hs

theorem sendElement (hinv : OfStores inv) {mac : Text} {entry : DirectoryEntry}
    (hentry : ∀ s, inv s → UpToDate session s.disk mac entry ∨
      inv (s.without session mac entry.relativePath)) :
    Keeps inv (sendElement session mac entry) := by
  apply Meets.of_each
  intro s hs
  apply Meets.then_returned (Procedure.read_apply _ s)
  apply Meets.ite
  · intro hgone
    have hremoved := (hentry s hs).resolve_left fun hupToDate => by
      simp [hupToDate.1] at hgone
    rcases onDatabase_mapRows_cases s fun rows =>
      rows.filter fun row => !row.isAt session.username mac entry.relativePath with
        ⟨-, hrun⟩ | ⟨-, hrun⟩
    · exact Meets.ends_returned hrun hremoved
    · exact Meets.ends_raised hrun hs
  · intro _
    apply Meets.at_state _ hs
    apply Keeps.ite
    · exact fun _ => hinv.sendServerMessage _
    · intro _
      exact Keeps.ite (fun hfile => hinv.sendFile hfile hentry) fun _ => Keeps.pure ()

theorem sendElements (hinv : OfStores inv) (toSend : List (Text × DirectoryEntry))
    (hentries : ∀ element ∈ toSend, ∀ s, inv s → UpToDate session s.disk element.1 element.2 ∨
      inv (s.without session element.1 element.2.relativePath)) :
    Keeps inv (sendElements session toSend) := by
  induction toSend with
  | nil => exact Keeps.pure ()
  | cons element others ih =>
      apply Keeps.bind (hinv.sendElement (hentries element List.mem_cons_self))
      exact fun _ => ih fun other hother => hentries other (List.mem_cons_of_mem element hother)

/-- The elements are those of rows that were there at the start. -/
theorem retrieveUserData (hinv : OfStores inv) (hstart : inv start)
    (hrows : ∀ mac ∈ requestedMacs session message start, ∀ row ∈ start.database.rows,
      row.isOf session.username mac = true → ∀ entry, rowEntry session mac row = some entry →
        ∀ s, inv s → UpToDate session s.disk mac entry ∨
          inv (s.without session mac entry.relativePath)) :
    Meets (fun s => s = start) (retrieveUserData session message) (fun _ => inv) fun _ => inv := by
  have hcollect : Meets (fun s => s = start) (collect session message)
      (fun toSend s => inv s ∧ ∀ element ∈ toSend,
        element.1 ∈ requestedMacs session message start ∧
        ∃ row ∈ start.database.rows, row.isOf session.username element.1 = true ∧
          rowEntry session element.1 row = some element.2) fun _ => inv := by
    apply (SameStores.collect.at_state ⟨rfl, rfl, rfl, rfl⟩).consequence
    · exact fun _ hs => hs
    · exact fun _ s hs => ⟨hinv start s hs.1 hstart, hs.2⟩
    · exact fun _ s hs => hinv start s hs hstart
  apply Meets.bind hcollect
  intro toSend
  apply Meets.given
  intro htoSend
  apply Keeps.bind
  · apply hinv.sendElements
    intro element helement s hs
    obtain ⟨hmac, row, hrow, hof, hentry⟩ := htoSend element helement
    exact hrows element.1 hmac row hrow hof element.2 hentry s hs
  · exact fun _ => hinv.sendServerMessage _

end OfStores

end PdsBackup.Server
