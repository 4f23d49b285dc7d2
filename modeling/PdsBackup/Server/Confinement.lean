import PdsBackup.Core.Confinement
import PdsBackup.Server.Calls
import PdsBackup.Server.Placement

/-!
# The objects a session can touch

The paths a session works on are those of its elements, of the rows it recovers
from, of its requests and of its temporary files.  As long as the first three are
canonical, every object it makes, overwrites, removes or re-times lies strictly
inside its folder or inside the temporary directory.
-/

namespace PdsBackup.Server

open Procedure

variable {session : Session}

/-- Strictly inside the folder of the session, or inside the temporary directory. -/
def Placement.Holds (placement : Placement session) (path : Path) : Prop :=
  (placement.folder <:+ path ∧ path ≠ placement.folder) ∨
    (placement.temp <:+ path ∧ path ≠ placement.temp)

namespace Placement

variable {placement : Placement session}

instance (path : Path) : Decidable (placement.Holds path) :=
  inferInstanceAs (Decidable (_ ∨ _))

theorem closed_holds : Closed placement.Holds := by
  have hcase : ∀ {root path below : Path}, root <:+ path → path ≠ root → path <:+ below →
      root <:+ below ∧ below ≠ root := by
    intro root path below hroot hne hbelow
    refine ⟨hroot.trans hbelow, ?_⟩
    rintro rfl
    exact hne (hbelow.eq_of_length (Nat.le_antisymm hbelow.length_le hroot.length_le))
  rintro path below (⟨hroot, hne⟩ | ⟨hroot, hne⟩) hbelow
  · exact .inl (hcase hroot hne hbelow)
  · exact .inr (hcase hroot hne hbelow)

theorem holds_inside {names : List Text} (hne : names ≠ []) :
    placement.Holds (placement.inside names) := by
  refine .inl ⟨folder_suffix_inside, ?_⟩
  intro heq
  exact hne (List.append_left_eq_self.mp heq)

theorem holds_tmpFile (bytes : List Byte) : placement.Holds (placement.tmpFile bytes) :=
  .inr ⟨List.suffix_cons _ _, List.cons_ne_self _ _⟩

theorem not_holds_temp : ¬ placement.Holds placement.temp := by
  rintro (⟨hfolder, -⟩ | ⟨-, hne⟩)
  · exact placement.temp_outside hfolder
  · exact hne rfl

end Placement

/-- The text of a path strictly inside the folder. -/
def Inside (session : Session) (text : Text) : Prop :=
  ∃ names, names ≠ [] ∧ PlainPath names ∧ text = session.userPath ++ render names

theorem Inside.of_canonical {path : Text} (hpath : Canonical path) :
    Inside session (session.userPath ++ path) := by
  obtain ⟨names, hne, hnames, rfl⟩ := (canonical_iff path).mp hpath
  exact ⟨names, hne, hnames, rfl⟩

theorem Inside.resolved (placement : Placement session) {text : Text} (htext : Inside session text) :
    ∃ path, PlainPath path ∧ path ≠ [] ∧ placement.Holds path ∧ text = render path := by
  obtain ⟨names, hne, hnames, rfl⟩ := htext
  exact ⟨placement.inside names, Placement.inside_plain hnames, Placement.inside_ne,
    Placement.holds_inside hne, placement.absolutePath_eq⟩

/-- The parent is the folder, or inside the folder as well. -/
theorem Inside.parent (placement : Placement session) {text : Text} (htext : Inside session text) :
    parentPath text = session.userPath ∨ Inside session (parentPath text) := by
  obtain ⟨names, hne, hnames, rfl⟩ := htext
  obtain ⟨name, rest, rfl⟩ := List.exists_cons_of_ne_nil hne
  rw [placement.parentPath_inside hnames]
  cases rest with
  | nil => exact .inl (List.append_nil _)
  | cons name rest => exact .inr ⟨name :: rest, List.cons_ne_nil _ _, hnames.tail, rfl⟩

/-! ## The invariant -/

/-- What holds of a session at every step: its effects since `start` are where
they may be, and its elements are inside its folder.  Until it has recovered, the
same is true of the rows it will recover from. -/
structure Enclosed (placement : Placement session) (start : Disk) (recovered : Bool)
    (s : ServerState) : Prop where
  recovered_eq : s.recovered = recovered
  disk : Confined placement.Holds start s.disk
  elements : s.elements.All fun _ entry => Inside session entry.absolutePath
  rows : recovered = false → ∀ row ∈ s.database.rows,
    row.isOf session.username session.mac = true → Canonical (cString row.path)

namespace Enclosed

variable {placement : Placement session} {start : Disk} {recovered : Bool} {α : Type}

theorem onDisk {ε : Type} {p : Procedure Disk ε α} (hp : Keeps (Confined placement.Holds start) p) :
    Keeps (Enclosed placement start recovered) (onDisk p) := by
  apply Meets.within hp
  · exact fun s hs => hs.disk
  · exact fun _ disk s hs hdisk => ⟨hs.recovered_eq, hdisk, hs.elements, hs.rows⟩
  · exact fun _ disk s hs hdisk => ⟨hs.recovered_eq, hdisk, hs.elements, hs.rows⟩

theorem insertElement {path : Text} {entry : DirectoryEntry}
    (hentry : Inside session entry.absolutePath) :
    Keeps (Enclosed placement start recovered) (insertElement path entry) := by
  apply Keeps.modify
  exact fun s hs => ⟨hs.recovered_eq, hs.disk, hs.elements.insert hentry, hs.rows⟩

theorem emplaceElement {path : Text} {entry : DirectoryEntry}
    (hentry : Inside session entry.absolutePath) :
    Keeps (Enclosed placement start recovered) (emplaceElement path entry) := by
  apply Keeps.modify
  exact fun s hs => ⟨hs.recovered_eq, hs.disk, hs.elements.emplace hentry, hs.rows⟩

theorem eraseElement (path : Text) :
    Keeps (Enclosed placement start recovered) (eraseElement path) := by
  apply Keeps.modify
  exact fun s hs => ⟨hs.recovered_eq, hs.disk, hs.elements.erase path, hs.rows⟩

/-- What becomes of the rows matters until the session has recovered. -/
theorem mapRows {f : List Row → List Row}
    (hf : recovered = false → ∀ rows, ∀ row ∈ f rows,
      row.isOf session.username session.mac = true →
        ∃ old ∈ rows, old.isOf session.username session.mac = true ∧ old.path = row.path) :
    Keeps (Enclosed placement start recovered) (onDatabase (Database.mapRows f)) := by
  apply Meets.of_each
  intro s hs
  rcases onDatabase_mapRows_cases s f with ⟨-, hrun⟩ | ⟨-, hrun⟩
  · apply Meets.ends_returned hrun
    refine ⟨hs.recovered_eq, hs.disk, hs.elements, fun hnot row hrow hof => ?_⟩
    obtain ⟨old, hold, holdOf, hpath⟩ := hf hnot _ row hrow hof
    rw [← hpath]
    exact hs.rows hnot old hold holdOf
  · exact Meets.ends_raised hrun hs

theorem remove (username mac path : Text) :
    Keeps (Enclosed placement start recovered)
      (onDatabase (Database.remove username mac path)) := by
  apply mapRows
  intro _ rows row hrow hof
  exact ⟨row, (List.mem_filter.mp hrow).1, hof, rfl⟩

theorem update (username mac : Text) (entry : DirectoryEntry) :
    Keeps (Enclosed placement start recovered)
      (onDatabase (Database.update username mac entry)) := by
  apply mapRows
  intro _ rows row hrow hof
  obtain ⟨old, hold, rfl⟩ := List.mem_map.mp hrow
  refine ⟨old, hold, ?_⟩
  by_cases hat : old.isAt username mac entry.relativePath = true
  · rw [if_pos hat] at hof ⊢
    exact ⟨hof, rfl⟩
  · rw [if_neg hat] at hof ⊢
    exact ⟨hof, rfl⟩

theorem finish : Keeps (Enclosed placement start recovered) (onDatabase Database.finish) := by
  intro s hs
  exact ⟨hs.recovered_eq, hs.disk, hs.elements, hs.rows⟩

theorem select (username mac : Text) :
    Meets (Enclosed placement start recovered) (onDatabase (Database.select username mac))
      (fun rows s => Enclosed placement start recovered s ∧
        rows = s.database.rows.filter (Row.isOf username mac))
      fun _ => Enclosed placement start recovered := by
  intro s hs
  simp only [onDatabase, within, Database.select, Database.begin, bind_apply, read_apply]
  cases s.database.inTransaction with
  | true => exact ⟨hs.recovered_eq, hs.disk, hs.elements, hs.rows⟩
  | false => exact ⟨⟨hs.recovered_eq, hs.disk, hs.elements, hs.rows⟩, rfl⟩

theorem getAllMacAddresses (username : Text) :
    Keeps (Enclosed placement start recovered)
      (onDatabase (Database.getAllMacAddresses username)) := by
  intro s hs
  simp only [onDatabase, within, Database.getAllMacAddresses, Database.begin, bind_apply,
    read_apply]
  cases s.database.inTransaction with
  | true => exact ⟨hs.recovered_eq, hs.disk, hs.elements, hs.rows⟩
  | false => exact ⟨hs.recovered_eq, hs.disk, hs.elements, hs.rows⟩

theorem sendServerMessage (message : ServerMessage) :
    Keeps (Enclosed placement start recovered) (sendServerMessage message) := by
  apply Meets.of_each
  intro s hs
  rcases sendServerMessage_cases s message with hrun | hrun
  · exact Meets.ends_returned hrun ⟨hs.recovered_eq, hs.disk, hs.elements, hs.rows⟩
  · exact Meets.ends_raised hrun ⟨hs.recovered_eq, hs.disk, hs.elements, hs.rows⟩

theorem refuse (code : ErrCode) (exception : ServerException) :
    Keeps (Enclosed placement start recovered)
      (refuse session code exception : ServerProcedure α) :=
  Keeps.bind (sendServerMessage _) fun _ => Keeps.raise exception

theorem recvMessage : Keeps (Enclosed placement start recovered) recvMessage := by
  apply Keeps.bind (Keeps.read _)
  intro incoming
  cases incoming with
  | nil => exact Keeps.raise _
  | cons message incoming =>
      apply Keeps.bind
      · apply Keeps.modify
        exact fun s hs => ⟨hs.recovered_eq, hs.disk, hs.elements, hs.rows⟩
      · exact fun _ => Keeps.pure message

/-! ## The steps -/

theorem loadEntry (basePath absolutePath : Text) :
    Meets (Enclosed placement start recovered) (loadEntry session basePath absolutePath)
      (fun entry s => Enclosed placement start recovered s ∧ entry.absolutePath = absolutePath)
      fun _ => Enclosed placement start recovered := by
  apply Meets.of_each
  intro s hs
  rcases loadEntry_cases session s basePath absolutePath with ⟨entry, hload, hrun⟩ | ⟨-, hrun⟩
  · exact Meets.ends_returned hrun ⟨hs, (DirectoryEntry.load_eq_some hload).2.1⟩
  · exact Meets.ends_raised hrun hs

theorem setTimeToFile {entry : DirectoryEntry} {path : Path} (hpath : PlainPath path)
    (hne : path ≠ []) (hin : placement.Holds path) (hentry : entry.absolutePath = render path)
    (time : Text) :
    Meets (Enclosed placement start recovered) (setTimeToFile session entry time)
      (fun result s => Enclosed placement start recovered s ∧
        result.absolutePath = entry.absolutePath)
      fun _ => Enclosed placement start recovered := by
  apply Meets.of_each
  intro s hs
  rcases setTimeToFile_cases session s entry time with ⟨place, node, hresolve, -, hrun⟩ | ⟨-, hrun⟩
  · rw [hentry] at hresolve
    obtain rfl := FileTree.eq_of_resolve_render hpath hne hresolve
    have hdisk := hs.disk.trans (Confined.setTime hin (session.platform.getTime time))
    exact Meets.ends_returned hrun ⟨⟨hs.recovered_eq, hdisk, hs.elements, hs.rows⟩, rfl⟩
  · exact Meets.ends_raised hrun hs

theorem setTimeToElement {entry : DirectoryEntry} (hentry : Inside session entry.absolutePath)
    (time : Text) :
    Meets (Enclosed placement start recovered) (Server.setTimeToFile session entry time)
      (fun result s => Enclosed placement start recovered s ∧
        result.absolutePath = entry.absolutePath)
      fun _ => Enclosed placement start recovered := by
  obtain ⟨path, hpath, hne, hin, heq⟩ := hentry.resolved placement
  exact setTimeToFile hpath hne hin heq time

/-- The entry of a parent is that of the parent, if it is not the folder. -/
theorem saveParent (parent : Text) :
    Meets (Enclosed placement start recovered) (saveParent session parent)
      (fun entry s => Enclosed placement start recovered s ∧
        (parent ≠ session.userPath → entry.absolutePath = parent))
      fun _ => Enclosed placement start recovered := by
  apply Meets.of_each
  intro s hs
  rcases saveParent_cases session s parent with ⟨entry, hrun, hentry⟩ | ⟨-, -, hrun⟩
  · exact Meets.ends_returned hrun
      ⟨hs, fun hne => (DirectoryEntry.load_eq_some (hentry hne)).2.1⟩
  · exact Meets.ends_raised hrun hs

theorem saveExistingParent (parentExists : Bool) (parent : Text) :
    Meets (Enclosed placement start recovered) (saveExistingParent session parentExists parent)
      (fun entry s => Enclosed placement start recovered s ∧
        (parentExists = true → parent ≠ session.userPath → entry.absolutePath = parent))
      fun _ => Enclosed placement start recovered := by
  cases parentExists with
  | true =>
      apply (saveParent parent).consequence
      · exact fun _ hs => hs
      · exact fun _ _ hs => ⟨hs.1, fun _ => hs.2⟩
      · exact fun _ _ hs => hs
  | false => exact Meets.pure _ fun s hs => ⟨hs, by simp⟩

theorem resetParent {parent : Text} {entry : DirectoryEntry}
    (hparent : parent = session.userPath ∨ Inside session parent)
    (hentry : parent ≠ session.userPath → entry.absolutePath = parent) :
    Keeps (Enclosed placement start recovered) (resetParent session parent entry) := by
  apply Keeps.when
  intro hne
  simp only [ne_eq, decide_eq_true_eq] at hne
  have hinside : Inside session entry.absolutePath := by
    rw [hentry hne]
    exact hparent.resolve_left hne
  apply Meets.bind (setTimeToElement hinside _)
  exact fun _ => Meets.pure _ fun s hs => hs.1

theorem forget (relativePath : Text) :
    Keeps (Enclosed placement start recovered) (forget session relativePath) :=
  Keeps.bind (remove _ _ _) fun _ => eraseElement _

theorem forgetAll (entries : List DirectoryEntry) :
    Keeps (Enclosed placement start recovered) (forgetAll session entries) := by
  induction entries with
  | nil => exact Keeps.pure ()
  | cons entry entries ih => exact Keeps.bind (forget _) fun _ => ih

/-- A session that has recovered may enter what it likes. -/
theorem track {path : Text} {el : Option DirectoryEntry} {entry : DirectoryEntry}
    (hentry : Inside session entry.absolutePath) :
    Keeps (Enclosed placement start true) (track session path el entry) := by
  cases el with
  | none => exact Keeps.bind (mapRows (by simp)) fun _ => emplaceElement hentry
  | some el => exact Keeps.bind (mapRows (by simp)) fun _ => insertElement hentry

/-! ## Recovery -/

theorem selectOwn :
    Meets (Enclosed placement start false)
      (onDatabase (Database.select session.username session.mac))
      (fun rows s => Enclosed placement start false s ∧
        ∀ row ∈ rows, Canonical row.columns.path)
      fun _ => Enclosed placement start false := by
  apply (select session.username session.mac).consequence
  · exact fun _ hs => hs
  · rintro rows s ⟨hs, rfl⟩
    refine ⟨hs, fun row hrow => ?_⟩
    obtain ⟨hrow, hof⟩ := List.mem_filter.mp hrow
    exact hs.rows rfl row hrow hof
  · exact fun _ _ hs => hs

theorem recoverRow {row : Row} {toUpdate toDelete : List DirectoryEntry}
    (hrow : Canonical row.path) (htoUpdate : ∀ entry ∈ toUpdate, Inside session entry.absolutePath) :
    Meets (Enclosed placement start recovered) (recoverRow session row toUpdate toDelete)
      (fun lists s => Enclosed placement start recovered s ∧
        ∀ entry ∈ lists.1, Inside session entry.absolutePath)
      fun _ => Enclosed placement start recovered := by
  apply Meets.bind_orRaise
  · exact fun _ hs => hs
  intro bytes _
  apply Meets.bind_orRaise
  · exact fun _ hs => hs
  intro hash _
  have hinside : Inside session (session.userPath ++ row.path) := Inside.of_canonical hrow
  apply Meets.bind (Keeps.read _)
  intro disk
  apply Meets.ite
  · exact fun _ => Meets.pure _ fun s hs => ⟨hs, htoUpdate⟩
  intro _
  apply Meets.bind (loadEntry _ _)
  intro effective
  apply Meets.given
  intro heffective
  apply Meets.ite
  · intro _
    apply Meets.pure
    intro s hs
    refine ⟨hs, fun entry hentry => ?_⟩
    rcases List.mem_append.mp hentry with hentry | hentry
    · exact htoUpdate entry hentry
    · rw [List.mem_singleton.mp hentry, heffective]
      exact hinside
  · intro _
    apply Meets.bind (emplaceElement hinside)
    exact fun _ => Meets.pure _ fun s hs => ⟨hs, htoUpdate⟩

theorem recoverRows {rows : List Row} {toUpdate toDelete : List DirectoryEntry}
    (hrows : ∀ row ∈ rows, Canonical row.columns.path)
    (htoUpdate : ∀ entry ∈ toUpdate, Inside session entry.absolutePath) :
    Meets (Enclosed placement start recovered) (recoverRows session rows toUpdate toDelete)
      (fun lists s => Enclosed placement start recovered s ∧
        ∀ entry ∈ lists.1, Inside session entry.absolutePath)
      fun _ => Enclosed placement start recovered := by
  induction rows generalizing toUpdate toDelete with
  | nil => exact Meets.pure _ fun s hs => ⟨hs, htoUpdate⟩
  | cons row rows ih =>
      apply Meets.bind (recoverRow (hrows row List.mem_cons_self) htoUpdate)
      intro lists
      apply Meets.given
      exact ih fun other hother => hrows other (List.mem_cons_of_mem row hother)

theorem updateAll {entries : List DirectoryEntry}
    (hentries : ∀ entry ∈ entries, Inside session entry.absolutePath) :
    Keeps (Enclosed placement start recovered) (updateAll session entries) := by
  induction entries with
  | nil => exact Keeps.pure ()
  | cons entry entries ih =>
      apply Keeps.bind (update _ _ _)
      intro _
      apply Keeps.bind (emplaceElement (hentries entry List.mem_cons_self))
      exact fun _ => ih fun other hother => hentries other (List.mem_cons_of_mem entry hother)

theorem deleteAll (entries : List DirectoryEntry) :
    Keeps (Enclosed placement start recovered) (deleteAll session entries) := by
  induction entries with
  | nil => exact Keeps.pure ()
  | cons entry entries ih => exact Keeps.bind (remove _ _ _) fun _ => ih

theorem recoverFromDB :
    Meets (Enclosed placement start false) (recoverFromDB session)
      (fun _ => Enclosed placement start true) fun _ => Enclosed placement start false := by
  apply Meets.bind selectOwn
  intro rows
  apply Meets.given
  intro hrows
  apply Meets.bind (recoverRows hrows (by simp))
  intro lists
  apply Meets.given
  intro htoUpdate
  apply Meets.bind finish
  intro _
  apply Meets.bind (updateAll htoUpdate)
  intro _
  apply Meets.bind (deleteAll _)
  intro _
  apply Meets.modify
  exact fun s hs => ⟨rfl, hs.disk, hs.elements, by simp⟩

/-- Whatever a routine does once the session has recovered. -/
theorem recovers {p : ServerProcedure Unit} (hp : Keeps (Enclosed placement start true) p) :
    Meets (Enclosed placement start recovered) (recoverIfNeeded session >>= fun _ => p)
      (fun _ => Enclosed placement start true)
      fun _ s => ∃ recovered, Enclosed placement start recovered s := by
  have hp' : Meets (Enclosed placement start true) p (fun _ => Enclosed placement start true)
      fun _ s => ∃ recovered, Enclosed placement start recovered s :=
    hp.consequence (fun _ hs => hs) (fun _ _ hs => hs) fun _ _ hs => ⟨true, hs⟩
  apply Meets.bind _ fun _ => hp'
  apply Meets.of_each
  intro s hs
  apply Meets.then_returned (Procedure.read_apply ServerState.recovered s)
  rw [hs.recovered_eq]
  cases recovered with
  | true => exact Meets.ends_returned rfl hs
  | false =>
      apply Meets.at_state _ hs
      apply recoverFromDB.consequence
      · exact fun _ hs => hs
      · exact fun _ _ hs => hs
      · exact fun _ _ hs => ⟨false, hs⟩

/-! ## The requests -/

/-- Where the session starts: its folder and the temporary directory are there. -/
structure Based (placement : Placement session) (start : Disk) : Prop where
  folder : start.tree.isDir placement.folder = true
  temp : start.tree.isDir placement.temp = true

/-- The way to a path in the folder is there outside of where the session acts. -/
theorem Based.way (hbased : Based placement start) {names : List Text} {other : Path}
    (hsuffix : other <:+ placement.inside names) (hother : ¬ placement.Holds other) :
    start.tree.isDir other = true := by
  rcases List.suffix_or_suffix_of_suffix Placement.folder_suffix_inside hsuffix with hbelow | habove
  · have heq : other = placement.folder := by
      by_contra hne
      exact hother (.inl ⟨hbelow, hne⟩)
    rw [heq]
    exact hbased.folder
  · exact start.tree.isDir_of_suffix habove hbased.folder

theorem lookup (path : Text) :
    Meets (Enclosed placement start recovered)
      (Procedure.read fun s => s.elements.lookup path :
        ServerProcedure (Option DirectoryEntry))
      (fun el s => Enclosed placement start recovered s ∧
        ∀ entry, el = some entry → Inside session entry.absolutePath)
      fun _ => Enclosed placement start recovered :=
  Meets.read _ fun _ hs => ⟨hs, hs.elements path⟩

variable {message : ClientMessage}

theorem probe :
    Meets (Enclosed placement start recovered) (probe session message)
      (fun _ => Enclosed placement start true)
      fun _ s => ∃ recovered, Enclosed placement start recovered s := by
  apply recovers
  apply Keeps.bind (Keeps.orRaise _ _)
  intro h
  apply Keeps.bind (Keeps.orRaise _ _)
  intro path
  apply Keeps.bind (Keeps.ensure _ _)
  intro _
  apply Meets.bind (lookup path)
  intro el
  apply Meets.given
  intro hel
  cases el with
  | none => exact sendServerMessage _
  | some el =>
      apply Keeps.ite
      · exact fun _ => refuse _ _
      intro _
      apply Keeps.ite
      · exact fun _ => sendServerMessage _
      intro _
      apply Keeps.ite
      · intro _
        apply Meets.bind (setTimeToElement (hel el rfl) _)
        intro entry
        apply Meets.given
        intro hentry
        apply Keeps.bind
        · apply insertElement
          rw [hentry]
          exact hel el rfl
        · exact fun _ => sendServerMessage _
      · exact fun _ => sendServerMessage _

theorem receiveData (bytes : List Byte) (incoming : List ClientMessage) :
    Keeps (Enclosed placement start recovered)
      (receiveData session (placement.tmpFile bytes) (render (placement.tmpFile bytes))
        incoming) := by
  have hremove : Keeps (Enclosed placement start recovered)
      (Server.onDisk (SystemCall.remove (render (placement.tmpFile bytes)))) :=
    onDisk (SystemCall.remove_confined Placement.closed_holds (Placement.tmpFile_plain bytes)
      (List.cons_ne_nil _ _) (Placement.holds_tmpFile bytes))
  induction incoming with
  | nil => exact Keeps.bind recvMessage fun _ => Keeps.pure ()
  | cons _ pending ih =>
      apply Keeps.bind recvMessage
      intro message
      apply Keeps.ite
      · intro _
        apply Keeps.bind (sendServerMessage _)
        exact fun _ => Keeps.bind hremove fun _ => Keeps.raise _
      intro _
      apply Keeps.ite
      · exact fun _ => Keeps.bind hremove fun _ => refuse _ _
      intro _
      apply Keeps.bind (onDisk (SystemCall.append_confined (Placement.holds_tmpFile bytes) _))
      intro _
      apply Keeps.ite
      · exact fun _ => Keeps.pure ()
      · exact fun _ => ih

theorem moveIntoPlace (hbased : Based placement start) (bytes : List Byte)
    {expected : DirectoryEntry} (hexpected : Inside session expected.absolutePath) :
    Keeps (Enclosed placement start recovered)
      (moveIntoPlace session (render (placement.tmpFile bytes)) expected) := by
  obtain ⟨names, hne, hnames, hpath⟩ := hexpected
  have hparent := Inside.parent placement ⟨names, hne, hnames, hpath⟩
  obtain ⟨name, rest, rfl⟩ := List.exists_cons_of_ne_nil hne
  have htext : parentPath expected.absolutePath = render (placement.inside rest) := by
    rw [hpath, placement.parentPath_inside hnames, placement.absolutePath_eq]
  apply Keeps.bind (Keeps.read _)
  intro parentExists
  apply Keeps.bind
  · apply Keeps.when
    intro _
    apply onDisk
    rw [htext]
    apply SystemCall.createDirectories_confined (Placement.inside_plain hnames.tail)
      Placement.inside_ne
    exact fun other hsuffix hother => hbased.way hsuffix hother
  intro _
  apply Meets.bind (saveParent _)
  intro entry
  apply Meets.given
  intro hentry
  apply Keeps.bind
  · apply onDisk
    rw [hpath, placement.absolutePath_eq]
    exact SystemCall.rename_confined Placement.closed_holds (Placement.tmpFile_plain bytes)
      (List.cons_ne_nil _ _) (Placement.holds_tmpFile bytes) (Placement.inside_plain hnames)
      Placement.inside_ne (Placement.holds_inside (List.cons_ne_nil _ _))
  · exact fun _ => resetParent hparent hentry

theorem acceptFile (hbased : Based placement start) (bytes : List Byte)
    {expected : DirectoryEntry} (hexpected : Inside session expected.absolutePath) :
    Keeps (Enclosed placement start true)
      (acceptFile session (render (placement.tmpFile bytes)) expected) := by
  have hplain : PlainPath (placement.tmpFile bytes) := Placement.tmpFile_plain bytes
  have hne : placement.tmpFile bytes ≠ [] := List.cons_ne_nil _ _
  have hin : placement.Holds (placement.tmpFile bytes) := Placement.holds_tmpFile bytes
  apply Meets.bind (loadEntry _ _)
  intro newFile
  apply Meets.given
  intro hnewFile
  apply Meets.bind (setTimeToFile hplain hne hin hnewFile _)
  intro newFile
  apply Meets.given
  intro _
  apply Keeps.ite
  · intro _
    apply Keeps.bind
    · exact onDisk (SystemCall.remove_confined Placement.closed_holds hplain hne hin)
    · exact fun _ => refuse _ _
  · intro _
    apply Keeps.bind (moveIntoPlace hbased bytes hexpected)
    intro _
    apply Keeps.bind (Keeps.read _)
    intro el
    exact Keeps.bind (track hexpected) fun _ => sendServerMessage _

theorem removeOnSocketException (bytes : List Byte) (exception : ServerException) :
    Keeps (Enclosed placement start recovered)
      (removeOnSocketException (render (placement.tmpFile bytes)) exception) := by
  cases exception with
  | socket code =>
      apply Keeps.bind
      · exact onDisk (SystemCall.remove_confined Placement.closed_holds
          (Placement.tmpFile_plain bytes) (List.cons_ne_nil _ _) (Placement.holds_tmpFile bytes))
      · exact fun _ => Keeps.raise _
  | _ => exact Keeps.raise _

/-- The temporary directory is there, so it is not made. -/
theorem temporaryThere (hbased : Based placement start) :
    Meets (Enclosed placement start recovered)
      (Procedure.read fun s => s.disk.present session.temporaryPath : ServerProcedure Bool)
      (fun there s => Enclosed placement start recovered s ∧ there = true)
      fun _ => Enclosed placement start recovered := by
  apply Meets.read
  intro s hs
  refine ⟨hs, ?_⟩
  rw [placement.temporaryPath_eq, Disk.present, Disk.status,
    s.disk.tree.status_render placement.temp_plain placement.temp_ne]
  exact s.disk.tree.isSome_of_isDir (hs.disk.isDir _ Placement.not_holds_temp hbased.temp)

theorem openTruncated (bytes : List Byte) :
    Meets (Enclosed placement start recovered)
      (Server.onDisk (SystemCall.openTruncated (render (placement.tmpFile bytes))))
      (fun handle s => Enclosed placement start recovered s ∧
        ∀ place, handle = some place → place = placement.tmpFile bytes)
      fun _ => Enclosed placement start recovered := by
  apply Meets.within (SystemCall.openTruncated_confined (Placement.tmpFile_plain bytes)
    (List.cons_ne_nil _ _) (Placement.holds_tmpFile bytes))
  · exact fun s hs => hs.disk
  · exact fun _ disk s hs hdisk =>
      ⟨⟨hs.recovered_eq, hdisk.1, hs.elements, hs.rows⟩, hdisk.2⟩
  · exact fun _ disk s hs hdisk => ⟨hs.recovered_eq, hdisk, hs.elements, hs.rows⟩

theorem storeFile (hbased : Based placement start)
    (hcanonical : ∀ path, Validator.validatePath message.path = some path → Canonical path) :
    Meets (Enclosed placement start recovered) (storeFile session message)
      (fun _ => Enclosed placement start true)
      fun _ s => ∃ recovered, Enclosed placement start recovered s := by
  apply recovers
  apply Keeps.bind (Keeps.orRaise _ _)
  intro h
  apply Meets.bind_orRaise
  · exact fun _ hs => hs
  intro path hpath
  apply Keeps.bind (Keeps.ensure _ _)
  intro _
  have hexpected : Inside session (session.userPath ++ path) :=
    Inside.of_canonical (hcanonical path hpath)
  apply Meets.of_each
  intro s hs
  have hs' : Enclosed placement start true
      { s with random := fun index => s.random (index + session.tempNameSize) } :=
    ⟨hs.recovered_eq, hs.disk, hs.elements, hs.rows⟩
  apply Meets.then_returned (getHexString_run s session.tempNameSize)
  rw [placement.tmpPath_eq]
  apply Meets.at_state _ hs'
  apply Meets.bind (temporaryThere hbased)
  intro there
  apply Meets.given
  rintro rfl
  apply Keeps.bind (Keeps.when _ (by simp))
  intro _
  apply Meets.bind (openTruncated _)
  intro handle
  apply Meets.given
  intro hhandle
  cases handle with
  | none => exact refuse _ _
  | some handle =>
      obtain rfl := hhandle handle rfl
      apply Keeps.bind (Keeps.read _)
      intro incoming
      apply Keeps.bind
      · exact Keeps.catching (receiveData _ _) (removeOnSocketException _)
      · exact fun _ => acceptFile hbased _ hexpected

theorem removeFile :
    Meets (Enclosed placement start recovered) (removeFile session message)
      (fun _ => Enclosed placement start true)
      fun _ s => ∃ recovered, Enclosed placement start recovered s := by
  apply recovers
  apply Keeps.bind (Keeps.orRaise _ _)
  intro h
  apply Keeps.bind (Keeps.orRaise _ _)
  intro path
  apply Meets.bind (lookup path)
  intro el
  apply Meets.given
  intro hel
  cases el with
  | none => exact sendServerMessage _
  | some el =>
      have hinside := hel el rfl
      apply Keeps.bind (Keeps.read _)
      intro elExists
      apply Keeps.ite
      · exact fun _ => Keeps.bind (forget _) fun _ => sendServerMessage _
      intro _
      apply Keeps.ite
      · exact fun _ => refuse _ _
      intro _
      apply Meets.bind (saveParent _)
      intro entry
      apply Meets.given
      intro hentry
      apply Keeps.bind
      · apply onDisk
        obtain ⟨place, hplain, hne, hin, heq⟩ := hinside.resolved placement
        rw [heq]
        exact SystemCall.remove_confined Placement.closed_holds hplain hne hin
      intro removed
      apply Keeps.ite
      · exact fun _ => Keeps.raise _
      intro _
      apply Keeps.bind (resetParent (hinside.parent placement) hentry)
      intro _
      exact Keeps.bind (forget _) fun _ => sendServerMessage _

theorem makeDir (hbased : Based placement start)
    (hcanonical : ∀ path, Validator.validatePath message.path = some path → Canonical path) :
    Meets (Enclosed placement start recovered) (makeDir session message)
      (fun _ => Enclosed placement start true)
      fun _ s => ∃ recovered, Enclosed placement start recovered s := by
  apply recovers
  apply Meets.bind_orRaise
  · exact fun _ hs => hs
  intro path hpath
  apply Keeps.bind (Keeps.ensure _ _)
  intro _
  apply Keeps.bind (Keeps.read _)
  intro el
  apply Keeps.bind (Keeps.read _)
  intro upToDate
  apply Keeps.ite
  · exact fun _ => sendServerMessage _
  intro _
  obtain ⟨names, hne, hnames, rfl⟩ := (canonical_iff path).mp (hcanonical path hpath)
  have hinside : Inside session (session.userPath ++ render names) := ⟨names, hne, hnames, rfl⟩
  apply Keeps.bind (Keeps.read _)
  intro parentExists
  apply Meets.bind (saveExistingParent parentExists _)
  intro entry
  apply Meets.given
  intro hentry
  apply Keeps.bind (Keeps.read _)
  intro dirExists
  apply Keeps.bind
  · apply Keeps.when
    intro _
    apply onDisk
    rw [placement.absolutePath_eq]
    apply SystemCall.createDirectories_confined (Placement.inside_plain hnames)
      Placement.inside_ne
    exact fun other hsuffix hother => hbased.way hsuffix hother
  intro _
  apply Keeps.bind (Keeps.read _)
  intro isDirectory
  apply Keeps.ite
  · exact fun _ => refuse _ _
  intro _
  apply Meets.bind (loadEntry _ _)
  intro newDir
  apply Meets.given
  intro hnewDir
  apply Meets.bind (setTimeToElement (hnewDir.symm ▸ hinside) _)
  intro result
  apply Meets.given
  intro hresult
  rw [hnewDir] at hresult
  apply Keeps.bind
  · apply Keeps.when
    intro hexists
    exact resetParent (hinside.parent placement) (hentry hexists)
  intro _
  apply Keeps.bind
  · apply track
    rw [hresult]
    exact hinside
  · exact fun _ => sendServerMessage _

theorem removeDir
    (hcanonical : ∀ path, Validator.validatePath message.path = some path → Canonical path) :
    Meets (Enclosed placement start recovered) (removeDir session message)
      (fun _ => Enclosed placement start true)
      fun _ s => ∃ recovered, Enclosed placement start recovered s := by
  apply recovers
  apply Meets.bind_orRaise
  · exact fun _ hs => hs
  intro path hpath
  apply Meets.bind (lookup path)
  intro el
  apply Meets.given
  intro hel
  cases el with
  | none => exact sendServerMessage _
  | some el =>
      have hinside := hel el rfl
      have hpath' : Inside session (session.userPath ++ path) :=
        Inside.of_canonical (hcanonical path hpath)
      apply Keeps.bind (Keeps.read _)
      intro elExists
      apply Keeps.ite
      · exact fun _ => Keeps.bind (forget _) fun _ => sendServerMessage _
      intro _
      apply Keeps.ite
      · exact fun _ => refuse _ _
      intro _
      apply Meets.bind (saveParent _)
      intro entry
      apply Meets.given
      intro hentry
      apply Keeps.bind (onDisk (SystemCall.listBelow_confined _))
      intro paths
      apply Keeps.bind (Keeps.read _)
      intro disk
      apply Keeps.bind (Keeps.orRaise _ _)
      intro elementsToRemove
      apply Keeps.bind
      · apply onDisk
        obtain ⟨place, hplain, hne, hin, heq⟩ := hinside.resolved placement
        rw [heq]
        exact SystemCall.removeAll_confined Placement.closed_holds hplain hne hin
      intro count
      apply Keeps.ite
      · exact fun _ => Keeps.raise _
      intro _
      apply Keeps.bind (forgetAll _)
      intro _
      apply Keeps.bind (forget _)
      intro _
      exact Keeps.bind (resetParent (hpath'.parent placement) hentry) fun _ => sendServerMessage _

theorem collectMac (mac : Text) :
    Keeps (Enclosed placement start recovered) (collectMac session mac) := by
  apply Keeps.bind (Keeps.of_meets (select _ _) fun _ _ hs => hs.1)
  intro rows
  apply Keeps.bind
  · induction rows with
    | nil => exact Keeps.pure _
    | cons row rows ih =>
        exact Keeps.bind (Keeps.orRaise _ _) fun _ => Keeps.bind (Keeps.orRaise _ _) fun _ =>
          Keeps.bind ih fun _ => Keeps.pure _
  · exact fun _ => Keeps.bind finish fun _ => Keeps.pure _

theorem collectMacs (macs : List Text) :
    Keeps (Enclosed placement start recovered) (collectMacs session macs) := by
  induction macs with
  | nil => exact Keeps.pure _
  | cons mac macs ih =>
      exact Keeps.bind (collectMac mac) fun _ => Keeps.bind ih fun _ => Keeps.pure _

theorem sendBlocks (content : List (List Byte)) :
    Keeps (Enclosed placement start recovered) (sendBlocks session content) := by
  induction content using Server.sendBlocks.induct with
  | case1 => exact Keeps.pure ()
  | case2 block => exact sendServerMessage _
  | case3 block blocks hblocks ih =>
      rw [Server.sendBlocks.eq_3 session block blocks hblocks]
      exact Keeps.bind (sendServerMessage _) fun _ => ih

theorem sendFile (element : DirectoryEntry) (mac : Text) :
    Keeps (Enclosed placement start recovered) (sendFile session element mac) := by
  apply Keeps.bind (Keeps.of_meets (loadEntry _ _) fun _ _ hs => hs.1)
  intro effective
  apply Keeps.ite
  · exact fun _ => remove _ _ _
  intro _
  apply Keeps.bind (sendServerMessage _)
  intro _
  apply Keeps.bind (Keeps.read _)
  intro status
  cases status with
  | none => exact Keeps.raise _
  | some node => cases node <;> exact sendBlocks _

theorem sendElements (toSend : List (Text × DirectoryEntry)) :
    Keeps (Enclosed placement start recovered) (sendElements session toSend) := by
  induction toSend with
  | nil => exact Keeps.pure ()
  | cons element others ih =>
      apply Keeps.bind
      · apply Keeps.bind (Keeps.read _)
        intro currentExists
        apply Keeps.ite
        · exact fun _ => remove _ _ _
        intro _
        apply Keeps.ite
        · exact fun _ => sendServerMessage _
        intro _
        exact Keeps.ite (fun _ => sendFile _ _) fun _ => Keeps.pure ()
      · exact fun _ => ih

theorem retrieveUserData :
    Keeps (Enclosed placement start recovered) (retrieveUserData session message) := by
  apply Keeps.bind
  · apply Keeps.ite
    · exact fun _ => Keeps.bind (getAllMacAddresses _) fun macs => collectMacs macs
    intro _
    apply Keeps.ite
    · exact fun _ => refuse _ _
    · exact fun _ => Keeps.bind (Keeps.orRaise _ _) fun mac => collectMac mac
  · exact fun toSend => Keeps.bind (sendElements toSend) fun _ => sendServerMessage _

end Enclosed

/-! ## A run -/

/-- Where a session has been since `start`. -/
def Kept (placement : Placement session) (start : Disk) (s : ServerState) : Prop :=
  ∃ recovered, Enclosed placement start recovered s

theorem dispatch_kept {placement : Placement session} {start : Disk} {message : ClientMessage}
    (hbased : Enclosed.Based placement start) (hmessage : PathCanonical message) :
    Keeps (Kept placement start) (dispatch session message) := by
  have hweaken : ∀ {recovered : Bool} {p : ServerProcedure Unit},
      Meets (Enclosed placement start recovered) p (fun _ => Enclosed placement start true)
        (fun _ s => ∃ recovered, Enclosed placement start recovered s) →
      Meets (Enclosed placement start recovered) p (fun _ => Kept placement start)
        fun _ => Kept placement start := by
    intro recovered p hp
    exact hp.consequence (fun _ hs => hs) (fun _ _ hs => ⟨true, hs⟩) fun _ _ hs => hs
  rintro s ⟨recovered, hs⟩
  refine (?_ : Meets (Enclosed placement start recovered) (dispatch session message)
    (fun _ => Kept placement start) fun _ => Kept placement start) s hs
  unfold dispatch
  cases htype : message.type with
  | PROB => exact hweaken Enclosed.probe
  | STOR => exact hweaken (Enclosed.storeFile hbased (hmessage (.inl htype)))
  | DELE => exact hweaken Enclosed.removeFile
  | MKD => exact hweaken (Enclosed.makeDir hbased (hmessage (.inr (.inl htype))))
  | RMD => exact hweaken (Enclosed.removeDir (hmessage (.inr (.inr htype))))
  | RETR =>
      apply Enclosed.retrieveUserData.consequence
      · exact fun _ hs => hs
      · exact fun _ _ hs => ⟨recovered, hs⟩
      · exact fun _ _ hs => ⟨recovered, hs⟩
  | NOOP | DATA | AUTH | unknown =>
      apply (Enclosed.refuse _ _).consequence
      · exact fun _ hs => hs
      · exact fun _ _ hs => ⟨recovered, hs⟩
      · exact fun _ _ hs => ⟨recovered, hs⟩

theorem handleException_kept {placement : Placement session} {start : Disk}
    (exception : ServerException) :
    Keeps (Kept placement start) (handleException session exception) := by
  have hrefuse : ∀ (code : ErrCode) (exception : ServerException),
      Keeps (Kept placement start) (refuse session code exception : ServerProcedure Unit) := by
    rintro code exception s ⟨recovered, hs⟩
    apply (Enclosed.refuse code exception).consequence (fun _ hs => hs) _ _ s hs
    · exact fun _ _ hs => ⟨recovered, hs⟩
    · exact fun _ _ hs => ⟨recovered, hs⟩
  cases exception with
  | protocolManager code =>
      cases code with
      | unexpected => exact Keeps.pure ()
      | client => exact Keeps.pure ()
      | _ => exact Keeps.raise _
  | socket code => exact Keeps.raise _
  | _ => exact hrefuse _ _

/-- However a call ends, the session has stayed where it may be. -/
theorem receive_kept {placement : Placement session} {start : Disk} {s : ServerState}
    {message : ClientMessage} {pending : List ClientMessage}
    (hbased : Enclosed.Based placement start) (hs : Kept placement start s)
    (hincoming : s.connection.incoming = message :: pending) (hmessage : PathCanonical message) :
    Kept placement start (receive session s).state := by
  have hread : Kept placement start (s.withIncoming pending) := by
    obtain ⟨recovered, hs⟩ := hs
    exact ⟨recovered, hs.recovered_eq, hs.disk, hs.elements, hs.rows⟩
  have hkeeps : Keeps (Kept placement start) (if message.version ≠ session.protocolVersion then do
      sendVER session
      raise (.protocolManager .version)
    else catching (dispatch session message) (handleException session)) := by
    apply Keeps.ite
    · rintro - s ⟨recovered, hs⟩
      apply (Keeps.bind (Enclosed.sendServerMessage _) fun _ => Keeps.raise _).consequence
        (fun _ hs => hs) _ _ s hs
      · exact fun _ _ hs => ⟨recovered, hs⟩
      · exact fun _ _ hs => ⟨recovered, hs⟩
    · exact fun _ => Keeps.catching (dispatch_kept hbased hmessage) handleException_kept
  rw [receive, bind_of_returned (recvMessage_run s hincoming)]
  exact hkeeps.state hread

theorem Reached.kept {placement : Placement session} {start s : ServerState}
    (hbased : Enclosed.Based placement start.disk)
    (hreached : Reached session (fun _ => PathCanonical) start s)
    (hstart : Kept placement start.disk start) : Kept placement start.disk s := by
  induction hreached with
  | start => exact hstart
  | call _ hincoming hmessage hreceive ih =>
      have hkept := receive_kept hbased ih hincoming hmessage
      rwa [hreceive] at hkept

/-- In every run of a session in which the paths of its rows and of its requests
are canonical, and which finds its folder and the temporary directory, every
object that is made, overwritten, removed or re-timed lies strictly inside the
folder or inside the temporary directory. -/
theorem effects_confined {start s : ServerState} {message : ClientMessage}
    {pending : List ClientMessage} (placement : Placement session) (hfresh : Fresh start)
    (hbased : Enclosed.Based placement start.disk)
    (hrows : ∀ row ∈ start.database.rows, row.isOf session.username session.mac = true →
      Canonical (cString row.path))
    (hreached : Reached session (fun _ => PathCanonical) start s)
    (hincoming : s.connection.incoming = message :: pending) (hmessage : PathCanonical message) :
    ∃ added, (receive session s).state.disk.log = start.disk.log ++ added ∧
      ∀ effect ∈ added, placement.Holds effect.path := by
  have hstart : Kept placement start.disk start := by
    refine ⟨false, hfresh.recovered, Confined.refl, ?_, fun _ => hrows⟩
    rw [hfresh.elements]
    exact KeyedMap.All.empty
  obtain ⟨recovered, hs⟩ :=
    receive_kept hbased (hreached.kept hbased hstart) hincoming hmessage
  exact hs.disk.log

/-- A request for a directory, with its parent. -/
def deepMkd : ServerState :=
  startSession annaDisk {} [mkdRequest "/a/b".toList]

theorem effects_confined_deep :
    ∃ added, (receive annaSession deepMkd).state.disk.log = annaDisk.log ++ added ∧
      ∀ effect ∈ added, annaPlacement.Holds effect.path := by
  apply effects_confined annaPlacement (startSession_fresh annaDisk {} _ rfl)
    ⟨by decide +kernel, by decide +kernel⟩ (by simp [startSession]) .start rfl
  intro _ path hpath
  have heq : path = "/a/b".toList := Option.some.inj (hpath.symm.trans (by decide +kernel))
  rw [heq]
  decide

/-- A request for a directory beside the folder of the session. -/
def escapingMkd : ServerState :=
  startSession annaDisk {} [mkdRequest "/../bert_6-5-4-3-2-1".toList]

/-- A path with a dot-dot passes the validation, and leads out of the folder. -/
theorem not_effects_confined :
    ¬ ∀ (session : Session) (placement : Placement session) (start s : ServerState),
      Fresh start → Enclosed.Based placement start.disk → start.database.rows = [] →
      Reached session (fun _ _ => True) start s →
      ∃ added, (receive session s).state.disk.log = start.disk.log ++ added ∧
        ∀ effect ∈ added, placement.Holds effect.path := by
  intro hclaim
  obtain ⟨added, hlog, hadded⟩ := hclaim annaSession annaPlacement escapingMkd escapingMkd
    (startSession_fresh _ _ _ rfl) ⟨by decide +kernel, by decide +kernel⟩ rfl .start
  have hcreated : Effect.created ["bert_6-5-4-3-2-1".toList, "srv".toList] ∈
      (receive annaSession escapingMkd).state.disk.log := by
    decide +kernel
  rw [hlog] at hcreated
  have hholds := hadded _ ((List.mem_append.mp hcreated).resolve_left (by decide))
  exact absurd hholds (by decide +kernel)

end PdsBackup.Server
