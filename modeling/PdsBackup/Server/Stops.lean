import PdsBackup.Server.Feasible

/-!
# What stops the server

Some exceptions that leave `receive` end the connection, others the whole
server.  A session may have to recover before it handles a request, and RETR
goes over rows of several machines; with both, a call spares the server if what
it is asked for can be done, and so does a run of such calls.
-/

namespace PdsBackup.Server

open Procedure

variable {session : Session}

/-! ## RETR -/

theorem select_of_idle {s : ServerState} (hidle : s.database.inTransaction = false)
    (username mac : Text) :
    onDatabase (Database.select username mac) s =
      .returned (s.database.rows.filter (Row.isOf username mac))
        { s with database := { s.database with inTransaction := true } } := by
  simp [onDatabase, within, Database.select, Database.begin, bind_apply, hidle]

/-- While a RETR is answered. -/
structure Supplying (start s : ServerState) : Prop where
  disk : s.disk = start.disk
  idle : s.database.inTransaction = false

/-- The routine keeps the disk, leaves no transaction open, and spares the server. -/
def Supplies {α : Type} (start : ServerState) (p : ServerProcedure α) : Prop :=
  Meets (Supplying start) p (fun _ => Supplying start) fun exception _ => exception.stops = false

namespace Supplies

variable {start : ServerState} {message : ClientMessage} {mac : Text}

theorem bind {α β : Type} {p : ServerProcedure α} {f : α → ServerProcedure β}
    (hp : Supplies start p) (hf : ∀ value, Supplies start (f value)) :
    Supplies start (p >>= f) := Meets.bind hp hf

theorem sendServerMessage (message : ServerMessage) :
    Supplies start (sendServerMessage message) := by
  apply Meets.of_each
  intro s hs
  cases sendServerMessage_cases s message with
  | inl hrun => exact Meets.ends_returned hrun ⟨hs.disk, hs.idle⟩
  | inr hrun => exact Meets.ends_raised hrun rfl

theorem mapRows (f : List Row → List Row) :
    Supplies start (onDatabase (Database.mapRows f)) := by
  apply Meets.of_each
  intro s hs
  cases onDatabase_mapRows_cases s f with
  | inl hrun => exact Meets.ends_returned hrun.2 ⟨hs.disk, hrun.1⟩
  | inr hopen => simp [hs.idle] at hopen

/-- Rows that hold hashes are collected. -/
theorem collectRows_returns {inv : ServerState → Prop} {rows : List Row}
    (hrows : ∀ row ∈ rows, ∃ entry, rowEntry session mac row = some entry) :
    Meets inv (collectRows session mac rows) (fun _ => inv) fun _ _ => False := by
  induction rows with
  | nil => exact Meets.pure _ fun _ hs => hs
  | cons row rows ih =>
      obtain ⟨entry, hentry⟩ := hrows row List.mem_cons_self
      simp only [rowEntry, Option.bind_eq_bind, Option.bind_eq_some_iff] at hentry
      obtain ⟨bytes, hbytes, hash, hhash, -⟩ := hentry
      apply Meets.of_each
      intro s hs
      have hbytes' : (Procedure.orRaise .standard row.columns.hashBytes :
          ServerProcedure (List Byte)) s = .returned bytes s := by
        rw [hbytes, orRaise_some, pure_apply]
      have hhash' : (Procedure.orRaise .standard (Hash.ofBytes bytes) :
          ServerProcedure Hash) s = .returned hash s := by
        rw [hhash, orRaise_some, pure_apply]
      apply Meets.then_returned hbytes'
      apply Meets.then_returned hhash'
      apply Meets.at_state _ hs
      apply Meets.bind (ih fun other hother => hrows other (List.mem_cons_of_mem row hother))
      exact fun _ => Meets.pure _ fun _ hs => hs

theorem collectMac {rows : List Row}
    (hrows : ∀ row ∈ rows, row.isOf session.username mac = true →
      ∃ entry, rowEntry session mac row = some entry) :
    Meets (fun s => Supplying start s ∧ s.database.rows = rows) (collectMac session mac)
      (fun _ s => Supplying start s ∧ s.database.rows = rows) fun _ _ => False := by
  apply Meets.of_each
  rintro s ⟨hs, rfl⟩
  apply Meets.then_returned (select_of_idle hs.idle session.username mac)
  have hcollect : Meets (fun t => t = { s with
      database := { s.database with inTransaction := true } })
      (collectRows session mac (s.database.rows.filter (Row.isOf session.username mac)))
      (fun _ t => t = { s with database := { s.database with inTransaction := true } })
      fun _ _ => False := by
    apply collectRows_returns
    intro row hrow
    obtain ⟨hmem, hof⟩ := List.mem_filter.mp hrow
    exact hrows row hmem hof
  apply Meets.bind hcollect
  intro toSend
  have hfinish : Meets (fun t => t = { s with
      database := { s.database with inTransaction := true } }) (onDatabase Database.finish)
      (fun _ t => Supplying start t ∧ t.database.rows = s.database.rows) fun _ _ => False := by
    rintro t rfl
    exact ⟨⟨hs.disk, rfl⟩, rfl⟩
  exact Meets.bind hfinish fun _ => Meets.pure _ fun _ ht => ht

theorem collectMacs {rows : List Row} {macs : List Text}
    (hrows : ∀ mac ∈ macs, ∀ row ∈ rows, row.isOf session.username mac = true →
      ∃ entry, rowEntry session mac row = some entry) :
    Meets (fun s => Supplying start s ∧ s.database.rows = rows) (collectMacs session macs)
      (fun _ s => Supplying start s ∧ s.database.rows = rows) fun _ _ => False := by
  induction macs with
  | nil => exact Meets.pure _ fun _ hs => hs
  | cons mac macs ih =>
      apply Meets.bind (collectMac (hrows mac List.mem_cons_self))
      intro toSend
      apply Meets.bind (ih fun other hother => hrows other (List.mem_cons_of_mem mac hother))
      exact fun _ => Meets.pure _ fun _ hs => hs

theorem collect (hidle : start.database.inTransaction = false)
    (hrows : ∀ mac ∈ requestedMacs session message start, ∀ row ∈ start.database.rows,
      row.isOf session.username mac = true → ∃ entry, rowEntry session mac row = some entry) :
    Meets (fun s => s = start) (collect session message) (fun _ => Supplying start)
      fun exception _ => exception.stops = false := by
  unfold requestedMacs at hrows
  have hsupplying : Supplying start start := ⟨rfl, hidle⟩
  apply Meets.ite
  · intro hall
    rw [if_pos hall] at hrows
    have hmacs : onDatabase (Database.getAllMacAddresses session.username) start = .returned
        (((start.database.rows.filter fun row => row.username = session.username).map
          Row.mac).eraseDups.map cString) start := by
      simp [onDatabase, within, Database.getAllMacAddresses, Database.begin, bind_apply, hidle]
    apply Meets.then_returned hmacs
    apply (collectMacs hrows).consequence
    · intro s hs
      rw [hs]
      exact ⟨hsupplying, rfl⟩
    · exact fun _ _ hs => hs.1
    · exact fun _ _ h => h.elim
  · intro hall
    rw [if_neg hall] at hrows
    apply Meets.ite
    · intro _
      cases refuse_cases session start .retrieve clientError with
      | inl hrun => exact Meets.ends_raised hrun rfl
      | inr hrun => exact Meets.ends_raised hrun rfl
    · intro _
      cases hmac : Validator.validateMacAddress message.macAddress with
      | none => exact Meets.then_raised rfl rfl
      | some mac =>
          rw [hmac] at hrows
          apply Meets.then_returned rfl
          apply (collectMac (hrows mac (by simp))).consequence
          · intro s hs
            rw [hs]
            exact ⟨hsupplying, rfl⟩
          · exact fun _ _ hs => hs.1
          · exact fun _ _ h => h.elim

theorem sendBlocks (content : List (List Byte)) : Supplies start (sendBlocks session content) := by
  induction content using Server.sendBlocks.induct with
  | case1 => exact Meets.pure () fun _ hs => hs
  | case2 block => exact sendServerMessage _
  | case3 block blocks hblocks ih =>
      rw [Server.sendBlocks.eq_3 session block blocks hblocks]
      exact bind (sendServerMessage _) fun _ => ih

/-- A file that can be read is sent, or taken out of the database. -/
theorem sendFile {element : DirectoryEntry}
    (hload : (DirectoryEntry.load session.platform (session.basePath ++ session.relativeRoot mac)
      element.absolutePath start.disk.tree).isSome = true) :
    Supplies start (sendFile session element mac) := by
  apply Meets.of_each
  intro s hs
  obtain ⟨effective, heffective⟩ := Option.isSome_iff_exists.mp hload
  obtain ⟨-, -, node, hnode, -⟩ := DirectoryEntry.load_eq_some heffective
  have hrun : loadEntry session (session.basePath ++ session.relativeRoot mac)
      element.absolutePath s = .returned effective s := by
    simp [loadEntry, hs.disk, heffective]
  apply Meets.then_returned hrun
  apply Meets.at_state _ hs
  apply Meets.ite
  · exact fun _ => mapRows _
  · intro _
    apply bind (sendServerMessage _)
    intro _
    apply Meets.of_each
    intro t ht
    apply Meets.then_returned (Procedure.read_apply _ t)
    rw [ht.disk, Disk.status, hnode]
    apply Meets.at_state _ ht
    cases node with
    | file content mtime => exact sendBlocks _
    | dir mtime => exact sendBlocks _

theorem sendElement {element : DirectoryEntry}
    (hload : start.disk.present element.absolutePath = true → element.isRegularFile = true →
      (DirectoryEntry.load session.platform (session.basePath ++ session.relativeRoot mac)
        element.absolutePath start.disk.tree).isSome = true) :
    Supplies start (sendElement session mac element) := by
  apply Meets.of_each
  intro s hs
  apply Meets.then_returned (Procedure.read_apply _ s)
  apply Meets.at_state _ hs
  apply Meets.ite
  · exact fun _ => mapRows _
  · intro hpresent
    apply Meets.ite
    · exact fun _ => sendServerMessage _
    · intro _
      apply Meets.ite
      · intro hfile
        rw [hs.disk] at hpresent
        exact sendFile (hload (by simpa using hpresent) hfile)
      · exact fun _ => Meets.pure () fun _ hs => hs

theorem sendElements {toSend : List (Text × DirectoryEntry)}
    (hloads : ∀ element ∈ toSend, start.disk.present element.2.absolutePath = true →
      element.2.isRegularFile = true → (DirectoryEntry.load session.platform
        (session.basePath ++ session.relativeRoot element.1) element.2.absolutePath
        start.disk.tree).isSome = true) :
    Supplies start (sendElements session toSend) := by
  induction toSend with
  | nil => exact Meets.pure () fun _ hs => hs
  | cons element others ih =>
      apply bind (sendElement (hloads element List.mem_cons_self))
      exact fun _ => ih fun other hother => hloads other (List.mem_cons_of_mem element hother)

end Supplies

theorem retrieveUserData_spares {start : ServerState} {message : ClientMessage}
    (hidle : start.database.inTransaction = false)
    (hservable : Servable session start message) :
    Spares start (retrieveUserData session message) := by
  have hcollect : Meets (fun s => s = start) (collect session message)
      (fun toSend s => Supplying start s ∧ ∀ element ∈ toSend,
        element.1 ∈ requestedMacs session message start ∧
        ∃ row ∈ start.database.rows, row.isOf session.username element.1 = true ∧
          rowEntry session element.1 row = some element.2)
      fun exception _ => exception.stops = false := by
    have hsupplies := Supplies.collect hidle fun mac hmac row hrow hof =>
      (hservable mac hmac row hrow hof).imp fun _ h => h.1
    have hsame := (@SameStores.collect session start message).at_state ⟨rfl, rfl, rfl, rfl⟩
    apply (hsupplies.and hsame).consequence
    · exact fun _ hs => ⟨hs, hs⟩
    · exact fun _ _ hs => ⟨hs.1, hs.2.2⟩
    · exact fun _ _ h => h.1
  apply Meets.bind hcollect
  intro toSend
  apply Meets.given
  intro htoSend
  have hloads : Supplies start (sendElements session toSend) := by
    apply Supplies.sendElements
    intro element helement hpresent hfile
    obtain ⟨hmac, row, hrow, hof, hentry⟩ := htoSend element helement
    obtain ⟨entry, hentry', -, hcut⟩ := hservable element.1 hmac row hrow hof
    obtain rfl := Option.some.inj (hentry.symm.trans hentry')
    exact (hcut hpresent hfile).loads hpresent
  apply Meets.bind hloads
  intro _
  exact (Supplies.sendServerMessage _).consequence (fun _ hs => hs) (fun _ _ _ => trivial)
    fun _ _ h => h

/-! ## Recovery -/

/-- During a recovery nothing but the rows and the map changes, and what enters
the map was to be foreseen. -/
structure Restoring (session : Session) (start s : ServerState) : Prop where
  disk : s.disk = start.disk
  connection : s.connection = start.connection
  random : s.random = start.random
  foreseen : KeyedMap.All (Foreseen session start) s.elements

section Recovery

variable {start : ServerState}

theorem recoverRow_restores {row : Row} {toUpdate : List DirectoryEntry}
    (toDelete : List DirectoryEntry) (hrecoverable : Recoverable session start)
    (hunrecovered : start.recovered = false) (hrow : row ∈ start.database.rows)
    (hof : row.isOf session.username session.mac = true)
    (htoUpdate : ∀ entry ∈ toUpdate, Foreseen session start entry.relativePath entry) :
    Meets (Restoring session start) (recoverRow session row.columns toUpdate toDelete)
      (fun lists s => Restoring session start s ∧
        ∀ entry ∈ lists.1, Foreseen session start entry.relativePath entry) fun _ _ => False := by
  obtain ⟨hholds, -, hcut⟩ := hrecoverable row hrow hof
  obtain ⟨hash, hsome⟩ := Option.isSome_iff_exists.mp hholds
  obtain ⟨bytes, hbytes, hhash⟩ := Option.bind_eq_some_iff.mp hsome
  apply Meets.of_each
  intro s hs
  have hbytes' : (Procedure.orRaise .standard row.columns.hashBytes :
      ServerProcedure (List Byte)) s = .returned bytes s := by
    rw [hbytes, orRaise_some, pure_apply]
  have hhash' : (Procedure.orRaise .standard (Hash.ofBytes bytes) :
      ServerProcedure Hash) s = .returned hash s := by
    rw [hhash, orRaise_some, pure_apply]
  apply Meets.then_returned hbytes'
  apply Meets.then_returned hhash'
  apply Meets.then_returned (Procedure.read_apply _ s)
  rw [hs.disk]
  apply Meets.ite
  · exact fun _ => Meets.ends_returned rfl ⟨hs, htoUpdate⟩
  · intro hpresent
    rw [Bool.not_eq_true', Bool.not_eq_false] at hpresent
    have hloads : (DirectoryEntry.load session.platform session.userPath
        (session.userPath ++ row.columns.path) start.disk.tree).isSome = true :=
      (hcut hpresent).loads hpresent
    obtain ⟨effective, heffective⟩ := Option.isSome_iff_exists.mp hloads
    have hrun : loadEntry session session.userPath (session.userPath ++ row.columns.path) s =
        .returned effective s := by
      simp [loadEntry, hs.disk, heffective]
    have hforeseen : ∀ path, path = row.columns.path ∨ path = effective.relativePath →
        Foreseen session start path { effective with relativePath := path } := fun path hpath =>
      .inr ⟨hunrecovered, row, hrow, hof, effective, heffective, hpath, rfl⟩
    apply Meets.then_returned hrun
    apply Meets.ite
    · intro _
      apply Meets.ends_returned rfl
      refine ⟨hs, fun entry hentry => ?_⟩
      cases List.mem_append.mp hentry with
      | inl hmem => exact htoUpdate entry hmem
      | inr hmem =>
          rw [List.mem_singleton.mp hmem]
          exact hforeseen effective.relativePath (.inr rfl)
    · intro hsame
      simp only [not_or, not_not] at hsame
      obtain ⟨htype, hsize, htime, hsameHash⟩ := hsame
      have habsolute := (DirectoryEntry.load_eq_some heffective).2.1
      have hcurrent : DirectoryEntry.make session.userPath row.columns.path row.columns.size
          row.columns.type row.columns.lastWriteTime hash =
            { effective with relativePath := row.columns.path } := by
        rw [DirectoryEntry.mk.injEq]
        exact ⟨rfl, habsolute.symm, hsize.symm, htype.symm, htime.symm, hsameHash.symm⟩
      rw [hcurrent]
      apply Meets.then_returned (Procedure.modify_apply _ _)
      apply Meets.ends_returned rfl
      exact ⟨⟨hs.disk, hs.connection, hs.random, hs.foreseen.emplace (hforeseen _ (.inl rfl))⟩,
        htoUpdate⟩

theorem recoverRows_restores {rows : List Row} {toUpdate : List DirectoryEntry}
    (toDelete : List DirectoryEntry) (hrecoverable : Recoverable session start)
    (hunrecovered : start.recovered = false)
    (hrows : ∀ row ∈ rows, row ∈ start.database.rows ∧
      row.isOf session.username session.mac = true)
    (htoUpdate : ∀ entry ∈ toUpdate, Foreseen session start entry.relativePath entry) :
    Meets (Restoring session start) (recoverRows session rows toUpdate toDelete)
      (fun lists s => Restoring session start s ∧
        ∀ entry ∈ lists.1, Foreseen session start entry.relativePath entry) fun _ _ => False := by
  induction rows generalizing toUpdate toDelete with
  | nil => exact Meets.pure _ fun _ hs => ⟨hs, htoUpdate⟩
  | cons row rows ih =>
      obtain ⟨hrow, hof⟩ := hrows row List.mem_cons_self
      apply Meets.bind (recoverRow_restores toDelete hrecoverable hunrecovered hrow hof htoUpdate)
      intro lists
      apply Meets.given
      intro hlists
      exact ih lists.2 (fun other hother => hrows other (List.mem_cons_of_mem row hother)) hlists

theorem updateAll_restores {entries : List DirectoryEntry}
    (hentries : ∀ entry ∈ entries, Foreseen session start entry.relativePath entry) :
    Meets (fun s => Restoring session start s ∧ s.database.inTransaction = false)
      (updateAll session entries)
      (fun _ s => Restoring session start s ∧ s.database.inTransaction = false)
      fun _ _ => False := by
  induction entries with
  | nil => exact Meets.pure () fun _ hs => hs
  | cons entry entries ih =>
      apply Meets.of_each
      rintro s ⟨hs, hidle⟩
      cases onDatabase_mapRows_cases s fun rows => rows.map fun row =>
        if row.isAt session.username session.mac entry.relativePath then row.updated entry
        else row with
      | inr hopen => simp [hidle] at hopen
      | inl hrun =>
          apply Meets.then_returned hrun.2
          apply Meets.then_returned (Procedure.modify_apply _ _)
          apply Meets.at_state (ih fun other hother =>
            hentries other (List.mem_cons_of_mem entry hother))
          exact ⟨⟨hs.disk, hs.connection, hs.random,
            hs.foreseen.emplace (hentries entry List.mem_cons_self)⟩, hidle⟩

theorem deleteAll_restores (entries : List DirectoryEntry) :
    Meets (fun s => Restoring session start s ∧ s.database.inTransaction = false)
      (deleteAll session entries)
      (fun _ s => Restoring session start s ∧ s.database.inTransaction = false)
      fun _ _ => False := by
  induction entries with
  | nil => exact Meets.pure () fun _ hs => hs
  | cons entry entries ih =>
      apply Meets.of_each
      rintro s ⟨hs, hidle⟩
      cases onDatabase_mapRows_cases s fun rows => rows.filter fun row =>
        !row.isAt session.username session.mac entry.relativePath with
      | inr hopen => simp [hidle] at hopen
      | inl hrun =>
          apply Meets.then_returned hrun.2
          apply Meets.at_state ih
          exact ⟨⟨hs.disk, hs.connection, hs.random, hs.foreseen⟩, hidle⟩

/-- Rows that can be read are recovered. -/
theorem recoverFromDB_restores (hrecoverable : Recoverable session start)
    (hunrecovered : start.recovered = false) (hidle : start.database.inTransaction = false) :
    ∃ s, recoverFromDB session start = .returned () s ∧ Restoring session start s ∧
      s.database.inTransaction = false ∧ s.recovered = true := by
  have hrecovers : Meets (fun s => s = start) (recoverFromDB session)
      (fun _ s => Restoring session start s ∧ s.database.inTransaction = false ∧
        s.recovered = true) fun _ _ => False := by
    apply Meets.then_returned (select_of_idle hidle session.username session.mac)
    have hrows := recoverRows_restores [] hrecoverable hunrecovered
      (fun row hrow => List.mem_filter.mp hrow) fun _ hentry => absurd hentry List.not_mem_nil
    have hopen : Restoring session start
        { start with database := { start.database with inTransaction := true } } :=
      ⟨rfl, rfl, rfl, fun _ _ hel => .inl hel⟩
    apply Meets.bind (hrows.at_state hopen)
    intro lists
    apply Meets.given
    intro hlists
    have hfinish : Meets (Restoring session start) (onDatabase Database.finish)
        (fun _ s => Restoring session start s ∧ s.database.inTransaction = false)
        fun _ _ => False :=
      fun s hs => ⟨⟨hs.disk, hs.connection, hs.random, hs.foreseen⟩, rfl⟩
    apply Meets.bind hfinish
    intro _
    apply Meets.bind (updateAll_restores hlists)
    intro _
    apply Meets.bind (deleteAll_restores lists.2)
    intro _
    apply Meets.modify
    rintro s ⟨hs, hidle⟩
    exact ⟨⟨hs.disk, hs.connection, hs.random, hs.foreseen⟩, hidle, rfl⟩
  obtain ⟨_, s, hrun, hs⟩ := hrecovers.returns rfl
  exact ⟨s, hrun, hs⟩

end Recovery

/-! ## A call -/

section Calls

variable {placement : Placement session} {start s : ServerState} {message : ClientMessage}
variable {pending : List ClientMessage}

theorem Foreseen.restored {path : Text} {el : DirectoryEntry}
    (hrestoring : Restoring session start s) (hrecovered : s.recovered = true)
    (hforeseen : Foreseen session s path el) : Foreseen session start path el := by
  cases hforeseen with
  | inl hlookup => exact hrestoring.foreseen path el hlookup
  | inr hrow => simp [hrecovered] at hrow

/-- What could be done before the recovery can be done after it. -/
theorem Feasible.restored (hrestoring : Restoring session start s) (hbacks : Backs message)
    (hunrecovered : start.recovered = false) (hrecovered : s.recovered = true)
    (hfeasible : Feasible placement start message pending) :
    Feasible placement s message pending := by
  unfold Feasible at hfeasible ⊢
  cases htype : message.type with
  | PROB =>
      rw [htype] at hfeasible
      refine ⟨hfeasible.1, fun path hpath htime el hel => ?_⟩
      rw [hrestoring.disk]
      exact hfeasible.2 path hpath htime el (hel.restored hrestoring hrecovered)
  | STOR =>
      rw [htype] at hfeasible
      have hbytes : tmpBytes session s = tmpBytes session start := by
        rw [tmpBytes, tmpBytes, hrestoring.random]
      rw [hrestoring.disk, hbytes]
      exact hfeasible
  | DELE =>
      rw [htype] at hfeasible
      refine ⟨hfeasible.1, fun path hpath el hel => ?_⟩
      rw [hrestoring.disk]
      exact hfeasible.2 path hpath el (hel.restored hrestoring hrecovered)
  | MKD =>
      rw [htype] at hfeasible
      intro path hpath htime _
      obtain ⟨htracked, hmakeable⟩ := hfeasible path hpath htime fun hupToDate => by
        simp [UpToDateDir, hunrecovered] at hupToDate
      rw [hrestoring.disk]
      exact ⟨fun el hel => htracked el (hel.restored hrestoring hrecovered), hmakeable⟩
  | RMD =>
      rw [htype] at hfeasible
      intro path hpath el hel
      rw [hrestoring.disk]
      exact hfeasible path hpath el (hel.restored hrestoring hrecovered)
  | _ => exact absurd hbacks (by simp [Backs, htype])

/-- Nor does it matter what else is still to come. -/
theorem Feasible.withIncoming (hfeasible : Feasible placement s message pending)
    (incoming : List ClientMessage) :
    Feasible placement (s.withIncoming incoming) message pending := by
  unfold Feasible at hfeasible ⊢
  cases htype : message.type with
  | _ =>
      rw [htype] at hfeasible
      exact hfeasible

theorem dispatch_spares_of_recovered (hrecovered : start.recovered = true)
    (hidle : start.database.inTransaction = false)
    (hfeasible : Feasible placement start message start.connection.incoming) :
    Spares start (dispatch session message) := by
  unfold dispatch
  unfold Feasible at hfeasible
  cases htype : message.type with
  | PROB =>
      rw [htype] at hfeasible
      exact probe_spares hrecovered hfeasible.1 hfeasible.2
  | STOR =>
      rw [htype] at hfeasible
      exact storeFile_spares hrecovered hidle hfeasible.1 hfeasible.2
  | DELE =>
      rw [htype] at hfeasible
      exact removeFile_spares hrecovered hidle hfeasible.1 hfeasible.2
  | MKD =>
      rw [htype] at hfeasible
      exact makeDir_spares placement hrecovered hidle fun path hpath htime hstale =>
        (hfeasible path hpath htime hstale).2
  | RMD =>
      rw [htype] at hfeasible
      exact removeDir_spares hrecovered hidle hfeasible
  | RETR =>
      rw [htype] at hfeasible
      exact retrieveUserData_spares hidle hfeasible
  | NOOP | DATA | AUTH | unknown => exact Spares.refuse rfl

/-- The recovery, when there has to be one, does not stop the server either. -/
theorem dispatch_spares (hidle : start.database.inTransaction = false)
    (hrecoverable : Backs message → start.recovered = false → Recoverable session start)
    (hfeasible : Feasible placement start message start.connection.incoming) :
    Spares start (dispatch session message) := by
  cases hrecovered : start.recovered with
  | true => exact dispatch_spares_of_recovered hrecovered hidle hfeasible
  | false =>
      by_cases hbacks : Backs message
      · obtain ⟨middle, hrecover, hrestoring, hidle', hrecovered'⟩ :=
          recoverFromDB_restores (hrecoverable hbacks hrecovered) hrecovered hidle
        have hrun : recoverIfNeeded session start = .returned () middle := by
          simpa [recoverIfNeeded, hrecovered] using hrecover
        have hspares : Spares middle (dispatch session message) :=
          dispatch_spares_of_recovered hrecovered' hidle' <| by
            rw [hrestoring.connection]
            exact hfeasible.restored hrestoring hbacks hrecovered hrecovered'
        rintro t rfl
        rw [dispatch_of_recovers hbacks hrun hrecovered']
        exact hspares middle rfl
      · unfold dispatch
        unfold Feasible at hfeasible
        cases htype : message.type with
        | RETR =>
            rw [htype] at hfeasible
            exact retrieveUserData_spares hidle hfeasible
        | NOOP | DATA | AUTH | unknown => exact Spares.refuse rfl
        | _ => exact absurd (by simp [Backs, htype]) hbacks

theorem handleException_spares {exception : ServerException}
    (hexception : exception.stops = false) :
    Spares s (handleException session exception) := by
  cases exception with
  | protocolManager code =>
      cases code with
      | client | unexpected => exact Meets.ends_returned rfl trivial
      | auth | version | internal => exact Meets.ends_raised rfl hexception
  | socket code => exact Meets.ends_raised rfl rfl
  | database | databasePwd | config | standard => simp [ServerException.stops] at hexception

theorem receive_spares (hidle : s.database.inTransaction = false)
    (htolerable : ∀ message pending, s.connection.incoming = message :: pending →
      Tolerable placement s message) :
    Spares s (receive session) := by
  cases hincoming : s.connection.incoming with
  | nil =>
      have hclosed : recvMessage s = .raised (.socket .closed) s := by
        simp [recvMessage, hincoming]
      exact Meets.then_raised hclosed rfl
  | cons message pending =>
      obtain ⟨hrecoverable, hfeasible⟩ := htolerable message pending hincoming
      apply Spares.then_returned (recvMessage_run s hincoming)
      apply Spares.ite
      · intro _
        cases sendServerMessage_cases (s.withIncoming pending) (verMessage session) with
        | inl hrun => exact Meets.then_returned hrun (Spares.raise rfl)
        | inr hrun => exact Meets.then_raised hrun rfl
      · intro hversion
        rw [not_not] at hversion
        have hdispatch : Spares (s.withIncoming pending) (dispatch session message) :=
          dispatch_spares hidle (hrecoverable hversion)
            ((hfeasible hversion pending hincoming).withIncoming pending)
        apply Meets.catching hdispatch
        intro exception
        apply Meets.of_each
        intro t hexception
        exact handleException_spares hexception

end Calls

/-! ## A run -/

/-- In every run of a session in which each message meets the condition, no call
ends in an exception that stops the server. -/
theorem no_message_stops {start s : ServerState} {exception : ServerException}
    (placement : Placement session) (hstart : Fresh start)
    (hreached : Reached session (Tolerable placement) start s)
    (htolerable : ∀ message pending, s.connection.incoming = message :: pending →
      Tolerable placement s message)
    (hraises : (receive session s).exception = some exception) : exception.stops = false := by
  have hsettled : Settled False s := hreached.settled hstart.settled
  have hspares : Spares s (receive session) := receive_spares hsettled.idle htolerable
  have hends := hspares s rfl
  cases hrun : receive session s with
  | returned value s' => simp [hrun, Exit.exception] at hraises
  | raised raised s' =>
      rw [hrun] at hends hraises
      rwa [← Option.some.inj hraises]

/-- A directory is made, and then a client of another version speaks. -/
def otherVersion : ServerState :=
  startSession annaDisk {} [mkdRequest "/d".toList, { version := 2, type := .NOOP }]

theorem no_message_stops_version :
    (receive annaSession (receive annaSession otherVersion).state).exception =
        some (.protocolManager .version) ∧
      (ServerException.protocolManager .version).stops = false := by
  have hcall : receive annaSession otherVersion =
      .returned () (receive annaSession otherVersion).state :=
    Exit.eq_returned_of_returns (by decide +kernel)
  have hraises : (receive annaSession (receive annaSession otherVersion).state).exception =
      some (.protocolManager .version) := by
    decide +kernel
  have hfirst : Tolerable annaPlacement otherVersion (mkdRequest "/d".toList) := by
    refine ⟨fun _ _ _ row hrow => absurd hrow List.not_mem_nil,
      fun _ pending _ path hpath _ _ => ?_⟩
    obtain rfl : path = "/d".toList := Option.some.inj (hpath.symm.trans (by decide +kernel))
    have hparent : parentPath (annaSession.userPath ++ "/d".toList) = annaSession.userPath := by
      decide +kernel
    have hcut : CutBy annaSession.userPath (annaSession.userPath ++ "/d".toList) := by
      rw [CutBy]
      decide +kernel
    refine ⟨fun el hel => ?_, by decide +kernel, fun _ => by decide +kernel, fun _ => hcut,
      fun _ hne => absurd hparent hne⟩
    rcases hel with hlookup | ⟨-, row, hrow, -⟩
    · exact absurd hlookup (by simp [otherVersion, startSession])
    · exact absurd hrow List.not_mem_nil
  have hsecond : (receive annaSession otherVersion).state.connection.incoming =
      [{ version := 2, type := .NOOP }] := by
    decide +kernel
  refine ⟨hraises, ?_⟩
  apply no_message_stops annaPlacement (startSession_fresh annaDisk {} _ rfl)
    (.call .start rfl hfirst hcall) _ hraises
  intro message pending hincoming
  rw [hsecond] at hincoming
  obtain ⟨rfl, -⟩ := List.cons.inj hincoming
  exact ⟨fun hversion => absurd hversion (by decide), fun hversion => absurd hversion (by decide)⟩

/-- A hash that is too short stops the server. -/
theorem not_no_message_stops :
    ¬ ∀ (session : Session), Placement session → ∀ (start s : ServerState)
      (exception : ServerException), Fresh start → Reached session (fun _ _ => True) start s →
        (receive session s).exception = some exception → exception.stops = false := by
  intro hclaim
  have hfresh : Fresh (startSession annaDisk {}
      [{ version := 1, type := .PROB, path := "/f".toList, lastWriteTime := epoch }]) :=
    startSession_fresh _ _ _ rfl
  have hstops := hclaim annaSession annaPlacement _ _ internalError hfresh .start
    (by decide +kernel)
  exact absurd hstops (by decide)

end PdsBackup.Server
