import PdsBackup.Server.Truth
import PdsBackup.Server.Calls

/-!
# Agreement of the three stores

From the recovery on, whatever requests a session is sent: the map of elements
and the rows of the database have the same paths, and at each of them the disk
has an object of the recorded type.  And as long as they agree, the answers of
the session are true.
-/

namespace PdsBackup.Server

open Procedure

variable {session : Session} {unique : Prop}

/-! ## RETR -/

/-- The rows of the session, and all else it keeps, are as they were. -/
structure SameOwn (session : Session) (start s : ServerState) : Prop where
  disk : s.disk = start.disk
  elements : s.elements = start.elements
  recovered : s.recovered = start.recovered
  rows : ∀ path, rowsAt session path s.database.rows = rowsAt session path start.database.rows

theorem SameOwn.tracked {start s : ServerState} (h : SameOwn session start s)
    (htracked : Tracked session unique start) : Tracked session unique s where
  recovered := h.recovered.trans htracked.recovered
  single hunique path := by
    rw [h.rows]
    exact htracked.single hunique path
  at_path path := by
    apply (htracked.at_path path).mono _ (h.rows path) (by rw [h.elements])
    intro _ shape hold
    rwa [h.disk]

theorem ofStores_sameOwn {start : ServerState} : OfStores (SameOwn session start) :=
  fun _ _ h hs =>
    { disk := h.disk.trans hs.disk
      elements := h.elements.trans hs.elements
      recovered := h.recovered.trans hs.recovered
      rows := fun path => by rw [h.rows, hs.rows] }

/-- What is tracked is up to date. -/
theorem Tracked.upToDate {s : ServerState} {row : Row} {entry : DirectoryEntry}
    (h : Tracked session unique s) (hrow : row ∈ s.database.rows)
    (hof : row.isOf session.username session.mac = true)
    (hentry : rowEntry session session.mac row = some entry) :
    UpToDate session s.disk session.mac entry := by
  have hmem : row ∈ rowsAt session row.path s.database.rows :=
    List.mem_filter.mpr ⟨hrow, isAt_iff.mpr ⟨hof, rfl⟩⟩
  have hat := h.at_path row.path
  unfold TrackedAt at hat
  cases hlookup : s.elements.lookup row.path with
  | none =>
      rw [hlookup] at hat
      simp [hat] at hmem
  | some el =>
      rw [hlookup] at hat
      obtain ⟨hbacked, -, hrows⟩ := hat
      have hagrees := hrows row hmem
      simp only [rowEntry, Option.bind_eq_bind, Option.bind_eq_some_iff,
        Option.some.injEq] at hentry
      obtain ⟨bytes, hbytes, hash, hhash, rfl⟩ := hentry
      have hpath : row.columns.path = row.path :=
        cString_eq_self (nul_notMem_of_canonical hbacked.canonical)
      have habsolute : session.basePath ++ session.relativeRoot session.mac ++ row.columns.path =
          el.absolutePath := by
        rw [hpath, hbacked.absolutePath]
        rfl
      constructor
      · rw [DirectoryEntry.make, habsolute]
        exact hbacked.present
      · intro hfile effective hload
        have hknown : (DirectoryEntry.make (session.basePath ++ session.relativeRoot session.mac)
            row.columns.path row.columns.size row.columns.type row.columns.lastWriteTime
            hash).type ≠ .notFileNorDirectory := by
          rw [DirectoryEntry.isRegularFile, decide_eq_true_eq] at hfile
          simp [hfile]
        have hel : el.isRegularFile = true :=
          DirectoryEntry.isRegularFile_of_typeName
            ((DirectoryEntry.typeName_make hknown).trans hagrees.type) hfile
        obtain ⟨content, mtime, hstatus, hcontent, -⟩ := hbacked.file hel
        obtain ⟨-, -, node, hnode, hdescribes⟩ := DirectoryEntry.load_eq_some hload
        rw [DirectoryEntry.make, habsolute, hbacked.absolutePath, hstatus,
          Option.some.injEq] at hnode
        subst hnode
        have heffective : effective.hash = session.platform.sha256 content := hdescribes.hash
        have hbytes' : bytes = el.hash.str := Option.some.inj (hbytes.symm.trans hagrees.hash)
        rw [hbytes', Hash.ofBytes_str, Option.some.injEq] at hhash
        rw [heffective, ← hcontent, hhash]
        rfl

theorem retrieveUserData_tracked {start : ServerState} {message : ClientMessage}
    (h : Tracked session unique start) :
    Meets (fun s => s = start) (retrieveUserData session message)
      (fun _ => Tracked session unique) fun _ => Tracked session unique := by
  have hrows : ∀ mac ∈ requestedMacs session message start, ∀ row ∈ start.database.rows,
      row.isOf session.username mac = true → ∀ entry, rowEntry session mac row = some entry →
        ∀ s, SameOwn session start s → UpToDate session s.disk mac entry ∨
          SameOwn session start (s.without session mac entry.relativePath) := by
    intro mac _ row hrow hof entry hentry s hs
    by_cases hmac : mac = session.mac
    · subst hmac
      rw [hs.disk]
      exact .inl (h.upToDate hrow hof hentry)
    · refine .inr ⟨hs.disk, hs.elements, hs.recovered, fun path => ?_⟩
      rw [← hs.rows path]
      exact rowsAt_remove_of_ne hmac path _ _
  apply (ofStores_sameOwn.retrieveUserData ⟨rfl, rfl, rfl, fun _ => rfl⟩ hrows).consequence
  · exact fun _ hs => hs
  · exact fun _ s hs => hs.tracked h
  · exact fun _ s hs => hs.tracked h

theorem ofStores_prepared : OfStores (Prepared session unique) := fun _ _ h hs =>
  { recovered := h.recovered.trans hs.recovered
    single := h.rows ▸ hs.single
    elements := h.elements.trans hs.elements
    rows := h.rows ▸ hs.rows }

/-- A session that has not recovered may lose rows to a RETR. -/
theorem Prepared.without {s : ServerState} (h : Prepared session unique s) (mac path : Text) :
    Prepared session unique (s.without session mac path) where
  recovered := h.recovered
  elements := h.elements
  rows row hrow hof := h.rows row (List.mem_of_mem_filter hrow) hof
  single := by
    by_cases hmac : mac = session.mac
    · subst hmac
      exact h.single.remove path
    · intro hunique other
      have hsame := rowsAt_remove_of_ne hmac other path s.database.rows
      exact (congrArg List.length hsame).trans_le (h.single hunique other)

theorem retrieveUserData_prepared {start : ServerState} {message : ClientMessage}
    (h : Prepared session unique start) :
    Meets (fun s => s = start) (retrieveUserData session message)
      (fun _ => Prepared session unique) fun _ => Prepared session unique :=
  ofStores_prepared.retrieveUserData h fun _ _ _ _ _ _ _ _ hs => .inr (hs.without _ _)

/-! ## Recovery before a request -/

/-- The requests of a backup: those that start with the recovery. -/
def Backs (message : ClientMessage) : Prop :=
  message.type = .PROB ∨ message.type = .STOR ∨ message.type = .DELE ∨ message.type = .MKD ∨
    message.type = .RMD

variable (session) in
theorem dispatch_backs {message : ClientMessage} (hbacks : Backs message) :
    ∃ rest : Unit → ServerProcedure Unit,
      dispatch session message = recoverIfNeeded session >>= rest := by
  unfold dispatch
  rcases hbacks with htype | htype | htype | htype | htype
  · exact ⟨_, by rw [htype]; rfl⟩
  · exact ⟨_, by rw [htype]; rfl⟩
  · exact ⟨_, by rw [htype]; rfl⟩
  · exact ⟨_, by rw [htype]; rfl⟩
  · exact ⟨_, by rw [htype]; rfl⟩

/-- A request of a backup starts from the state the recovery leaves. -/
theorem dispatch_of_recovers {s middle : ServerState} {message : ClientMessage}
    (hbacks : Backs message) (hrecover : recoverIfNeeded session s = .returned () middle)
    (hrecovered : middle.recovered = true) :
    dispatch session message s = dispatch session message middle := by
  obtain ⟨rest, heq⟩ := dispatch_backs session hbacks
  rw [heq, bind_of_returned hrecover,
    bind_of_returned (recoverIfNeeded_of_recovered session middle hrecovered)]

/-- The routine does not use the connection. -/
def Detached {α : Type} (p : ServerProcedure α) : Prop :=
  ∀ connection, Keeps (fun s => s.connection = connection) p

theorem Detached.recoverIfNeeded : Detached (recoverIfNeeded session) := fun _ =>
  Unrecorded.recoverIfNeeded ⟨fun _ _ hs => hs, fun _ _ hs => hs, fun _ hs => hs⟩

/-- What is known of a session between two calls. -/
def Known (session : Session) (unique : Prop) (s : ServerState) : Prop :=
  Prepared session unique s ∨ Tracked session unique s

theorem recoverIfNeeded_ends (hcuts : Cuts session) {s : ServerState}
    (h : Known session unique s) (hsettled : Settled False s) :
    (∃ middle, recoverIfNeeded session s = .returned () middle ∧ Tracked session unique middle ∧
        middle.connection = s.connection ∧ middle.database.inTransaction = false) ∨
      ∃ exception s', recoverIfNeeded session s = .raised exception s' ∧ ¬ Skipped exception := by
  rcases h with hprepared | htracked
  · have hrun : recoverIfNeeded session s = recoverFromDB session s := by
      simp [recoverIfNeeded, hprepared.recovered]
    have hends := recoverFromDB_tracked hcuts hprepared
    have hdetached : Detached (recoverIfNeeded session) := Detached.recoverIfNeeded
    have hsettles : Settles False (recoverIfNeeded session) := Settles.recoverIfNeeded session
    cases hcall : recoverIfNeeded session s with
    | returned _ middle =>
        exact .inl ⟨middle, rfl, hends.returned rfl (hrun.symm.trans hcall),
          (hdetached s.connection).returned rfl hcall, (hsettles.returned hsettled hcall).idle⟩
    | raised exception s' =>
        exact .inr ⟨exception, s', rfl, hends.raised rfl (hrun.symm.trans hcall)⟩
  · exact .inl ⟨s, recoverIfNeeded_of_recovered session s htracked.recovered, htracked, rfl,
      hsettled.idle⟩

/-! ## A call -/

variable {placement : Placement session} {message : ClientMessage}

theorem dispatch_honest (placement : Placement session) (hcuts : Cuts session)
    {start : ServerState} (h : Tracked session unique start)
    (hidle : start.database.inTransaction = false) (hbacks : Backs message)
    (hcanonical : PathCanonical message) :
    Honest session unique start (Promised session start message) start
      (dispatch session message) := by
  unfold dispatch
  rcases hbacks with htype | htype | htype | htype | htype
  · rw [htype]
    exact probe_honest placement h htype
  · rw [htype]
    exact storeFile_honest placement h hidle htype (hcanonical (.inl htype))
  · rw [htype]
    exact removeFile_honest placement h htype
  · rw [htype]
    exact makeDir_honest placement hcuts h htype (hcanonical (.inr (.inl htype)))
  · rw [htype]
    exact removeDir_honest placement hcuts h hidle htype

theorem Known.sent {s : ServerState} (h : Known session unique s) (message : ServerMessage) :
    Known session unique (s.sent message) := by
  rcases h with hprepared | htracked
  · exact .inl ⟨hprepared.recovered, hprepared.single, hprepared.elements, hprepared.rows⟩
  · exact .inr (htracked.sent message)

/-- Whatever the request, what is known of the session stays known. -/
theorem dispatch_known (placement : Placement session) (hcuts : Cuts session) {s : ServerState}
    (h : Known session unique s) (hsettled : Settled False s) (hcanonical : PathCanonical message) :
    Meets (fun s' => s' = s) (dispatch session message) (fun _ => Known session unique)
      fun exception s' => Skipped exception → Known session unique s' := by
  by_cases hbacks : Backs message
  · rcases recoverIfNeeded_ends hcuts h hsettled with
      ⟨middle, hrecover, htracked, -, hidle⟩ | ⟨exception, s', hraised, hexception⟩
    · rintro s' rfl
      rw [dispatch_of_recovers hbacks hrecover htracked.recovered]
      have hhonest := dispatch_honest placement hcuts htracked hidle hbacks hcanonical
      exact hhonest.consequence (fun _ hs => hs) (fun _ _ hs => .inr hs.1)
        (fun _ _ hs hskipped => .inr (hs hskipped).1) middle rfl
    · obtain ⟨rest, heq⟩ := dispatch_backs session hbacks
      rw [heq]
      exact Meets.then_raised hraised fun hskipped => absurd hskipped hexception
  · unfold dispatch
    cases htype : message.type with
    | RETR =>
        rcases h with hprepared | htracked
        · apply (retrieveUserData_prepared hprepared).consequence
          · exact fun _ hs => hs
          · exact fun _ _ hs => .inl hs
          · exact fun _ _ hs _ => .inl hs
        · apply (retrieveUserData_tracked htracked).consequence
          · exact fun _ hs => hs
          · exact fun _ _ hs => .inr hs
          · exact fun _ _ hs _ => .inr hs
    | NOOP | DATA | AUTH | unknown =>
        rcases refuse_cases (α := Unit) session s .unexpected
          (.protocolManager .unexpected) with hrun | hrun
        · exact Meets.ends_raised hrun fun _ => h.sent _
        · exact Meets.ends_raised hrun fun hskipped => absurd hskipped (by decide)
    | _ => exact absurd (by simp [Backs, htype]) hbacks

theorem Known.withIncoming {s : ServerState} (h : Known session unique s)
    (incoming : List ClientMessage) : Known session unique (s.withIncoming incoming) := by
  rcases h with hprepared | htracked
  · exact .inl ⟨hprepared.recovered, hprepared.single, hprepared.elements, hprepared.rows⟩
  · exact .inr ⟨htracked.recovered, htracked.single, htracked.at_path⟩

theorem Reached.known {start s : ServerState} (placement : Placement session)
    (hcuts : Cuts session) (hstart : Known session unique start) (hsettled : Settled False start)
    (hreached : Reached session (fun _ => PathCanonical) start s) : Known session unique s := by
  induction hreached with
  | start => exact hstart
  | call hreached hincoming hcanonical hreceive ih =>
      have hs := hreached.settled hsettled
      exact receive_returns hincoming (dispatch_known placement hcuts (ih.withIncoming _)
        ⟨⟨hs.delivered, hs.recovered⟩, hs.idle⟩ hcanonical) hreceive

/-! ## Every run -/

/-- The paths of the elements are those of the rows, each path has one row, and
the disk has an object of the recorded type. -/
structure StoresAgree (session : Session) (s : ServerState) : Prop where
  paths : ∀ path, path ∈ s.elements.keys ↔
    ∃ row ∈ s.database.rows, row.isAt session.username session.mac path = true
  rows : ∀ path ∈ s.elements.keys, (rowsAt session path s.database.rows).length = 1
  objects : ∀ row ∈ s.database.rows, row.isOf session.username session.mac = true →
    ∃ el node, s.elements.lookup row.path = some el ∧ row.columns.type = el.typeName ∧
      s.disk.status (session.userPath ++ row.path) = some node ∧ el.type = .ofNode node

theorem Tracked.storesAgree {s : ServerState} (h : Tracked session True s) :
    StoresAgree session s := by
  have hmem : ∀ {path : Text}, (∃ row ∈ s.database.rows,
      row.isAt session.username session.mac path = true) ↔
        rowsAt session path s.database.rows ≠ [] := by
    intro path
    rw [Ne, rowsAt, List.filter_eq_nil_iff]
    simp
  constructor
  · intro path
    have hat := h.at_path path
    unfold TrackedAt at hat
    rw [hmem, KeyedMap.mem_keys_iff]
    cases hlookup : s.elements.lookup path with
    | none =>
        rw [hlookup] at hat
        simp [hat]
    | some el =>
        rw [hlookup] at hat
        simp [hat.2.1]
  · intro path hpath
    have hat := h.at_path path
    unfold TrackedAt at hat
    obtain ⟨el, hlookup⟩ := Option.isSome_iff_exists.mp ((KeyedMap.mem_keys_iff _ _).mp hpath)
    rw [hlookup] at hat
    have hpositive := List.length_pos_iff.mpr hat.2.1
    have hsingle := h.single trivial path
    omega
  · intro row hrow hof
    have hat := h.at_path row.path
    unfold TrackedAt at hat
    have hrowsAt : row ∈ rowsAt session row.path s.database.rows :=
      List.mem_filter.mpr ⟨hrow, isAt_iff.mpr ⟨hof, rfl⟩⟩
    cases hlookup : s.elements.lookup row.path with
    | none =>
        rw [hlookup] at hat
        simp [hat] at hrowsAt
    | some el =>
        rw [hlookup] at hat
        obtain ⟨shape, hshape, hmatches⟩ := hat.1.object
        obtain ⟨node, hstatus, rfl⟩ := Option.map_eq_some_iff.mp hshape
        refine ⟨el, node, rfl, (hat.2.2 row hrowsAt).type, hstatus, ?_⟩
        cases node with
        | file content mtime => exact hmatches.1
        | dir mtime => exact hmatches.1

/-- The rows a session can be started on. -/
def RowsCanonical (session : Session) (rows : List Row) : Prop :=
  ∀ row ∈ rows, row.isOf session.username session.mac = true → Canonical row.path

theorem Fresh.prepared {start : ServerState} (hfresh : Fresh start)
    (hrows : RowsCanonical session start.database.rows)
    (hsingle : Single session unique start.database.rows) : Prepared session unique start :=
  ⟨hfresh.recovered, hsingle, hfresh.elements, hrows⟩

/-- In every run of a session that starts on any disk and on any rows with at
most one for a path, and in which all paths are canonical, the three stores agree
in every state from the recovery on. -/
theorem stores_agree {start s : ServerState} (placement : Placement session)
    (hcuts : Cuts session) (hfresh : Fresh start)
    (hrows : RowsCanonical session start.database.rows)
    (hsingle : ∀ path, (rowsAt session path start.database.rows).length ≤ 1)
    (hreached : Reached session (fun _ => PathCanonical) start s) (hrecovered : s.recovered = true) :
    StoresAgree session s := by
  have hstart : Known session True start := .inl (hfresh.prepared hrows fun _ => hsingle)
  have hknown := hreached.known placement hcuts hstart hfresh.settled
  rcases hknown with hprepared | htracked
  · simp [hprepared.recovered] at hrecovered
  · exact htracked.storesAgree

/-- A session that starts on the row of a file that is gone, and is asked for a
directory. -/
def staleStart : ServerState :=
  startSession annaDisk
    { rows := [{
        username := annaSession.username
        mac := annaSession.mac
        path := "/gone".toList
        type := "file".toList
        size := 0
        lastWriteTime := epoch
        hash := stringToHex emptyFileHash }] }
    [mkdRequest "/a".toList]

theorem stores_agree_stale : StoresAgree annaSession (receive annaSession staleStart).state := by
  have hends : (receive annaSession staleStart).returns = true ∧
      (receive annaSession staleStart).state.recovered = true := by
    decide +kernel
  refine stores_agree annaPlacement (cuts_of_literal (by decide +kernel))
    (startSession_fresh _ _ _ rfl) ?_ ?_
    (.call .start rfl ?_ (Exit.eq_returned_of_returns hends.1)) hends.2
  · intro row hrow _
    rw [List.mem_singleton.mp hrow]
    decide
  · exact fun path => List.length_filter_le _ _
  · intro _ path hpath
    have heq : path = "/a".toList := Option.some.inj (hpath.symm.trans (by decide +kernel))
    rw [heq]
    decide

/-- A session of a user whose name is a regular expression. -/
def plusSession : Session := { annaSession with username := "a.+b".toList }

def plusPlacement : Placement plusSession where
  base := ["srv".toList]
  temp := ["tmp".toList]
  base_plain := annaPlacement.base_plain
  temp_plain := annaPlacement.temp_plain
  temp_ne := annaPlacement.temp_ne
  basePath_eq := by decide
  temporaryPath_eq := by decide
  username_valid := by decide +kernel
  mac_valid := ⟨annaSession.mac, by decide +kernel⟩
  temp_outside := by decide +kernel
  folder_outside := by decide +kernel

def plusStart : ServerState :=
  startSession annaDisk {} [mkdRequest "/b_1-2-3-4-5-6/y".toList]

/-- The path of the directory is cut where the expression says, not where the
folder ends. -/
theorem not_stores_agree :
    ¬ ∀ (session : Session) (_ : Placement session) (start s : ServerState),
      Fresh start → start.database.rows = [] →
      Reached session (fun _ => PathCanonical) start s → s.recovered = true →
      StoresAgree session s := by
  intro hclaim
  have hmessage : PathCanonical (mkdRequest "/b_1-2-3-4-5-6/y".toList) := by
    intro _ path hpath
    have heq : path = "/b_1-2-3-4-5-6/y".toList :=
      Option.some.inj (hpath.symm.trans (by decide +kernel))
    rw [heq]
    decide
  have hends : (receive plusSession plusStart).returns = true ∧
      (receive plusSession plusStart).state.recovered = true ∧
      "/y".toList ∈ (receive plusSession plusStart).state.elements.keys ∧
      (receive plusSession plusStart).state.disk.status (plusSession.userPath ++ "/y".toList) =
        none := by
    decide +kernel
  obtain ⟨hreturns, hrecovered, hkey, hnone⟩ := hends
  have hagree := hclaim plusSession plusPlacement plusStart _ (startSession_fresh _ _ _ rfl) rfl
    (.call .start rfl hmessage (Exit.eq_returned_of_returns hreturns)) hrecovered
  obtain ⟨row, hrow, hat⟩ := (hagree.paths _).mp hkey
  obtain ⟨hof, hpath⟩ := isAt_iff.mp hat
  obtain ⟨el, node, -, -, hstatus, -⟩ := hagree.objects row hrow hof
  rw [hpath, hnone] at hstatus
  simp at hstatus

/-! ## The answers of a run -/

/-- The state a request is handled in: its message was read, and the session has
recovered. -/
def ServerState.handled (session : Session) (pending : List ClientMessage) (s : ServerState) :
    ServerState := (recoverIfNeeded session (s.withIncoming pending)).state

theorem okMessage_injective {code other : OkCode}
    (heq : okMessage session code = okMessage session other) : code = other := by
  have hcode : code.code = other.code := congrArg ServerMessage.code heq
  have hnames := OkCode.ofCode_code code
  rw [hcode, OkCode.ofCode_code, Option.some.injEq] at hnames
  exact hnames.symm

/-- An OK that was told is the one that was sent. -/
theorem Told.truth {start s : ServerState} {truth : OkCode → ServerState → Prop}
    {sent : List ServerMessage} {code : OkCode} (h : Told session start truth s)
    (hsent : s.connection.outgoing = start.connection.outgoing ++ sent)
    (hok : okMessage session code ∈ sent) : truth code s := by
  rcases h with hconfirmed | ⟨other, houtgoing, htruth⟩
  · rw [ServerState.confirmed, hsent, List.filter_append, ServerState.confirmed] at hconfirmed
    have hnil := List.append_right_eq_self.mp hconfirmed
    have hmem : okMessage session code ∈ sent.filter fun message => message.type = .OK :=
      List.mem_filter.mpr ⟨hok, by simp [okMessage]⟩
    simp [hnil] at hmem
  · rw [hsent, List.append_cancel_left_eq] at houtgoing
    rw [houtgoing, List.mem_singleton] at hok
    rw [okMessage_injective hok]
    exact htruth

/-- What is said of a transfer depends on the messages that were to come. -/
theorem Truth.of_connection {start start' s : ServerState} {message : ClientMessage} {path : Text}
    {code : OkCode} (hconnection : start'.connection = start.connection)
    (h : Truth session start message path code s) : Truth session start' message path code s := by
  unfold Truth HasStored at h ⊢
  rwa [hconnection]

/-- In every run of a session in which all paths are canonical, every OK to a
request that can be verified is true. -/
theorem ok_is_true {start s s' : ServerState} {message : ClientMessage}
    {pending : List ClientMessage} {sent : List ServerMessage} {code : OkCode} {path : Text}
    (placement : Placement session) (hcuts : Cuts session) (hfresh : Fresh start)
    (hrows : RowsCanonical session start.database.rows)
    (hreached : Reached session (fun _ => PathCanonical) start s)
    (hincoming : s.connection.incoming = message :: pending) (hbacks : Backs message)
    (hpath : Validator.validatePath message.path = some path) (hcanonical : Canonical path)
    (hverifiable : Verifiable session (s.handled session pending) message path)
    (hreceive : receive session s = .returned () s')
    (hsent : s'.connection.outgoing = s.connection.outgoing ++ sent)
    (hok : okMessage session code ∈ sent) :
    Truth session (s.withIncoming pending) message path code s' := by
  have hstart : Known session False start := .inl (hfresh.prepared hrows False.elim)
  have hknown := (hreached.known placement hcuts hstart hfresh.settled).withIncoming pending
  have hsettled := hreached.settled hfresh.settled
  have hread : Settled False (s.withIncoming pending) :=
    ⟨⟨hsettled.delivered, False.elim⟩, hsettled.idle⟩
  rcases recoverIfNeeded_ends hcuts hknown hread with
    ⟨middle, hrecover, htracked, hconnection, hidle⟩ | ⟨exception, s₁, hraised, hexception⟩
  · have hhandled : s.handled session pending = middle := by
      rw [ServerState.handled, hrecover]
      rfl
    rw [hhandled] at hverifiable
    have hdispatch : Meets (fun s₁ => s₁ = s.withIncoming pending) (dispatch session message)
        (fun _ => Told session middle (Promised session middle message))
        fun exception s₁ => Skipped exception →
          Told session middle (Promised session middle message) s₁ := by
      rintro s₁ rfl
      rw [dispatch_of_recovers hbacks hrecover htracked.recovered]
      have hmessage : PathCanonical message := by
        intro _ other hother
        rw [hpath, Option.some.injEq] at hother
        rwa [← hother]
      have hhonest := dispatch_honest placement hcuts htracked hidle hbacks hmessage
      exact hhonest.consequence (fun _ hs => hs) (fun _ _ hs => hs.2)
        (fun _ _ hs hskipped => .inl (hs hskipped).2) middle rfl
    have htold := receive_returns hincoming hdispatch hreceive
    have houtgoing : middle.connection.outgoing = s.connection.outgoing := by
      rw [hconnection]
      rfl
    rw [← houtgoing] at hsent
    obtain ⟨found, hfound, htruth⟩ := htold.truth hsent hok
    rw [hpath, Option.some.injEq] at hfound
    subst hfound
    exact (htruth hcanonical hverifiable).of_connection hconnection.symm
  · exfalso
    have hdispatch : Meets (fun s₂ => s₂ = s.withIncoming pending) (dispatch session message)
        (fun _ _ => False) fun exception _ => Skipped exception → False := by
      obtain ⟨rest, heq⟩ := dispatch_backs session hbacks
      rw [heq]
      exact Meets.then_raised hraised hexception
    exact receive_returns hincoming hdispatch hreceive

/-- A request for a directory. -/
def singleMkd : ServerState := startSession annaDisk {} [mkdRequest "/a".toList]

theorem ok_is_true_mkd :
    Truth annaSession (singleMkd.withIncoming []) (mkdRequest "/a".toList) "/a".toList .created
      (receive annaSession singleMkd).state := by
  have hends : (receive annaSession singleMkd).returns = true ∧
      (receive annaSession singleMkd).state.connection.outgoing =
        [okMessage annaSession .created] ∧
      (singleMkd.handled annaSession []).elements.lookup "/a".toList = none := by
    decide +kernel
  obtain ⟨hreturns, houtgoing, hlookup⟩ := hends
  refine ok_is_true annaPlacement (cuts_of_literal (by decide +kernel))
    (startSession_fresh _ _ _ rfl) ?_ .start rfl (.inr (.inr (.inr (.inl rfl))))
    (by decide +kernel) (by decide) ?_ (Exit.eq_returned_of_returns hreturns) houtgoing
    (List.mem_singleton.mpr rfl)
  · exact fun row hrow _ => absurd hrow (by simp [startSession])
  · constructor
    · intro el hel
      exact absurd (hlookup.symm.trans hel) (by simp)
    · exact fun _ _ => rfl

/-- A directory that was made on the way to another one is to be removed. -/
def implicitStart : ServerState :=
  startSession annaDisk {} [mkdRequest "/d/e".toList, rmdRequest "/d".toList]

def implicitParent : ServerState := (receive annaSession implicitStart).state

/-- What is not tracked is said not to be there. -/
theorem not_ok_is_true :
    ¬ ∀ (session : Session) (_ : Placement session) (start s s' : ServerState)
      (message : ClientMessage) (pending : List ClientMessage) (sent : List ServerMessage)
      (code : OkCode) (path : Text), Cuts session → Fresh start → start.database.rows = [] →
      Reached session (fun _ => PathCanonical) start s →
      s.connection.incoming = message :: pending → Backs message →
      Validator.validatePath message.path = some path → Canonical path →
      receive session s = .returned () s' →
      s'.connection.outgoing = s.connection.outgoing ++ sent → okMessage session code ∈ sent →
      Truth session (s.withIncoming pending) message path code s' := by
  intro hclaim
  have hmessage : PathCanonical (mkdRequest "/d/e".toList) := by
    intro _ path hpath
    have heq : path = "/d/e".toList := Option.some.inj (hpath.symm.trans (by decide +kernel))
    rw [heq]
    decide
  have hends : (receive annaSession implicitStart).returns = true ∧
      implicitParent.connection.incoming = [rmdRequest "/d".toList] ∧
      (receive annaSession implicitParent).returns = true ∧
      (receive annaSession implicitParent).state.connection.outgoing =
        implicitParent.connection.outgoing ++ [okMessage annaSession .notThere] ∧
      ((receive annaSession implicitParent).state.disk.status
        (annaSession.userPath ++ "/d".toList)).isSome = true := by
    decide +kernel
  obtain ⟨hfirst, hincoming, hsecond, houtgoing, hsome⟩ := hends
  have htruth : HasNothing annaSession "/d".toList _ :=
    hclaim annaSession annaPlacement implicitStart implicitParent _ (rmdRequest "/d".toList) []
      _ .notThere "/d".toList (cuts_of_literal (by decide +kernel)) (startSession_fresh _ _ _ rfl)
      rfl (.call .start rfl hmessage (Exit.eq_returned_of_returns hfirst)) hincoming
      (.inr (.inr (.inr (.inr rfl)))) (by decide +kernel) (by decide)
      (Exit.eq_returned_of_returns hsecond) houtgoing (List.mem_singleton.mpr rfl)
  rw [htruth.1] at hsome
  simp at hsome

end PdsBackup.Server
