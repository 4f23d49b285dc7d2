import PdsBackup.Server.Tracking
import PdsBackup.Server.Retrieval

/-!
# Answers and what they are about

While the three stores agree about every path, an OK says something about the
disk: the file that was asked for is there, the directory was made, nothing is
left at the path.  Each handler is followed from a known state in which they
agree; it ends in one in which they agree, and if it has sent an OK then, under a
condition on the state before the request, the OK is true.
-/

namespace PdsBackup.Server

open Procedure

variable {session : Session} {unique : Prop}

/-! ## What the answers say -/

/-- The file at a path has the hash and the time of the message. -/
def HasFile (session : Session) (message : ClientMessage) (path : Text) (s : ServerState) : Prop :=
  ∃ content mtime, s.disk.status (session.userPath ++ path) = some (.file content mtime) ∧
    Hash.ofBytes message.hash = some (session.platform.sha256 content) ∧
    session.platform.putTime mtime = message.lastWriteTime

/-- The file at a path is made of the DATA messages that were read. -/
def HasStored (session : Session) (start : ServerState) (message : ClientMessage) (path : Text)
    (s : ServerState) : Prop :=
  ∃ taken mtime, start.connection.incoming = taken ++ s.connection.incoming ∧ DataRun taken ∧
    s.disk.status (session.userPath ++ path) = some (.file (payload taken) mtime) ∧
    (payload taken).length = message.fileSize ∧
    Hash.ofBytes message.hash = some (session.platform.sha256 (payload taken)) ∧
    session.platform.putTime mtime = message.lastWriteTime

/-- There is a directory at a path, with this time. -/
def HasDir (session : Session) (lastWriteTime path : Text) (s : ServerState) : Prop :=
  ∃ mtime, s.disk.status (session.userPath ++ path) = some (.dir mtime) ∧
    session.platform.putTime mtime = lastWriteTime

/-- Nothing is at a path, and nothing is recorded at it or below it. -/
def HasNothing (session : Session) (path : Text) (s : ServerState) : Prop :=
  s.disk.status (session.userPath ++ path) = none ∧
    ∀ other, other = path ∨ path ++ ['/'] <+: other →
      s.elements.lookup other = none ∧ rowsAt session other s.database.rows = []

/-- What an OK says about the path of its request. -/
def Truth (session : Session) (start : ServerState) (message : ClientMessage) (path : Text)
    (code : OkCode) (s : ServerState) : Prop :=
  match message.type, code with
  | .PROB, .found => HasFile session message path s
  | .STOR, .created => HasStored session start message path s
  | .MKD, .created => HasDir session message.lastWriteTime path s
  | .DELE, .removed | .DELE, .notThere | .RMD, .removed | .RMD, .notThere =>
      HasNothing session path s
  | _, _ => False

/-! ## When they are true -/

/-- A time is read back as it was set. -/
def ReadBack (session : Session) (time : Text) : Prop :=
  session.platform.putTime (session.platform.getTime time) = time

/-- The request is not one of those that are answered by an OK without a look at
the disk: a time that is set is read back, a directory that is said to be there
already is, and what is not tracked is not there. -/
def Verifiable (session : Session) (s : ServerState) (message : ClientMessage) (path : Text) :
    Prop :=
  match message.type with
  | .PROB => ∀ el, s.elements.lookup path = some el → el.isRegularFile = true →
      Hash.ofBytes message.hash = some el.hash → el.lastWriteTime ≠ message.lastWriteTime →
        ReadBack session message.lastWriteTime
  | .MKD =>
      (∀ el, s.elements.lookup path = some el → el.lastWriteTime = message.lastWriteTime →
        HasDir session message.lastWriteTime path s) ∧
      ((∀ el, s.elements.lookup path = some el → el.lastWriteTime ≠ message.lastWriteTime) →
        (∀ content mtime, s.disk.status (session.userPath ++ path) ≠ some (.file content mtime)) →
          ReadBack session message.lastWriteTime)
  | .DELE | .RMD => s.elements.lookup path = none →
      s.disk.status (session.userPath ++ path) = none
  | _ => True

/-- No OK was sent, or one that is true. -/
def Told (session : Session) (start : ServerState) (truth : OkCode → ServerState → Prop)
    (s : ServerState) : Prop :=
  s.confirmed = start.confirmed ∨
    ∃ code, s.connection.outgoing = start.connection.outgoing ++ [okMessage session code] ∧
      truth code s

/-- From a known state, the routine leaves every path tracked, and sends no OK
that is not true. -/
def Honest (session : Session) (unique : Prop) (start : ServerState)
    (truth : OkCode → ServerState → Prop) {α : Type} (s : ServerState) (p : ServerProcedure α) :
    Prop :=
  Meets (fun s' => s' = s) p
    (fun _ s' => Tracked session unique s' ∧ Told session start truth s')
    (fun exception s' => Skipped exception →
      Tracked session unique s' ∧ s'.confirmed = start.confirmed)

namespace Honest

variable {α β : Type} {start s middle : ServerState} {truth : OkCode → ServerState → Prop}

theorem then_returned {p : ServerProcedure α} {f : α → ServerProcedure β} {value : α}
    (hrun : p s = .returned value middle)
    (hrest : Honest session unique start truth middle (f value)) :
    Honest session unique start truth s (p >>= f) := Meets.then_returned hrun hrest

/-- An exception that is not skipped ends the session. -/
theorem then_raised {p : ServerProcedure α} {f : α → ServerProcedure β}
    {exception : ServerException} (hrun : p s = .raised exception middle)
    (hexception : ¬ Skipped exception) : Honest session unique start truth s (p >>= f) :=
  Meets.then_raised hrun fun hskipped => absurd hskipped hexception

theorem read {g : ServerState → α} {f : α → ServerProcedure β}
    (hf : Honest session unique start truth s (f (g s))) :
    Honest session unique start truth s (Procedure.read g >>= f) := then_returned rfl hf

theorem ite {condition : Prop} [Decidable condition] {p q : ServerProcedure α}
    (hthen : condition → Honest session unique start truth s p)
    (helse : ¬ condition → Honest session unique start truth s q) :
    Honest session unique start truth s (if condition then p else q) := Meets.ite hthen helse

theorem orRaise {exception : ServerException} {value : Option α} {f : α → ServerProcedure β}
    (htracked : Tracked session unique s) (hconfirmed : s.confirmed = start.confirmed)
    (hf : ∀ result, value = some result → Honest session unique start truth s (f result)) :
    Honest session unique start truth s (Procedure.orRaise exception value >>= f) := by
  cases value with
  | none => exact Meets.then_raised rfl fun _ => ⟨htracked, hconfirmed⟩
  | some result => exact then_returned rfl (hf result rfl)

theorem ensure {exception : ServerException} {condition : Bool} {f : Unit → ServerProcedure β}
    (htracked : Tracked session unique s) (hconfirmed : s.confirmed = start.confirmed)
    (hf : condition = true → Honest session unique start truth s (f ())) :
    Honest session unique start truth s (Procedure.ensure exception condition >>= f) := by
  cases condition with
  | false => exact Meets.then_raised rfl fun _ => ⟨htracked, hconfirmed⟩
  | true => exact then_returned rfl (hf rfl)

theorem refuse {code : ErrCode} {exception : ServerException}
    (htracked : Tracked session unique s) (hconfirmed : s.confirmed = start.confirmed) :
    Honest session unique start truth s
      (refuse session code exception : ServerProcedure α) := by
  rcases refuse_cases session s code exception with hrun | hrun
  · apply Meets.ends_raised hrun
    intro _
    exact ⟨htracked.sent _, (ServerState.confirmed_sent (errMessage_ne_OK code)).trans hconfirmed⟩
  · exact Meets.ends_raised hrun fun hskipped => absurd hskipped (by decide)

theorem sendSEND {path : Text} {hash : Hash} (htracked : Tracked session unique s)
    (hconfirmed : s.confirmed = start.confirmed) :
    Honest session unique start truth s (sendSEND session path hash) := by
  have hmessage : (sendMessage session path hash).type ≠ .OK := by simp [sendMessage]
  rcases sendServerMessage_cases s (sendMessage session path hash) with hrun | hrun
  · exact Meets.ends_returned hrun
      ⟨htracked.sent _, .inl ((ServerState.confirmed_sent hmessage).trans hconfirmed)⟩
  · exact Meets.ends_raised hrun fun hskipped => absurd hskipped (by decide)

theorem sendOK {code : OkCode} (htracked : Tracked session unique s)
    (houtgoing : s.connection.outgoing = start.connection.outgoing)
    (htruth : truth code (s.sent (okMessage session code))) :
    Honest session unique start truth s (sendOK session code) := by
  rcases sendServerMessage_cases s (okMessage session code) with hrun | hrun
  · apply Meets.ends_returned hrun
    refine ⟨htracked.sent _, .inr ⟨code, ?_, htruth⟩⟩
    rw [← houtgoing]
    rfl
  · exact Meets.ends_raised hrun fun hskipped => absurd hskipped (by decide)

end Honest

/-! ## Elements and their objects -/

section Objects

variable {tree : FileTree} {path : Text} {el : DirectoryEntry} {s : ServerState}

theorem Backed.file (h : Backed session tree path el) (hfile : el.isRegularFile = true) :
    ∃ content mtime, tree.status (session.userPath ++ path) = some (.file content mtime) ∧
      el.hash = session.platform.sha256 content ∧
      el.lastWriteTime = session.platform.putTime mtime := by
  obtain ⟨shape, hshape, hmatches⟩ := h.object
  obtain ⟨node, hstatus, rfl⟩ := Option.map_eq_some_iff.mp hshape
  cases node with
  | file content mtime => exact ⟨content, mtime, hstatus, hmatches.2⟩
  | dir mtime =>
      have hdir : el.type = .directory := hmatches.1
      simp [DirectoryEntry.isRegularFile, hdir] at hfile

theorem Backed.directory (h : Backed session tree path el) (hdir : el.isDirectory = true) :
    ∃ mtime, tree.status (session.userPath ++ path) = some (.dir mtime) := by
  obtain ⟨shape, hshape, hmatches⟩ := h.object
  obtain ⟨node, hstatus, rfl⟩ := Option.map_eq_some_iff.mp hshape
  cases node with
  | file content mtime =>
      have hfile : el.type = .file := hmatches.1
      simp [DirectoryEntry.isDirectory, hfile] at hdir
  | dir mtime => exact ⟨mtime, hstatus⟩

theorem Backed.present {disk : Disk} (h : Backed session disk.tree path el) :
    disk.present el.absolutePath = true := by
  obtain ⟨shape, hshape, -⟩ := h.object
  obtain ⟨node, hstatus, -⟩ := Option.map_eq_some_iff.mp hshape
  rw [Disk.present, Disk.status, h.absolutePath, hstatus]
  rfl

/-- A text that goes on below a written path writes a path below it. -/
theorem suffix_of_prefix {names below : List Text} (hnames : PlainPath names)
    (hbelow : PlainPath below) (hstarts : render names ++ ['/'] <+: render below) :
    names <:+ below := by
  obtain ⟨rest, hrest⟩ := hstarts
  have hsplit := components_render hbelow
  rw [components, cString_eq_self (nul_notMem_render hbelow), ← hrest, List.append_assoc,
    List.singleton_append, List.splitOn_append_cons_self] at hsplit
  have hnamesSplit := components_render hnames
  rw [components, cString_eq_self (nul_notMem_render hnames)] at hnamesSplit
  rw [hnamesSplit, List.cons_append] at hsplit
  have hreverse := congrArg List.reverse (List.cons.inj hsplit).2
  rw [List.reverse_append, List.reverse_reverse, List.reverse_reverse] at hreverse
  exact ⟨_, hreverse⟩

/-- Where nothing is on the disk, nothing is recorded, there or below. -/
theorem Tracked.hasNothing (placement : Placement session) (h : Tracked session unique s)
    (hpath : Canonical path) (hnone : s.disk.status (session.userPath ++ path) = none) :
    HasNothing session path s := by
  refine ⟨hnone, fun other hother => ?_⟩
  have hlookup : s.elements.lookup other = none := by
    cases hfound : s.elements.lookup other with
    | none => rfl
    | some el =>
        exfalso
        have hbacked := h.backed hfound
        obtain ⟨names, -, hnames, rfl⟩ := (canonical_iff path).mp hpath
        obtain ⟨below, -, hbelow, rfl⟩ := (canonical_iff other).mp hbacked.canonical
        obtain ⟨shape, hshape, -⟩ := hbacked.object
        rw [shapeAt_render placement _ hbelow] at hshape
        have hsome : (s.disk.tree.node (placement.inside below)).isSome = true := by
          simp [← FileTree.isSome_shape, hshape]
        have hsuffix : names <:+ below := by
          rcases hother with heq | hstarts
          · exact ⟨[], (render_injective hbelow hnames heq).symm⟩
          · exact suffix_of_prefix hnames hbelow hstarts
        have habove := s.disk.tree.isSome_of_suffix
          (Placement.inside_suffix_iff.mpr hsuffix) hsome
        rw [Disk.status, placement.status_inside _ hnames] at hnone
        simp [hnone] at habove
  exact ⟨hlookup, h.rowsAt_eq_nil hlookup⟩

end Objects

section Handlers

variable {start : ServerState} {message : ClientMessage}

/-- What an OK to a message says if the message could be verified. -/
def Promised (session : Session) (start : ServerState) (message : ClientMessage) (code : OkCode)
    (s : ServerState) : Prop :=
  ∃ path, Validator.validatePath message.path = some path ∧
    (Canonical path → Verifiable session start message path →
      Truth session start message path code s)

/-! ## PROB -/

/-- The time of a file and of its element are set. -/
theorem Tracked.retimed (placement : Placement session) {s : ServerState} {path : Text}
    {el : DirectoryEntry} {place : Path} (time : Int) (h : Tracked session unique s)
    (hlookup : s.elements.lookup path = some el) (hfile : el.isRegularFile = true)
    (hresolve : s.disk.tree.resolve el.absolutePath = some place) :
    Tracked session unique
      { s with
        disk := s.disk.setTime place time
        elements := s.elements.insert path
          { el with lastWriteTime := session.platform.putTime time } } ∧
    ∃ content, (s.disk.setTime place time).status (session.userPath ++ path) =
        some (.file content time) ∧ el.hash = session.platform.sha256 content := by
  have hbacked := h.backed hlookup
  obtain ⟨content, mtime, hstatus, hhash, -⟩ := hbacked.file hfile
  obtain ⟨names, -, hnames, rfl⟩ := (canonical_iff path).mp hbacked.canonical
  rw [hbacked.absolutePath] at hresolve
  obtain rfl := placement.eq_inside_of_resolve hnames hresolve
  rw [placement.status_inside _ hnames] at hstatus
  have hnode : (s.disk.setTime (placement.inside names) time).tree.node (placement.inside names) =
      some (.file content time) := by
    rw [Disk.setTime, FileTree.node_retime, if_pos rfl, hstatus]
    rfl
  have hshape : shapeAt session (s.disk.setTime (placement.inside names) time).tree
      (render names) = some (.file content time) := by
    rw [shapeAt_render placement _ hnames, FileTree.shape, hnode]
    rfl
  refine ⟨⟨h.recovered, h.single, fun other => ?_⟩, content, ?_, hhash⟩
  · have hlookup' := KeyedMap.lookup_insert s.elements (render names) other
      { el with lastWriteTime := session.platform.putTime time }
    by_cases hother : other = render names
    · have hat := h.at_path (render names)
      rw [if_pos hother] at hlookup'
      rw [TrackedAt, hlookup] at hat
      rw [TrackedAt, hlookup', hother]
      obtain ⟨-, hsome, hrows⟩ := hat
      refine ⟨⟨hbacked.canonical, hbacked.relativePath, hbacked.absolutePath, _, hshape, ?_⟩,
        hsome, fun row hrow => ⟨(hrows row hrow).type, (hrows row hrow).hash⟩⟩
      exact ⟨by simpa [DirectoryEntry.isRegularFile] using hfile, hhash, rfl⟩
    · rw [if_neg hother] at hlookup'
      apply (h.at_path other).mono _ rfl hlookup'
      intro hcanonical shape hold
      obtain ⟨others, -, hothers, rfl⟩ := (canonical_iff other).mp hcanonical
      have hne : placement.inside others ≠ placement.inside names := fun heq =>
        hother (by rw [Placement.inside_injective heq])
      rw [shapeAt_render placement _ hothers] at hold ⊢
      rw [FileTree.shape, s.disk.node_setTime hne, ← FileTree.shape, hold]
  · rw [Disk.status, placement.status_inside _ hnames, hnode]

theorem probe_honest (placement : Placement session) (h : Tracked session unique start)
    (htype : message.type = .PROB) :
    Honest session unique start (Promised session start message) start
      (probe session message) := by
  apply Honest.then_returned (recoverIfNeeded_of_recovered session start h.recovered)
  apply Honest.orRaise h rfl
  intro hash hhash
  apply Honest.orRaise h rfl
  intro path hpath
  apply Honest.ensure h rfl
  intro _
  apply Honest.read
  cases hlookup : start.elements.lookup path with
  | none => exact Honest.sendSEND h rfl
  | some el =>
      apply Honest.ite
      · exact fun _ => Honest.refuse h rfl
      intro hfile
      have hfile : el.isRegularFile = true := by simpa using hfile
      apply Honest.ite
      · exact fun _ => Honest.sendSEND h rfl
      intro hsame
      have hsame : el.hash = hash := not_not.mp hsame
      apply Honest.ite
      · intro htime
        rcases setTimeToFile_cases session start el message.lastWriteTime with
          ⟨place, node, hresolve, -, hrun⟩ | ⟨-, hrun⟩
        · apply Honest.then_returned hrun
          apply Honest.then_returned (insertElement_run _ _ _)
          obtain ⟨htracked, content, hstatus, hcontent⟩ := h.retimed placement
            (session.platform.getTime message.lastWriteTime) hlookup hfile hresolve
          apply Honest.sendOK htracked rfl
          refine ⟨path, hpath, fun _ hverifiable => ?_⟩
          simp only [Verifiable, htype] at hverifiable
          simp only [Truth, htype]
          refine ⟨content, _, hstatus, ?_, ?_⟩
          · rw [hhash, ← hcontent, hsame]
          · exact hverifiable el hlookup hfile (by rw [hhash, hsame]) htime
        · exact Honest.then_raised hrun (by decide)
      · intro htime
        apply Honest.sendOK h rfl
        refine ⟨path, hpath, fun _ _ => ?_⟩
        obtain ⟨content, mtime, hstatus, hcontent, hmtime⟩ := (h.backed hlookup).file hfile
        simp only [Truth, htype]
        refine ⟨content, mtime, hstatus, ?_, ?_⟩
        · rw [hhash, ← hcontent, hsame]
        · rw [← hmtime, not_not.mp htime]

/-! ## DELE -/

theorem shapeAt_congr (session : Session) {tree tree' : FileTree}
    (hshape : ∀ path, tree'.shape path = tree.shape path) (path : Text) :
    shapeAt session tree' path = shapeAt session tree path := by
  have hdirs : ∀ path, tree'.isDir path = tree.isDir path := fun path => by
    rw [Bool.eq_iff_iff, FileTree.isDir_iff_shape, FileTree.isDir_iff_shape, hshape]
  rw [shapeAt, shapeAt, FileTree.status, FileTree.status, FileTree.resolve_congr hdirs]
  cases tree.resolve (session.userPath ++ path) with
  | none => rfl
  | some place => exact hshape place

/-- What is left when an object of the folder is removed. -/
theorem shapeAt_unlink (placement : Placement session) {disk : Disk} {names others : List Text}
    (hne : names ≠ []) (hothers : PlainPath others)
    (hsome : (disk.tree.node (placement.inside names)).isSome = true) :
    shapeAt session (disk.unlink (placement.inside names)).tree (render others) =
      if names <:+ others then none else shapeAt session disk.tree (render others) := by
  obtain ⟨name, rest, rfl⟩ := List.exists_cons_of_ne_nil hne
  rw [shapeAt_render placement _ hothers, shapeAt_render placement _ hothers]
  have hshape := disk.shape_unlink hsome (placement.inside others)
  have hiff : placement.inside (name :: rest) <:+ placement.inside others ↔
      name :: rest <:+ others := Placement.inside_suffix_iff
  by_cases hbelow : name :: rest <:+ others
  · rw [if_pos hbelow]
    exact hshape.trans (if_pos (hiff.mpr hbelow))
  · rw [if_neg hbelow]
    exact hshape.trans (if_neg (mt hiff.mp hbelow))

theorem shapeAt_unlink_self (placement : Placement session) {disk : Disk} {names : List Text}
    (hne : names ≠ []) (hnames : PlainPath names)
    (hsome : (disk.tree.node (placement.inside names)).isSome = true) :
    shapeAt session (disk.unlink (placement.inside names)).tree (render names) = none := by
  rw [shapeAt_unlink placement hne hnames hsome, if_pos List.suffix_rfl]

/-- With a file nothing else goes. -/
theorem remains_unlink (placement : Placement session) {disk : Disk} {names : List Text}
    (hne : names ≠ []) (hfile : disk.tree.isDir (placement.inside names) = false)
    (hsome : (disk.tree.node (placement.inside names)).isSome = true) {other : Text}
    (hother : other ≠ render names) :
    Remains session disk.tree (disk.unlink (placement.inside names)).tree other := by
  intro hcanonical shape hold
  obtain ⟨others, -, hothers, rfl⟩ := (canonical_iff other).mp hcanonical
  rw [shapeAt_unlink placement hne hothers hsome, if_neg, hold]
  intro hbelow
  have hother' : placement.inside others ≠ placement.inside names := fun heq =>
    hother (by rw [Placement.inside_injective heq])
  have hnone := disk.tree.node_below_of_not_isDir hfile
    (Placement.inside_suffix_iff.mpr hbelow) hother'
  rw [shapeAt_render placement _ hothers, FileTree.shape, hnone] at hold
  simp at hold

theorem removeFile_honest (placement : Placement session) (h : Tracked session unique start)
    (htype : message.type = .DELE) :
    Honest session unique start (Promised session start message) start
      (removeFile session message) := by
  apply Honest.then_returned (recoverIfNeeded_of_recovered session start h.recovered)
  apply Honest.orRaise h rfl
  intro hash _
  apply Honest.orRaise h rfl
  intro path hpath
  apply Honest.read
  cases hlookup : start.elements.lookup path with
  | none =>
      apply Honest.sendOK h rfl
      refine ⟨path, hpath, fun hcanonical hverifiable => ?_⟩
      simp only [Verifiable, htype] at hverifiable
      simp only [Truth, htype]
      exact (h.sent _).hasNothing placement hcanonical (hverifiable hlookup)
  | some el =>
      have hbacked := h.backed hlookup
      apply Honest.read
      apply Honest.ite
      · intro hmissing
        simp [hbacked.present] at hmissing
      intro _
      apply Honest.ite
      · exact fun _ => Honest.refuse h rfl
      intro hsame
      have hfile : el.isRegularFile = true := by
        by_contra hnot
        exact hsame (.inl (by simpa using hnot))
      obtain ⟨content, mtime, hstatus, -⟩ := hbacked.file hfile
      obtain ⟨names, hne, hnames, rfl⟩ := (canonical_iff path).mp hbacked.canonical
      obtain ⟨name, rest, rfl⟩ := List.exists_cons_of_ne_nil hne
      rw [placement.status_inside _ hnames] at hstatus
      have hsome : (start.disk.tree.node (placement.inside (name :: rest))).isSome = true := by
        rw [hstatus]
        rfl
      have hnotDir : start.disk.tree.isDir (placement.inside (name :: rest)) = false := by
        rw [FileTree.isDir, hstatus]
        rfl
      have hparent := start.disk.tree.isDir_parent hsome
      rw [hbacked.absolutePath, placement.parentPath_inside hnames]
      rcases Placement.saveParent_inside placement hnames.tail
        (start.disk.tree.isSome_of_isDir hparent) with ⟨entry, hrun, hentry⟩ | ⟨-, -, hrun⟩
      · apply Honest.then_returned hrun
        have hremove := SystemCall.remove_render_file (Placement.inside_plain hnames)
          Placement.inside_ne hstatus
        rw [← placement.absolutePath_eq] at hremove
        apply Honest.then_returned (onDisk_of_returned start hremove)
        apply Honest.ite
        · simp
        intro _
        have hdir : (start.withDisk (start.disk.unlink
            (placement.inside (name :: rest)))).disk.tree.isDir (placement.inside rest) = true :=
          start.disk.isDir_parent_unlink hsome
        obtain ⟨disk, hreset, hshape, -⟩ :=
          Placement.resetParent_inside placement hnames.tail hdir hentry
        apply Honest.then_returned hreset
        have hsame := shapeAt_congr session hshape
        rcases forget_cases session (start.withDisk disk) el.relativePath with
          ⟨-, hrun⟩ | ⟨-, hrun⟩
        · apply Honest.then_returned hrun
          have htracked : Tracked session unique
              ((start.withDisk disk).forgotten session el.relativePath) := by
            have hentries : [el].map DirectoryEntry.relativePath = [render (name :: rest)] := by
              rw [List.map_singleton, hbacked.relativePath]
            refine h.forgottenAll [el] ?_ rfl rfl rfl
            intro other hother hcanonical shape hold
            rw [hentries, List.mem_singleton] at hother
            refine (hsame other).trans ?_
            exact remains_unlink placement (List.cons_ne_nil name rest) hnotDir hsome hother
              hcanonical shape hold
          apply Honest.sendOK htracked rfl
          refine ⟨_, hpath, fun hcanonical _ => ?_⟩
          simp only [Truth, htype]
          apply (htracked.sent _).hasNothing placement hcanonical
          apply Option.map_eq_none_iff.mp
          rw [← shapeAt_unlink_self placement hne hnames hsome]
          exact hsame _
        · exact Honest.then_raised hrun (by decide)
      · exact Honest.then_raised hrun (by decide)

/-! ## RMD -/

theorem exists_of_mapM {α β : Type} {f : α → Option β} {values : List α} {results : List β}
    (hmap : values.mapM f = some results) {value : α} (hvalue : value ∈ values) :
    ∃ result ∈ results, f value = some result := by
  induction values generalizing results with
  | nil => simp at hvalue
  | cons first values ih =>
      simp only [List.mapM_cons, Option.bind_eq_bind, Option.bind_eq_some_iff, Option.pure_def,
        Option.some.injEq] at hmap
      obtain ⟨result, hresult, rest, hrest, rfl⟩ := hmap
      rcases List.mem_cons.mp hvalue with rfl | hvalue
      · exact ⟨result, List.mem_cons_self, hresult⟩
      · obtain ⟨other, hother, heq⟩ := ih hrest hvalue
        exact ⟨other, List.mem_cons_of_mem result hother, heq⟩

/-- What is listed below a directory covers whatever is tracked below it. -/
theorem mem_listed (placement : Placement session) (hcuts : Cuts session) {tree : FileTree}
    {names others : List Text} {listed : List DirectoryEntry} (hnames : PlainPath names)
    (hlisted : (SystemCall.listing (render (placement.inside names)) (placement.inside names)
      tree).mapM (fun path => DirectoryEntry.load session.platform session.userPath path tree) =
        some listed) (hothers : PlainPath others)
    (hsome : (tree.node (placement.inside others)).isSome = true) (hbelow : names <:+ others)
    (hne : others ≠ names) : render others ∈ listed.map DirectoryEntry.relativePath := by
  have hmem : placement.inside others ∈ tree.below (placement.inside names) :=
    (tree.mem_below _ _).mpr ⟨Placement.inside_suffix_iff.mpr hbelow,
      fun heq => hne (Placement.inside_injective heq), hsome⟩
  rw [SystemCall.listing_render (Placement.inside_plain hnames)] at hlisted
  obtain ⟨entry, hentry, hload⟩ := exists_of_mapM hlisted (List.mem_map_of_mem hmem)
  have hother : others ≠ [] := by
    rintro rfl
    exact hne (List.eq_nil_of_suffix_nil hbelow).symm
  rw [← placement.absolutePath_eq] at hload
  have hbacked := Backed.of_load hcuts (canonical_render hother hothers) hload
  exact List.mem_map.mpr ⟨entry, hentry, hbacked.relativePath⟩

theorem removeDir_honest (placement : Placement session) (hcuts : Cuts session)
    (h : Tracked session unique start) (hidle : start.database.inTransaction = false) (htype : message.type = .RMD) :
    Honest session unique start (Promised session start message) start
      (removeDir session message) := by
  apply Honest.then_returned (recoverIfNeeded_of_recovered session start h.recovered)
  apply Honest.orRaise h rfl
  intro path hpath
  apply Honest.read
  cases hlookup : start.elements.lookup path with
  | none =>
      apply Honest.sendOK h rfl
      refine ⟨path, hpath, fun hcanonical hverifiable => ?_⟩
      simp only [Verifiable, htype] at hverifiable
      simp only [Truth, htype]
      exact (h.sent _).hasNothing placement hcanonical (hverifiable hlookup)
  | some el =>
      have hbacked := h.backed hlookup
      apply Honest.read
      apply Honest.ite
      · intro hmissing
        simp [hbacked.present] at hmissing
      intro _
      apply Honest.ite
      · exact fun _ => Honest.refuse h rfl
      intro hkind
      have hdirectory : el.isDirectory = true := by simpa using hkind
      obtain ⟨mtime, hstatus⟩ := hbacked.directory hdirectory
      obtain ⟨names, hne, hnames, rfl⟩ := (canonical_iff path).mp hbacked.canonical
      obtain ⟨name, rest, rfl⟩ := List.exists_cons_of_ne_nil hne
      rw [placement.status_inside _ hnames] at hstatus
      have hdir : start.disk.tree.isDir (placement.inside (name :: rest)) = true := by
        rw [FileTree.isDir, hstatus]
        rfl
      have hsome := start.disk.tree.isSome_of_isDir hdir
      have hparent := start.disk.tree.isDir_parent hsome
      rw [hbacked.absolutePath, placement.parentPath_inside hnames]
      rcases Placement.saveParent_inside placement hnames.tail
        (start.disk.tree.isSome_of_isDir hparent) with ⟨entry, hrun, hentry⟩ | ⟨-, -, hrun⟩
      · apply Honest.then_returned hrun
        rcases SystemCall.listBelow_cases (session.userPath ++ render (name :: rest)) start.disk with
          ⟨place, hresolve, -, hlist⟩ | ⟨errno, hlist⟩
        · obtain rfl := placement.eq_inside_of_resolve hnames hresolve
          apply Honest.then_returned (onDisk_of_returned start hlist)
          apply Honest.read
          apply Honest.orRaise (h.of_same rfl rfl rfl fun _ _ _ hold => hold) rfl
          intro listed hlisted
          have hremove := SystemCall.removeAll_render (Placement.inside_plain hnames)
            Placement.inside_ne hdir
          rw [← placement.absolutePath_eq] at hremove
          apply Honest.then_returned (onDisk_of_returned (start.withDisk start.disk) hremove)
          apply Honest.ite
          · simp
          intro _
          let gone := start.withDisk (start.disk.unlink (placement.inside (name :: rest)))
          obtain ⟨hdisk, hconnection, -, hrecovered⟩ := forgottenAll_frame session gone listed
          apply Honest.then_returned (forgetAll_of_idle session gone listed hidle)
          rcases forget_cases session (gone.forgottenAll session listed) el.relativePath with
            ⟨-, hrun⟩ | ⟨-, hrun⟩
          · apply Honest.then_returned hrun
            have hdir' : ((gone.forgottenAll session listed).forgotten session
                el.relativePath).disk.tree.isDir (placement.inside rest) = true := by
              rw [ServerState.forgotten, hdisk]
              exact start.disk.isDir_parent_unlink hsome
            obtain ⟨disk, hreset, hshape, -⟩ :=
              Placement.resetParent_inside placement hnames.tail hdir' hentry
            apply Honest.then_returned hreset
            have hsame : ∀ other, shapeAt session disk.tree other = shapeAt session
                (start.disk.unlink (placement.inside (name :: rest))).tree other := by
              apply shapeAt_congr session
              intro other
              rw [hshape, ServerState.forgotten, hdisk]
              rfl
            have hboth : ((gone.forgottenAll session listed).forgotten session
                el.relativePath).withDisk disk =
                  (start.forgottenAll session (listed ++ [el])).withDisk disk := by
              rw [forgottenAll_withDisk]
              simp only [ServerState.forgottenAll, List.foldl_append]
              rfl
            rw [hboth]
            have htracked : Tracked session unique
                ((start.forgottenAll session (listed ++ [el])).withDisk disk) := by
              refine h.forgottenAll (listed ++ [el]) ?_
                (forgottenAll_frame session start _).2.2.2 rfl rfl
              intro other hother hcanonical shape hold
              obtain ⟨others, -, hothers, rfl⟩ := (canonical_iff other).mp hcanonical
              rw [List.map_append, List.mem_append, List.map_singleton, List.mem_singleton,
                hbacked.relativePath, not_or] at hother
              refine (hsame _).trans ?_
              rw [shapeAt_unlink placement hne hothers hsome, if_neg, hold]
              intro hbelow
              rw [shapeAt_render placement _ hothers] at hold
              have hpresent : (start.disk.tree.node (placement.inside others)).isSome = true := by
                rw [← FileTree.isSome_shape, hold]
                rfl
              refine hother.1 (mem_listed placement hcuts hnames ?_ hothers hpresent hbelow ?_)
              · rw [← placement.absolutePath_eq]
                exact hlisted
              · rintro rfl
                exact hother.2 rfl
            apply Honest.sendOK htracked
            · exact congrArg Connection.outgoing (forgottenAll_frame session start _).2.1
            refine ⟨_, hpath, fun hcanonical _ => ?_⟩
            simp only [Truth, htype]
            apply (htracked.sent _).hasNothing placement hcanonical
            apply Option.map_eq_none_iff.mp
            rw [← shapeAt_unlink_self placement hne hnames hsome]
            exact hsame _
          · exact Honest.then_raised hrun (by decide)
        · exact Honest.then_raised (onDisk_of_raised start hlist) (by decide)
      · exact Honest.then_raised hrun (by decide)

/-! ## MKD -/

/-- The last part of MKD, once there is a directory. -/
theorem finishDir_honest (placement : Placement session) {disk : Disk} {name : Text}
    {rest : List Text} {parentExists : Bool} {entry newDir : DirectoryEntry}
    (h : Tracked session unique start) (htype : message.type = .MKD)
    (hpath : Validator.validatePath message.path = some (render (name :: rest)))
    (hnames : PlainPath (name :: rest))
    (hremains : ∀ path, Remains session start.disk.tree disk.tree path)
    (hdir : disk.tree.isDir (placement.inside (name :: rest)) = true)
    (hbacked : Backed session disk.tree (render (name :: rest)) newDir)
    (hentry : parentExists = true → rest ≠ [] →
      entry.absolutePath = session.userPath ++ render rest)
    (htime : Verifiable session start message (render (name :: rest)) →
      ReadBack session message.lastWriteTime) :
    Honest session unique start (Promised session start message) (start.withDisk disk) (do
      let newDir ← setTimeToFile session newDir message.lastWriteTime
      when parentExists (resetParent session (session.userPath ++ render rest) entry)
      track session (render (name :: rest)) (start.elements.lookup (render (name :: rest))) newDir
      sendOK session .created) := by
  rcases setTimeToFile_cases session (start.withDisk disk) newDir message.lastWriteTime with
    ⟨place, node, hresolve, -, hrun⟩ | ⟨-, hrun⟩
  · apply Honest.then_returned hrun
    rw [hbacked.absolutePath] at hresolve
    obtain rfl := placement.eq_inside_of_resolve hnames hresolve
    have hshape := disk.shape_setTime_of_isDir hdir
      (session.platform.getTime message.lastWriteTime)
    have hnode : (disk.setTime (placement.inside (name :: rest))
        (session.platform.getTime message.lastWriteTime)).tree.node
          (placement.inside (name :: rest)) =
        some (.dir (session.platform.getTime message.lastWriteTime)) := by
      obtain ⟨old, hold⟩ := (disk.tree.isDir_iff _).mp hdir
      rw [Disk.setTime, FileTree.node_retime, if_pos rfl, hold]
      rfl
    have hwithDisk : ((start.withDisk disk).withDisk ((start.withDisk disk).disk.setTime
        (placement.inside (name :: rest)) (session.platform.getTime message.lastWriteTime))) =
          start.withDisk (disk.setTime (placement.inside (name :: rest))
            (session.platform.getTime message.lastWriteTime)) := rfl
    rw [hwithDisk]
    generalize disk.setTime (placement.inside (name :: rest))
      (session.platform.getTime message.lastWriteTime) = disk₁ at hshape hnode ⊢
    have hsome : (disk₁.tree.node (placement.inside (name :: rest))).isSome = true := by
      rw [hnode]
      rfl
    have hparent : (start.withDisk disk₁).disk.tree.isDir (placement.inside rest) = true :=
      disk₁.tree.isDir_parent hsome
    have hreset : ∃ disk₂, when parentExists
          (resetParent session (session.userPath ++ render rest) entry) (start.withDisk disk₁) =
            .returned () (start.withDisk disk₂) ∧
        (∀ other, disk₂.tree.shape other = disk₁.tree.shape other) ∧
        disk₂.tree.node (placement.inside (name :: rest)) =
          disk₁.tree.node (placement.inside (name :: rest)) := by
      cases parentExists with
      | false => exact ⟨disk₁, rfl, fun _ => rfl, rfl⟩
      | true =>
          obtain ⟨disk₂, hrun, hsame, hother⟩ :=
            Placement.resetParent_inside placement hnames.tail hparent (hentry rfl)
          exact ⟨disk₂, hrun, hsame, hother _ (List.cons_ne_self name _)⟩
    obtain ⟨disk₂, hrun, hsame, hother⟩ := hreset
    apply Honest.then_returned hrun
    have hshapes := shapeAt_congr session fun other => (hsame other).trans (hshape other)
    rcases track_cases session (start.withDisk disk₂) (render (name :: rest))
      (start.elements.lookup (render (name :: rest))) { newDir with
        lastWriteTime := session.platform.putTime
          (session.platform.getTime message.lastWriteTime) } with ⟨-, hrun⟩ | ⟨-, hrun⟩
    · apply Honest.then_returned hrun
      have hretimed : Backed session disk₂.tree (render (name :: rest)) { newDir with
          lastWriteTime := session.platform.putTime
            (session.platform.getTime message.lastWriteTime) } := by
        obtain ⟨shape, hold, hmatches⟩ := hbacked.object
        refine ⟨hbacked.canonical, hbacked.relativePath, hbacked.absolutePath, shape, ?_, ?_⟩
        · rw [hshapes, hold]
        · rw [shapeAt_render placement _ hnames, (disk.tree.isDir_iff_shape _).mp hdir,
            Option.some.injEq] at hold
          subst hold
          exact hmatches
      have htracked : Tracked session unique ((start.withDisk disk₂).tracked session
          (render (name :: rest)) (start.elements.lookup (render (name :: rest))) { newDir with
            lastWriteTime := session.platform.putTime
              (session.platform.getTime message.lastWriteTime) }) := by
        apply h.tracked hretimed
        · intro other _ hcanonical shape hold
          rw [hshapes]
          exact hremains other hcanonical shape hold
        · rw [ServerState.tracked_disk]
          rfl
        · rw [ServerState.tracked_recovered]
          rfl
        · exact congrArg Database.rows (ServerState.tracked_database_congr _ _ _ _ rfl)
        · exact ServerState.tracked_elements_congr _ _ _ _ rfl
      apply Honest.sendOK htracked
      · rw [ServerState.tracked_connection]
        rfl
      refine ⟨_, hpath, fun _ hverifiable => ?_⟩
      simp only [Truth, htype]
      refine ⟨_, ?_, htime hverifiable⟩
      rw [ServerState.sent, ServerState.tracked_disk, Disk.status,
        placement.status_inside _ hnames]
      exact hother.trans hnode
    · exact Honest.then_raised hrun (by decide)
  · exact Honest.then_raised hrun (by decide)

theorem makeDir_honest (placement : Placement session) (hcuts : Cuts session)
    (h : Tracked session unique start) (htype : message.type = .MKD)
    (hcanonical : ∀ path, Validator.validatePath message.path = some path → Canonical path) :
    Honest session unique start (Promised session start message) start
      (makeDir session message) := by
  apply Honest.then_returned (recoverIfNeeded_of_recovered session start h.recovered)
  apply Honest.orRaise h rfl
  intro path hpath
  apply Honest.ensure h rfl
  intro _
  apply Honest.read
  apply Honest.read
  apply Honest.ite
  · intro hupToDate
    apply Honest.sendOK h rfl
    refine ⟨path, hpath, fun _ hverifiable => ?_⟩
    simp only [Verifiable, htype] at hverifiable
    simp only [Truth, htype]
    obtain ⟨el, hlookup, hel⟩ := (Option.any_eq_true _ _).mp hupToDate
    rw [Bool.and_eq_true, decide_eq_true_eq] at hel
    exact hverifiable.1 el hlookup hel.2
  intro hstale
  have hstale : ∀ el, start.elements.lookup path = some el →
      el.lastWriteTime ≠ message.lastWriteTime := by
    intro el hlookup htime
    simp [hlookup, htime, (h.backed hlookup).present] at hstale
  obtain ⟨names, hne, hnames, rfl⟩ := (canonical_iff path).mp (hcanonical path hpath)
  obtain ⟨name, rest, rfl⟩ := List.exists_cons_of_ne_nil hne
  unfold updateDir
  dsimp only
  rw [placement.parentPath_inside hnames]
  apply Honest.read
  rcases placement.saveExistingParent_inside hnames.tail start with ⟨entry, hrun, hentry⟩ | hrun
  · apply Honest.then_returned hrun
    apply Honest.read
    have htime : (∀ content mtime, start.disk.status (session.userPath ++ render (name :: rest)) ≠
        some (.file content mtime)) → Verifiable session start message (render (name :: rest)) →
          ReadBack session message.lastWriteTime := by
      intro hnotFile hverifiable
      simp only [Verifiable, htype] at hverifiable
      exact hverifiable.2 hstale hnotFile
    cases hpresent : start.disk.present (session.userPath ++ render (name :: rest)) with
    | true =>
        apply Honest.then_returned rfl
        apply Honest.read
        apply Honest.ite
        · exact fun _ => Honest.refuse h rfl
        intro hkind
        have hisDirectory : start.disk.isDirectory (session.userPath ++ render (name :: rest)) =
            true := by simpa using hkind
        rcases loadEntry_cases session start session.userPath
          (session.userPath ++ render (name :: rest)) with ⟨newDir, hload, hrun⟩ | ⟨-, hrun⟩
        · apply Honest.then_returned hrun
          have hbacked := Backed.of_load hcuts (canonical_render hne hnames) hload
          have hremains : ∀ path, Remains session start.disk.tree start.disk.tree path :=
            fun _ _ _ hold => hold
          have hdir : start.disk.tree.isDir (placement.inside (name :: rest)) = true := by
            rw [Disk.isDirectory, Disk.status, placement.status_inside _ hnames] at hisDirectory
            exact hisDirectory
          apply finishDir_honest placement h htype hpath hnames hremains hdir hbacked hentry
          apply htime
          intro content mtime hfile
          simp [Disk.isDirectory, hfile] at hisDirectory
        · exact Honest.then_raised hrun (by decide)
    | false =>
        have hnone : start.disk.tree.node (placement.inside (name :: rest)) = none := by
          rw [← placement.status_inside _ hnames]
          exact Disk.present_eq_false_iff.mp hpresent
        rcases SystemCall.createDirectories_render (Placement.inside_plain hnames)
          (Placement.inside_ne : placement.inside (name :: rest) ≠ []) start.disk with
            ⟨disk, hmake, hmade⟩ | ⟨hmake, -⟩ | ⟨disk, hmake, -⟩
        · rw [← placement.absolutePath_eq] at hmake
          apply Honest.then_returned (onDisk_of_returned start hmake)
          have hremains : ∀ path, Remains session start.disk.tree disk.tree path := by
            intro path hcanonical shape hold
            obtain ⟨others, -, hothers, rfl⟩ := (canonical_iff path).mp hcanonical
            rw [shapeAt_render placement _ hothers] at hold ⊢
            rw [hmade.shape, if_neg, hold]
            rintro ⟨-, hmissing⟩
            rw [← FileTree.shape_eq_none_iff, hold] at hmissing
            simp at hmissing
          apply Honest.read
          apply Honest.ite
          · exact fun _ => Honest.refuse (h.of_same rfl rfl rfl hremains) rfl
          intro _
          rcases loadEntry_cases session (start.withDisk disk) session.userPath
            (session.userPath ++ render (name :: rest)) with ⟨newDir, hload, hrun⟩ | ⟨-, hrun⟩
          · apply Honest.then_returned hrun
            have hbacked := Backed.of_load hcuts (canonical_render hne hnames) hload
            apply finishDir_honest placement h htype hpath hnames hremains
              (hmade.isDir_of_missing hnone) hbacked hentry
            apply htime
            intro content mtime hfile
            rw [Disk.status, placement.status_inside _ hnames, hnone] at hfile
            simp at hfile
          · exact Honest.then_raised hrun (by decide)
        · rw [← placement.absolutePath_eq] at hmake
          exact Honest.then_raised (onDisk_of_raised start hmake) (by decide)
        · rw [← placement.absolutePath_eq] at hmake
          exact Honest.then_raised (onDisk_of_raised start hmake) (by decide)
  · exact Honest.then_raised hrun (by decide)

/-! ## STOR -/

section Transfers

variable {bytes : List Byte} {names : List Text} {content : List Byte}
variable {rest : List ClientMessage} {expected : DirectoryEntry} {s : ServerState}
variable {placement : Placement session}

/-- A transfer that is given up changes nothing in the folder. -/
theorem Rejected.tracked (h : Tracked session unique start)
    (hrejected : Rejected start (placement.tmpFile bytes) s) :
    Tracked session unique s := by
  refine h.of_same hrejected.records.recovered ?_ hrejected.records.elements ?_
  · rw [hrejected.records.database]
  · intro path hcanonical shape hold
    obtain ⟨names, -, hnames, rfl⟩ := (canonical_iff path).mp hcanonical
    rw [shapeAt_render placement _ hnames] at hold ⊢
    rw [FileTree.shape, hrejected.beside _
      (Placement.not_suffix_tmpFile Placement.folder_suffix_inside bytes), ← FileTree.shape, hold]

/-- The file that was stored. -/
theorem Delivered.shapeAt (hnames : PlainPath names)
    (h : Delivered placement start bytes names expected content rest s) :
    shapeAt session s.disk.tree (render names) =
      some (.file content (session.platform.getTime expected.lastWriteTime)) := by
  have hne : placement.inside names ≠ placement.tmpFile bytes :=
    (Placement.tmpFile_ne Placement.folder_suffix_inside bytes).symm
  rw [shapeAt_render placement _ hnames, h.shape, if_neg hne, if_pos rfl]

theorem Delivered.remains
    (h : Delivered placement start bytes names expected content rest s) {other : Text}
    (hother : other ≠ render names) : Remains session start.disk.tree s.disk.tree other := by
  intro hcanonical shape hold
  obtain ⟨others, -, hothers, rfl⟩ := (canonical_iff other).mp hcanonical
  have htmp : placement.inside others ≠ placement.tmpFile bytes :=
    (Placement.tmpFile_ne Placement.folder_suffix_inside bytes).symm
  have hne : placement.inside others ≠ placement.inside names := fun heq =>
    hother (by rw [Placement.inside_injective heq])
  rw [shapeAt_render placement _ hothers] at hold ⊢
  rw [h.shape, if_neg htmp, if_neg hne, if_neg, hold]
  rintro ⟨-, hmissing⟩
  rw [← FileTree.shape_eq_none_iff, hold] at hmissing
  simp at hmissing

theorem Delivered.tracked (hne : names ≠ []) (hnames : PlainPath names)
    (htracked : Tracked session unique start)
    (h : Delivered placement start bytes names expected content rest s)
    (hrelative : expected.relativePath = render names)
    (habsolute : expected.absolutePath = session.userPath ++ render names)
    (hfile : expected.type = .file) : Tracked session unique s := by
  have hdatabase := h.database
  have helements := h.elements
  rw [hrelative] at hdatabase helements
  have hbacked : Backed session s.disk.tree (render names) expected :=
    ⟨canonical_render hne hnames, hrelative, habsolute, _, h.shapeAt hnames, hfile, h.hash.symm,
      h.time.symm⟩
  exact htracked.tracked hbacked (fun other hother => h.remains hother) rfl h.recovered
    (congrArg Database.rows hdatabase) helements

end Transfers

theorem storeFile_honest (placement : Placement session) (h : Tracked session unique start)
    (hidle : start.database.inTransaction = false) (htype : message.type = .STOR)
    (hcanonical : ∀ path, Validator.validatePath message.path = some path → Canonical path) :
    Honest session unique start (Promised session start message) start
      (storeFile session message) := by
  rcases storeFile_ends placement h.recovered hidle hcanonical with
    ⟨names, taken, s', hne, hnames, hstored, hends⟩ | ⟨exception, s', hraised, hrejected⟩ |
      ⟨names, s', -, hraised, -⟩
  · obtain ⟨hash, rest, hhash, hincoming, hdelivered⟩ := hstored.delivered
    have hfile : (requested session message (render names) hash).type = .file := by
      rw [requested, DirectoryEntry.make, if_pos rfl]
    have htracked : Tracked session unique s' :=
      hdelivered.tracked hne hnames h rfl rfl hfile
    rcases hends with hreturned | hraised
    · apply Meets.ends_returned hreturned
      refine ⟨htracked.sent _, .inr ⟨.created, ?_, _, hstored.path, fun _ _ => ?_⟩⟩
      · simp [ServerState.sent, Connection.sent, hdelivered.connection]
      · simp only [Truth, htype]
        have hstatus := hdelivered.shapeAt hnames
        obtain ⟨node, hnode, hshape⟩ := Option.map_eq_some_iff.mp hstatus
        have hfile : node = .file (payload taken)
            (session.platform.getTime message.lastWriteTime) := by
          cases node with
          | file content mtime =>
              obtain ⟨rfl, rfl⟩ := FileTree.Shape.file.inj hshape
              rfl
          | dir mtime => exact absurd hshape (by simp [FileTree.Shape.ofNode])
        refine ⟨taken, _, ?_, hstored.run, hnode.trans (congrArg some hfile), hdelivered.size, ?_,
          hdelivered.time⟩
        · simp [ServerState.sent, Connection.sent, hdelivered.connection, hincoming]
        · rw [hhash, hdelivered.hash]
          rfl
    · exact Meets.ends_raised hraised fun hskipped => absurd hskipped (by decide)
  · exact Meets.ends_raised hraised fun _ => ⟨hrejected.tracked h, hrejected.records.confirmed⟩
  · exact Meets.ends_raised hraised fun hskipped => absurd hskipped (by decide)

end Handlers

end PdsBackup.Server
