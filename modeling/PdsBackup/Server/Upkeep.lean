import PdsBackup.Server.Attributes

/-!
# The upkeep of the attributes

What a request changes on the disk beside the object it is about are the times
of directories: of the parent, which is set again to what was read of it, and of
the directory in which the first missing one is made, which is not.  PROB changes
the time of a file on the disk and in the map, not in its row.  Where neither
happens to something that is tracked, the attributes stay equal.
-/

namespace PdsBackup.Server

open Procedure

variable {session : Session} {unique : Prop}

/-! ## When they are kept equal -/

/-- What is tracked on the way to an object in a directory keeps its time when the
object is made or removed. -/
structure Unshaken (session : Session) (s : ServerState) (rest : List Text) : Prop where
  parent : ∀ el, s.elements.lookup (render rest) = some el → ReadBack session el.lastWriteTime
  way : ∀ name above, name :: above <:+ rest →
    s.disk.status (session.userPath ++ render (name :: above)) = none →
      s.elements.lookup (render above) = none

/-- No tracked directory is the one in which the first directory that is missing on
the way is made. -/
def WayUntracked (session : Session) (s : ServerState) (rest : List Text) : Prop :=
  ∀ name above, name :: above <:+ rest →
    s.disk.status (session.userPath ++ render (name :: above)) = none →
      s.elements.lookup (render above) = none

/-- The request makes, replaces or removes what is at the path. -/
def Acts (session : Session) (s : ServerState) (message : ClientMessage) (path : Text) : Prop :=
  match message.type with
  | .STOR => ∃ taken, Carried session message s.connection.incoming taken
  | .DELE => ∃ el, s.elements.lookup path = some el ∧ el.isRegularFile = true ∧
      Hash.ofBytes message.hash = some el.hash
  | .MKD => Validator.validateLastWriteTime message.lastWriteTime = true ∧
      ¬ UpToDateDir s message path ∧
      ∀ content mtime, s.disk.status (session.userPath ++ path) ≠ some (.file content mtime)
  | .RMD => ∃ el, s.elements.lookup path = some el ∧ el.isDirectory = true
  | _ => False

/-- A file that is told to have another time already has what is read back of it. -/
def Timed (session : Session) (s : ServerState) (message : ClientMessage) (path : Text) : Prop :=
  ∀ el, s.elements.lookup path = some el → el.isRegularFile = true →
    Hash.ofBytes message.hash = some el.hash →
    Validator.validateLastWriteTime message.lastWriteTime = true →
    el.lastWriteTime ≠ message.lastWriteTime →
      session.platform.putTime (session.platform.getTime message.lastWriteTime) = el.lastWriteTime

/-- The request leaves the attributes of what is tracked equal. -/
structure Conserving (session : Session) (s : ServerState) (message : ClientMessage) : Prop where
  timed : message.type = .PROB → ∀ path, Validator.validatePath message.path = some path →
    Timed session s message path
  unshaken : ∀ name rest, PlainPath (name :: rest) →
    Validator.validatePath message.path = some (render (name :: rest)) →
      Acts session s message (render (name :: rest)) → Unshaken session s rest

/-! ## What a step keeps -/

section Steps

variable {tree tree' : FileTree} {names rest others : List Text} {name path : Text}
variable {el entry : DirectoryEntry} {s s' : ServerState}

/-- What is at a place stays; a directory may have got another time that reads the
same. -/
def Stays (session : Session) (tree tree' : FileTree) (place : Path) : Prop :=
  tree'.node place = tree.node place ∨
    ∃ mtime mtime', tree.node place = some (.dir mtime) ∧ tree'.node place = some (.dir mtime') ∧
      session.platform.putTime mtime' = session.platform.putTime mtime

theorem Described.stays (placement : Placement session) (hnames : PlainPath names)
    (h : Described session tree (render names) el)
    (hstays : Stays session tree tree' (placement.inside names)) :
    Described session tree' (render names) el := by
  obtain ⟨node, hstatus, hdescribes⟩ := h
  rw [placement.status_inside _ hnames] at hstatus
  rw [Described, placement.status_inside _ hnames]
  cases hstays with
  | inl hsame => exact ⟨node, hsame.trans hstatus, hdescribes⟩
  | inr hretimed =>
      obtain ⟨mtime, mtime', hold, hnew, htime⟩ := hretimed
      obtain rfl := Option.some.inj (hold.symm.trans hstatus)
      exact ⟨.dir mtime', hnew, hdescribes.size, hdescribes.type,
        hdescribes.lastWriteTime.trans htime.symm, hdescribes.hash⟩

theorem AttributesAt.mono (h : AttributesAt session s path el)
    (hdescribed : Described session s'.disk.tree path el)
    (hrows : rowsAt session path s'.database.rows = rowsAt session path s.database.rows) :
    AttributesAt session s' path el :=
  ⟨hdescribed, fun row hrow => h.records row (hrows ▸ hrow)⟩

/-- The names of a path that is tracked. -/
theorem Tracked.pathNames (h : Tracked session unique s) (hlookup : s.elements.lookup path = some el) :
    ∃ names, names ≠ [] ∧ PlainPath names ∧ path = render names :=
  (canonical_iff path).mp (h.backed hlookup).canonical

/-- What is tracked at a path that is not left out stays. -/
def OthersStay (placement : Placement session) (s : ServerState) (left : List Text → Prop)
    (tree' : FileTree) : Prop :=
  ∀ others el, others ≠ [] → PlainPath others → s.elements.lookup (render others) = some el →
    ¬ left others → Stays session s.disk.tree tree' (placement.inside others)

theorem AttributesAgree.of_same (placement : Placement session) (h : AttributesAgree session s)
    (htracked : Tracked session unique s) (hrows : s'.database.rows = s.database.rows)
    (helements : s'.elements = s.elements)
    (hstay : OthersStay placement s (fun _ => False) s'.disk.tree) :
    AttributesAgree session s' := by
  intro path el hlookup
  rw [helements] at hlookup
  obtain ⟨names, hne, hnames, rfl⟩ := htracked.pathNames hlookup
  have hat := h _ el hlookup
  apply hat.mono
  · exact hat.described.stays placement hnames (hstay names el hne hnames hlookup id)
  · rw [hrows]

theorem AttributesAgree.forgottenAll (placement : Placement session)
    (h : AttributesAgree session s) (htracked : Tracked session unique s)
    (entries : List DirectoryEntry)
    (hrows : s'.database.rows = (s.forgottenAll session entries).database.rows)
    (helements : s'.elements = (s.forgottenAll session entries).elements)
    (hstay : OthersStay placement s
      (fun others => render others ∈ entries.map DirectoryEntry.relativePath) s'.disk.tree) :
    AttributesAgree session s' := by
  intro path el hlookup
  obtain ⟨hgone, hkept⟩ := forgottenAll_at session entries s path
  rw [← helements, ← hrows] at hgone hkept
  by_cases hpath : path ∈ entries.map DirectoryEntry.relativePath
  · simp [(hgone hpath).1] at hlookup
  · obtain ⟨hlookup', hrowsAt⟩ := hkept hpath
    rw [hlookup'] at hlookup
    obtain ⟨names, hne, hnames, rfl⟩ := htracked.pathNames hlookup
    have hat := h _ el hlookup
    apply hat.mono
    · exact hat.described.stays placement hnames (hstay names el hne hnames hlookup hpath)
    · exact hrowsAt

/-- What is recorded of an element that was entered or updated. -/
theorem Tracked.records_tracked (h : Tracked session unique s) (hentry : entry.relativePath = path) :
    ∀ row ∈ rowsAt session path
      (s.tracked session path (s.elements.lookup path) entry).database.rows, Records row entry := by
  intro row hrow
  subst hentry
  cases hlookup : s.elements.lookup entry.relativePath with
  | none =>
      rw [hlookup] at hrow
      have hrows : rowsAt session entry.relativePath
          (s.tracked session entry.relativePath none entry).database.rows =
            rowsAt session entry.relativePath s.database.rows ++ [_] :=
        (rowsAt_insert session entry.relativePath entry s.database.rows).trans (if_pos rfl)
      rw [hrows, h.rowsAt_eq_nil hlookup, List.nil_append, List.mem_singleton] at hrow
      rw [hrow]
      exact records_ofEntry _ _ entry
  | some el =>
      rw [hlookup] at hrow
      have hrows : rowsAt session entry.relativePath
          (s.tracked session entry.relativePath (some el) entry).database.rows =
            (rowsAt session entry.relativePath s.database.rows).map (Row.updated entry) :=
        (rowsAt_update session entry.relativePath entry s.database.rows).trans (if_pos rfl)
      rw [hrows] at hrow
      obtain ⟨old, -, rfl⟩ := List.mem_map.mp hrow
      exact records_updated old entry

theorem AttributesAgree.tracked (placement : Placement session) (h : AttributesAgree session s)
    (htracked : Tracked session unique s) (hentry : entry.relativePath = path)
    (hdescribed : Described session s'.disk.tree path entry)
    (hrows : s'.database.rows =
      (s.tracked session path (s.elements.lookup path) entry).database.rows)
    (helements : s'.elements = (s.tracked session path (s.elements.lookup path) entry).elements)
    (hstay : OthersStay placement s (fun others => render others = path) s'.disk.tree) :
    AttributesAgree session s' := by
  intro other el hlookup
  have hlookup' := lookup_tracked session s hentry other
  rw [← helements, hlookup] at hlookup'
  by_cases hother : other = path
  · rw [if_pos hother, Option.some.injEq] at hlookup'
    rw [hother, hlookup']
    refine ⟨hdescribed, ?_⟩
    rw [hrows]
    exact htracked.records_tracked hentry
  · rw [if_neg hother] at hlookup'
    obtain ⟨names, hne, hnames, rfl⟩ := htracked.pathNames hlookup'.symm
    have hat := h _ el hlookup'.symm
    apply hat.mono
    · exact hat.described.stays placement hnames (hstay names el hne hnames hlookup'.symm hother)
    · rw [hrows]
      exact rowsAt_tracked_of_ne hentry hother _

/-! ### Times of directories -/

/-- What is read of the time of a directory of the folder can be set again. -/
def Resettable (placement : Placement session) (tree : FileTree) (names : List Text) : Prop :=
  ∀ mtime, tree.node (placement.inside names) = some (.dir mtime) →
    ReadBack session (session.platform.putTime mtime)

/-- The time of a tracked parent is that of its element. -/
theorem Unshaken.resettable {placement : Placement session} (h : Unshaken session s rest)
    (hagree : AttributesAgree session s) (hrest : PlainPath rest)
    (hlookup : s.elements.lookup (render rest) = some el) :
    Resettable placement s.disk.tree rest := by
  intro mtime hnode
  have hback := h.parent el hlookup
  obtain ⟨node, hstatus, hdescribes⟩ := (hagree _ el hlookup).described
  rw [placement.status_inside _ hrest, hnode, Option.some.injEq] at hstatus
  rw [hdescribes.lastWriteTime, ← hstatus] at hback
  exact hback

/-- A time that was saved before a change and set again after it. -/
theorem stays_of_reset (placement : Placement session) {before before' after after' : ServerState}
    (hnames : PlainPath names) (hne : names ≠ [])
    (hsave : saveParent session (session.userPath ++ render names) before =
      .returned entry before')
    (hentry : entry.absolutePath = session.userPath ++ render names)
    (hreset : resetParent session (session.userPath ++ render names) entry after =
      .returned () after')
    (hbefore : before.disk.tree.isDir (placement.inside names) = true)
    (hafter : after.disk.tree.isDir (placement.inside names) = true)
    (hresettable : Resettable placement before.disk.tree names) :
    Stays session before.disk.tree after'.disk.tree (placement.inside names) := by
  obtain ⟨mtime, hmtime⟩ := (before.disk.tree.isDir_iff _).mp hbefore
  obtain ⟨node, hnode, htime⟩ := Placement.saveParent_time placement hnames hne hsave
  have hset := Placement.resetParent_time placement hnames hne hafter hentry hreset
  rw [hmtime, Option.some.injEq] at hnode
  rw [← hnode] at htime
  refine .inr ⟨mtime, _, hmtime, hset, ?_⟩
  rw [htime]
  exact hresettable mtime hmtime

/-- The parent's time is set again to what it was, where that is needed. -/
theorem resetParent_stays (placement : Placement session) {before before' after : ServerState}
    (hrest : PlainPath rest)
    (hsave : saveParent session (session.userPath ++ render rest) before =
      .returned entry before')
    (hentry : rest ≠ [] → entry.absolutePath = session.userPath ++ render rest)
    (hbefore : before.disk.tree.isDir (placement.inside rest) = true)
    (hafter : after.disk.tree.isDir (placement.inside rest) = true) :
    ∃ disk, resetParent session (session.userPath ++ render rest) entry after =
        .returned () (after.withDisk disk) ∧
      (∀ other, other ≠ placement.inside rest →
        disk.tree.node other = after.disk.tree.node other) ∧
      (rest ≠ [] → Resettable placement before.disk.tree rest →
        Stays session before.disk.tree disk.tree (placement.inside rest)) := by
  obtain ⟨disk, hreset, -, hother⟩ :=
    Placement.resetParent_inside placement hrest hafter hentry
  refine ⟨disk, hreset, hother, fun hne hresettable => ?_⟩
  exact stays_of_reset placement hrest hne hsave (hentry hne) hreset hbefore hafter hresettable

/-- When an object of the folder was removed and the parent's time was set again,
the rest stays. -/
theorem othersStay_unlink (placement : Placement session) {disk : Disk}
    (hagree : AttributesAgree session s) (hrest : PlainPath rest)
    (hunshaken : Unshaken session s rest)
    (hother : ∀ other, other ≠ placement.inside rest →
      disk.tree.node other = (s.disk.unlink (placement.inside (name :: rest))).tree.node other)
    (hparent : rest ≠ [] → Resettable placement s.disk.tree rest →
      Stays session s.disk.tree disk.tree (placement.inside rest)) :
    OthersStay placement s (fun others => name :: rest <:+ others) disk.tree := by
  intro others el hne _ hlookup hbelow
  by_cases heq : others = rest
  · subst heq
    exact hparent hne (hunshaken.resettable hagree hrest hlookup)
  · have hplace : placement.inside others ≠ placement.inside rest := fun hsame =>
      heq (Placement.inside_injective hsame)
    refine .inl ((hother _ hplace).trans ?_)
    refine (s.disk.node_unlink hplace).trans (if_neg fun hsuffix => hbelow ?_)
    exact Placement.inside_suffix_iff.mp hsuffix

/-- What is tracked is not the directory in which the first missing one is made. -/
theorem WayUntracked.made_node {placement : Placement session} {disk disk' : Disk}
    (h : WayUntracked session s rest) (htracked : Tracked session unique s)
    (hnames : PlainPath names) (hothers : PlainPath others)
    (hlookup : s.elements.lookup (render others) = some el)
    (hsame : ∀ below, disk.tree.node (placement.inside below) =
      s.disk.tree.node (placement.inside below))
    (hrun : SystemCall.createDirectories (render (placement.inside names)) disk =
      .returned () disk')
    (hway : ∀ next, next :: others <:+ names → next :: others <:+ rest) :
    disk'.tree.node (placement.inside others) = s.disk.tree.node (placement.inside others) := by
  have hpresent := (htracked.backed hlookup).present
  rw [(htracked.backed hlookup).absolutePath, Disk.present, Disk.status,
    placement.status_inside _ hothers, ← hsame] at hpresent
  rw [← hsame]
  apply SystemCall.createDirectories_node (Placement.inside_plain hnames) hrun hpresent
  intro next hsuffix hnone
  have hbelow : next :: others <:+ names := Placement.inside_suffix_iff.mp hsuffix
  have hplain : PlainPath (next :: others) := fun other hother =>
    hnames other (hbelow.subset hother)
  have hmissing : s.disk.status (session.userPath ++ render (next :: others)) = none := by
    rw [Disk.status, placement.status_inside _ hplain, ← hsame]
    exact hnone
  simp [h next others (hway next hbelow) hmissing] at hlookup

end Steps

section Handlers

variable {start : ServerState} {message : ClientMessage}

/-- From a known state, the routine leaves the attributes equal, unless the session
ends. -/
def Evens {α : Type} (session : Session) (s : ServerState) (p : ServerProcedure α) : Prop :=
  Meets (fun s' => s' = s) p (fun _ => AttributesAgree session)
    fun exception s' => Skipped exception → AttributesAgree session s'

namespace Evens

variable {α β : Type} {s middle : ServerState}

theorem then_returned {p : ServerProcedure α} {f : α → ServerProcedure β} {value : α}
    (hrun : p s = .returned value middle) (hrest : Evens session middle (f value)) :
    Evens session s (p >>= f) := Meets.then_returned hrun hrest

/-- An exception that is not skipped ends the session. -/
theorem then_raised {p : ServerProcedure α} {f : α → ServerProcedure β}
    {exception : ServerException} (hrun : p s = .raised exception middle)
    (hexception : ¬ Skipped exception) : Evens session s (p >>= f) :=
  Meets.then_raised hrun fun hskipped => absurd hskipped hexception

theorem read {g : ServerState → α} {f : α → ServerProcedure β} (hf : Evens session s (f (g s))) :
    Evens session s (Procedure.read g >>= f) := then_returned rfl hf

theorem orRaise {exception : ServerException} {value : Option α} {f : α → ServerProcedure β}
    (h : AttributesAgree session s)
    (hf : ∀ result, value = some result → Evens session s (f result)) :
    Evens session s (Procedure.orRaise exception value >>= f) := by
  cases value with
  | none => exact Meets.then_raised rfl fun _ => h
  | some result => exact then_returned rfl (hf result rfl)

theorem ensure {exception : ServerException} {condition : Bool} {f : Unit → ServerProcedure β}
    (h : AttributesAgree session s) (hf : condition = true → Evens session s (f ())) :
    Evens session s (Procedure.ensure exception condition >>= f) := by
  cases condition with
  | false => exact Meets.then_raised rfl fun _ => h
  | true => exact then_returned rfl (hf rfl)

theorem ite {condition : Prop} [Decidable condition] {p q : ServerProcedure α}
    (hthen : condition → Evens session s p) (helse : ¬ condition → Evens session s q) :
    Evens session s (if condition then p else q) := Meets.ite hthen helse

theorem refuse {code : ErrCode} {exception : ServerException} (h : AttributesAgree session s) :
    Evens session s (refuse session code exception : ServerProcedure α) := by
  cases refuse_cases session s code exception with
  | inl hrun => exact Meets.ends_raised hrun fun _ => h.sent _
  | inr hrun => exact Meets.ends_raised hrun fun hskipped => absurd hskipped (by decide)

theorem sendServerMessage (h : AttributesAgree session s) (message : ServerMessage) :
    Evens session s (sendServerMessage message) := by
  cases sendServerMessage_cases s message with
  | inl hrun => exact Meets.ends_returned hrun (h.sent message)
  | inr hrun => exact Meets.ends_raised hrun fun hskipped => absurd hskipped (by decide)

end Evens

/-! ## PROB -/

theorem probe_evens (placement : Placement session) (htracked : Tracked session unique start)
    (h : AttributesAgree session start)
    (htimed : ∀ path, Validator.validatePath message.path = some path →
      Timed session start message path) : Evens session start (probe session message) := by
  apply Evens.then_returned (recoverIfNeeded_of_recovered session start htracked.recovered)
  apply Evens.orRaise h
  intro hash hhash
  apply Evens.orRaise h
  intro path hpath
  apply Evens.ensure h
  intro hvalid
  apply Evens.read
  cases hlookup : start.elements.lookup path with
  | none => exact Evens.sendServerMessage h _
  | some el =>
      apply Evens.ite
      · exact fun _ => Evens.refuse h
      intro hfile
      apply Evens.ite
      · exact fun _ => Evens.sendServerMessage h _
      intro hsame
      apply Evens.ite
      · intro hne
        have hfile : el.isRegularFile = true := by simpa using hfile
        have htime := htimed path hpath el hlookup hfile (by rw [hhash, not_not.mp hsame]) hvalid hne
        rcases setTimeToFile_cases session start el message.lastWriteTime with
          ⟨place, node, hresolve, -, hrun⟩ | ⟨-, hrun⟩
        · apply Evens.then_returned hrun
          apply Evens.then_returned (insertElement_run _ _ _)
          apply Evens.sendServerMessage
          obtain ⟨names, hne, hnames, rfl⟩ := htracked.pathNames hlookup
          rw [(htracked.backed hlookup).absolutePath] at hresolve
          obtain rfl := placement.eq_inside_of_resolve hnames hresolve
          intro other found hfound
          have hfound' : (start.elements.insert (render names) { el with
            lastWriteTime := session.platform.putTime
              (session.platform.getTime message.lastWriteTime) }).lookup other = some found := hfound
          rw [KeyedMap.lookup_insert] at hfound'
          by_cases hother : other = render names
          · rw [if_pos hother, Option.some.injEq] at hfound'
            rw [hother, ← hfound']
            obtain ⟨⟨node, hstatus, hdescribes⟩, hrecords⟩ := h _ el hlookup
            rw [placement.status_inside _ hnames] at hstatus
            constructor
            · refine ⟨node.retime (session.platform.getTime message.lastWriteTime), ?_, ?_⟩
              · rw [placement.status_inside _ hnames, ServerState.withDisk, Disk.setTime,
                  FileTree.node_retime, if_pos rfl, hstatus]
                rfl
              · cases node with
                | file content mtime =>
                    exact ⟨hdescribes.size, hdescribes.type, rfl, hdescribes.hash⟩
                | dir mtime => exact ⟨hdescribes.size, hdescribes.type, rfl, hdescribes.hash⟩
            · intro row hrow
              have hold := hrecords row hrow
              exact ⟨hold.size, hold.lastWriteTime.trans htime.symm, hold.hash⟩
          · rw [if_neg hother] at hfound'
            obtain ⟨others, -, hothers, rfl⟩ := htracked.pathNames hfound'
            have hat := h _ found hfound'
            have hplace : placement.inside others ≠ placement.inside names := fun hsame =>
              hother (by rw [Placement.inside_injective hsame])
            apply hat.mono
            · exact hat.described.stays placement hothers (.inl (start.disk.node_setTime hplace _))
            · rfl
        · exact Evens.then_raised hrun (by decide)
      · exact fun _ => Evens.sendServerMessage h _

/-! ## DELE -/

theorem removeFile_evens (placement : Placement session) (htracked : Tracked session unique start)
    (h : AttributesAgree session start) (htype : message.type = .DELE)
    (hconserving : Conserving session start message) :
    Evens session start (removeFile session message) := by
  apply Evens.then_returned (recoverIfNeeded_of_recovered session start htracked.recovered)
  apply Evens.orRaise h
  intro hash hhash
  apply Evens.orRaise h
  intro path hpath
  apply Evens.read
  cases hlookup : start.elements.lookup path with
  | none => exact Evens.sendServerMessage h _
  | some el =>
      have hbacked := htracked.backed hlookup
      apply Evens.read
      apply Evens.ite
      · intro hmissing
        simp [hbacked.present] at hmissing
      intro _
      apply Evens.ite
      · exact fun _ => Evens.refuse h
      intro hsame
      simp only [not_or, Bool.not_eq_true', Bool.not_eq_false, not_not] at hsame
      obtain ⟨hfile, hsame⟩ := hsame
      obtain ⟨content, mtime, hstatus, -⟩ := hbacked.file hfile
      obtain ⟨names, hne, hnames, rfl⟩ := htracked.pathNames hlookup
      obtain ⟨name, rest, rfl⟩ := List.exists_cons_of_ne_nil hne
      have hunshaken : Unshaken session start rest := by
        apply hconserving.unshaken name rest hnames hpath
        rw [Acts, htype]
        exact ⟨el, hlookup, hfile, by rw [hhash, hsame]⟩
      rw [placement.status_inside _ hnames] at hstatus
      have hsome : (start.disk.tree.node (placement.inside (name :: rest))).isSome = true := by
        rw [hstatus]
        rfl
      have hnotDir : start.disk.tree.isDir (placement.inside (name :: rest)) = false := by
        rw [FileTree.isDir, hstatus]
        rfl
      have hparent := start.disk.tree.isDir_parent hsome
      rw [hbacked.absolutePath, placement.parentPath_inside hnames]
      rcases Placement.saveParent_inside placement hnames.tail
        (start.disk.tree.isSome_of_isDir hparent) with ⟨entry, hsave, hentry⟩ | ⟨-, -, hrun⟩
      · apply Evens.then_returned hsave
        have hremove := SystemCall.remove_render_file (Placement.inside_plain hnames)
          Placement.inside_ne hstatus
        rw [← placement.absolutePath_eq] at hremove
        apply Evens.then_returned (onDisk_of_returned start hremove)
        apply Evens.ite
        · simp
        intro _
        have hafter : (start.withDisk (start.disk.unlink
            (placement.inside (name :: rest)))).disk.tree.isDir (placement.inside rest) = true :=
          start.disk.isDir_parent_unlink hsome
        obtain ⟨disk, hreset, hother, hstays⟩ :=
          resetParent_stays placement hnames.tail hsave hentry hparent hafter
        apply Evens.then_returned hreset
        have hstay := othersStay_unlink placement h hnames.tail hunshaken hother hstays
        cases forget_cases session (start.withDisk disk) el.relativePath with
        | inl hidle =>
            apply Evens.then_returned hidle.2
            apply Evens.sendServerMessage
            refine h.forgottenAll placement htracked [el] rfl rfl ?_
            intro others found hne' hothers hfound hleft
            apply hstay others found hne' hothers hfound
            intro hbelow
            have hplace : placement.inside others ≠ placement.inside (name :: rest) := by
              intro heq
              apply hleft
              rw [Placement.inside_injective heq, ← hbacked.relativePath]
              exact List.mem_singleton.mpr rfl
            have hnone := start.disk.tree.node_below_of_not_isDir hnotDir
              (Placement.inside_suffix_iff.mpr hbelow) hplace
            obtain ⟨node, hnode, -⟩ := (h _ found hfound).described
            rw [placement.status_inside _ hothers, hnone] at hnode
            simp at hnode
        | inr hopen => exact Evens.then_raised hopen.2 (by decide)
      · exact Evens.then_raised hrun (by decide)

/-! ## RMD -/

theorem removeDir_evens (placement : Placement session) (hcuts : Cuts session)
    (htracked : Tracked session unique start) (hidle : start.database.inTransaction = false)
    (h : AttributesAgree session start) (htype : message.type = .RMD)
    (hconserving : Conserving session start message) :
    Evens session start (removeDir session message) := by
  apply Evens.then_returned (recoverIfNeeded_of_recovered session start htracked.recovered)
  apply Evens.orRaise h
  intro path hpath
  apply Evens.read
  cases hlookup : start.elements.lookup path with
  | none => exact Evens.sendServerMessage h _
  | some el =>
      have hbacked := htracked.backed hlookup
      apply Evens.read
      apply Evens.ite
      · intro hmissing
        simp [hbacked.present] at hmissing
      intro _
      apply Evens.ite
      · exact fun _ => Evens.refuse h
      intro hkind
      have hdirectory : el.isDirectory = true := by simpa using hkind
      obtain ⟨mtime, hstatus⟩ := hbacked.directory hdirectory
      obtain ⟨names, hne, hnames, rfl⟩ := htracked.pathNames hlookup
      obtain ⟨name, rest, rfl⟩ := List.exists_cons_of_ne_nil hne
      have hunshaken : Unshaken session start rest := by
        apply hconserving.unshaken name rest hnames hpath
        rw [Acts, htype]
        exact ⟨el, hlookup, hdirectory⟩
      rw [placement.status_inside _ hnames] at hstatus
      have hdir : start.disk.tree.isDir (placement.inside (name :: rest)) = true := by
        rw [FileTree.isDir, hstatus]
        rfl
      have hsome := start.disk.tree.isSome_of_isDir hdir
      have hparent := start.disk.tree.isDir_parent hsome
      rw [hbacked.absolutePath, placement.parentPath_inside hnames]
      rcases Placement.saveParent_inside placement hnames.tail
        (start.disk.tree.isSome_of_isDir hparent) with ⟨entry, hsave, hentry⟩ | ⟨-, -, hrun⟩
      · apply Evens.then_returned hsave
        rcases SystemCall.listBelow_cases (session.userPath ++ render (name :: rest)) start.disk with
          ⟨place, hresolve, -, hlist⟩ | ⟨errno, hlist⟩
        · obtain rfl := placement.eq_inside_of_resolve hnames hresolve
          apply Evens.then_returned (onDisk_of_returned start hlist)
          apply Evens.read
          apply Evens.orRaise (h.of_same placement htracked rfl rfl fun _ _ _ _ _ _ => .inl rfl)
          intro listed hlisted
          have hremove := SystemCall.removeAll_render (Placement.inside_plain hnames)
            Placement.inside_ne hdir
          rw [← placement.absolutePath_eq] at hremove
          apply Evens.then_returned (onDisk_of_returned (start.withDisk start.disk) hremove)
          apply Evens.ite
          · simp
          intro _
          let gone := start.withDisk (start.disk.unlink (placement.inside (name :: rest)))
          obtain ⟨hdisk, -, -, -⟩ := forgottenAll_frame session gone listed
          apply Evens.then_returned (forgetAll_of_idle session gone listed hidle)
          cases forget_cases session (gone.forgottenAll session listed) el.relativePath with
          | inl hclosed =>
              apply Evens.then_returned hclosed.2
              have hafter : ((gone.forgottenAll session listed).forgotten session
                  el.relativePath).disk.tree.isDir (placement.inside rest) = true := by
                rw [ServerState.forgotten, hdisk]
                exact start.disk.isDir_parent_unlink hsome
              obtain ⟨disk, hreset, hother, hstays⟩ :=
                resetParent_stays placement hnames.tail hsave hentry hparent hafter
              apply Evens.then_returned hreset
              have hstay := othersStay_unlink placement h hnames.tail hunshaken
                (fun other hne => (hother other hne).trans (by
                  rw [ServerState.forgotten, hdisk]
                  rfl)) hstays
              have hboth : ((gone.forgottenAll session listed).forgotten session
                  el.relativePath).withDisk disk =
                    (start.forgottenAll session (listed ++ [el])).withDisk disk := by
                rw [forgottenAll_withDisk]
                simp only [ServerState.forgottenAll, List.foldl_append]
                rfl
              rw [hboth]
              apply Evens.sendServerMessage
              refine h.forgottenAll placement htracked (listed ++ [el]) rfl rfl ?_
              intro others found hne' hothers hfound hleft
              apply hstay others found hne' hothers hfound
              intro hbelow
              have hleft' : render others ∉ listed.map DirectoryEntry.relativePath ∧
                  render others ≠ render (name :: rest) := by
                rw [← hbacked.relativePath, ← not_or, ← List.mem_singleton, ← List.mem_append]
                simpa using hleft
              obtain ⟨node, hnode, -⟩ := (h _ found hfound).described
              rw [placement.status_inside _ hothers] at hnode
              have hpresent : (start.disk.tree.node (placement.inside others)).isSome = true := by
                rw [hnode]
                rfl
              refine hleft'.1 (mem_listed placement hcuts hnames ?_ hothers hpresent hbelow ?_)
              · rw [← placement.absolutePath_eq]
                exact hlisted
              · exact fun heq => hleft'.2 (by rw [heq])
          | inr hopen => exact Evens.then_raised hopen.2 (by decide)
        · exact Evens.then_raised (onDisk_of_raised start hlist) (by decide)
      · exact Evens.then_raised hrun (by decide)

/-! ## MKD -/

/-- A directory gets its time, and the parent, if it was there before, the time that
was saved. -/
theorem setDirTime_cases (placement : Placement session) {disk : Disk} {name : Text}
    {rest : List Text} {entry newDir : DirectoryEntry} (hnames : PlainPath (name :: rest))
    (hdir : disk.tree.isDir (placement.inside (name :: rest)) = true)
    (habsolute : newDir.absolutePath = session.userPath ++ render (name :: rest))
    (hparentDir : start.disk.present (session.userPath ++ render rest) = true →
      start.disk.tree.isDir (placement.inside rest) = true)
    (hsave : saveExistingParent session
      (start.disk.present (session.userPath ++ render rest)) (session.userPath ++ render rest)
        start = .returned entry start)
    (hentry : start.disk.present (session.userPath ++ render rest) = true → rest ≠ [] →
      entry.absolutePath = session.userPath ++ render rest) (time : Text) :
    (∃ disk₁ disk₂, setTimeToFile session newDir time (start.withDisk disk) =
        .returned { newDir with
          lastWriteTime := session.platform.putTime (session.platform.getTime time) }
          (start.withDisk disk₁) ∧
      when (start.disk.present (session.userPath ++ render rest))
        (resetParent session (session.userPath ++ render rest) entry) (start.withDisk disk₁) =
          .returned () (start.withDisk disk₂) ∧
      disk₂.tree.node (placement.inside (name :: rest)) =
        some (.dir (session.platform.getTime time)) ∧
      (∀ others, others ≠ name :: rest → others ≠ rest →
        disk₂.tree.node (placement.inside others) = disk.tree.node (placement.inside others)) ∧
      (start.disk.present (session.userPath ++ render rest) = true → rest ≠ [] →
        Resettable placement start.disk.tree rest →
          Stays session start.disk.tree disk₂.tree (placement.inside rest))) ∨
      setTimeToFile session newDir time (start.withDisk disk) =
        .raised .standard (start.withDisk disk) := by
  rcases setTimeToFile_cases session (start.withDisk disk) newDir time with
    ⟨place, node, hresolve, -, hrun⟩ | ⟨-, hrun⟩
  · rw [habsolute] at hresolve
    obtain rfl := placement.eq_inside_of_resolve hnames hresolve
    let disk₁ := disk.setTime (placement.inside (name :: rest)) (session.platform.getTime time)
    have hother : ∀ others, others ≠ name :: rest →
        disk₁.tree.node (placement.inside others) = disk.tree.node (placement.inside others) :=
      fun others hne => disk.node_setTime (fun heq => hne (Placement.inside_injective heq)) _
    have hnode : disk₁.tree.node (placement.inside (name :: rest)) =
        some (.dir (session.platform.getTime time)) := by
      obtain ⟨old, hold⟩ := (disk.tree.isDir_iff _).mp hdir
      refine (FileTree.node_retime _ _ _ _).trans ?_
      rw [if_pos rfl, hold]
      rfl
    have hsome : (disk₁.tree.node (placement.inside (name :: rest))).isSome = true := by
      rw [hnode]
      rfl
    have hafter : (start.withDisk disk₁).disk.tree.isDir (placement.inside rest) = true :=
      disk₁.tree.isDir_parent hsome
    left
    cases hpresent : start.disk.present (session.userPath ++ render rest) with
    | false =>
        refine ⟨disk₁, disk₁, hrun, rfl, hnode, fun others hne _ => hother others hne, ?_⟩
        intro hthere
        cases hthere
    | true =>
        rw [hpresent] at hsave
        obtain ⟨disk₂, hreset, hkept, hstays⟩ := resetParent_stays placement hnames.tail hsave
          (hentry hpresent) (hparentDir hpresent) hafter
        refine ⟨disk₁, disk₂, hrun, hreset, ?_, ?_, fun _ => hstays⟩
        · exact (hkept _ (List.cons_ne_self name _)).trans hnode
        · intro others hne hrest
          exact (hkept _ fun heq => hrest (Placement.inside_injective heq)).trans
            (hother others hne)
  · exact .inr hrun

/-- The last part of MKD, once there is a directory. -/
theorem finishDir_evens (placement : Placement session) {disk : Disk} {name : Text}
    {rest : List Text} {entry newDir : DirectoryEntry} (htracked : Tracked session unique start)
    (h : AttributesAgree session start) (hnames : PlainPath (name :: rest))
    (hunshaken : Unshaken session start rest)
    (hkept : ∀ others el, others ≠ rest → PlainPath others →
      start.elements.lookup (render others) = some el →
        disk.tree.node (placement.inside others) = start.disk.tree.node (placement.inside others))
    (hdir : disk.tree.isDir (placement.inside (name :: rest)) = true)
    (hbacked : Backed session disk.tree (render (name :: rest)) newDir)
    (hdescribed : Described session disk.tree (render (name :: rest)) newDir)
    (hparentDir : start.disk.present (session.userPath ++ render rest) = true →
      start.disk.tree.isDir (placement.inside rest) = true)
    (hsave : saveExistingParent session
      (start.disk.present (session.userPath ++ render rest)) (session.userPath ++ render rest)
        start = .returned entry start)
    (hentry : start.disk.present (session.userPath ++ render rest) = true → rest ≠ [] →
      entry.absolutePath = session.userPath ++ render rest) :
    Evens session (start.withDisk disk) (do
      let newDir ← setTimeToFile session newDir message.lastWriteTime
      when (start.disk.present (session.userPath ++ render rest))
        (resetParent session (session.userPath ++ render rest) entry)
      track session (render (name :: rest)) (start.elements.lookup (render (name :: rest))) newDir
      sendOK session .created) := by
  rcases setDirTime_cases placement hnames hdir hbacked.absolutePath hparentDir hsave hentry
    message.lastWriteTime with ⟨disk₁, disk₂, hset, hreset, hnode, hother, hparent⟩ | hrun
  · apply Evens.then_returned hset
    apply Evens.then_returned hreset
    rcases track_cases session (start.withDisk disk₂) (render (name :: rest))
      (start.elements.lookup (render (name :: rest))) { newDir with
        lastWriteTime := session.platform.putTime
          (session.platform.getTime message.lastWriteTime) } with ⟨-, hrun⟩ | ⟨-, hrun⟩
    · apply Evens.then_returned hrun
      apply Evens.sendServerMessage
      have hrelative : ({ newDir with
          lastWriteTime := session.platform.putTime
            (session.platform.getTime message.lastWriteTime) } : DirectoryEntry).relativePath =
              render (name :: rest) := hbacked.relativePath
      refine h.tracked placement htracked hrelative ?_
        (congrArg Database.rows (ServerState.tracked_database_congr _ _ _ _ rfl))
        (ServerState.tracked_elements_congr _ _ _ _ rfl) ?_
      · rw [ServerState.tracked_disk]
        obtain ⟨node, hstatus, hdescribes⟩ := hdescribed
        obtain ⟨old, hold⟩ := (disk.tree.isDir_iff _).mp hdir
        rw [placement.status_inside _ hnames, hold, Option.some.injEq] at hstatus
        rw [← hstatus] at hdescribes
        exact ⟨.dir (session.platform.getTime message.lastWriteTime),
          (placement.status_inside _ hnames).trans hnode, hdescribes.size, hdescribes.type, rfl,
          hdescribes.hash⟩
      · rw [ServerState.tracked_disk]
        intro others el hne hothers hlookup hleft
        by_cases hrest : others = rest
        · rw [hrest] at hne hlookup ⊢
          -- a parent that is tracked was there before
          have hpresent := (htracked.backed hlookup).present
          rw [(htracked.backed hlookup).absolutePath] at hpresent
          exact hparent hpresent hne (hunshaken.resettable h hnames.tail hlookup)
        · have hdistinct : others ≠ name :: rest := fun heq => hleft (by rw [heq])
          exact .inl ((hother others hdistinct hrest).trans (hkept others el hrest hothers hlookup))
    · exact Evens.then_raised hrun (by decide)
  · exact Evens.then_raised hrun (by decide)

theorem makeDir_evens (placement : Placement session) (hcuts : Cuts session)
    (htracked : Tracked session unique start) (h : AttributesAgree session start)
    (htype : message.type = .MKD) (hconserving : Conserving session start message)
    (hcanonical : ∀ path, Validator.validatePath message.path = some path → Canonical path) :
    Evens session start (makeDir session message) := by
  apply Evens.then_returned (recoverIfNeeded_of_recovered session start htracked.recovered)
  apply Evens.orRaise h
  intro path hpath
  apply Evens.ensure h
  intro hvalid
  apply Evens.read
  apply Evens.read
  apply Evens.ite
  · exact fun _ => Evens.sendServerMessage h _
  intro hstale
  have hstale : ¬ UpToDateDir start message path := by
    intro hupToDate
    obtain ⟨-, el, hlookup, hpresent, htime⟩ := hupToDate
    exact hstale (by simp [hlookup, hpresent, htime])
  obtain ⟨names, hne, hnames, rfl⟩ := (canonical_iff path).mp (hcanonical path hpath)
  obtain ⟨name, rest, rfl⟩ := List.exists_cons_of_ne_nil hne
  have hunshaken : (∀ content mtime, start.disk.status
      (session.userPath ++ render (name :: rest)) ≠ some (.file content mtime)) →
        Unshaken session start rest := by
    intro hnotFile
    apply hconserving.unshaken name rest hnames hpath
    rw [Acts, htype]
    exact ⟨hvalid, hstale, hnotFile⟩
  unfold updateDir
  dsimp only
  rw [placement.parentPath_inside hnames]
  apply Evens.read
  rcases placement.saveExistingParent_inside hnames.tail start with ⟨entry, hsave, hentry⟩ | hrun
  · apply Evens.then_returned hsave
    apply Evens.read
    cases hpresent : start.disk.present (session.userPath ++ render (name :: rest)) with
    | true =>
        apply Evens.then_returned rfl
        apply Evens.read
        apply Evens.ite
        · exact fun _ => Evens.refuse h
        intro hkind
        have hisDirectory : start.disk.isDirectory (session.userPath ++ render (name :: rest)) =
            true := by simpa using hkind
        rcases loadEntry_cases session start session.userPath
          (session.userPath ++ render (name :: rest)) with ⟨newDir, hload, hrun⟩ | ⟨-, hrun⟩
        · apply Evens.then_returned hrun
          have hbacked := Backed.of_load hcuts (canonical_render hne hnames) hload
          have hdir : start.disk.tree.isDir (placement.inside (name :: rest)) = true := by
            rw [Disk.isDirectory, Disk.status, placement.status_inside _ hnames] at hisDirectory
            exact hisDirectory
          apply finishDir_evens placement htracked h hnames (hunshaken ?_) (fun _ _ _ _ _ => rfl)
            hdir hbacked (.of_load hload) ?_ hsave hentry
          · intro content mtime hfile
            simp [Disk.isDirectory, hfile] at hisDirectory
          · exact fun _ => start.disk.tree.isDir_parent (start.disk.tree.isSome_of_isDir hdir)
        · exact Evens.then_raised hrun (by decide)
    | false =>
        have hnone : start.disk.tree.node (placement.inside (name :: rest)) = none := by
          rw [← placement.status_inside _ hnames]
          exact Disk.present_eq_false_iff.mp hpresent
        have hunshaken := hunshaken fun content mtime hfile => by
          rw [Disk.status, placement.status_inside _ hnames, hnone] at hfile
          simp at hfile
        rcases SystemCall.createDirectories_render (Placement.inside_plain hnames)
          (Placement.inside_ne : placement.inside (name :: rest) ≠ []) start.disk with
            ⟨disk, hmake, hmade⟩ | ⟨hmake, -⟩ | ⟨disk, hmake, -⟩
        · have hkept : ∀ others el, others ≠ rest → PlainPath others →
              start.elements.lookup (render others) = some el →
                disk.tree.node (placement.inside others) =
                  start.disk.tree.node (placement.inside others) := by
            intro others el hrest hothers hlookup
            have hway : WayUntracked session start rest := hunshaken.way
            apply hway.made_node htracked hnames hothers hlookup (fun _ => rfl) hmake
            intro next hsuffix
            exact (List.suffix_cons_iff.mp hsuffix).resolve_left fun heq =>
              hrest (List.cons.inj heq).2
          rw [← placement.absolutePath_eq] at hmake
          apply Evens.then_returned (onDisk_of_returned start hmake)
          have hdir := hmade.isDir_of_missing hnone
          apply Evens.read
          apply Evens.ite
          · intro hkind
            have hisDirectory : disk.isDirectory (session.userPath ++ render (name :: rest)) =
                true := by
              rw [Disk.isDirectory, Disk.status, placement.status_inside _ hnames]
              exact hdir
            simp [ServerState.withDisk, hisDirectory] at hkind
          intro _
          rcases loadEntry_cases session (start.withDisk disk) session.userPath
            (session.userPath ++ render (name :: rest)) with ⟨newDir, hload, hrun⟩ | ⟨-, hrun⟩
          · apply Evens.then_returned hrun
            have hbacked := Backed.of_load hcuts (canonical_render hne hnames) hload
            apply finishDir_evens placement htracked h hnames hunshaken hkept hdir hbacked
              (.of_load hload) ?_ hsave hentry
            intro hparent
            rw [Disk.present, Disk.status, placement.status_inside _ hnames.tail] at hparent
            have hshape := hmade.shape (placement.inside rest)
            rw [if_neg fun hmissing => by simp [hmissing.2] at hparent] at hshape
            rw [FileTree.isDir_iff_shape, ← hshape, ← FileTree.isDir_iff_shape]
            exact disk.tree.isDir_parent (disk.tree.isSome_of_isDir hdir)
          · exact Evens.then_raised hrun (by decide)
        · rw [← placement.absolutePath_eq] at hmake
          exact Evens.then_raised (onDisk_of_raised start hmake) (by decide)
        · rw [← placement.absolutePath_eq] at hmake
          exact Evens.then_raised (onDisk_of_raised start hmake) (by decide)
  · exact Evens.then_raised hrun (by decide)

/-! ## STOR -/

section Transfers

variable {placement : Placement session} {bytes content : List Byte} {name : Text}
variable {rest : List Text} {mtime : Int} {s : ServerState}

theorem Stays.congr {tree start tree' : FileTree} {place : Path}
    (h : Stays session tree tree' place) (hsame : tree.node place = start.node place) :
    Stays session start tree' place := by
  rw [Stays, hsame] at h
  exact h

theorem moveInto_stays (hnames : PlainPath (name :: rest))
    (hsome : (s.disk.tree.node (placement.inside rest)).isSome = true)
    (hnode : s.disk.tree.node (placement.tmpFile bytes) = some (.file content mtime)) :
    Meets (fun s' => s' = s) (moveInto session (render (placement.tmpFile bytes))
        (session.userPath ++ render (name :: rest)) (session.userPath ++ render rest))
      (fun _ s' => ∃ disk, s' = s.withDisk disk ∧
        disk.tree.node (placement.inside (name :: rest)) = some (.file content mtime) ∧
        ∀ others, others ≠ [] → others ≠ name :: rest →
          (others = rest → Resettable placement s.disk.tree rest) →
            Stays session s.disk.tree disk.tree (placement.inside others))
      fun exception _ => ¬ Skipped exception := by
  have htmp : PlainPath (placement.tmpFile bytes) := Placement.tmpFile_plain bytes
  have htmpNe : placement.tmpFile bytes ≠ [] := List.cons_ne_nil _ _
  have hplain : PlainPath (name :: placement.inside rest) := Placement.inside_plain hnames
  have hbelow : placement.folder <:+ name :: placement.inside rest :=
    Placement.folder_suffix_inside.trans (List.suffix_cons _ _)
  have htarget := Placement.tmpFile_ne hbelow bytes
  rw [moveInto]
  rcases Placement.saveParent_inside placement hnames.tail hsome with
    ⟨entry, hsave, hentry⟩ | ⟨-, -, hrun⟩
  · apply Meets.then_returned hsave
    rw [placement.absolutePath_eq]
    by_cases hblocked : s.disk.tree.isDir (placement.inside rest) = false ∨
        s.disk.tree.isDir (name :: placement.inside rest) = true ∨
          ¬ PathFits (render (name :: placement.inside rest))
    · obtain ⟨errno, hrename⟩ := SystemCall.rename_render_raised htmp hplain hnode htmpNe hblocked
      exact Meets.then_raised (onDisk_of_raised s hrename) (by decide)
    · simp only [not_or, Bool.not_eq_false, Bool.not_eq_true, not_not] at hblocked
      obtain ⟨hdir, hnotDir, hfits⟩ := hblocked
      have hrename := SystemCall.rename_render htmp hplain hnode htmpNe hdir hnotDir htarget hfits
      have hshape := s.disk.shape_move htmpNe hnode hplain.head hdir hnotDir htarget
      have hmove : ∀ others, others ≠ rest → others ≠ name :: rest →
          (s.disk.move (placement.tmpFile bytes) (name :: placement.inside rest)).tree.node
            (placement.inside others) = s.disk.tree.node (placement.inside others) := by
        intro others hrest hother
        apply s.disk.node_move htmpNe hnode hplain.head hdir hnotDir
        refine ⟨?_, ?_, ?_, ?_⟩
        · intro heq
          apply (Placement.inside_apart_temp Placement.folder_suffix_inside).1
          rw [heq]
          exact List.suffix_rfl
        · exact fun heq => hrest (Placement.inside_injective heq)
        · intro heq
          have htarget' : placement.inside others = placement.inside (name :: rest) := heq
          exact hother (Placement.inside_injective htarget')
        · exact Placement.tmpFile_not_suffix Placement.folder_suffix_inside bytes
      apply Meets.then_returned (onDisk_of_returned s hrename)
      have hafter : (s.withDisk (s.disk.move (placement.tmpFile bytes)
          (name :: placement.inside rest))).disk.tree.isDir (placement.inside rest) = true := by
        have hne : placement.inside rest ≠ placement.tmpFile bytes :=
          (Placement.tmpFile_ne Placement.folder_suffix_inside bytes).symm
        rw [FileTree.isDir_iff_shape, ServerState.withDisk, hshape, if_neg hne,
          if_neg (List.cons_ne_self name _).symm, ← FileTree.isDir_iff_shape]
        exact hdir
      obtain ⟨disk, hreset, hother, hstays⟩ :=
        resetParent_stays placement hnames.tail hsave hentry hdir hafter
      apply Meets.ends_returned hreset
      refine ⟨disk, rfl, ?_, fun others hne hnot hresettable => ?_⟩
      · refine (hother _ (List.cons_ne_self name _)).trans ?_
        rw [← FileTree.shape_file_iff]
        refine (hshape _).trans ?_
        rw [if_neg, if_pos rfl]
        exact htarget.symm
      · by_cases hrest : others = rest
        · rw [hrest] at hne ⊢
          exact hstays hne (hresettable hrest)
        · have hplace : placement.inside others ≠ placement.inside rest := fun heq =>
            hrest (Placement.inside_injective heq)
          exact .inl ((hother _ hplace).trans (hmove others hrest hnot))
  · exact Meets.then_raised hrun (by decide)

/-- What is read of the time of the parent, if it is tracked, can be set again. -/
def ParentResettable (placement : Placement session) (s : ServerState) (rest : List Text) : Prop :=
  ∀ el, s.elements.lookup (render rest) = some el → Resettable placement s.disk.tree rest

theorem moveIntoPlace_stays {expected : DirectoryEntry} (htracked : Tracked session unique start)
    (hway : WayUntracked session start rest) (hresettable : ParentResettable placement start rest)
    (hnames : PlainPath (name :: rest))
    (hexpected : expected.absolutePath = session.userPath ++ render (name :: rest))
    (hsame : ∀ others, s.disk.tree.node (placement.inside others) =
      start.disk.tree.node (placement.inside others))
    (hnode : s.disk.tree.node (placement.tmpFile bytes) = some (.file content mtime)) :
    Meets (fun s' => s' = s) (moveIntoPlace session (render (placement.tmpFile bytes)) expected)
      (fun _ s' => ∃ disk, s' = s.withDisk disk ∧
        disk.tree.node (placement.inside (name :: rest)) = some (.file content mtime) ∧
        OthersStay placement start (fun others => others = name :: rest) disk.tree)
      fun exception _ => ¬ Skipped exception := by
  have hparent : parentPath expected.absolutePath = session.userPath ++ render rest := by
    rw [hexpected, placement.parentPath_inside hnames]
  have hpresent : s.disk.present (session.userPath ++ render rest) =
      (s.disk.tree.node (placement.inside rest)).isSome := by
    rw [Disk.present, Disk.status, placement.status_inside _ hnames.tail]
  unfold moveIntoPlace
  dsimp only
  rw [hparent, hexpected]
  apply Meets.then_returned (Procedure.read_apply _ s)
  rw [hpresent]
  cases hsome : (s.disk.tree.node (placement.inside rest)).isSome with
  | true =>
      rw [Bool.not_true, when_false]
      apply Meets.then_returned rfl
      apply (moveInto_stays hnames hsome hnode).consequence fun _ hs => hs
      · intro _ s' hs'
        obtain ⟨disk, hdisk, hfile, hstays⟩ := hs'
        refine ⟨disk, hdisk, hfile, fun others el hne hothers hlookup hleft => ?_⟩
        apply (hstays others hne hleft _).congr (hsame others)
        intro hrest mtime hdir
        rw [hrest] at hlookup
        rw [hsame] at hdir
        exact hresettable el hlookup mtime hdir
      · exact fun _ _ hexception => hexception
  | false =>
      rw [Bool.not_false, when_true]
      have hnone : s.disk.tree.node (placement.inside rest) = none := by simpa using hsome
      rcases SystemCall.createDirectories_render (Placement.inside_plain hnames.tail)
        (Placement.inside_ne : placement.inside rest ≠ []) s.disk with
          ⟨disk, hmake, hmade⟩ | ⟨hmake, -⟩ | ⟨disk, hmake, -⟩
      · have hkept : ∀ others el, PlainPath others →
            start.elements.lookup (render others) = some el →
              disk.tree.node (placement.inside others) =
                start.disk.tree.node (placement.inside others) := fun others el hothers hlookup =>
          hway.made_node htracked hnames.tail hothers hlookup hsame hmake fun _ hsuffix => hsuffix
        have hnode' : (s.withDisk disk).disk.tree.node (placement.tmpFile bytes) =
            some (.file content mtime) := by
          rw [← hnode]
          exact hmade.node _ (Placement.tmpFile_not_suffix Placement.folder_suffix_inside bytes)
        have hsome' := disk.tree.isSome_of_isDir (hmade.isDir_of_missing hnone)
        rw [← placement.absolutePath_eq] at hmake
        apply Meets.then_returned (onDisk_of_returned s hmake)
        apply (moveInto_stays hnames hsome' hnode').consequence fun _ hs => hs
        · intro _ s' hs'
          obtain ⟨disk', hdisk', hfile, hstays⟩ := hs'
          refine ⟨disk', hdisk', hfile, fun others el hne hothers hlookup hleft => ?_⟩
          apply (hstays others hne hleft _).congr (hkept others el hothers hlookup)
          -- a tracked parent is not missing
          intro hrest mtime hdir
          rw [hrest] at hlookup
          have hpresent := (htracked.backed hlookup).present
          rw [(htracked.backed hlookup).absolutePath, Disk.present, Disk.status,
            placement.status_inside _ hnames.tail, ← hsame, hnone] at hpresent
          simp at hpresent
        · exact fun _ _ hexception => hexception
      · rw [← placement.absolutePath_eq] at hmake
        exact Meets.then_raised (onDisk_of_raised s hmake) (by decide)
      · rw [← placement.absolutePath_eq] at hmake
        exact Meets.then_raised (onDisk_of_raised s hmake) (by decide)

/-- What is in the folder is not touched by a transfer. -/
theorem node_inside_of_aside {tree tree' : FileTree}
    (haside : Aside tree (placement.tmpFile bytes) tree') (others : List Text) :
    tree'.node (placement.inside others) = tree.node (placement.inside others) :=
  haside.node _ (Placement.not_suffix_tmpFile Placement.folder_suffix_inside bytes)

/-- A transfer that is given up leaves the attributes equal. -/
theorem Rejected.attributesAgree (h : AttributesAgree session start)
    (htracked : Tracked session unique start)
    (hrejected : Rejected start (placement.tmpFile bytes) s) : AttributesAgree session s := by
  apply h.of_same placement htracked
  · rw [hrejected.records.database]
  · exact hrejected.records.elements
  · intro others _ _ _ _ _
    exact .inl (hrejected.beside _
      (Placement.not_suffix_tmpFile Placement.folder_suffix_inside bytes))

/-- A file is accepted: it is in its place, it is as it was announced, and what else is
tracked stays. -/
structure Landed (placement : Placement session) (start s : ServerState) (content : List Byte)
    (names : List Text) (expected : DirectoryEntry) : Prop where
  size : content.length = expected.size
  hash : session.platform.sha256 content = expected.hash
  lastWriteTime : session.platform.putTime (session.platform.getTime expected.lastWriteTime) =
    expected.lastWriteTime
  records : SameRecords start s
  node : s.disk.tree.node (placement.inside names) =
    some (.file content (session.platform.getTime expected.lastWriteTime))
  others : OthersStay placement start (fun others => others = names) s.disk.tree

/-- The rule for a file that was received: it is accepted, or given up. -/
theorem acceptFile_meets {incoming : List ClientMessage} {expected : DirectoryEntry}
    {post failed : ServerState → Prop} (htracked : Tracked session unique start)
    (hnames : PlainPath (name :: rest)) (hrelative : expected.relativePath = render (name :: rest))
    (habsolute : expected.absolutePath = session.userPath ++ render (name :: rest))
    (hway : content.length = expected.size → session.platform.sha256 content = expected.hash →
      session.platform.putTime (session.platform.getTime expected.lastWriteTime) =
        expected.lastWriteTime →
          WayUntracked session start rest ∧ ParentResettable placement start rest)
    (hfailed : ∀ s', Rejected start (placement.tmpFile bytes) s' → failed s')
    (hpost : ∀ s', Landed placement start s' content (name :: rest) expected →
      post ((s'.tracked session (render (name :: rest))
        (start.elements.lookup (render (name :: rest))) expected).sent
          (okMessage session .created)))
    (hreceiving : Receiving start (placement.tmpFile bytes) content incoming s) :
    Meets (fun s' => s' = s) (acceptFile session (render (placement.tmpFile bytes)) expected)
      (fun _ => post) fun exception s' => Skipped exception → failed s' := by
  have htmp : PlainPath (placement.tmpFile bytes) := Placement.tmpFile_plain bytes
  have hne : placement.tmpFile bytes ≠ [] := List.cons_ne_nil _ _
  obtain ⟨mtime, hnode⟩ := hreceiving.holds
  have hstatus : s.disk.tree.status (render (placement.tmpFile bytes)) =
      some (.file content mtime) := by
    rw [s.disk.tree.status_render htmp hne, hnode]
  have hresolve : s.disk.tree.resolve (render (placement.tmpFile bytes)) =
      some (placement.tmpFile bytes) :=
    s.disk.tree.resolve_render_of_isDir htmp (s.disk.tree.isDir_parent hreceiving.holds.isSome)
  have hends : ∀ {exception : ServerException} {s' : ServerState}, ¬ Skipped exception →
      Skipped exception → failed s' := fun hexception hskipped => absurd hskipped hexception
  unfold acceptFile
  rcases loadEntry_cases session s session.temporaryPath (render (placement.tmpFile bytes)) with
    ⟨newFile, hload, hrun⟩ | ⟨-, hrun⟩
  · apply Meets.then_returned hrun
    obtain ⟨-, hpath, node, hstatus', hdescribes⟩ := DirectoryEntry.load_eq_some hload
    obtain rfl := Option.some.inj (hstatus.symm.trans hstatus')
    have hset : setTimeToFile session newFile expected.lastWriteTime s = .returned
        { newFile with
          lastWriteTime :=
            session.platform.putTime (session.platform.getTime expected.lastWriteTime) }
        (s.withDisk (s.disk.setTime (placement.tmpFile bytes)
          (session.platform.getTime expected.lastWriteTime))) :=
      onDisk_of_returned s (DirectoryEntry.setTimeToFile_of_resolve (hpath ▸ hresolve) hnode _)
    apply Meets.then_returned hset
    have hholds := hreceiving.holds.setTime (session.platform.getTime expected.lastWriteTime)
    have haside : Aside start.disk.tree (placement.tmpFile bytes)
        (s.disk.setTime (placement.tmpFile bytes)
          (session.platform.getTime expected.lastWriteTime)).tree := hreceiving.aside.setTime _
    generalize s.disk.setTime (placement.tmpFile bytes)
      (session.platform.getTime expected.lastWriteTime) = disk at hholds haside ⊢
    have hrecords := hreceiving.records.withDisk disk
    apply Meets.ite
    · -- the file is not the one that was announced
      intro _
      have htorn : Torn start (placement.tmpFile bytes) (s.withDisk disk) :=
        ⟨hrecords, haside, .inr ⟨content, _, hholds⟩⟩
      obtain ⟨removed, disk', hremove, haside', hgone⟩ := remove_torn htmp hne htorn
      apply Meets.then_returned hremove
      have hrejected : Rejected start (placement.tmpFile bytes)
          ((s.withDisk disk).withDisk disk') :=
        ⟨hrecords.withDisk disk', haside'.node, .inl hgone⟩
      cases refuse_cases session ((s.withDisk disk).withDisk disk') .store clientError with
      | inl hrun => exact Meets.ends_raised hrun fun _ => hfailed _ (hrejected.sent (errMessage_ne_OK _))
      | inr hrun => exact Meets.ends_raised hrun (hends (by decide))
    · intro hsame
      simp only [not_or, not_not] at hsame
      obtain ⟨hsize, hhash, htime⟩ := hsame
      have hsize : content.length = expected.size := hdescribes.size.symm.trans hsize
      have hhash : session.platform.sha256 content = expected.hash :=
        hdescribes.hash.symm.trans hhash
      obtain ⟨huntracked, hresettable⟩ := hway hsize hhash htime
      have hmove := moveIntoPlace_stays (s := s.withDisk disk) htracked huntracked hresettable
        hnames habsolute (node_inside_of_aside haside) hholds
      apply Meets.bind (hmove.consequence (fun _ hs => hs) (fun _ _ hs => hs)
        fun _ _ hexception hskipped => absurd hskipped hexception)
      intro _
      apply Meets.of_each
      intro s' hs'
      obtain ⟨disk', rfl, hplaced, hstay⟩ := hs'
      have helements : ((s.withDisk disk).withDisk disk').elements = start.elements :=
        hreceiving.records.elements
      apply Meets.then_returned (Procedure.read_apply _ _)
      rw [helements, hrelative]
      rcases track_cases session ((s.withDisk disk).withDisk disk') (render (name :: rest))
        (start.elements.lookup (render (name :: rest))) expected with ⟨-, hrun⟩ | ⟨-, hrun⟩
      · apply Meets.then_returned hrun
        have hlanded : Landed placement start ((s.withDisk disk).withDisk disk') content
            (name :: rest) expected :=
          ⟨hsize, hhash, htime, hrecords.withDisk disk', hplaced, hstay⟩
        cases sendServerMessage_cases (((s.withDisk disk).withDisk disk').tracked session
          (render (name :: rest)) (start.elements.lookup (render (name :: rest))) expected)
            (okMessage session .created) with
        | inl hrun => exact Meets.ends_returned hrun (hpost _ hlanded)
        | inr hrun => exact Meets.ends_raised hrun (hends (by decide))
      · exact Meets.then_raised hrun (hends (by decide))
  · exact Meets.then_raised hrun (hends (by decide))

end Transfers

/-- The rule for STOR: what was carried is accepted, or the request is given up. -/
theorem storeFile_meets (placement : Placement session) {post failed : ServerState → Prop}
    {name : Text} {rest : List Text} (htracked : Tracked session unique start)
    (hpath : Validator.validatePath message.path = some (render (name :: rest)))
    (hnames : PlainPath (name :: rest))
    (hway : ∀ taken, Carried session message start.connection.incoming taken →
      WayUntracked session start rest ∧ ParentResettable placement start rest)
    (hfailed : ∀ s', Rejected start (placement.tmpFile (tmpBytes session start)) s' → failed s')
    (hpost : ∀ content hash s', Landed placement start s' content (name :: rest)
        (requested session message (render (name :: rest)) hash) →
      post ((s'.tracked session (render (name :: rest))
        (start.elements.lookup (render (name :: rest)))
          (requested session message (render (name :: rest)) hash)).sent
            (okMessage session .created))) :
    Meets (fun s' => s' = start) (storeFile session message) (fun _ => post)
      fun exception s' => Skipped exception → failed s' := by
  have hidle : failed start := hfailed start (.of_records .refl rfl)
  apply Meets.then_returned (recoverIfNeeded_of_recovered session start htracked.recovered)
  apply Meets.bind_orRaise
  · exact fun s' hs' _ => hs' ▸ hidle
  intro hash hhash
  rw [hpath]
  apply Meets.then_returned rfl
  cases htime : Validator.validateLastWriteTime message.lastWriteTime with
  | false => exact Meets.then_raised rfl fun _ => hidle
  | true =>
  apply Meets.then_returned rfl
  apply Meets.then_returned (getHexString_run start session.tempNameSize)
  rw [placement.tmpPath_eq]
  apply Meets.then_returned (Procedure.read_apply _ _)
  have hplain : PlainPath (placement.tmpFile (tmpBytes session start)) :=
    Placement.tmpFile_plain _
  let named := { start with random := fun index => start.random (index + session.tempNameSize) }
  rcases makeTemporary_cases placement (tmpBytes session start) named with
    ⟨disk, hmake, htemp⟩ | ⟨disk, hmake, -⟩
  · apply Meets.then_returned hmake
    rcases SystemCall.openTruncated_render_cases hplain disk with hopen | ⟨hdir, hnotDir, hopen⟩
    · apply Meets.then_returned (onDisk_of_returned (named.withDisk disk) hopen)
      have hrejected : Rejected start (placement.tmpFile (tmpBytes session start))
          ((named.withDisk disk).withDisk disk) := by
        cases htemp with
        | inl hblocked => exact .of_records ⟨rfl, rfl, rfl, rfl⟩ (congrArg Disk.tree hblocked.2.1)
        | inr hmade => exact ⟨⟨rfl, rfl, rfl, rfl⟩, hmade.2.1.node, .inr hmade.2.2⟩
      cases refuse_cases session ((named.withDisk disk).withDisk disk) .exception internalError with
      | inl hrun => exact Meets.ends_raised hrun fun _ => hfailed _ (hrejected.sent (errMessage_ne_OK _))
      | inr hrun => exact Meets.ends_raised hrun fun hskipped => absurd hskipped (by decide)
    · have haside := (htemp.resolve_left fun hblocked => by simp [hblocked.1] at hdir).2.1
      apply Meets.then_returned (onDisk_of_returned (named.withDisk disk) hopen)
      apply Meets.then_returned (Procedure.read_apply _ _)
      have hreceiving : Receiving start (placement.tmpFile (tmpBytes session start)) []
          start.connection.incoming ((named.withDisk disk).withDisk
            (disk.writeFile (placement.tmpFile (tmpBytes session start)) [])) :=
        ⟨⟨rfl, rfl, rfl, rfl⟩, rfl, haside.writeFile hplain.head hdir hnotDir [],
          FileTree.Holds.writeFile hplain.head hdir hnotDir []⟩
      rcases transfer_ends hplain (List.cons_ne_nil _ _) hreceiving with
        ⟨taken, rest', s', heq, htaken, hrun, hreceived⟩ | ⟨exception, s', hrun, -, hrejected⟩
      · apply Meets.then_returned hrun
        apply acceptFile_meets htracked hnames rfl rfl _ hfailed (hpost _ hash) hreceived
        intro hsize hsame htime
        exact hway taken ⟨⟨rest', heq⟩, htaken, hsize, hhash.trans (congrArg some hsame.symm), htime⟩
      · exact Meets.then_raised hrun fun _ => hfailed s' hrejected
  · exact Meets.then_raised hmake fun hskipped => absurd hskipped (by decide)

theorem storeFile_evens (placement : Placement session) (htracked : Tracked session unique start)
    (h : AttributesAgree session start) (htype : message.type = .STOR)
    (hconserving : Conserving session start message)
    (hcanonical : ∀ path, Validator.validatePath message.path = some path → Canonical path) :
    Evens session start (storeFile session message) := by
  cases hpath : Validator.validatePath message.path with
  | none =>
      apply Evens.then_returned (recoverIfNeeded_of_recovered session start htracked.recovered)
      apply Evens.orRaise h
      intro hash _
      rw [hpath]
      exact Meets.then_raised rfl fun _ => h
  | some path =>
      obtain ⟨names, hne, hnames, rfl⟩ := (canonical_iff path).mp (hcanonical path hpath)
      obtain ⟨name, rest, rfl⟩ := List.exists_cons_of_ne_nil hne
      apply storeFile_meets placement htracked hpath hnames
      · intro taken hcarried
        have hunshaken : Unshaken session start rest := by
          apply hconserving.unshaken name rest hnames hpath
          rw [Acts, htype]
          exact ⟨taken, hcarried⟩
        exact ⟨hunshaken.way, fun el hlookup => hunshaken.resettable h hnames.tail hlookup⟩
      · exact fun s' hrejected => hrejected.attributesAgree h htracked
      · intro content hash s' hlanded
        have hrelative : (requested session message (render (name :: rest)) hash).relativePath =
            render (name :: rest) := rfl
        apply AttributesAgree.sent
        refine h.tracked placement htracked hrelative ?_
          (congrArg Database.rows (ServerState.tracked_database_congr _ _ _ _
            hlanded.records.database))
          (ServerState.tracked_elements_congr _ _ _ _ hlanded.records.elements) ?_
        · rw [ServerState.tracked_disk]
          refine ⟨_, (placement.status_inside _ hnames).trans hlanded.node, hlanded.size.symm,
            ?_, hlanded.lastWriteTime.symm, hlanded.hash.symm⟩
          rw [requested, DirectoryEntry.make, if_pos rfl]
          rfl
        · rw [ServerState.tracked_disk]
          intro others el hne' hothers hlookup hleft
          exact hlanded.others others el hne' hothers hlookup fun heq => hleft (by rw [heq])

end Handlers

end PdsBackup.Server
