import PdsBackup.Common.TimeText
import PdsBackup.Server.Upkeep

/-!
# The times of other directories

A handler saves the time of the parent of its object and sets it again.  That is
enough where the parent is there.  When it is missing, the first missing directory
is made in a directory whose time nobody saves.
-/

namespace PdsBackup.Server

open Procedure

variable {session : Session} {unique : Prop}

/-! ## Times that are kept -/

/-- A place that is a directory before and after has a time that reads the same. -/
def TimeKept (session : Session) (tree tree' : FileTree) (place : Path) : Prop :=
  ∀ mtime mtime', tree.node place = some (.dir mtime) → tree'.node place = some (.dir mtime') →
    session.platform.putTime mtime' = session.platform.putTime mtime

/-- Every tracked directory but the one at the given names keeps its time. -/
def OthersKept (placement : Placement session) (names : List Text) (start s : ServerState) :
    Prop :=
  ∀ others el, PlainPath others → others ≠ names →
    start.elements.lookup (render others) = some el →
      TimeKept session start.disk.tree s.disk.tree (placement.inside others)

section Kept

variable {tree tree' : FileTree} {place : Path}

theorem timeKept_of_node (h : tree'.node place = tree.node place) :
    TimeKept session tree tree' place := by
  intro mtime mtime' hbefore hafter
  rw [h, hbefore] at hafter
  cases hafter
  rfl

theorem timeKept_of_gone (h : tree'.node place = none) : TimeKept session tree tree' place := by
  intro mtime mtime' _ hafter
  rw [h] at hafter
  cases hafter

theorem Stays.timeKept (h : Stays session tree tree' place) : TimeKept session tree tree' place := by
  cases h with
  | inl hsame => exact timeKept_of_node hsame
  | inr hretimed =>
      obtain ⟨old, new, hold, hnew, htime⟩ := hretimed
      intro mtime mtime' hbefore hafter
      cases hold.symm.trans hbefore
      cases hnew.symm.trans hafter
      exact htime

end Kept

/-- What is tracked is below the folder. -/
theorem Tracked.names_ne {s : ServerState} {names : List Text} {el : DirectoryEntry}
    (h : Tracked session unique s) (hnames : PlainPath names)
    (hlookup : s.elements.lookup (render names) = some el) : names ≠ [] := by
  obtain ⟨found, hne, hfound, hrender⟩ := h.pathNames hlookup
  rw [render_injective hnames hfound hrender]
  exact hne

section Handlers

variable {placement : Placement session} {start : ServerState} {message : ClientMessage}
variable {name : Text} {rest : List Text}

theorem sendOK_yields {s : ServerState} {code : OkCode} {post : ServerState → Prop}
    (h : post (s.sent (okMessage session code))) : Yields s (sendOK session code) post := by
  cases sendServerMessage_cases s (okMessage session code) with
  | inl hrun => exact Yields.returns hrun h
  | inr hrun => exact Yields.raises hrun

theorem refuse_yields {α : Type} {s : ServerState} {code : ErrCode} {exception : ServerException}
    {post : ServerState → Prop} :
    Yields s (refuse session code exception : ServerProcedure α) post := by
  cases refuse_cases session s code exception with
  | inl hrun => exact Yields.raises hrun
  | inr hrun => exact Yields.raises hrun

theorem othersKept_of_same {names : List Text} {s : ServerState} (h : s.disk.tree = start.disk.tree) :
    OthersKept placement names start s := by
  intro others el _ _ _
  exact timeKept_of_node (by rw [h])

/-- An object is removed, and the parent's time is set again. -/
theorem othersKept_unlink {disk : Disk} {s : ServerState} (htracked : Tracked session unique start)
    (hother : ∀ other, other ≠ placement.inside rest → disk.tree.node other =
      (start.disk.unlink (placement.inside (name :: rest))).tree.node other)
    (hparent : rest ≠ [] → Resettable placement start.disk.tree rest →
      Stays session start.disk.tree disk.tree (placement.inside rest))
    (hreads : ∀ mtime, ReadBack session (session.platform.putTime mtime))
    (hs : s.disk = disk) : OthersKept placement (name :: rest) start s := by
  intro others el hothers hdistinct hlookup
  rw [hs]
  by_cases heq : others = rest
  · subst heq
    exact (hparent (htracked.names_ne hothers hlookup) fun mtime _ => hreads mtime).timeKept
  · have hplace : placement.inside others ≠ placement.inside rest := fun hsame =>
      heq (Placement.inside_injective hsame)
    have hnode := (hother _ hplace).trans (start.disk.node_unlink hplace)
    by_cases hbelow : name :: placement.inside rest <:+ placement.inside others
    · exact timeKept_of_gone (hnode.trans (if_pos hbelow))
    · exact timeKept_of_node (hnode.trans (if_neg hbelow))

/-! ## DELE -/

theorem removeFile_times (htracked : Tracked session unique start)
    (hpath : Validator.validatePath message.path = some (render (name :: rest)))
    (hnames : PlainPath (name :: rest))
    (hreads : ∀ mtime, ReadBack session (session.platform.putTime mtime)) :
    Yields start (removeFile session message) (OthersKept placement (name :: rest) start) := by
  apply Yields.then_returned (recoverIfNeeded_of_recovered session start htracked.recovered)
  apply Yields.orRaise
  intro hash _
  apply Yields.orRaise
  intro path hvalid
  obtain rfl := Option.some.inj (hpath.symm.trans hvalid)
  apply Yields.read
  cases hlookup : start.elements.lookup (render (name :: rest)) with
  | none => exact sendOK_yields (othersKept_of_same rfl)
  | some el =>
      have hbacked := htracked.backed hlookup
      apply Yields.read
      apply Yields.ite
      · intro hmissing
        simp [hbacked.present] at hmissing
      intro _
      apply Yields.ite
      · exact fun _ => refuse_yields
      intro hsame
      simp only [not_or, Bool.not_eq_true', Bool.not_eq_false, not_not] at hsame
      obtain ⟨content, mtime, hstatus, -⟩ := hbacked.file hsame.1
      rw [placement.status_inside _ hnames] at hstatus
      have hsome : (start.disk.tree.node (placement.inside (name :: rest))).isSome = true := by
        rw [hstatus]
        rfl
      have hparent := start.disk.tree.isDir_parent hsome
      rw [hbacked.absolutePath, placement.parentPath_inside hnames]
      rcases Placement.saveParent_inside placement hnames.tail
        (start.disk.tree.isSome_of_isDir hparent) with ⟨entry, hsave, hentry⟩ | ⟨-, -, hrun⟩
      · apply Yields.then_returned hsave
        have hremove := SystemCall.remove_render_file (Placement.inside_plain hnames)
          Placement.inside_ne hstatus
        rw [← placement.absolutePath_eq] at hremove
        apply Yields.then_returned (onDisk_of_returned start hremove)
        apply Yields.ite
        · simp
        intro _
        have hafter : (start.withDisk (start.disk.unlink
            (placement.inside (name :: rest)))).disk.tree.isDir (placement.inside rest) = true :=
          start.disk.isDir_parent_unlink hsome
        obtain ⟨disk, hreset, hother, hstays⟩ :=
          resetParent_stays placement hnames.tail hsave hentry hparent hafter
        apply Yields.then_returned hreset
        cases forget_cases session (start.withDisk disk) el.relativePath with
        | inl hidle =>
            apply Yields.then_returned hidle.2
            exact sendOK_yields (othersKept_unlink htracked hother hstays hreads rfl)
        | inr hopen => exact Yields.then_raised hopen.2
      · exact Yields.then_raised hrun

/-! ## RMD -/

theorem removeDir_times (htracked : Tracked session unique start)
    (hidle : start.database.inTransaction = false)
    (hpath : Validator.validatePath message.path = some (render (name :: rest)))
    (hnames : PlainPath (name :: rest))
    (hreads : ∀ mtime, ReadBack session (session.platform.putTime mtime)) :
    Yields start (removeDir session message) (OthersKept placement (name :: rest) start) := by
  apply Yields.then_returned (recoverIfNeeded_of_recovered session start htracked.recovered)
  apply Yields.orRaise
  intro path hvalid
  obtain rfl := Option.some.inj (hpath.symm.trans hvalid)
  apply Yields.read
  cases hlookup : start.elements.lookup (render (name :: rest)) with
  | none => exact sendOK_yields (othersKept_of_same rfl)
  | some el =>
      have hbacked := htracked.backed hlookup
      apply Yields.read
      apply Yields.ite
      · intro hmissing
        simp [hbacked.present] at hmissing
      intro _
      apply Yields.ite
      · exact fun _ => refuse_yields
      intro hkind
      have hdirectory : el.isDirectory = true := by simpa using hkind
      obtain ⟨mtime, hstatus⟩ := hbacked.directory hdirectory
      rw [placement.status_inside _ hnames] at hstatus
      have hdir : start.disk.tree.isDir (placement.inside (name :: rest)) = true := by
        rw [FileTree.isDir, hstatus]
        rfl
      have hsome := start.disk.tree.isSome_of_isDir hdir
      have hparent := start.disk.tree.isDir_parent hsome
      rw [hbacked.absolutePath, placement.parentPath_inside hnames]
      rcases Placement.saveParent_inside placement hnames.tail
        (start.disk.tree.isSome_of_isDir hparent) with ⟨entry, hsave, hentry⟩ | ⟨-, -, hrun⟩
      · apply Yields.then_returned hsave
        rcases SystemCall.listBelow_cases (session.userPath ++ render (name :: rest)) start.disk with
          ⟨place, hresolve, -, hlist⟩ | ⟨errno, hlist⟩
        · obtain rfl := placement.eq_inside_of_resolve hnames hresolve
          apply Yields.then_returned (onDisk_of_returned start hlist)
          apply Yields.read
          apply Yields.orRaise
          intro listed _
          have hremove := SystemCall.removeAll_render (Placement.inside_plain hnames)
            Placement.inside_ne hdir
          rw [← placement.absolutePath_eq] at hremove
          apply Yields.then_returned (onDisk_of_returned (start.withDisk start.disk) hremove)
          apply Yields.ite
          · simp
          intro _
          let gone := start.withDisk (start.disk.unlink (placement.inside (name :: rest)))
          obtain ⟨hdisk, -, -, -⟩ := forgottenAll_frame session gone listed
          apply Yields.then_returned (forgetAll_of_idle session gone listed hidle)
          cases forget_cases session (gone.forgottenAll session listed) el.relativePath with
          | inl hclosed =>
              apply Yields.then_returned hclosed.2
              have hafter : ((gone.forgottenAll session listed).forgotten session
                  el.relativePath).disk.tree.isDir (placement.inside rest) = true := by
                rw [ServerState.forgotten, hdisk]
                exact start.disk.isDir_parent_unlink hsome
              obtain ⟨disk, hreset, hother, hstays⟩ :=
                resetParent_stays placement hnames.tail hsave hentry hparent hafter
              apply Yields.then_returned hreset
              have hunlinked : ∀ other, other ≠ placement.inside rest → disk.tree.node other =
                  (start.disk.unlink (placement.inside (name :: rest))).tree.node other := by
                intro other hne
                rw [hother other hne, ServerState.forgotten, hdisk]
                rfl
              exact sendOK_yields (othersKept_unlink htracked hunlinked hstays hreads rfl)
          | inr hopen => exact Yields.then_raised hopen.2
        · exact Yields.then_raised (onDisk_of_raised start hlist)
      · exact Yields.then_raised hrun

/-! ## MKD -/

theorem finishDir_times {disk : Disk} {entry newDir : DirectoryEntry}
    (htracked : Tracked session unique start) (hnames : PlainPath (name :: rest))
    (hreads : ∀ mtime, ReadBack session (session.platform.putTime mtime))
    (hkept : ∀ others el, others ≠ rest → PlainPath others →
      start.elements.lookup (render others) = some el →
        disk.tree.node (placement.inside others) = start.disk.tree.node (placement.inside others))
    (hdir : disk.tree.isDir (placement.inside (name :: rest)) = true)
    (habsolute : newDir.absolutePath = session.userPath ++ render (name :: rest))
    (hparentDir : start.disk.present (session.userPath ++ render rest) = true →
      start.disk.tree.isDir (placement.inside rest) = true)
    (hsave : saveExistingParent session
      (start.disk.present (session.userPath ++ render rest)) (session.userPath ++ render rest)
        start = .returned entry start)
    (hentry : start.disk.present (session.userPath ++ render rest) = true → rest ≠ [] →
      entry.absolutePath = session.userPath ++ render rest) :
    Yields (start.withDisk disk) (do
      let newDir ← setTimeToFile session newDir message.lastWriteTime
      when (start.disk.present (session.userPath ++ render rest))
        (resetParent session (session.userPath ++ render rest) entry)
      track session (render (name :: rest)) (start.elements.lookup (render (name :: rest))) newDir
      sendOK session .created) (OthersKept placement (name :: rest) start) := by
  rcases setDirTime_cases placement hnames hdir habsolute hparentDir hsave hentry
    message.lastWriteTime with ⟨disk₁, disk₂, hset, hreset, -, hother, hparent⟩ | hrun
  · apply Yields.then_returned hset
    apply Yields.then_returned hreset
    rcases track_cases session (start.withDisk disk₂) (render (name :: rest))
      (start.elements.lookup (render (name :: rest))) { newDir with
        lastWriteTime := session.platform.putTime
          (session.platform.getTime message.lastWriteTime) } with ⟨-, hrun⟩ | ⟨-, hrun⟩
    · apply Yields.then_returned hrun
      apply sendOK_yields
      intro others el hothers hdistinct hlookup
      have hdisk : ((((start.withDisk disk₂).tracked session (render (name :: rest))
          (start.elements.lookup (render (name :: rest))) { newDir with
            lastWriteTime := session.platform.putTime
              (session.platform.getTime message.lastWriteTime) }).sent
                (okMessage session .created)).disk) = disk₂ :=
        ServerState.tracked_disk _ _ _ _
      rw [hdisk]
      by_cases hrest : others = rest
      · subst hrest
        -- a parent that is tracked was there before
        have hpresent := (htracked.backed hlookup).present
        rw [(htracked.backed hlookup).absolutePath] at hpresent
        exact (hparent hpresent (htracked.names_ne hothers hlookup)
          fun mtime _ => hreads mtime).timeKept
      · exact timeKept_of_node ((hother others hdistinct hrest).trans
          (hkept others el hrest hothers hlookup))
    · exact Yields.then_raised hrun
  · exact Yields.then_raised hrun

theorem makeDir_times (hcuts : Cuts session) (htracked : Tracked session unique start)
    (hpath : Validator.validatePath message.path = some (render (name :: rest)))
    (hnames : PlainPath (name :: rest))
    (hreads : ∀ mtime, ReadBack session (session.platform.putTime mtime))
    (hway : WayUntracked session start rest) :
    Yields start (makeDir session message) (OthersKept placement (name :: rest) start) := by
  have hcanonical : Canonical (render (name :: rest)) :=
    canonical_render (List.cons_ne_nil name rest) hnames
  apply Yields.then_returned (recoverIfNeeded_of_recovered session start htracked.recovered)
  apply Yields.orRaise
  intro path hvalid
  obtain rfl := Option.some.inj (hpath.symm.trans hvalid)
  apply Yields.ensure
  intro _
  apply Yields.read
  apply Yields.read
  apply Yields.ite
  · exact fun _ => sendOK_yields (othersKept_of_same rfl)
  intro _
  unfold updateDir
  dsimp only
  rw [placement.parentPath_inside hnames]
  apply Yields.read
  rcases placement.saveExistingParent_inside hnames.tail start with ⟨entry, hsave, hentry⟩ | hrun
  · apply Yields.then_returned hsave
    apply Yields.read
    cases hpresent : start.disk.present (session.userPath ++ render (name :: rest)) with
    | true =>
        apply Yields.then_returned rfl
        apply Yields.read
        apply Yields.ite
        · exact fun _ => refuse_yields
        intro hkind
        have hisDirectory : start.disk.isDirectory (session.userPath ++ render (name :: rest)) =
            true := by simpa using hkind
        rcases loadEntry_cases session start session.userPath
          (session.userPath ++ render (name :: rest)) with ⟨newDir, hload, hrun⟩ | ⟨-, hrun⟩
        · apply Yields.then_returned hrun
          have hdir : start.disk.tree.isDir (placement.inside (name :: rest)) = true := by
            rw [Disk.isDirectory, Disk.status, placement.status_inside _ hnames] at hisDirectory
            exact hisDirectory
          apply finishDir_times htracked hnames hreads (fun _ _ _ _ _ => rfl) hdir
            (Backed.of_load hcuts hcanonical hload).absolutePath ?_ hsave hentry
          exact fun _ => start.disk.tree.isDir_parent (start.disk.tree.isSome_of_isDir hdir)
        · exact Yields.then_raised hrun
    | false =>
        have hnone : start.disk.tree.node (placement.inside (name :: rest)) = none := by
          rw [← placement.status_inside _ hnames]
          exact Disk.present_eq_false_iff.mp hpresent
        rcases SystemCall.createDirectories_render (Placement.inside_plain hnames)
          (Placement.inside_ne : placement.inside (name :: rest) ≠ []) start.disk with
            ⟨disk, hmake, hmade⟩ | ⟨hmake, -⟩ | ⟨disk, hmake, -⟩
        · have hkept : ∀ others el, others ≠ rest → PlainPath others →
              start.elements.lookup (render others) = some el →
                disk.tree.node (placement.inside others) =
                  start.disk.tree.node (placement.inside others) := by
            intro others el hrest hothers hlookup
            apply hway.made_node htracked hnames hothers hlookup (fun _ => rfl) hmake
            intro next hsuffix
            exact (List.suffix_cons_iff.mp hsuffix).resolve_left fun heq =>
              hrest (List.cons.inj heq).2
          rw [← placement.absolutePath_eq] at hmake
          apply Yields.then_returned (onDisk_of_returned start hmake)
          have hdir := hmade.isDir_of_missing hnone
          apply Yields.read
          apply Yields.ite
          · exact fun _ => refuse_yields
          intro _
          rcases loadEntry_cases session (start.withDisk disk) session.userPath
            (session.userPath ++ render (name :: rest)) with ⟨newDir, hload, hrun⟩ | ⟨-, hrun⟩
          · apply Yields.then_returned hrun
            apply finishDir_times htracked hnames hreads hkept hdir
              (Backed.of_load hcuts hcanonical hload).absolutePath ?_ hsave hentry
            intro hparent
            rw [Disk.present, Disk.status, placement.status_inside _ hnames.tail] at hparent
            have hshape := hmade.shape (placement.inside rest)
            rw [if_neg fun hmissing => by simp [hmissing.2] at hparent] at hshape
            rw [FileTree.isDir_iff_shape, ← hshape, ← FileTree.isDir_iff_shape]
            exact disk.tree.isDir_parent (disk.tree.isSome_of_isDir hdir)
          · exact Yields.then_raised hrun
        · rw [← placement.absolutePath_eq] at hmake
          exact Yields.then_raised (onDisk_of_raised start hmake)
        · rw [← placement.absolutePath_eq] at hmake
          exact Yields.then_raised (onDisk_of_raised start hmake)
  · exact Yields.then_raised hrun

/-! ## STOR -/

theorem storeFile_times (htracked : Tracked session unique start)
    (hpath : Validator.validatePath message.path = some (render (name :: rest)))
    (hnames : PlainPath (name :: rest))
    (hreads : ∀ mtime, ReadBack session (session.platform.putTime mtime))
    (hway : WayUntracked session start rest) :
    Yields start (storeFile session message) (OthersKept placement (name :: rest) start) := by
  have hmeets : Meets (fun s' => s' = start) (storeFile session message)
      (fun _ => OthersKept placement (name :: rest) start)
      fun exception _ => Skipped exception → True := by
    apply storeFile_meets placement htracked hpath hnames
    · exact fun _ _ => ⟨hway, fun _ _ mtime _ => hreads mtime⟩
    · exact fun _ _ => trivial
    · intro content hash s' hlanded others el hothers hdistinct hlookup
      have hstays := hlanded.others others el (htracked.names_ne hothers hlookup) hothers hlookup
        hdistinct
      have hdisk := ServerState.tracked_disk session (render (name :: rest))
        (start.elements.lookup (render (name :: rest)))
        (requested session message (render (name :: rest)) hash) (s := s')
      intro mtime mtime' hbefore hafter
      rw [ServerState.sent, hdisk] at hafter
      exact hstays.timeKept mtime mtime' hbefore hafter
  exact hmeets.consequence (fun _ hs => hs) (fun _ _ hs => hs) fun _ _ _ => trivial

end Handlers

/-! ## Every run -/

/-- The requests that change the folder of a session. -/
def Changes (message : ClientMessage) : Prop :=
  message.type = .STOR ∨ message.type = .DELE ∨ message.type = .MKD ∨ message.type = .RMD

theorem Changes.backs {message : ClientMessage} (h : Changes message) : Backs message := by
  rcases h with htype | htype | htype | htype
  · exact .inr (.inl htype)
  · exact .inr (.inr (.inl htype))
  · exact .inr (.inr (.inr (.inl htype)))
  · exact .inr (.inr (.inr (.inr htype)))

/-- No time of a tracked directory is changed on the way to the object of a request:
what is missing on the way to the parent of its path is not made in one. -/
def WayClear (session : Session) (s : ServerState) (message : ClientMessage) : Prop :=
  message.type = .STOR ∨ message.type = .MKD → ∀ name rest, PlainPath (name :: rest) →
    Validator.validatePath message.path = some (render (name :: rest)) →
      WayUntracked session s rest

/-- A tracked directory other than the one at the path has, if it is there before and
after, a time that reads the same. -/
def TimesKept (session : Session) (path : Text) (elements : KeyedMap Text DirectoryEntry)
    (before after : Disk) : Prop :=
  ∀ other el mtime mtime', elements.lookup other = some el → other ≠ path →
    before.status (session.userPath ++ other) = some (.dir mtime) →
      after.status (session.userPath ++ other) = some (.dir mtime') →
        session.platform.putTime mtime' = session.platform.putTime mtime

theorem OthersKept.timesKept {placement : Placement session} {names : List Text}
    {start s : ServerState} (h : OthersKept placement names start s)
    (htracked : Tracked session unique start) :
    TimesKept session (render names) start.elements start.disk s.disk := by
  intro other el mtime mtime' hlookup hdistinct hbefore hafter
  obtain ⟨others, -, hothers, rfl⟩ := htracked.pathNames hlookup
  rw [Disk.status, placement.status_inside _ hothers] at hbefore hafter
  exact h others el hothers (fun heq => hdistinct (by rw [heq])) hlookup mtime mtime' hbefore hafter

theorem dispatch_times {start : ServerState} {message : ClientMessage} {path : Text}
    (placement : Placement session) (hcuts : Cuts session)
    (htracked : Tracked session unique start) (hidle : start.database.inTransaction = false)
    (hchanges : Changes message) (hpath : Validator.validatePath message.path = some path)
    (hcanonical : Canonical path)
    (hreads : ∀ mtime, ReadBack session (session.platform.putTime mtime))
    (hclear : WayClear session start message) :
    Yields start (dispatch session message)
      (fun s => TimesKept session path start.elements start.disk s.disk) := by
  obtain ⟨names, hne, hnames, rfl⟩ := (canonical_iff path).mp hcanonical
  obtain ⟨name, rest, rfl⟩ := List.exists_cons_of_ne_nil hne
  have hothers : Yields start (dispatch session message)
      (OthersKept placement (name :: rest) start) := by
    unfold dispatch
    rcases hchanges with htype | htype | htype | htype
    · rw [htype]
      exact storeFile_times htracked hpath hnames hreads (hclear (.inl htype) name rest hnames hpath)
    · rw [htype]
      exact removeFile_times htracked hpath hnames hreads
    · rw [htype]
      exact makeDir_times hcuts htracked hpath hnames hreads
        (hclear (.inr htype) name rest hnames hpath)
    · rw [htype]
      exact removeDir_times htracked hidle hpath hnames hreads
  exact hothers.consequence (fun _ hs => hs) (fun _ _ hs => hs.timesKept htracked)
    fun _ _ hs => hs

/-- Recovery reads the disk only. -/
theorem handled_disk (session : Session) (s : ServerState) (pending : List ClientMessage) :
    (s.handled session pending).disk = s.disk := by
  have hkeeps : Keeps (fun s' => s'.disk = s.disk) (recoverIfNeeded session) :=
    Unrecorded.recoverIfNeeded ⟨fun _ _ hs => hs, fun _ _ hs => hs, fun _ hs => hs⟩
  exact hkeeps.state (s := s.withIncoming pending) rfl

/-- In every run of a session in which all paths are canonical, a request that is
answered by an OK and has a clear way keeps the times of the other directories. -/
theorem times_kept {start s s' : ServerState} {message : ClientMessage}
    {pending : List ClientMessage} {sent : List ServerMessage} {code : OkCode} {path : Text}
    (placement : Placement session) (hcuts : Cuts session) (hfresh : Fresh start)
    (hrows : RowsCanonical session start.database.rows)
    (hreached : Reached session (fun _ => PathCanonical) start s)
    (hincoming : s.connection.incoming = message :: pending) (hchanges : Changes message)
    (hpath : Validator.validatePath message.path = some path) (hcanonical : Canonical path)
    (hreads : ∀ mtime, ReadBack session (session.platform.putTime mtime))
    (hclear : WayClear session (s.handled session pending) message)
    (hreceive : receive session s = .returned () s')
    (hsent : s'.connection.outgoing = s.connection.outgoing ++ sent)
    (hok : okMessage session code ∈ sent) :
    TimesKept session path (s.handled session pending).elements s.disk s'.disk := by
  have hstart : Known session False start := .inl (hfresh.prepared hrows False.elim)
  have hknown := (hreached.known placement hcuts hstart hfresh.settled).withIncoming pending
  have hsettled := hreached.settled hfresh.settled
  have hread : Settled False (s.withIncoming pending) :=
    ⟨⟨hsettled.delivered, False.elim⟩, hsettled.idle⟩
  have hdisk := handled_disk session s pending
  rcases recoverIfNeeded_ends hcuts hknown hread with
    ⟨middle, hrecover, htracked, hconnection, hidle⟩ | ⟨exception, s₁, hraised, hexception⟩
  · have hhandled : s.handled session pending = middle := by
      rw [ServerState.handled, hrecover]
      rfl
    rw [hhandled] at hclear hdisk ⊢
    have hmessage : PathCanonical message := by
      intro _ other hother
      rw [hpath, Option.some.injEq] at hother
      rwa [← hother]
    have hdispatch : Meets (fun s₁ => s₁ = s.withIncoming pending) (dispatch session message)
        (fun _ s₁ => s₁.confirmed = middle.confirmed ∨
          TimesKept session path middle.elements middle.disk s₁.disk)
        fun exception s₁ => Skipped exception → s₁.confirmed = middle.confirmed ∨
          TimesKept session path middle.elements middle.disk s₁.disk := by
      rintro s₁ rfl
      rw [dispatch_of_recovers hchanges.backs hrecover htracked.recovered]
      have hhonest := dispatch_honest placement hcuts htracked hidle hchanges.backs hmessage
      have htimes := dispatch_times placement hcuts htracked hidle hchanges hpath hcanonical hreads
        hclear
      exact (hhonest.and htimes).consequence (fun _ hs => ⟨hs, hs⟩) (fun _ _ hs => .inr hs.2)
        (fun _ _ hs hskipped => .inl (hs.1 hskipped).2) middle rfl
    cases receive_returns hincoming hdispatch hreceive with
    | inr hkept =>
        rw [hdisk] at hkept
        exact hkept
    | inl hconfirmed =>
        -- an OK was sent
        exfalso
        rw [ServerState.confirmed, ServerState.confirmed, hsent, hconnection,
          List.filter_append] at hconfirmed
        have hnil := List.append_right_eq_self.mp hconfirmed
        have hmem : okMessage session code ∈ sent.filter fun message => message.type = .OK :=
          List.mem_filter.mpr ⟨hok, by simp [okMessage]⟩
        simp [hnil] at hmem
  · exfalso
    have hdispatch : Meets (fun s₂ => s₂ = s.withIncoming pending) (dispatch session message)
        (fun _ _ => False) fun exception _ => Skipped exception → False := by
      obtain ⟨rest, heq⟩ := dispatch_backs session hchanges.backs
      rw [heq]
      exact Meets.then_raised hraised hexception
    exact receive_returns hincoming hdispatch hreceive

theorem times_kept_mkd :
    TimesKept annaSession "/a".toList (singleMkd.handled annaSession []).elements singleMkd.disk
      (receive annaSession singleMkd).state.disk := by
  have hends : (receive annaSession singleMkd).returns = true ∧
      (receive annaSession singleMkd).state.connection.outgoing =
        [okMessage annaSession .created] := by
    decide +kernel
  have hpath : Validator.validatePath "/a".toList = some (render ["a".toList]) := by
    decide +kernel
  apply times_kept annaPlacement (cuts_of_literal (by decide +kernel))
    (startSession_fresh _ _ _ rfl) _ .start rfl (.inr (.inr (.inl rfl))) hpath (by decide)
    (fun _ => rfl) _ (Exit.eq_returned_of_returns hends.1) hends.2 (List.mem_singleton.mpr rfl)
  · exact fun row hrow _ => absurd hrow (by simp [startSession])
  · intro _ name rest hnames hvalid above next hsuffix
    -- the parent is the folder
    have hrender := Option.some.inj (hpath.symm.trans hvalid)
    have heq := render_injective (by decide) hnames hrender
    rw [← (List.cons.inj heq).2] at hsuffix
    exact absurd (List.eq_nil_of_suffix_nil hsuffix) (List.cons_ne_nil above next)

/-- Libraries that tell the first day of 1970 from the later ones. -/
def coarsePlatform : Platform where
  sha256 := epochPlatform.sha256
  putTime mtime := TimeText.timeText (if mtime < 86400 then 0 else 86400)
  getTime text := if text = TimeText.timeText 86400 then 86400 else 0

def coarseSession : Session := { annaSession with platform := coarsePlatform }

theorem coarse_reads (mtime : Int) :
    ReadBack coarseSession (coarseSession.platform.putTime mtime) := by
  by_cases hfirst : mtime < 86400
  · have htime : coarseSession.platform.putTime mtime = TimeText.timeText 0 :=
      congrArg TimeText.timeText (if_pos hfirst)
    rw [htime, ReadBack]
    decide +kernel
  · have htime : coarseSession.platform.putTime mtime = TimeText.timeText 86400 :=
      congrArg TimeText.timeText (if_neg hfirst)
    rw [htime, ReadBack]
    decide +kernel

def coarsePlacement : Placement coarseSession where
  base := annaPlacement.base
  temp := annaPlacement.temp
  base_plain := annaPlacement.base_plain
  temp_plain := annaPlacement.temp_plain
  temp_ne := annaPlacement.temp_ne
  basePath_eq := annaPlacement.basePath_eq
  temporaryPath_eq := annaPlacement.temporaryPath_eq
  username_valid := annaPlacement.username_valid
  mac_valid := annaPlacement.mac_valid
  temp_outside := annaPlacement.temp_outside
  folder_outside := annaPlacement.folder_outside

/-- A day later a directory is made that has the time of the first day, and then one
two levels below it. -/
def deepStart : ServerState :=
  startSession { annaDisk with clock := fun _ => 86400 } {}
    [{ mkdRequest "/a".toList with lastWriteTime := TimeText.timeText 0 },
      { mkdRequest "/a/b/c".toList with lastWriteTime := TimeText.timeText 0 }]

def deepParent : ServerState := (receive coarseSession deepStart).state

/-- The directory in which the missing one is made gets another time. -/
theorem not_times_kept :
    ¬ ∀ (session : Session) (_ : Placement session) (start s s' : ServerState)
      (message : ClientMessage) (pending : List ClientMessage) (sent : List ServerMessage)
      (code : OkCode) (path : Text), Cuts session → Fresh start → start.database.rows = [] →
      Reached session (fun _ => PathCanonical) start s →
      s.connection.incoming = message :: pending → Changes message →
      Validator.validatePath message.path = some path → Canonical path →
      (∀ mtime, ReadBack session (session.platform.putTime mtime)) →
      receive session s = .returned () s' →
      s'.connection.outgoing = s.connection.outgoing ++ sent → okMessage session code ∈ sent →
      TimesKept session path (s.handled session pending).elements s.disk s'.disk := by
  intro hclaim
  have hpath : ∀ {path found}, path ∈ ["/a".toList, "/a/b/c".toList] →
      Validator.validatePath path = some found → Canonical found := by
    intro path found hmem hvalid
    have hall : ∀ path ∈ ["/a".toList, "/a/b/c".toList],
        Validator.validatePath path = some path ∧ Canonical path := by decide +kernel
    obtain ⟨hself, hcanonical⟩ := hall path hmem
    rw [Option.some.inj (hvalid.symm.trans hself)]
    exact hcanonical
  have hends : (receive coarseSession deepStart).returns = true ∧
      deepParent.connection.incoming =
        [{ mkdRequest "/a/b/c".toList with lastWriteTime := TimeText.timeText 0 }] ∧
      (receive coarseSession deepParent).returns = true ∧
      (receive coarseSession deepParent).state.connection.outgoing =
        deepParent.connection.outgoing ++ [okMessage coarseSession .created] ∧
      ((deepParent.handled coarseSession []).elements.lookup "/a".toList).isSome = true ∧
      deepParent.disk.status (coarseSession.userPath ++ "/a".toList) = some (.dir 0) ∧
      (receive coarseSession deepParent).state.disk.status
        (coarseSession.userPath ++ "/a".toList) = some (.dir 86400) ∧
      coarseSession.platform.putTime 86400 ≠ coarseSession.platform.putTime 0 := by
    decide +kernel
  obtain ⟨hfirst, hincoming, hsecond, houtgoing, hsome, hbefore, hafter, hdiffer⟩ := hends
  obtain ⟨el, hlookup⟩ := Option.isSome_iff_exists.mp hsome
  apply hdiffer
  exact hclaim coarseSession coarsePlacement deepStart deepParent _ _ [] _ .created "/a/b/c".toList
    (cuts_of_literal (by decide +kernel)) (startSession_fresh _ _ _ rfl) rfl
    (.call .start rfl (fun _ _ hvalid => hpath List.mem_cons_self hvalid)
      (Exit.eq_returned_of_returns hfirst)) hincoming (.inr (.inr (.inl rfl)))
    (by decide +kernel) (by decide) coarse_reads (Exit.eq_returned_of_returns hsecond) houtgoing
    (List.mem_singleton.mpr rfl) "/a".toList el 0 86400 hlookup (by decide) hbefore hafter

end PdsBackup.Server
