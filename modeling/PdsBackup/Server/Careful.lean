import PdsBackup.Server.Upkeep
import PdsBackup.Common.TimeText

/-!
# Runs of careful requests

From the recovery on, the attributes of what is tracked are equal in the map, in
the rows and on the disk, as long as every request keeps them so.  PROB does not
where it sets the time of a file: the row keeps the old one.
-/

namespace PdsBackup.Server

open Procedure

variable {session : Session} {unique : Prop}

/-! ## A call -/

theorem dispatch_evens {start : ServerState} {message : ClientMessage}
    (placement : Placement session) (hcuts : Cuts session) (htracked : Tracked session unique start) (hidle : start.database.inTransaction = false)
    (h : AttributesAgree session start) (hbacks : Backs message)
    (hcanonical : ∀ path, Validator.validatePath message.path = some path → Canonical path)
    (hconserving : Conserving session start message) :
    Evens session start (dispatch session message) := by
  unfold dispatch
  rcases hbacks with htype | htype | htype | htype | htype
  · rw [htype]
    exact probe_evens placement htracked h (hconserving.timed htype)
  · rw [htype]
    exact storeFile_evens placement htracked h htype hconserving hcanonical
  · rw [htype]
    exact removeFile_evens placement htracked h htype hconserving
  · rw [htype]
    exact makeDir_evens placement hcuts htracked h htype hconserving hcanonical
  · rw [htype]
    exact removeDir_evens placement hcuts htracked hidle h htype hconserving

/-! ## Every run -/

/-- The condition on a request: it is one of a backup, its path is canonical, and
it leaves the attributes of what is tracked equal. -/
structure Careful (session : Session) (s : ServerState) (message : ClientMessage) : Prop where
  backs : Backs message
  canonical : ∀ path, Validator.validatePath message.path = some path → Canonical path
  conserving : Conserving session (s.handled session s.connection.incoming.tail) message

theorem Reached.careful {start s : ServerState}
    (hreached : Reached session (Careful session) start s) :
    Reached session (fun _ => PathCanonical) start s := by
  induction hreached with
  | start => exact .start
  | call _ hincoming hcareful hreceive ih =>
      exact .call ih hincoming (fun _ => hcareful.canonical) hreceive

/-- A careful request keeps the attributes equal. -/
theorem receive_evens {s s' : ServerState} {message : ClientMessage} {pending : List ClientMessage}
    (placement : Placement session) (hcuts : Cuts session) (hknown : Known session unique s)
    (hsettled : Settled False s)
    (hattributes : ∀ middle, recoverIfNeeded session (s.withIncoming pending) =
      .returned () middle → AttributesAgree session middle)
    (hincoming : s.connection.incoming = message :: pending)
    (hcareful : Careful session s message) (hreceive : receive session s = .returned () s') :
    Tracked session unique s' ∧ AttributesAgree session s' := by
  have hread : Settled False (s.withIncoming pending) :=
    ⟨⟨hsettled.delivered, False.elim⟩, hsettled.idle⟩
  rcases recoverIfNeeded_ends hcuts (hknown.withIncoming pending) hread with
    ⟨middle, hrecover, htracked, -, hidle⟩ | ⟨exception, s₁, hraised, hexception⟩
  · have hconserving : Conserving session middle message := by
      have hhandled := hcareful.conserving
      rw [hincoming, List.tail_cons, ServerState.handled, hrecover] at hhandled
      exact hhandled
    have hhonest := dispatch_honest placement hcuts htracked hidle hcareful.backs
      fun _ => hcareful.canonical
    have hevens := dispatch_evens placement hcuts htracked hidle (hattributes middle hrecover)
      hcareful.backs hcareful.canonical hconserving
    apply receive_returns hincoming _ hreceive
    intro s₁ hs₁
    rw [hs₁, dispatch_of_recovers hcareful.backs hrecover htracked.recovered]
    exact (hhonest.and hevens).consequence (fun _ hs => ⟨hs, hs⟩)
      (fun _ _ hs => ⟨hs.1.1, hs.2⟩)
      (fun _ _ hs hskipped => ⟨(hs.1 hskipped).1, hs.2 hskipped⟩) middle rfl
  · exfalso
    have hdispatch : Meets (fun s₂ => s₂ = s.withIncoming pending) (dispatch session message)
        (fun _ _ => False) fun exception _ => Skipped exception → False := by
      obtain ⟨rest, heq⟩ := dispatch_backs session hcareful.backs
      rw [heq]
      exact Meets.then_raised hraised hexception
    exact receive_returns hincoming hdispatch hreceive

/-- In every run of a session that starts on any disk and on whole rows, and in
which every request is careful, the attributes are equal in every state from the
recovery on. -/
theorem attributes_agree {start s : ServerState} (placement : Placement session)
    (hcuts : Cuts session) (hfresh : Fresh start)
    (hrows : RowsCanonical session start.database.rows) (hwhole : RowsWhole session start)
    (hreached : Reached session (Careful session) start s) (hrecovered : s.recovered = true) :
    ∀ path el, s.elements.lookup path = some el →
      rowsAt session path s.database.rows ≠ [] ∧ AttributesAt session s path el := by
  have hstart : Known session False start := .inl (hfresh.prepared hrows False.elim)
  have hruns : ∀ s, Reached session (Careful session) start s →
      s = start ∨ (Tracked session False s ∧ AttributesAgree session s) := by
    intro s hreached
    induction hreached with
    | start => exact .inl rfl
    | @call s s' message pending hreached hincoming hcareful hreceive ih =>
        have hknown := hreached.careful.known placement hcuts hstart hfresh.settled
        have hsettled := hreached.settled hfresh.settled
        refine .inr (receive_evens placement hcuts hknown hsettled ?_ hincoming hcareful hreceive)
        intro middle hmiddle
        cases ih with
        | inl hfirst =>
            rw [hfirst] at hmiddle
            have hrun : recoverIfNeeded session (start.withIncoming pending) =
                recoverFromDB session (start.withIncoming pending) := by
              simp [recoverIfNeeded, ServerState.withIncoming, hfresh.recovered]
            exact (recoverFromDB_attributes (s := start.withIncoming pending) hcuts
              hfresh.elements hrows hwhole).returned rfl
              (hrun.symm.trans hmiddle)
        | inr hboth =>
            have hrun := recoverIfNeeded_of_recovered session (s.withIncoming pending)
              hboth.1.recovered
            obtain ⟨-, rfl⟩ := Exit.returned.inj (hrun.symm.trans hmiddle)
            intro path el hlookup
            obtain ⟨hdescribed, hrecords⟩ := hboth.2 path el hlookup
            exact ⟨hdescribed, hrecords⟩
  intro path el hlookup
  cases hruns s hreached with
  | inl hfirst =>
      rw [hfirst, hfresh.recovered] at hrecovered
      simp at hrecovered
  | inr hboth =>
      have hat := hboth.1.at_path path
      rw [TrackedAt, hlookup] at hat
      exact ⟨hat.2.1, hboth.2 path el hlookup⟩

/-- A session that is asked for a directory, and for one in it. -/
def nestedStart : ServerState :=
  startSession annaDisk {} [mkdRequest "/a".toList, mkdRequest "/a/b".toList]

def nestedParent : ServerState := (receive annaSession nestedStart).state

/-- A request for a directory is careful where nothing tracked is shaken. -/
theorem careful_mkd {s : ServerState} {names : List Text} (hnames : PlainPath names)
    (hne : names ≠ []) (hpath : Validator.validatePath (render names) = some (render names))
    (hunshaken : Unshaken annaSession (s.handled annaSession s.connection.incoming.tail)
      names.tail) : Careful annaSession s (mkdRequest (render names)) where
  backs := .inr (.inr (.inr (.inl rfl)))
  canonical path hvalid := by
    obtain rfl := Option.some.inj (hpath.symm.trans hvalid)
    exact canonical_render hne hnames
  conserving :=
    { timed := fun htype => absurd htype (by simp [mkdRequest])
      unshaken := by
        intro name rest hplain hvalid _
        have hrender := Option.some.inj (hpath.symm.trans hvalid)
        obtain rfl := render_injective hnames hplain hrender
        exact hunshaken }

theorem attributes_agree_nested :
    ∃ el, (receive annaSession nestedParent).state.elements.lookup "/a".toList = some el ∧
      rowsAt annaSession "/a".toList (receive annaSession nestedParent).state.database.rows ≠ [] ∧
        AttributesAt annaSession (receive annaSession nestedParent).state "/a".toList el := by
  have hends : (receive annaSession nestedStart).returns = true ∧
      nestedParent.connection.incoming = [mkdRequest "/a/b".toList] ∧
      (receive annaSession nestedParent).returns = true ∧
      (receive annaSession nestedParent).state.recovered = true ∧
      ((receive annaSession nestedParent).state.elements.lookup "/a".toList).isSome = true ∧
      (nestedStart.handled annaSession [mkdRequest "/a/b".toList]).elements.lookup [] = none ∧
      (nestedParent.handled annaSession []).elements.lookup [] = none ∧
      ((nestedParent.handled annaSession []).elements.lookup "/a".toList).map
        DirectoryEntry.lastWriteTime = some epoch := by
    decide +kernel
  obtain ⟨hfirst, hincoming, hsecond, hrecovered, helement, hempty, hroot, hparent⟩ := hends
  have hcareful : Careful annaSession nestedStart (mkdRequest "/a".toList) := by
    apply careful_mkd (by decide : PlainPath ["a".toList]) (by decide) (by decide +kernel)
    constructor
    · exact fun el hlookup => absurd (hempty.symm.trans hlookup) (by simp)
    · intro name above hsuffix
      exact absurd (List.eq_nil_of_suffix_nil hsuffix) (List.cons_ne_nil name above)
  have hcareful' : Careful annaSession nestedParent (mkdRequest "/a/b".toList) := by
    apply careful_mkd (by decide : PlainPath ["b".toList, "a".toList]) (by decide)
      (by decide +kernel)
    rw [hincoming, List.tail_cons]
    constructor
    · intro el hlookup
      have hel := (congrArg (Option.map DirectoryEntry.lastWriteTime) hlookup).symm.trans hparent
      rw [ReadBack, Option.some.inj hel]
      rfl
    · intro name above hsuffix _
      cases List.suffix_cons_iff.mp hsuffix with
      | inl heq => rwa [(List.cons.inj heq).2]
      | inr hbelow => exact absurd (List.eq_nil_of_suffix_nil hbelow) (List.cons_ne_nil name above)
  obtain ⟨el, hlookup⟩ := Option.isSome_iff_exists.mp helement
  refine ⟨el, hlookup, attributes_agree annaPlacement (cuts_of_literal (by decide +kernel))
    (startSession_fresh _ _ _ rfl) ?_ ?_ (.call (.call .start rfl hcareful
      (Exit.eq_returned_of_returns hfirst)) hincoming hcareful'
        (Exit.eq_returned_of_returns hsecond)) hrecovered _ el hlookup⟩
  · exact fun row hrow _ => absurd hrow (by simp [startSession])
  · exact fun row hrow _ => absurd hrow (by simp [startSession])

/-- Libraries that know two days, as `anna`'s do. -/
def dayPlatform : Platform where
  sha256 := epochPlatform.sha256
  putTime := TimeText.timeText
  getTime text := if text = TimeText.timeText 86400 then 86400 else 0

def daySession : Session := { annaSession with platform := dayPlatform }

def dayPlacement : Placement daySession where
  base := annaPlacement.base
  temp := annaPlacement.temp
  base_plain := annaPlacement.base_plain
  temp_plain := annaPlacement.temp_plain
  temp_ne := annaPlacement.temp_ne
  basePath_eq := annaPlacement.basePath_eq
  temporaryPath_eq := annaPlacement.temporaryPath_eq
  username_valid := annaPlacement.username_valid
  mac_valid := annaPlacement.mac_valid
  temp_outside := annaPlacement.temp_outside
  folder_outside := annaPlacement.folder_outside

/-- A file is stored, and a day later it is told to have another time. -/
def probed : ClientMessage :=
  { version := 1, type := .PROB, path := "/f".toList, lastWriteTime := TimeText.timeText 86400
    hash := emptyFileHash }

def dayStart : ServerState :=
  startSession annaDisk {} (storRequest "/f".toList 0 ++ [probed])

def dayStored : ServerState := (receive daySession dayStart).state

/-- The row of a file keeps the time the file was stored with. -/
theorem not_attributes_agree :
    ¬ ∀ (session : Session) (_ : Placement session) (start s : ServerState), Cuts session →
      Fresh start → start.database.rows = [] →
      Reached session (fun _ message => Backs message ∧
        ∀ path, Validator.validatePath message.path = some path → Canonical path) start s →
      s.recovered = true → ∀ path el, s.elements.lookup path = some el →
        rowsAt session path s.database.rows ≠ [] ∧ AttributesAt session s path el := by
  intro hclaim
  have hpath : ∀ path, Validator.validatePath "/f".toList = some path → Canonical path := by
    intro path hvalid
    obtain rfl := Option.some.inj
      ((by decide +kernel : Validator.validatePath "/f".toList = some "/f".toList).symm.trans hvalid)
    decide
  have hends : (receive daySession dayStart).returns = true ∧
      dayStored.connection.incoming = [probed] ∧
      (receive daySession dayStored).returns = true ∧
      (receive daySession dayStored).state.recovered = true ∧
      ((receive daySession dayStored).state.elements.lookup "/f".toList).map
        DirectoryEntry.lastWriteTime = some (TimeText.timeText 86400) ∧
      (rowsAt daySession "/f".toList (receive daySession dayStored).state.database.rows).map
        Row.lastWriteTime = [TimeText.timeText 0] ∧
      TimeText.timeText 0 ≠ TimeText.timeText 86400 := by
    decide +kernel
  obtain ⟨hfirst, hincoming, hsecond, hrecovered, helement, hrows, hdiffer⟩ := hends
  obtain ⟨el, hlookup, htime⟩ := Option.map_eq_some_iff.mp helement
  obtain ⟨-, hat⟩ := hclaim daySession dayPlacement dayStart _ (cuts_of_literal (by decide +kernel))
    (startSession_fresh _ _ _ rfl) rfl
    (.call (.call .start rfl ⟨.inr (.inl rfl), hpath⟩ (Exit.eq_returned_of_returns hfirst))
      hincoming ⟨.inl rfl, hpath⟩ (Exit.eq_returned_of_returns hsecond)) hrecovered _ el hlookup
  obtain ⟨row, hrow, hlastWriteTime⟩ := List.mem_map.mp
    (hrows ▸ List.mem_singleton.mpr rfl : TimeText.timeText 0 ∈ List.map Row.lastWriteTime
      (rowsAt daySession "/f".toList (receive daySession dayStored).state.database.rows))
  exact hdiffer (hlastWriteTime.symm.trans ((hat.records row hrow).lastWriteTime.trans htime))

end PdsBackup.Server
