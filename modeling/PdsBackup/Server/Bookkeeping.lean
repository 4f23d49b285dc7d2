import PdsBackup.Common.Operations
import PdsBackup.Server.Agreement

/-!
# The books of a session

The elements of a session are the books of what it has confirmed: an OK says that the
operation of the request was done on them, and without an OK they are as they were.
-/

namespace PdsBackup.Server

open Procedure

variable {session : Session} {unique : Prop}

def ServerState.books (s : ServerState) : Text → Option Record := fun path =>
  (s.elements.lookup path).map DirectoryEntry.record

/-- Nothing was done, and nothing confirmed. -/
structure Unbooked (start s : ServerState) : Prop where
  confirmed : s.confirmed = start.confirmed
  books : s.books = start.books

/-- The operation was done and confirmed, or neither. -/
def Booked (session : Session) (operation : Operation) (start s : ServerState) : Prop :=
  Unbooked start s ∨
    ∃ code, s.connection.outgoing = start.connection.outgoing ++ [okMessage session code] ∧
      s.books = TableOperation.deep Below start.books operation

theorem Unbooked.refl (s : ServerState) : Unbooked s s := ⟨rfl, rfl⟩

/-- From a known state the routine does the operation and confirms it, or neither. -/
def Books {α : Type} (session : Session) (operation : Operation) (start s : ServerState)
    (p : ServerProcedure α) : Prop :=
  Meets (fun s' => s' = s) p (fun _ => Booked session operation start)
    fun exception s' => Skipped exception → Unbooked start s'

namespace Books

variable {α β : Type} {operation : Operation} {start s middle : ServerState}

theorem then_returned {p : ServerProcedure α} {f : α → ServerProcedure β} {value : α}
    (hrun : p s = .returned value middle)
    (hrest : Books session operation start middle (f value)) :
    Books session operation start s (p >>= f) := Meets.then_returned hrun hrest

/-- An exception that is not skipped ends the session. -/
theorem then_raised {p : ServerProcedure α} {f : α → ServerProcedure β}
    {exception : ServerException} (hrun : p s = .raised exception middle)
    (hexception : ¬ Skipped exception) : Books session operation start s (p >>= f) :=
  Meets.then_raised hrun fun hskipped => absurd hskipped hexception

theorem raise {exception : ServerException} (hexception : ¬ Skipped exception) :
    Books session operation start s (Procedure.raise exception : ServerProcedure α) :=
  Meets.ends_raised rfl fun hskipped => absurd hskipped hexception

theorem read {g : ServerState → α} {f : α → ServerProcedure β}
    (hf : Books session operation start s (f (g s))) :
    Books session operation start s (Procedure.read g >>= f) := then_returned rfl hf

theorem ite {condition : Prop} [Decidable condition] {p q : ServerProcedure α}
    (hthen : condition → Books session operation start s p)
    (helse : ¬ condition → Books session operation start s q) :
    Books session operation start s (if condition then p else q) := Meets.ite hthen helse

theorem orRaise {exception : ServerException} {value : Option α} {f : α → ServerProcedure β}
    (hunbooked : Unbooked start s)
    (hf : ∀ result, value = some result → Books session operation start s (f result)) :
    Books session operation start s (Procedure.orRaise exception value >>= f) := by
  cases value with
  | none => exact Meets.then_raised rfl fun _ => hunbooked
  | some result => exact then_returned rfl (hf result rfl)

theorem ensure {exception : ServerException} {condition : Bool} {f : Unit → ServerProcedure β}
    (hunbooked : Unbooked start s)
    (hf : condition = true → Books session operation start s (f ())) :
    Books session operation start s (Procedure.ensure exception condition >>= f) := by
  cases condition with
  | false => exact Meets.then_raised rfl fun _ => hunbooked
  | true => exact then_returned rfl (hf rfl)

theorem refuse {code : ErrCode} {exception : ServerException} (hunbooked : Unbooked start s) :
    Books session operation start s
      (refuse session code exception : ServerProcedure α) := by
  cases refuse_cases session s code exception with
  | inl hrun =>
      apply Meets.ends_raised hrun
      intro _
      exact ⟨(ServerState.confirmed_sent (errMessage_ne_OK code)).trans hunbooked.confirmed,
        hunbooked.books⟩
  | inr hrun => exact Meets.ends_raised hrun fun hskipped => absurd hskipped (by decide)

theorem sendSEND {path : Text} {hash : Hash} (hunbooked : Unbooked start s) :
    Books session operation start s (sendSEND session path hash) := by
  have hmessage : (sendMessage session path hash).type ≠ .OK := by simp [sendMessage]
  cases sendServerMessage_cases s (sendMessage session path hash) with
  | inl hrun =>
      apply Meets.ends_returned hrun
      exact .inl ⟨(ServerState.confirmed_sent hmessage).trans hunbooked.confirmed,
        hunbooked.books⟩
  | inr hrun => exact Meets.ends_raised hrun fun hskipped => absurd hskipped (by decide)

theorem sendOK {code : OkCode} (houtgoing : s.connection.outgoing = start.connection.outgoing)
    (hbooks : s.books = TableOperation.deep Below start.books operation) :
    Books session operation start s (sendOK session code) := by
  cases sendServerMessage_cases s (okMessage session code) with
  | inl hrun =>
      apply Meets.ends_returned hrun
      refine .inr ⟨code, ?_, hbooks⟩
      rw [← houtgoing]
      rfl
  | inr hrun => exact Meets.ends_raised hrun fun hskipped => absurd hskipped (by decide)

end Books

/-! ## Entries in the books -/

section Entries

variable {start s : ServerState} {path : Text} {el entry : DirectoryEntry}

theorem books_congr (helements : s.elements = start.elements) : s.books = start.books := by
  funext path
  rw [ServerState.books, helements]
  rfl

theorem books_of_lookup (hlookup : s.elements.lookup path = some el) :
    s.books path = some el.record := by
  rw [ServerState.books, hlookup]
  rfl

theorem books_of_missing (hlookup : s.elements.lookup path = none) : s.books path = none := by
  rw [ServerState.books, hlookup]
  rfl

/-- What is there already need not be put. -/
theorem books_put_same (hlookup : s.elements.lookup path = some el) {record : Record}
    (hrecord : el.record = record) :
    s.books = TableOperation.deep Below s.books (.put path record) := by
  have hbooks := books_of_lookup hlookup
  rw [hrecord] at hbooks
  rw [TableOperation.deep, ← hbooks, Function.update_eq_self]

/-- Another time does not show in the books. -/
theorem books_inserted {s' : ServerState} (hlookup : s.elements.lookup path = some el)
    (hrecord : entry.record = el.record) (helements : s'.elements = s.elements.insert path entry) :
    s'.books = s.books := by
  funext other
  rw [ServerState.books, helements, KeyedMap.lookup_insert]
  by_cases hother : other = path
  · rw [if_pos hother, hother, books_of_lookup hlookup, Option.map_some, hrecord]
  · rw [if_neg hother]
    rfl

theorem books_put (session : Session) {record : Record} (hentry : entry.relativePath = path)
    (hrecord : entry.record = record) :
    (s.tracked session path (s.elements.lookup path) entry).books =
      TableOperation.deep Below s.books (.put path record) := by
  funext other
  rw [ServerState.books, lookup_tracked session s hentry, TableOperation.deep,
    Function.update_apply]
  split
  · rw [Option.map_some, hrecord]
  · rfl

theorem books_drop_missing (hlookup : s.elements.lookup path = none) :
    s.books = TableOperation.deep Below s.books (.drop path) := by
  rw [TableOperation.deep, ← books_of_missing hlookup, Function.update_eq_self]

theorem books_sweep_missing (hlookup : s.elements.lookup path = none) :
    s.books = TableOperation.deep Below s.books (.sweep path) := by
  funext other
  simp [TableOperation.deep, books_of_missing hlookup]

theorem books_forgotten (session : Session) :
    (s.forgotten session path).books = TableOperation.deep Below s.books (.drop path) := by
  funext other
  have hlookup := KeyedMap.lookup_erase s.elements path other
  rw [ServerState.books, TableOperation.deep, Function.update_apply]
  by_cases hother : other = path
  · rw [if_pos hother] at hlookup ⊢
    exact congrArg (Option.map DirectoryEntry.record) hlookup
  · rw [if_neg hother] at hlookup ⊢
    exact congrArg (Option.map DirectoryEntry.record) hlookup

/-- With a directory go the entries that are forgotten with it, if they are those
below its path. -/
theorem books_forgottenAll (session : Session) {entries : List DirectoryEntry}
    (hlookup : s.elements.lookup path = some el)
    (hlisted : ∀ other ∈ entries.map DirectoryEntry.relativePath,
      other = path ∨ Below path other)
    (hall : ∀ other, other = path ∨ Below path other →
      (s.elements.lookup other).isSome = true →
        other ∈ entries.map DirectoryEntry.relativePath) :
    (s.forgottenAll session entries).books =
      TableOperation.deep Below s.books (.sweep path) := by
  funext other
  have hat := forgottenAll_at session entries s other
  simp only [ServerState.books, TableOperation.deep, hlookup, Option.map_some, Option.isSome_some,
    true_and]
  by_cases hmem : other ∈ entries.map DirectoryEntry.relativePath
  · rw [(hat.1 hmem).1, if_pos (hlisted other hmem)]
    rfl
  · rw [(hat.2 hmem).1]
    split
    · next hbelow =>
        cases hother : s.elements.lookup other with
        | none => rfl
        | some found => exact absurd (hall other hbelow (by rw [hother]; rfl)) hmem
    · rfl

end Entries

theorem resetParent_ends (session : Session) (s : ServerState) (parent : Text)
    (entry : DirectoryEntry) :
    (∃ disk, resetParent session parent entry s = .returned () (s.withDisk disk)) ∨
      ∃ s', resetParent session parent entry s = .raised .standard s' := by
  rcases resetParent_cases session s parent entry with
    ⟨-, hrun⟩ | ⟨-, path, node, -, -, hrun⟩ | ⟨-, -, hrun⟩
  · exact .inl ⟨s.disk, hrun⟩
  · exact .inl ⟨_, hrun⟩
  · exact .inr ⟨s, hrun⟩

theorem saveExistingParent_ends (session : Session) (s : ServerState) (parentExists : Bool)
    (parent : Text) :
    (∃ entry, saveExistingParent session parentExists parent s = .returned entry s) ∨
      saveExistingParent session parentExists parent s = .raised .standard s := by
  cases parentExists with
  | false => exact .inl ⟨{}, rfl⟩
  | true =>
      cases saveParent_cases session s parent with
      | inl hsaved =>
          obtain ⟨entry, hrun, -⟩ := hsaved
          exact .inl ⟨entry, hrun⟩
      | inr hfailed => exact .inr hfailed.2.2

theorem when_onDisk_ends {ε : Type} (s : ServerState) (condition : Bool)
    (p : Procedure Disk ε Unit) :
    (∃ disk, when condition (onDisk p) s = .returned () (s.withDisk disk)) ∨
      ∃ s', when condition (onDisk p) s = .raised .standard s' := by
  cases condition with
  | false => exact .inl ⟨s.disk, rfl⟩
  | true =>
      cases hrun : p s.disk with
      | returned value disk => exact .inl ⟨disk, onDisk_of_returned s hrun⟩
      | raised exception disk => exact .inr ⟨_, onDisk_of_raised s hrun⟩

theorem when_resetParent_ends (session : Session) (s : ServerState) (condition : Bool)
    (parent : Text) (entry : DirectoryEntry) :
    (∃ disk, when condition (resetParent session parent entry) s =
        .returned () (s.withDisk disk)) ∨
      ∃ s', when condition (resetParent session parent entry) s = .raised .standard s' := by
  cases condition with
  | false => exact .inl ⟨s.disk, rfl⟩
  | true => exact resetParent_ends session s parent entry

section Handlers

variable {start : ServerState} {message : ClientMessage} {path : Text}

/-! ## PROB and STOR -/

theorem probe_books (htracked : Tracked session unique start)
    (hpath : Validator.validatePath message.path = some path) :
    Books session (.put path (fileRecord message.hash)) start start (probe session message) := by
  apply Books.then_returned (recoverIfNeeded_of_recovered session start htracked.recovered)
  apply Books.orRaise (.refl start)
  intro hash hhash
  rw [hpath]
  apply Books.then_returned rfl
  apply Books.ensure (.refl start)
  intro _
  apply Books.read
  cases hlookup : start.elements.lookup path with
  | none => exact Books.sendSEND (.refl start)
  | some el =>
      apply Books.ite
      · exact fun _ => Books.refuse (.refl start)
      intro hfile
      have hfile : el.type = .file := by simpa [DirectoryEntry.isRegularFile] using hfile
      apply Books.ite
      · exact fun _ => Books.sendSEND (.refl start)
      intro hsame
      have hrecord : el.record = fileRecord message.hash := by
        rw [record_of_file hfile, not_not.mp hsame]
        exact congrArg fileRecord ((Hash.ofBytes_eq_some_iff _ _).mp hhash)
      have hbooks := books_put_same hlookup hrecord
      apply Books.ite
      · intro _
        cases setTimeToFile_cases session start el message.lastWriteTime with
        | inl hset =>
            obtain ⟨place, node, -, -, hrun⟩ := hset
            apply Books.then_returned hrun
            apply Books.then_returned (insertElement_run _ _ _)
            apply Books.sendOK
            · rfl
            · refine Eq.trans (books_inserted hlookup ?_ rfl) hbooks
              rfl
        | inr hfailed => exact Books.then_raised hfailed.2 (by decide)
      · exact fun _ => Books.sendOK rfl hbooks

theorem storeFile_books (placement : Placement session) (htracked : Tracked session unique start)
    (hidle : start.database.inTransaction = false)
    (hpath : Validator.validatePath message.path = some path) (hcanonical : Canonical path) :
    Books session (.put path (fileRecord message.hash)) start start
      (storeFile session message) := by
  have hcanonical : ∀ other, Validator.validatePath message.path = some other →
      Canonical other := by
    intro other hother
    rwa [← Option.some.inj (hpath.symm.trans hother)]
  rcases storeFile_ends placement htracked.recovered hidle hcanonical with
    ⟨names, taken, s', -, -, hstored, hends⟩ | ⟨exception, s', hraised, hrejected⟩ |
      ⟨names, s', -, hraised, -⟩
  · obtain ⟨hash, rest, hhash, -, hdelivered⟩ := hstored.delivered
    obtain rfl := Option.some.inj (hpath.symm.trans hstored.path)
    cases hends with
    | inl hreturned =>
        apply Meets.ends_returned hreturned
        refine .inr ⟨.created, ?_, ?_⟩
        · simp [ServerState.sent, Connection.sent, hdelivered.connection]
        have hfile : (requested session message (render names) hash).type = .file := by
          rw [requested, DirectoryEntry.make, if_pos rfl]
        have hrecord : (requested session message (render names) hash).record =
            fileRecord message.hash := by
          rw [record_of_file hfile]
          exact congrArg fileRecord ((Hash.ofBytes_eq_some_iff _ _).mp hhash)
        exact (books_congr hdelivered.elements).trans (books_put session rfl hrecord)
    | inr hraised => exact Meets.ends_raised hraised fun hskipped => absurd hskipped (by decide)
  · apply Meets.ends_raised hraised
    intro _
    refine ⟨hrejected.records.confirmed, ?_⟩
    exact books_congr hrejected.records.elements
  · exact Meets.ends_raised hraised fun hskipped => absurd hskipped (by decide)

/-! ## DELE and RMD -/

theorem removeFile_books (htracked : Tracked session unique start)
    (hpath : Validator.validatePath message.path = some path) :
    Books session (.drop path) start start (removeFile session message) := by
  apply Books.then_returned (recoverIfNeeded_of_recovered session start htracked.recovered)
  apply Books.orRaise (.refl start)
  intro hash _
  rw [hpath]
  apply Books.then_returned rfl
  apply Books.read
  cases hlookup : start.elements.lookup path with
  | none => exact Books.sendOK rfl (books_drop_missing hlookup)
  | some el =>
      have hbacked := htracked.backed hlookup
      apply Books.read
      apply Books.ite
      · intro hmissing
        simp [hbacked.present] at hmissing
      intro _
      apply Books.ite
      · exact fun _ => Books.refuse (.refl start)
      intro _
      cases saveParent_cases session start (parentPath el.absolutePath) with
      | inr hfailed => exact Books.then_raised hfailed.2.2 (by decide)
      | inl hsaved =>
      obtain ⟨entry, hrun, -⟩ := hsaved
      apply Books.then_returned hrun
      cases hremove : SystemCall.remove el.absolutePath start.disk with
      | raised errno disk => exact Books.then_raised (onDisk_of_raised start hremove) (by decide)
      | returned removed disk =>
          apply Books.then_returned (onDisk_of_returned start hremove)
          apply Books.ite
          · exact fun _ => Books.raise (by decide)
          intro _
          obtain ⟨disk', hreset⟩ | ⟨s', hreset⟩ := resetParent_ends session
            (start.withDisk disk) (parentPath el.absolutePath) entry
          · apply Books.then_returned hreset
            cases forget_cases session ((start.withDisk disk).withDisk disk') el.relativePath with
            | inl hforgot =>
                apply Books.then_returned hforgot.2
                apply Books.sendOK
                · rfl
                · rw [hbacked.relativePath]
                  exact books_forgotten session
            | inr hopen => exact Books.then_raised hopen.2 (by decide)
          · exact Books.then_raised hreset (by decide)

theorem exists_source_of_mapM {α β : Type} {f : α → Option β} {values : List α}
    {results : List β} (hmap : values.mapM f = some results) {result : β}
    (hresult : result ∈ results) : ∃ value ∈ values, f value = some result := by
  induction values generalizing results with
  | nil =>
      obtain rfl := Option.some.inj hmap
      exact absurd hresult List.not_mem_nil
  | cons first values ih =>
      simp only [List.mapM_cons, Option.bind_eq_bind, Option.bind_eq_some_iff, Option.pure_def,
        Option.some.injEq] at hmap
      obtain ⟨own, hown, rest, hrest, rfl⟩ := hmap
      cases List.mem_cons.mp hresult with
      | inl hfirst => exact ⟨first, List.mem_cons_self, hfirst ▸ hown⟩
      | inr hlater =>
          obtain ⟨value, hvalue, heq⟩ := ih hrest hlater
          exact ⟨value, List.mem_cons_of_mem first hvalue, heq⟩

/-- A path that goes on after the names of another one is below it. -/
theorem below_of_suffix {names others : List Text} (hsuffix : names <:+ others)
    (hne : others ≠ names) : Below (render names) (render others) := by
  obtain ⟨front, rfl⟩ := hsuffix
  induction front with
  | nil => exact absurd rfl hne
  | cons name front ih =>
      rw [List.cons_append, render_cons]
      cases front with
      | nil =>
          rw [List.nil_append]
          exact ⟨name, by simp⟩
      | cons next front =>
          have hlonger : next :: front ++ names ≠ names := fun heq =>
            List.cons_ne_nil next front (List.append_left_eq_self.mp heq)
          exact (ih hlonger).trans (List.prefix_append _ _)

/-- What is listed below a directory is below its path. -/
theorem listed_below (placement : Placement session) (hcuts : Cuts session) {tree : FileTree}
    {names : List Text} {listed : List DirectoryEntry} (hnames : PlainPath names)
    (hlisted : (SystemCall.listing (render (placement.inside names)) (placement.inside names)
      tree).mapM (fun path => DirectoryEntry.load session.platform session.userPath path tree) =
        some listed) {other : Text} (hother : other ∈ listed.map DirectoryEntry.relativePath) :
    Below (render names) other := by
  obtain ⟨entry, hentry, rfl⟩ := List.mem_map.mp hother
  rw [SystemCall.listing_render (Placement.inside_plain hnames)] at hlisted
  obtain ⟨text, htext, hload⟩ := exists_source_of_mapM hlisted hentry
  obtain ⟨place, hplace, rfl⟩ := List.mem_map.mp htext
  obtain ⟨⟨front, rfl⟩, hne, hsome⟩ := (tree.mem_below _ _).mp hplace
  have hinside : front ++ placement.inside names = placement.inside (front ++ names) :=
    (List.append_assoc front names placement.folder).symm
  have hlonger : front ++ names ≠ names := fun heq => hne (by rw [hinside, heq])
  have hothers : PlainPath (front ++ names) :=
    PlainPath.left (hinside ▸ tree.plain_of_isSome hsome)
  have hnonempty : front ++ names ≠ [] := by
    intro hnil
    apply hlonger
    rw [hnil, (List.append_eq_nil_iff.mp hnil).2]
  rw [hinside, ← placement.absolutePath_eq] at hload
  have hbacked := Backed.of_load hcuts (canonical_render hnonempty hothers) hload
  rw [hbacked.relativePath]
  exact below_of_suffix (List.suffix_append front names) hlonger

/-- The directory and what is listed below it are the paths at and below its path that
are tracked. -/
theorem removed_entries (placement : Placement session) (hcuts : Cuts session)
    (htracked : Tracked session unique start) {names : List Text} {el : DirectoryEntry}
    {listed : List DirectoryEntry} (hnames : PlainPath names)
    (hlookup : start.elements.lookup (render names) = some el)
    (hlisted : (SystemCall.listing (session.userPath ++ render names) (placement.inside names)
      start.disk.tree).mapM (fun path =>
        DirectoryEntry.load session.platform session.userPath path start.disk.tree) =
          some listed) :
    (∀ other ∈ (listed ++ [el]).map DirectoryEntry.relativePath,
      other = render names ∨ Below (render names) other) ∧
    ∀ other, other = render names ∨ Below (render names) other →
      (start.elements.lookup other).isSome = true →
        other ∈ (listed ++ [el]).map DirectoryEntry.relativePath := by
  rw [placement.absolutePath_eq] at hlisted
  have hown : [el].map DirectoryEntry.relativePath = [render names] := by
    rw [List.map_singleton, (htracked.backed hlookup).relativePath]
  rw [List.map_append, hown]
  constructor
  · intro other hother
    cases List.mem_append.mp hother with
    | inl hbelow => exact .inr (listed_below placement hcuts hnames hlisted hbelow)
    | inr hsame => exact .inl (List.mem_singleton.mp hsame)
  · intro other hother hsome
    rw [List.mem_append, List.mem_singleton]
    by_cases hsame : other = render names
    · exact .inr hsame
    obtain ⟨found, hfound⟩ := Option.isSome_iff_exists.mp hsome
    have hbacked := htracked.backed hfound
    obtain ⟨others, -, hothers, rfl⟩ := (canonical_iff other).mp hbacked.canonical
    obtain ⟨shape, hshape, -⟩ := hbacked.object
    rw [shapeAt_render placement _ hothers] at hshape
    have hpresent : (start.disk.tree.node (placement.inside others)).isSome = true := by
      rw [← FileTree.isSome_shape, hshape]
      rfl
    have hsuffix := suffix_of_prefix hnames hothers (hother.resolve_left hsame)
    exact .inl (mem_listed placement hcuts hnames hlisted hothers hpresent hsuffix
      fun heq => hsame (congrArg render heq))

theorem removeDir_books (placement : Placement session) (hcuts : Cuts session)
    (htracked : Tracked session unique start) (hidle : start.database.inTransaction = false)
    (hpath : Validator.validatePath message.path = some path) :
    Books session (.sweep path) start start (removeDir session message) := by
  apply Books.then_returned (recoverIfNeeded_of_recovered session start htracked.recovered)
  rw [hpath]
  apply Books.then_returned rfl
  apply Books.read
  cases hlookup : start.elements.lookup path with
  | none => exact Books.sendOK rfl (books_sweep_missing hlookup)
  | some el =>
      have hbacked := htracked.backed hlookup
      apply Books.read
      apply Books.ite
      · intro hmissing
        simp [hbacked.present] at hmissing
      intro _
      apply Books.ite
      · exact fun _ => Books.refuse (.refl start)
      intro _
      cases saveParent_cases session start (parentPath (session.userPath ++ path)) with
      | inr hfailed => exact Books.then_raised hfailed.2.2 (by decide)
      | inl hsaved =>
      obtain ⟨entry, hrun, -⟩ := hsaved
      apply Books.then_returned hrun
      rw [hbacked.absolutePath]
      obtain ⟨names, -, hnames, rfl⟩ := (canonical_iff path).mp hbacked.canonical
      rcases SystemCall.listBelow_cases (session.userPath ++ render names) start.disk with
        ⟨place, hresolve, -, hlist⟩ | ⟨errno, hlist⟩
      · obtain rfl := placement.eq_inside_of_resolve hnames hresolve
        apply Books.then_returned (onDisk_of_returned start hlist)
        apply Books.read
        apply Books.orRaise (.refl start)
        intro listed hlisted
        cases hremove : SystemCall.removeAll (session.userPath ++ render names) start.disk with
        | raised errno disk =>
            exact Books.then_raised (onDisk_of_raised (start.withDisk start.disk) hremove)
              (by decide)
        | returned count disk =>
            apply Books.then_returned (onDisk_of_returned (start.withDisk start.disk) hremove)
            apply Books.ite
            · exact fun _ => Books.raise (by decide)
            intro _
            let gone := start.withDisk disk
            apply Books.then_returned (forgetAll_of_idle session gone listed hidle)
            cases forget_cases session (gone.forgottenAll session listed) el.relativePath with
            | inr hopen => exact Books.then_raised hopen.2 (by decide)
            | inl hforgot =>
                apply Books.then_returned hforgot.2
                obtain ⟨disk', hreset⟩ | ⟨s', hreset⟩ := resetParent_ends session _
                  (parentPath (session.userPath ++ render names)) entry
                · apply Books.then_returned hreset
                  apply Books.sendOK
                  · exact congrArg Connection.outgoing (forgottenAll_frame session gone listed).2.1
                  · have hsame : (((gone.forgottenAll session listed).forgotten session
                        el.relativePath).withDisk disk').books =
                          (start.forgottenAll session (listed ++ [el])).books := by
                      apply books_congr
                      rw [forgottenAll_withDisk]
                      simp only [ServerState.forgottenAll, List.foldl_append]
                      rfl
                    rw [hsame]
                    have hgone := removed_entries placement hcuts htracked hnames hlookup hlisted
                    exact books_forgottenAll session hlookup hgone.1 hgone.2
                · exact Books.then_raised hreset (by decide)
      · exact Books.then_raised (onDisk_of_raised start hlist) (by decide)

/-! ## MKD -/

/-- What is tracked with the time of a request for a directory is a directory. -/
def DirectoryKnown (s : ServerState) (lastWriteTime path : Text) : Prop :=
  ∀ el, s.elements.lookup path = some el → el.lastWriteTime = lastWriteTime →
    el.isDirectory = true

theorem Backed.directoryRecord {tree : FileTree} {el : DirectoryEntry}
    (hbacked : Backed session tree path el) (hdirectory : el.type = .directory) :
    el.record = directoryRecord := by
  obtain ⟨shape, -, hmatches⟩ := hbacked.object
  cases shape with
  | file content mtime =>
      have hfile : el.type = .file := hmatches.1
      simp [hdirectory] at hfile
  | dir => exact record_of_directory hdirectory hmatches.2

theorem updateDir_books (hcuts : Cuts session) (hcanonical : Canonical path) :
    Books session (.put path directoryRecord) start start
      (updateDir session path (start.elements.lookup path) message.lastWriteTime) := by
  unfold updateDir
  dsimp only
  apply Books.read
  generalize start.disk.present (parentPath (session.userPath ++ path)) = parentExists
  cases saveExistingParent_ends session start parentExists
    (parentPath (session.userPath ++ path)) with
  | inr hraised => exact Books.then_raised hraised (by decide)
  | inl hsaved =>
  obtain ⟨entry, hrun⟩ := hsaved
  apply Books.then_returned hrun
  apply Books.read
  cases when_onDisk_ends start (!start.disk.present (session.userPath ++ path))
    (SystemCall.createDirectories (session.userPath ++ path)) with
  | inr hraised =>
      obtain ⟨s', hraised⟩ := hraised
      exact Books.then_raised hraised (by decide)
  | inl hmade =>
  obtain ⟨disk, hrun⟩ := hmade
  apply Books.then_returned hrun
  apply Books.read
  apply Books.ite
  · exact fun _ => Books.refuse ⟨rfl, rfl⟩
  intro hkind
  have hkind : disk.isDirectory (session.userPath ++ path) = true := by
    simpa [ServerState.withDisk] using hkind
  cases loadEntry_cases session (start.withDisk disk) session.userPath
    (session.userPath ++ path) with
  | inr hfailed => exact Books.then_raised hfailed.2 (by decide)
  | inl hloaded =>
  obtain ⟨newDir, hload, hrun⟩ := hloaded
  apply Books.then_returned hrun
  have hbacked := Backed.of_load hcuts hcanonical hload
  have hdirectory : newDir.type = .directory := by
    obtain ⟨-, -, node, hstatus, hdescribes⟩ := DirectoryEntry.load_eq_some hload
    rw [Disk.isDirectory, Disk.status] at hkind
    rw [hdescribes.type]
    have hstatus : disk.tree.status (session.userPath ++ path) = some node := hstatus
    rw [hstatus, Option.any_some] at hkind
    cases node with
    | file content mtime => cases hkind
    | dir mtime => rfl
  cases setTimeToFile_cases session (start.withDisk disk) newDir message.lastWriteTime with
  | inr hfailed => exact Books.then_raised hfailed.2 (by decide)
  | inl hset =>
  obtain ⟨place, node, -, -, hrun⟩ := hset
  apply Books.then_returned hrun
  cases when_resetParent_ends session ((start.withDisk disk).withDisk (disk.setTime place
    (session.platform.getTime message.lastWriteTime))) parentExists
    (parentPath (session.userPath ++ path)) entry with
  | inr hraised =>
      obtain ⟨s', hraised⟩ := hraised
      exact Books.then_raised hraised (by decide)
  | inl hreset =>
  obtain ⟨disk', hrun⟩ := hreset
  apply Books.then_returned hrun
  cases track_cases session (((start.withDisk disk).withDisk (disk.setTime place
    (session.platform.getTime message.lastWriteTime))).withDisk disk') path
    (start.elements.lookup path) { newDir with
      lastWriteTime := session.platform.putTime
        (session.platform.getTime message.lastWriteTime) } with
  | inr hopen => exact Books.then_raised hopen.2 (by decide)
  | inl htrack =>
      apply Books.then_returned htrack.2
      apply Books.sendOK
      · rw [ServerState.tracked_connection]
        rfl
      · have helements := ServerState.tracked_elements_congr session path
          (start.elements.lookup path) { newDir with
            lastWriteTime := session.platform.putTime
              (session.platform.getTime message.lastWriteTime) }
          (s := ((start.withDisk disk).withDisk (disk.setTime place
            (session.platform.getTime message.lastWriteTime))).withDisk disk')
          (rfl : _ = start.elements)
        apply (books_congr helements).trans
        apply books_put session
        · exact hbacked.relativePath
        · exact hbacked.directoryRecord hdirectory

theorem makeDir_books (hcuts : Cuts session) (htracked : Tracked session unique start)
    (hpath : Validator.validatePath message.path = some path) (hcanonical : Canonical path)
    (hknown : DirectoryKnown start message.lastWriteTime path) :
    Books session (.put path directoryRecord) start start (makeDir session message) := by
  apply Books.then_returned (recoverIfNeeded_of_recovered session start htracked.recovered)
  rw [hpath]
  apply Books.then_returned rfl
  apply Books.ensure (.refl start)
  intro _
  apply Books.read
  apply Books.read
  apply Books.ite
  · intro hupToDate
    obtain ⟨el, hlookup, hel⟩ := (Option.any_eq_true _ _).mp hupToDate
    rw [Bool.and_eq_true, decide_eq_true_eq] at hel
    have hdirectory : el.type = .directory := by
      simpa [DirectoryEntry.isDirectory] using hknown el hlookup hel.2
    apply Books.sendOK rfl
    exact books_put_same hlookup ((htracked.backed hlookup).directoryRecord hdirectory)
  · exact fun _ => updateDir_books hcuts hcanonical

/-! ## A call -/

/-- A request of a backup with a path that is accepted as it is. -/
structure Orders (message : ClientMessage) (operation : Operation) : Prop where
  operation : message.operation = some operation
  path : Validator.validatePath message.path = some message.path
  canonical : Canonical message.path

variable {operation : Operation}

theorem Orders.backs (horders : Orders message operation) : Backs message := by
  have hoperation := horders.operation
  unfold Backs
  unfold ClientMessage.operation at hoperation
  cases htype : message.type <;> simp_all

theorem Orders.pathCanonical (horders : Orders message operation) : PathCanonical message := by
  intro _ path hpath
  rw [← Option.some.inj (horders.path.symm.trans hpath)]
  exact horders.canonical

theorem dispatch_books (placement : Placement session) (hcuts : Cuts session)
    (htracked : Tracked session unique start) (hidle : start.database.inTransaction = false)
    (horders : Orders message operation)
    (hknown : message.type = .MKD → DirectoryKnown start message.lastWriteTime message.path) :
    Books session operation start start (dispatch session message) := by
  have hoperation := horders.operation
  unfold dispatch
  unfold ClientMessage.operation at hoperation
  cases htype : message.type with
  | PROB =>
      rw [htype] at hoperation
      obtain rfl := Option.some.inj hoperation
      exact probe_books htracked horders.path
  | STOR =>
      rw [htype] at hoperation
      obtain rfl := Option.some.inj hoperation
      exact storeFile_books placement htracked hidle horders.path horders.canonical
  | DELE =>
      rw [htype] at hoperation
      obtain rfl := Option.some.inj hoperation
      exact removeFile_books htracked horders.path
  | MKD =>
      rw [htype] at hoperation
      obtain rfl := Option.some.inj hoperation
      exact makeDir_books hcuts htracked horders.path horders.canonical (hknown htype)
  | RMD =>
      rw [htype] at hoperation
      obtain rfl := Option.some.inj hoperation
      exact removeDir_books placement hcuts htracked hidle horders.path
  | NOOP | DATA | AUTH | RETR | unknown => simp [htype] at hoperation

/-- What a call that returns has done on the books, from the recovery on. -/
theorem receive_books (placement : Placement session) (hcuts : Cuts session)
    {s s' : ServerState} {pending : List ClientMessage} (hsession : Known session unique s)
    (hsettled : Settled False s) (hincoming : s.connection.incoming = message :: pending)
    (horders : Orders message operation)
    (hknown : message.type = .MKD →
      DirectoryKnown (s.handled session pending) message.lastWriteTime message.path)
    (hreceive : receive session s = .returned () s') :
    recoverIfNeeded session (s.withIncoming pending) =
        .returned () (s.handled session pending) ∧
      (s.handled session pending).connection = (s.withIncoming pending).connection ∧
      Tracked session unique s' ∧ Booked session operation (s.handled session pending) s' := by
  have hread : Settled False (s.withIncoming pending) :=
    ⟨⟨hsettled.delivered, False.elim⟩, hsettled.idle⟩
  rcases recoverIfNeeded_ends hcuts (hsession.withIncoming pending) hread with
    ⟨middle, hrecover, htracked, hconnection, hidle⟩ | ⟨exception, s₁, hraised, hexception⟩
  · have hhandled : s.handled session pending = middle := by
      rw [ServerState.handled, hrecover]
      rfl
    rw [hhandled] at hknown ⊢
    have hdispatch : Meets (fun s₁ => s₁ = s.withIncoming pending) (dispatch session message)
        (fun _ s₁ => Tracked session unique s₁ ∧ Booked session operation middle s₁)
        fun exception s₁ => Skipped exception →
          Tracked session unique s₁ ∧ Booked session operation middle s₁ := by
      rintro s₁ rfl
      rw [dispatch_of_recovers horders.backs hrecover htracked.recovered]
      have hhonest := dispatch_honest placement hcuts htracked hidle horders.backs
        horders.pathCanonical
      have hbooks := dispatch_books placement hcuts htracked hidle horders hknown
      apply (Meets.and hhonest hbooks).consequence (fun _ hs => ⟨hs, hs⟩) _ _ middle rfl
      · exact fun _ _ hs => ⟨hs.1.1, hs.2⟩
      · exact fun _ _ hs hskipped => ⟨(hs.1 hskipped).1, .inl (hs.2 hskipped)⟩
    exact ⟨hrecover, hconnection, receive_returns hincoming hdispatch hreceive⟩
  · exfalso
    have hdispatch : Meets (fun s₂ => s₂ = s.withIncoming pending) (dispatch session message)
        (fun _ _ => False) fun exception _ => Skipped exception → False := by
      obtain ⟨rest, heq⟩ := dispatch_backs session horders.backs
      rw [heq]
      exact Meets.then_raised hraised hexception
    exact receive_returns hincoming hdispatch hreceive

end Handlers

/-! ## The ledger -/

section Recovery

variable (session : Session) (incoming : List ClientMessage)

theorem onDatabase_ignores {α : Type} (query : Query α) :
    Ignores (ServerState.withIncoming incoming) (onDatabase query) :=
  Ignores.within query (fun _ => rfl) fun _ _ => rfl

theorem emplaceElement_ignores (path : Text) (entry : DirectoryEntry) :
    Ignores (ServerState.withIncoming incoming) (emplaceElement path entry) :=
  Ignores.modify fun _ => rfl

theorem recoverRow_ignores (row : Row) (toUpdate toDelete : List DirectoryEntry) :
    Ignores (ServerState.withIncoming incoming) (recoverRow session row toUpdate toDelete) := by
  apply Ignores.bind (Ignores.orRaise _ _)
  intro bytes
  apply Ignores.bind (Ignores.orRaise _ _)
  intro hash
  apply Ignores.bind
  · exact Ignores.read fun _ => rfl
  intro disk
  apply Ignores.ite (Ignores.pure _)
  apply Ignores.bind
  · apply Ignores.bind
    · exact Ignores.read fun _ => rfl
    · exact fun _ => Ignores.orRaise _ _
  intro effective
  apply Ignores.ite (Ignores.pure _)
  exact Ignores.bind (emplaceElement_ignores incoming _ _) fun _ => Ignores.pure _

theorem recoverRows_ignores (rows : List Row) (toUpdate toDelete : List DirectoryEntry) :
    Ignores (ServerState.withIncoming incoming) (recoverRows session rows toUpdate toDelete) := by
  induction rows generalizing toUpdate toDelete with
  | nil => exact Ignores.pure _
  | cons row rows ih =>
      exact Ignores.bind (recoverRow_ignores session incoming _ _ _) fun lists =>
        ih lists.1 lists.2

theorem updateAll_ignores (entries : List DirectoryEntry) :
    Ignores (ServerState.withIncoming incoming) (updateAll session entries) := by
  induction entries with
  | nil => exact Ignores.pure ()
  | cons entry entries ih =>
      apply Ignores.bind (onDatabase_ignores incoming _)
      exact fun _ => Ignores.bind (emplaceElement_ignores incoming _ _) fun _ => ih

theorem deleteAll_ignores (entries : List DirectoryEntry) :
    Ignores (ServerState.withIncoming incoming) (deleteAll session entries) := by
  induction entries with
  | nil => exact Ignores.pure ()
  | cons entry entries ih => exact Ignores.bind (onDatabase_ignores incoming _) fun _ => ih

/-- The recovery does not look at the connection. -/
theorem recoverIfNeeded_ignores :
    Ignores (ServerState.withIncoming incoming) (recoverIfNeeded session) := by
  apply Ignores.bind
  · exact Ignores.read fun _ => rfl
  intro recovered
  apply Ignores.ite (Ignores.pure ())
  apply Ignores.bind (onDatabase_ignores incoming _)
  intro rows
  apply Ignores.bind (recoverRows_ignores session incoming _ _ _)
  intro lists
  apply Ignores.bind (onDatabase_ignores incoming _)
  intro _
  apply Ignores.bind (updateAll_ignores session incoming _)
  intro _
  apply Ignores.bind (deleteAll_ignores session incoming _)
  exact fun _ => Ignores.modify fun _ => rfl

end Recovery

/-- The books of a session once it has recovered. -/
def ServerState.ledger (session : Session) (s : ServerState) : Text → Option Record :=
  (recoverIfNeeded session s).state.books

theorem handled_books (session : Session) (s : ServerState) (incoming : List ClientMessage) :
    (s.handled session incoming).books = s.ledger session := by
  rw [ServerState.handled, (recoverIfNeeded_ignores session incoming).state]
  rfl

theorem ledger_withIncoming (session : Session) (s : ServerState) (incoming : List ClientMessage) :
    (s.withIncoming incoming).ledger session = s.ledger session :=
  handled_books session s incoming

theorem Tracked.ledger {s : ServerState} (htracked : Tracked session unique s) :
    s.ledger session = s.books := by
  rw [ServerState.ledger, recoverIfNeeded_of_recovered session s htracked.recovered]
  rfl

/-- What is in the ledger is on the disk. -/
theorem Tracked.stored {s : ServerState} (htracked : Tracked session unique s) {path : Text}
    {record : Record} (hrecord : s.ledger session path = some record) :
    ∃ node, s.disk.status (session.userPath ++ path) = some node ∧
      node.record session.platform = record := by
  rw [htracked.ledger, ServerState.books, Option.map_eq_some_iff] at hrecord
  obtain ⟨el, hlookup, rfl⟩ := hrecord
  obtain ⟨shape, hshape, hmatches⟩ := (htracked.backed hlookup).object
  rw [shapeAt, Option.map_eq_some_iff] at hshape
  obtain ⟨node, hstatus, rfl⟩ := hshape
  apply Exists.intro node
  apply And.intro hstatus
  cases node with
  | file content mtime =>
      rw [record_of_file hmatches.1, hmatches.2.1]
      rfl
  | dir mtime =>
      rw [record_of_directory hmatches.1 hmatches.2]
      rfl

/-- A call that returns has sent one answer.  If that is an OK, the operation was done
on the ledger, and otherwise the ledger is as it was. -/
theorem receive_ledger (placement : Placement session) (hcuts : Cuts session)
    {s s' : ServerState} {message : ClientMessage} {pending : List ClientMessage}
    {operation : Operation} (hsession : Known session unique s)
    (hsettled : Settled False s) (hincoming : s.connection.incoming = message :: pending)
    (horders : Orders message operation)
    (hknown : message.type = .MKD →
      DirectoryKnown (s.handled session pending) message.lastWriteTime message.path)
    {answer : ServerMessage}
    (hanswer : s'.connection.outgoing = s.connection.outgoing ++ [answer])
    (hreceive : receive session s = .returned () s') :
    Tracked session unique s' ∧ s'.ledger session =
      if answer.type = .OK then TableOperation.deep Below (s.ledger session) operation
      else s.ledger session := by
  obtain ⟨-, hconnection, htracked, hbooked⟩ :=
    receive_books placement hcuts hsession hsettled hincoming horders hknown hreceive
  have houtgoing : (s.handled session pending).connection.outgoing = s.connection.outgoing := by
    rw [hconnection]
    rfl
  apply And.intro htracked
  rw [htracked.ledger, ← handled_books session s pending]
  rcases hbooked with hunbooked | ⟨code, hsent, hbooks⟩
  · have hconfirmed := hunbooked.confirmed
    rw [ServerState.confirmed, ServerState.confirmed, hanswer, houtgoing, List.filter_append,
      List.append_right_eq_self, List.filter_eq_nil_iff] at hconfirmed
    have htype : answer.type ≠ .OK := by
      simpa using hconfirmed answer (List.mem_singleton_self answer)
    rw [if_neg htype]
    exact hunbooked.books
  · rw [houtgoing, hanswer, List.append_cancel_left_eq, List.singleton_inj] at hsent
    have htype : answer.type = .OK := by
      rw [hsent]
      rfl
    rw [if_pos htype]
    exact hbooks

end PdsBackup.Server
