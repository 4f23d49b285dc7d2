import PdsBackup.Server.Recovery

/-!
# Several sessions

The sessions of a server share the disk and the database; the map of elements
and the connection are each session's own.  Their requests are handled one
after the other, in any order.
-/

namespace PdsBackup.Server

open Procedure

/-- What belongs to one session. -/
structure Own where
  elements : KeyedMap Text DirectoryEntry := ∅
  recovered : Bool := false
  random : Nat → Byte := fun _ => 0
  connection : Connection
  ended : Bool := false

namespace Own

/-- What a session sees. -/
def view (disk : Disk) (database : Database) (own : Own) : ServerState where
  disk
  database
  elements := own.elements
  recovered := own.recovered
  random := own.random
  connection := own.connection

/-- What a call leaves of a session.  A call that raises ends it. -/
def left (exit : Exit ServerState ServerException Unit) : Own where
  elements := exit.state.elements
  recovered := exit.state.recovered
  random := exit.state.random
  connection := exit.state.connection
  ended := !exit.returns

end Own

/-- A server with a session for each index. -/
structure Running (ι : Type) where
  disk : Disk
  database : Database
  own : ι → Own

namespace Running

variable {ι : Type} [DecidableEq ι]

def view (index : ι) (running : Running ι) : ServerState :=
  (running.own index).view running.disk running.database

def after (index : ι) (exit : Exit ServerState ServerException Unit) (running : Running ι) :
    Running ι where
  disk := exit.state.disk
  database := exit.state.database
  own := Function.update running.own index (.left exit)

end Running

/-- The states of a server whose sessions handle one request at a time, each of
which meets a condition on the session, its view and the message. -/
inductive Runs {ι : Type} [DecidableEq ι] (sessions : ι → Session)
    (condition : ι → ServerState → ClientMessage → Prop) (start : Running ι) :
    Running ι → Prop where
  | start : Runs sessions condition start start
  | call {running : Running ι} {index : ι} {message : ClientMessage}
      {pending : List ClientMessage} (hruns : Runs sessions condition start running)
      (hopen : (running.own index).ended = false)
      (hincoming : (running.view index).connection.incoming = message :: pending)
      (hmeets : condition index (running.view index) message) :
      Runs sessions condition start
        (running.after index (receive (sessions index) (running.view index)))

/-! ## One row for each path -/

/-- No two rows are about the same. -/
def Unique (rows : List Row) : Prop := (rows.map Row.key).Nodup

instance (rows : List Row) : Decidable (Unique rows) :=
  inferInstanceAs (Decidable (rows.map Row.key).Nodup)

variable {session : Session} {message : ClientMessage}

theorem Unique.fewer {rows rows' : List Row} (h : Unique rows) (hfewer : Fewer rows rows') :
    Unique rows' := h.sublist hfewer

theorem mem_keys_iff {path : Text} {rows : List Row} :
    (session.username, session.mac, path) ∈ rows.map Row.key ↔ rowsAt session path rows ≠ [] := by
  rw [rowsAt, Ne, List.filter_eq_nil_iff]
  simp [Row.key, Row.isAt, Row.isOf, and_assoc]

theorem Fewer.rowsAt_eq_nil {path : Text} {rows rows' : List Row} (h : Fewer rows rows')
    (hnone : rowsAt session path rows = []) : rowsAt session path rows' = [] := by
  by_contra hsome
  exact mem_keys_iff.mp (h.subset (mem_keys_iff.mpr hsome)) hnone

theorem Fewer.forgottenAll (session : Session) (entries : List DirectoryEntry) (s : ServerState) :
    Fewer s.database.rows (s.forgottenAll session entries).database.rows := by
  induction entries generalizing s with
  | nil => exact Fewer.refl _
  | cons entry entries ih =>
      exact (Fewer.filter _).trans (ih (s.forgotten session entry.relativePath))

theorem Unique.insert {entry : DirectoryEntry} {rows : List Row} (h : Unique rows)
    (hnone : rowsAt session entry.relativePath rows = []) :
    Unique (rows ++ [Row.ofEntry session.username session.mac entry]) := by
  rw [Unique, List.map_append]
  apply List.nodup_append.mpr
  refine ⟨h, List.nodup_singleton _, ?_⟩
  rintro key hkey other hother rfl
  obtain rfl := List.mem_singleton.mp hother
  exact mem_keys_iff.mp hkey hnone

/-- The path a request will be recorded under has no row, unless the session has
or will have the path of the request in its map. -/
def Clear (session : Session) (message : ClientMessage) (s : ServerState) : Prop :=
  ∀ path recorded, Validator.validatePath message.path = some path →
    RecordedAs session message.type path recorded →
      rowsAt session recorded s.database.rows = [] ∨
        (s.recovered = true ∧ (s.elements.lookup path).isSome = true) ∨
        (s.recovered = false ∧ recorded = path ∧ Readable session path)

theorem Effect.unique {s s' : ServerState} (h : Effect session message s s')
    (hunique : Unique s.database.rows)
    (hclear : ∀ path recorded, Validator.validatePath message.path = some path →
      RecordedAs session message.type path recorded → s.elements.lookup path = none →
        rowsAt session recorded s.database.rows = []) : Unique s'.database.rows := by
  cases h with
  | nothing hsame => exact hsame.rows ▸ hunique
  | retimed path entry hmem hsame => exact hsame.rows ▸ hunique
  | forgot entries hsame =>
      rw [hsame.rows]
      exact hunique.fewer (Fewer.forgottenAll session entries s)
  | tracked path entry hpath hentry hsame =>
      rw [hsame.rows]
      cases hlookup : s.elements.lookup path with
      | none => exact hunique.insert (hclear path _ hpath hentry hlookup)
      | some el => exact hunique.fewer Fewer.update
  | withdrew htype keep hrows helements hrecovered =>
      rw [hrows]
      exact hunique.fewer (Fewer.filter keep)

/-- A call in which the path is clear leaves no two rows about the same. -/
theorem receive_unique {s : ServerState} {pending : List ClientMessage}
    (hunique : Unique s.database.rows) (hincoming : s.connection.incoming = message :: pending)
    (hclear : Clear session message s) : Unique (receive session s).state.database.rows := by
  have hhandled : Handled session message s (receive session s).state := receive_handled hincoming
  cases hhandled with
  | skipped hsame => exact hsame.rows ▸ hunique
  | direct hready heffect =>
      apply heffect.unique hunique
      intro path recorded hpath hrecorded hnone
      cases hclear path recorded hpath hrecorded with
      | inl hrows => exact hrows
      | inr hknown =>
          have hrecovered : s.recovered = true := by
            apply hready.resolve_right
            intro hbacks
            have hbacking : Backs message := by
              unfold RecordedAs at hrecorded
              split at hrecorded
              · exact .inr (.inl ‹_›)
              · exact .inr (.inr (.inr (.inl ‹_›)))
              · exact hrecorded.elim
            exact hbacks hbacking
          simp [hrecovered, hnone] at hknown
  | recovering start middle hstart hunrecovered hrecover heffect =>
      have hfewer : Fewer s.database.rows middle.database.rows := by
        rw [← hstart.rows]
        exact recoverFromDB_fewer.returned (Fewer.refl _) hrecover
      apply heffect.unique (hunique.fewer hfewer)
      intro path recorded hpath hrecorded hnone
      cases hclear path recorded hpath hrecorded with
      | inl hrows => exact hfewer.rowsAt_eq_nil hrows
      | inr hknown =>
          simp only [hunrecovered, Bool.false_eq_true, false_and, true_and, false_or] at hknown
          obtain ⟨rfl, hreadable⟩ := hknown
          have hsettled := (recoverFromDB_settles hreadable).returned trivial hrecover
          exact hsettled.resolve_right (by simp [hnone])
  | failing start middle exception hstart hunrecovered hrecover hsame =>
      have hfewer : Fewer s.database.rows middle.database.rows := by
        rw [← hstart.rows]
        exact recoverFromDB_fewer.raised (Fewer.refl _) hrecover
      rw [hsame.rows]
      exact hunique.fewer hfewer

/-- However the sessions take turns, no two rows are ever about the same, as long
as no session is asked for a path that another one has recorded meanwhile. -/
theorem rows_unique {ι : Type} [DecidableEq ι] {sessions : ι → Session} {start running : Running ι}
    (hunique : Unique start.database.rows)
    (hruns : Runs sessions (fun index s message => Clear (sessions index) message s) start
      running) : Unique running.database.rows := by
  induction hruns with
  | start => exact hunique
  | call hruns hopen hincoming hclear ih => exact receive_unique ih hincoming hclear

/-! ### Two connections of one client -/

/-- Two sessions of `anna`'s machine that were just authenticated. -/
def twoConnections (old new : List ClientMessage) : Running Bool where
  disk := annaDisk
  database := {}
  own isNew := { connection := { incoming := if isNew then new else old } }

/-- Both sessions are asked for a directory; the second recovers before. -/
def bothMake : Running Bool :=
  twoConnections [mkdRequest "/a".toList] [mkdRequest "/a".toList]

def callOf (isNew : Bool) (running : Running Bool) : Running Bool :=
  running.after isNew (receive annaSession (running.view isNew))

theorem clear_unrecovered {s : ServerState} (hunrecovered : s.recovered = false) :
    Clear annaSession (mkdRequest "/a".toList) s := by
  have hliteral : Regex.Literal annaSession.userPath := by decide +kernel
  intro path recorded hpath hrecorded
  have heq : path = "/a".toList := Option.some.inj (hpath.symm.trans (by decide +kernel))
  subst heq
  have hsame : recorded = "/a".toList := DirectoryEntry.relativePathOf_append hliteral hrecorded
  refine .inr (.inr ⟨hunrecovered, hsame, by decide, ?_⟩)
  exact fun found hfound => DirectoryEntry.relativePathOf_append hliteral hfound

theorem rows_unique_reconnected :
    Unique (callOf true (callOf false bothMake)).database.rows := by
  have hstart : Unique bothMake.database.rows := List.nodup_nil
  have hfirst : Runs (fun _ => annaSession) (fun _ s message => Clear annaSession message s)
      bothMake (callOf false bothMake) :=
    .call .start rfl rfl (clear_unrecovered rfl)
  exact rows_unique hstart (.call hfirst rfl rfl (clear_unrecovered rfl))

/-- The new session fills its map before the old one records a directory. -/
def staleMap : Running Bool :=
  twoConnections [mkdRequest "/a".toList] [rmdRequest "/b".toList, mkdRequest "/a".toList]

theorem not_rows_unique :
    ¬ ∀ (ι : Type) [DecidableEq ι] (sessions : ι → Session) (start running : Running ι),
      (∀ first second, (sessions first).username = (sessions second).username ∧
        (sessions first).mac = (sessions second).mac) →
      (∀ index, Fresh (start.view index)) → Unique start.database.rows →
      Runs sessions (fun _ _ _ => True) start running → Unique running.database.rows := by
  intro hclaim
  have hrecover : Runs (fun _ => annaSession) (fun _ _ _ => True) staleMap (callOf true staleMap) :=
    .call .start rfl rfl trivial
  have hrecord : Runs (fun _ => annaSession) (fun _ _ _ => True) staleMap
      (callOf false (callOf true staleMap)) := .call hrecover rfl rfl trivial
  have hopen : (((callOf false (callOf true staleMap)).own true).ended = false) ∧
      ((callOf false (callOf true staleMap)).view true).connection.incoming =
        [mkdRequest "/a".toList] := by
    decide +kernel
  have hagain : Runs (fun _ => annaSession) (fun _ _ _ => True) staleMap
      (callOf true (callOf false (callOf true staleMap))) := .call hrecord hopen.1 hopen.2 trivial
  have hunique := hclaim Bool (fun _ => annaSession) staleMap _ (fun _ _ => ⟨rfl, rfl⟩)
    (fun _ => ⟨rfl, rfl, rfl, rfl⟩) List.nodup_nil hagain
  revert hunique
  decide +kernel

end PdsBackup.Server
