import PdsBackup.Client.ProtocolManager
import PdsBackup.Common.Visits

/-!
# The file system watcher

The class `FileSystemWatcher`: the map of the entries it has seen, one iteration
of `start`, and the recovery of the map from the database.  The action is told of
every event and accepts it or not.
-/

namespace PdsBackup.Client

open Procedure

/-- A call of the action and its answer. -/
structure Notice where
  event : Event
  accepted : Bool
  deriving DecidableEq

/-- The map of the watcher, and the calls of the action so far. -/
structure Watcher where
  paths : KeyedMap Text DirectoryEntry := ∅
  notices : List Notice := []

/-- What the action answers, which may depend on all it was called with before. -/
abbrev WatcherAction := List Notice → Event → Bool

abbrev WatcherProcedure := Procedure Watcher ClientException

section Watcher

variable (settings : Settings) (action : WatcherAction) (tree : FileTree)

def perform (event : Event) : WatcherProcedure Bool := do
  let accepted ← read fun w => action w.notices event
  modify fun w => { w with notices := w.notices ++ [⟨event, accepted⟩] }
  pure accepted

/-! ## An iteration of `start` -/

/-- The first loop: entries whose object is gone. -/
def reportDeleted : List (Sigma fun _ : Text => DirectoryEntry) → WatcherProcedure Unit
  | [] => pure ()
  | ⟨path, element⟩ :: others => do
      when (tree.status path).isNone do
        let accepted ← perform action { element, type := .deleted }
        when accepted (modify fun w => { w with paths := w.paths.erase path })
      reportDeleted others

/-- The comparison of an entry with what is there now. -/
def differs (el current : DirectoryEntry) : Bool :=
  el.lastWriteTime ≠ current.lastWriteTime || el.type ≠ current.type ||
    el.size ≠ current.size || el.hash ≠ current.hash

/-- The body of the second loop. -/
def visitFile (path : Text) : WatcherProcedure Unit := do
  let current ← orRaise .standard
    (DirectoryEntry.load settings.platform settings.pathToWatch path tree)
  let old ← read fun w => w.paths.lookup path
  match old with
  | none => do
      let accepted ← perform action { element := current, type := .created }
      when accepted (modify fun w =>
        { w with paths := w.paths.insert current.absolutePath current })
  | some el =>
      when (differs el current) do
        let accepted ← perform action { element := current, type := .modified }
        when accepted (modify fun w => { w with paths := w.paths.insert path current })

/-- The second loop, over the paths in the order in which the iterator delivers
them. -/
def visitFiles : List Text → WatcherProcedure Unit
  | [] => pure ()
  | path :: others => do
      visitFile settings action tree path
      visitFiles others

/-- One iteration, while the folder does not change. -/
def scan (files : List Text) : WatcherProcedure Unit := do
  let paths ← read Watcher.paths
  reportDeleted action tree paths.entries
  visitFiles settings action tree files

/-! ## Recovery -/

/-- The lambda of `recoverFromDB`, for one row. -/
def recoverPath (visit : Visit) : WatcherProcedure Unit := do
  let hash ← orRaise .hash (Hash.ofBytes visit.hash)
  let element := DirectoryEntry.make settings.pathToWatch visit.path visit.size visit.type
    visit.lastWriteTime hash
  modify fun w => { w with paths := w.paths.insert element.absolutePath element }

def recoverPaths : List Visit → WatcherProcedure Unit
  | [] => pure ()
  | visit :: visits => do
      recoverPath settings visit
      recoverPaths visits

/-- The action for the entries that exist, until it gives up. -/
def reportKnown : List (Sigma fun _ : Text => DirectoryEntry) → WatcherProcedure Unit
  | [] => pure ()
  | ⟨path, element⟩ :: others => do
      if (tree.status path).isSome then do
        let accepted ← perform action { element, type := .modified }
        if accepted then reportKnown others else pure ()
      else reportKnown others

/-- `recoverFromDB`, given what `forAll` visits. -/
def recoverFromDB (visits : List Visit) : WatcherProcedure Unit := do
  recoverPaths settings visits
  let paths ← read Watcher.paths
  reportKnown action tree paths.entries

end Watcher

end PdsBackup.Client
