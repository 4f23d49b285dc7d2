import PdsBackup.Client.Config
import PdsBackup.Client.EventQueue
import PdsBackup.Common.RingSizes
import PdsBackup.Server.Config

/-!
# What a configuration makes of the programs

A path that is configured is used if it is absolute; a relative one is rejected
without a word, and the default takes its place.  A queue size that is
configured is used as it is, up to the largest `unsigned int`.
-/

namespace PdsBackup

open ConfigFile Validator Machine

/-! ## Paths -/

/-- When the last value of a key is used: it is absolute, or it is the default
that is used when no value of the key is accepted. -/
def Honoured (key default content value : Text) : Prop :=
  Absolute value ∨
    (normalised value = default ∧ ∀ other ∈ values key content, validatePath other = none)

theorem pathOr_load_iff {π ν : Type} [DecidableEq π] [DecidableEq ν] (schema : Schema π ν)
    (member : π) (default : Text) {content value : Text} (hlegal : Legal value)
    (hlast : (values (schema.pathKey member) content).getLast? = some value) :
    pathOr default ((schema.load content).path member) = normalised value ↔
      Honoured (schema.pathKey member) default content value := by
  obtain ⟨earlier, hvalues⟩ := List.getLast?_eq_some_iff.mp hlast
  rw [Honoured, schema.load_path, hvalues]
  exact honoured_iff default hlegal

/-- For every text and every path with a default, of both programs: the getter
returns the last value of its key, with its separators normalised, exactly if
that is absolute, or is the default with no value of the key before it that is
accepted. -/
theorem configured_paths_iff (content value : Text) (hlegal : Legal value) :
    (∀ entry ∈ Client.Config.pathGetters,
        (values (Client.Config.pathKey entry.1) content).getLast? = some value →
        (entry.2.2 (Client.Config.load content) = normalised value ↔
          Honoured (Client.Config.pathKey entry.1) entry.2.1 content value)) ∧
      ∀ entry ∈ Server.Config.pathGetters,
        (values (Server.Config.pathKey entry.1) content).getLast? = some value →
        (entry.2.2 (Server.Config.load content) = normalised value ↔
          Honoured (Server.Config.pathKey entry.1) entry.2.1 content value) := by
  constructor
  · intro entry hentry hlast
    rw [Client.Config.getter_eq hentry]
    exact pathOr_load_iff Client.Config.schema entry.1 entry.2.1 hlegal hlast
  · intro entry hentry hlast
    rw [Server.Config.getter_eq hentry]
    exact pathOr_load_iff Server.Config.schema entry.1 entry.2.1 hlegal hlast

/-- A path is given twice, first relative and then absolute. -/
def twicePath : Text :=
  "# comment\nserver_database_path=x\nn_threads = 4\nSERVER_DATABASE_PATH = /var/db/\n".toList

theorem configured_paths_iff_absolute :
    Legal "/var/db/".toList ∧
      (values "server_database_path".toList twicePath).getLast? = some "/var/db/".toList ∧
      Server.Config.getServerDatabasePath (Server.Config.load twicePath) =
        normalised "/var/db/".toList := by
  have hlegal : Legal "/var/db/".toList := by decide
  have hlast : (values "server_database_path".toList twicePath).getLast? =
      some "/var/db/".toList := by decide +kernel
  have habsolute : Absolute "/var/db/".toList := ⟨by decide, by decide⟩
  generalize htext : twicePath = content at hlast
  generalize hpath : "/var/db/".toList = value at *
  have hmem : (Server.Config.PathVariable.serverDatabasePath, Server.Config.DATABASE_PATH,
      Server.Config.getServerDatabasePath) ∈ Server.Config.pathGetters :=
    List.mem_cons_of_mem _ List.mem_cons_self
  have hiff := (configured_paths_iff content value hlegal).2 _ hmem hlast
  have hhonoured : Honoured "server_database_path".toList Server.Config.DATABASE_PATH content
      value := Or.inl habsolute
  exact ⟨hlegal, hlast, hiff.mpr hhonoured⟩

/-- A path relative to the working directory, as the defaults are. -/
def relativePath : Text := "database_path = ../clientFiles/mine.sqlite\n".toList

/-- It is not used. -/
theorem relative_path_ignored :
    Client.Config.getDatabasePath (Client.Config.load relativePath) =
        Client.Config.DATABASE_PATH ∧
      ¬ ∀ content value, Legal value → ∀ entry ∈ Client.Config.pathGetters,
        (values (Client.Config.pathKey entry.1) content).getLast? = some value →
          entry.2.2 (Client.Config.load content) = normalised value := by
  have hdefault : Client.Config.getDatabasePath (Client.Config.load relativePath) =
      Client.Config.DATABASE_PATH := by decide +kernel
  have hlegal : Legal "../clientFiles/mine.sqlite".toList := by decide
  have hlast : (values "database_path".toList relativePath).getLast? =
      some "../clientFiles/mine.sqlite".toList := by decide +kernel
  have hother : Client.Config.DATABASE_PATH ≠ normalised "../clientFiles/mine.sqlite".toList := by
    decide
  generalize relativePath = content at *
  generalize "../clientFiles/mine.sqlite".toList = value at *
  have hmem : (Client.Config.PathVariable.databasePath, Client.Config.DATABASE_PATH,
      Client.Config.getDatabasePath) ∈ Client.Config.pathGetters := List.mem_cons_self
  constructor
  · exact hdefault
  · intro hclaim
    have hused := hclaim content value hlegal _ hmem hlast
    exact hother (hdefault.symm.trans hused)

/-! ## Queue sizes -/

section Sizes

variable {α : Type} [Inhabited α] [MoveFrom α]

/-- For every text, the rings that the programs make of the sizes it configures:
the window of the client and its event queue, the socket queue of the server. -/
theorem configured_sizes_iff (content : Text) :
    ((FailingService.Safe Machine.Ring.serveAll
          (Machine.Ring.ofSize (Client.Config.getMaxResponseWaiting (Client.Config.load content)) :
            Machine.Ring α) ↔
        (Client.Config.getMaxResponseWaiting (Client.Config.load content)).toNat < 2 ^ 31) ∧
      (FailingService.Safe Machine.Ring.serve
          (Machine.Ring.ofSize (Client.Config.getMaxResponseWaiting (Client.Config.load content)) :
            Machine.Ring α) ↔
        (Client.Config.getMaxResponseWaiting (Client.Config.load content)).toNat < 2 ^ 31)) ∧
      (FailingService.Safe Machine.Ring.serveShared
          (Machine.Ring.ofSizeShared
              (Client.Config.getEventQueueSize (Client.Config.load content)) :
            Machine.Ring α) ↔
        (Client.Config.getEventQueueSize (Client.Config.load content)).toNat < 2 ^ 31) ∧
      (FailingService.Safe Machine.Ring.serveShared
          (Machine.Ring.ofSizeShared
              (Server.Config.getSocketQueueSize (Server.Config.load content)) :
            Machine.Ring α) ↔
        (Server.Config.getSocketQueueSize (Server.Config.load content)).toNat < 2 ^ 31) := by
  have hwindow := safe_iff (α := α)
    (Client.Config.getMaxResponseWaiting (Client.Config.load content))
  have hevents := safe_iff (α := α) (Client.Config.getEventQueueSize (Client.Config.load content))
  have hsockets := safe_iff (α := α) (Server.Config.getSocketQueueSize (Server.Config.load content))
  exact ⟨⟨hwindow.1, hwindow.2.1⟩, hevents.2.2, hsockets.2.2⟩

end Sizes

/-- The largest number that is accepted. -/
def largestSize : Text :=
  "max_response_waiting = 4294967295\nevent_queue_size = 4294967295\n".toList

/-- Its rings have capacity zero, and what the callers do first takes a remainder by it. -/
theorem largest_size_fails :
    Machine.Ring.serve (.push default) (Machine.Ring.ofSize
        (Client.Config.getMaxResponseWaiting (Client.Config.load largestSize)) :
          Machine.Ring Client.Event) = .error .remainderByZero ∧
    Machine.Ring.serveShared (.push default) (Machine.Ring.ofSizeShared
        (Client.Config.getEventQueueSize (Client.Config.load largestSize)) :
          Machine.Ring Client.Event) = .error .remainderByZero ∧
    ¬ ∀ content, FailingService.Safe Machine.Ring.serve (Machine.Ring.ofSize
        (Client.Config.getMaxResponseWaiting (Client.Config.load content)) :
          Machine.Ring Client.Event) := by
  have hwindow : Client.Config.getMaxResponseWaiting (Client.Config.load largestSize) =
      4294967295 := by decide +kernel
  have hevents : Client.Config.getEventQueueSize (Client.Config.load largestSize) =
      4294967295 := by decide +kernel
  have hpush : Machine.Ring.serve (.push default)
      (Machine.Ring.ofSize 4294967295 : Machine.Ring Client.Event) =
        .error .remainderByZero := rfl
  have hshared : Machine.Ring.serveShared (.push default)
      (Machine.Ring.ofSizeShared 4294967295 : Machine.Ring Client.Event) =
        .error .remainderByZero := rfl
  rw [hwindow, hevents]
  refine ⟨hpush, hshared, ?_⟩
  intro hclaim
  have hsafe := hclaim largestSize
  rw [hwindow] at hsafe
  exact FailingService.not_safe_of_call hpush hsafe

end PdsBackup
