import PdsBackup.Client.FileSystemWatcher
import PdsBackup.Core.Differences
import PdsBackup.Core.Listing

/-!
# What a scan reports

The map of the watcher and the folder are two partial maps from paths to what is
compared of an entry.  An iteration of `start` visits the paths at which they can
differ, each once: first those that are gone, then those that are there.
-/

namespace PdsBackup.Client

open Procedure

/-- What is compared of an entry. -/
structure Reading where
  type : EntryType
  size : Nat
  lastWriteTime : Text
  hash : Hash
  deriving DecidableEq

def readingOf (entry : DirectoryEntry) : Reading where
  type := entry.type
  size := entry.size
  lastWriteTime := entry.lastWriteTime
  hash := entry.hash

def readingAt (platform : Platform) (node : Node) : Reading where
  type := .ofNode node
  size := match node with
    | .file content _ => content.length
    | .dir _ => 0
  lastWriteTime := platform.putTime node.mtime
  hash := match node with
    | .file content _ => platform.sha256 content
    | .dir _ => .zero

/-- The folder: what is at the paths the iterator delivers. -/
def snapshot (platform : Platform) (tree : FileTree) (files : List Text) (path : Text) :
    Option Reading :=
  if path ∈ files then (tree.status path).map (readingAt platform) else none

/-- The map of the watcher. -/
def Watcher.readings (w : Watcher) (path : Text) : Option Reading :=
  (w.paths.lookup path).map readingOf

/-- The difference an event stands for. -/
def FileSystemStatus.difference : FileSystemStatus → Difference
  | .created => .created
  | .deleted => .deleted
  | _ => .modified

def Notice.report (notice : Notice) : Report Text where
  key := notice.event.element.absolutePath
  difference := notice.event.type.difference
  accepted := notice.accepted

/-- The path of something below a folder. -/
def Below (folder path : Text) : Prop :=
  ∃ names, names ≠ [] ∧ PlainPath names ∧ path = folder ++ render names

/-- A map of entries below a folder, each under its absolute path. -/
def Known (folder : Text) (paths : KeyedMap Text DirectoryEntry) : Prop :=
  KeyedMap.All (fun path element => element.absolutePath = path ∧ Below folder path) paths

variable {settings : Settings} {action : WatcherAction} {tree : FileTree} {w : Watcher}

theorem differs_eq_false_iff (el current : DirectoryEntry) :
    differs el current = false ↔ readingOf el = readingOf current := by
  simp only [differs, readingOf, Bool.or_eq_false_iff, decide_eq_false_iff_not, not_not,
    Reading.mk.injEq]
  tauto

theorem readingOf_load {folder path : Text} {entry : DirectoryEntry}
    (hload : DirectoryEntry.load settings.platform folder path tree = some entry) :
    entry.absolutePath = path ∧
      (tree.status path).map (readingAt settings.platform) = some (readingOf entry) := by
  obtain ⟨-, hpath, node, hnode, hread⟩ := DirectoryEntry.load_eq_some hload
  have hreading : readingAt settings.platform node = readingOf entry := by
    rw [readingOf, hread.type, hread.size, hread.lastWriteTime, hread.hash]
    cases node <;> rfl
  exact ⟨hpath, by rw [hnode, Option.map_some, hreading]⟩

theorem perform_run {event : Event} {accepted : Bool}
    (haccepted : action w.notices event = accepted) :
    perform action event w =
      .returned accepted { w with notices := w.notices ++ [⟨event, accepted⟩] } := by
  rw [perform, read_bind_apply, haccepted]
  rfl

/-! ## Changes of the map -/

section Changes

variable {path : Text} {element : DirectoryEntry}

theorem readings_erase (w : Watcher) (path : Text) (notices : List Notice) :
    Watcher.readings { paths := w.paths.erase path, notices } =
      Function.update w.readings path none := by
  funext other
  rw [Watcher.readings, KeyedMap.lookup_erase]
  by_cases hother : other = path
  · rw [if_pos hother, hother, Function.update_self]
    rfl
  · rw [if_neg hother, Function.update_of_ne hother]
    rfl

theorem readings_insert (w : Watcher) (path : Text) (element : DirectoryEntry)
    (notices : List Notice) :
    Watcher.readings { paths := w.paths.insert path element, notices } =
      Function.update w.readings path (some (readingOf element)) := by
  funext other
  rw [Watcher.readings, KeyedMap.lookup_insert]
  by_cases hother : other = path
  · rw [if_pos hother, hother, Function.update_self]
    rfl
  · rw [if_neg hother, Function.update_of_ne hother]
    rfl

end Changes

/-! ## The first loop -/

/-- The paths of some entries at which there is nothing. -/
def gone (tree : FileTree) (entries : List (Sigma fun _ : Text => DirectoryEntry)) : List Text :=
  entries.keys.filter fun path => (tree.status path).isNone

variable (action) in
theorem reportDeleted_visits {folder : Text} {new : Text → Option Reading}
    (hnew : ∀ path, tree.status path = none → new path = none)
    {entries : List (Sigma fun _ : Text => DirectoryEntry)} (hnodup : entries.NodupKeys)
    (hentries : ∀ entry ∈ entries, w.paths.lookup entry.1 = some entry.2)
    (hknown : Known folder w.paths) :
    ∃ w' notices, reportDeleted action tree entries w = .returned () w' ∧
      w'.notices = w.notices ++ notices ∧ Known folder w'.paths ∧
      (∀ notice ∈ notices, notice.event.type = .deleted) ∧
      Visits new (gone tree entries) w.readings (notices.map Notice.report) w'.readings := by
  induction entries generalizing w with
  | nil => exact ⟨w, [], rfl, (List.append_nil _).symm, hknown, by simp, .nil⟩
  | cons entry entries ih =>
      obtain ⟨path, element⟩ := entry
      obtain ⟨hpath, hnodup⟩ := List.nodupKeys_cons.mp hnodup
      have hfound : w.paths.lookup path = some element := hentries _ List.mem_cons_self
      have hothers : ∀ entry ∈ entries, w.paths.lookup entry.1 = some entry.2 :=
        fun entry hentry => hentries entry (List.mem_cons_of_mem _ hentry)
      rw [reportDeleted]
      cases hstatus : tree.status path with
      | some node =>
          obtain ⟨w', notices, hrun, hnotices, hrest⟩ := ih hnodup hothers hknown
          have hgone : gone tree (⟨path, element⟩ :: entries) = gone tree entries := by
            simp [gone, hstatus]
          rw [hgone]
          exact ⟨w', notices, hrun, hnotices, hrest⟩
      | none =>
          have hgone : gone tree (⟨path, element⟩ :: entries) = path :: gone tree entries := by
            simp [gone, hstatus]
          have hchange : difference (w.readings path) (new path) = some .deleted := by
            rw [hnew path hstatus, Watcher.readings, hfound]
            rfl
          have habsolute := (hknown path element hfound).1
          generalize hevent : ({ element, type := .deleted } : Event) = event
          have hreport : ∀ accepted, Notice.report ⟨event, accepted⟩ = ⟨path, .deleted, accepted⟩ := by
            intro accepted
            rw [← hevent, ← habsolute]
            rfl
          have htype : event.type = .deleted := by rw [← hevent]
          rw [hgone]
          cases haccepted : action w.notices event with
          | true =>
              have hstep : (do
                  let accepted ← perform action event
                  when accepted (modify fun w => { w with paths := w.paths.erase path }) :
                    WatcherProcedure Unit) w =
                      .returned () ⟨w.paths.erase path, w.notices ++ [⟨event, true⟩]⟩ :=
                bind_of_returned (perform_run haccepted)
              have hothers' : ∀ entry ∈ entries,
                  (w.paths.erase path).lookup entry.1 = some entry.2 := by
                intro entry hentry
                rw [KeyedMap.lookup_erase, if_neg]
                · exact hothers entry hentry
                · intro heq
                  have hkey := List.mem_keys_of_mem hentry
                  rw [heq] at hkey
                  exact hpath hkey
              obtain ⟨w', notices, hrun, hnotices, hknown', htypes, hvisits⟩ :=
                ih (w := ⟨w.paths.erase path, w.notices ++ [⟨event, true⟩]⟩) hnodup hothers'
                  (hknown.erase path)
              refine ⟨w', ⟨event, true⟩ :: notices, ?_, ?_, hknown', ?_, ?_⟩
              · rw [Option.isNone_none, when_true, bind_of_returned hstep]
                exact hrun
              · rw [hnotices, List.append_assoc, List.singleton_append]
              · intro notice hnotice
                cases hnotice with
                | head => exact htype
                | tail _ hnotice => exact htypes notice hnotice
              · rw [readings_erase, ← hnew path hstatus] at hvisits
                rw [List.map_cons, hreport]
                exact .accepted hchange hvisits
          | false =>
              have hstep : (do
                  let accepted ← perform action event
                  when accepted (modify fun w => { w with paths := w.paths.erase path }) :
                    WatcherProcedure Unit) w =
                      .returned () ⟨w.paths, w.notices ++ [⟨event, false⟩]⟩ :=
                bind_of_returned (perform_run haccepted)
              obtain ⟨w', notices, hrun, hnotices, hknown', htypes, hvisits⟩ :=
                ih (w := ⟨w.paths, w.notices ++ [⟨event, false⟩]⟩) hnodup hothers hknown
              refine ⟨w', ⟨event, false⟩ :: notices, ?_, ?_, hknown', ?_, ?_⟩
              · rw [Option.isNone_none, when_true, bind_of_returned hstep]
                exact hrun
              · rw [hnotices, List.append_assoc, List.singleton_append]
              · intro notice hnotice
                cases hnotice with
                | head => exact htype
                | tail _ hnotice => exact htypes notice hnotice
              · rw [List.map_cons, hreport]
                exact .rejected hchange hvisits

/-! ## The second loop -/

section Files

variable (settings action tree)

/-- What a file that is visited leads to: nothing, or a report. -/
structure Visited (new : Text → Option Reading) (path : Text) (w w' : Watcher)
    (notices : List Notice) : Prop where
  run : visitFile settings action tree path w = .returned () w'
  known : Known settings.pathToWatch w'.paths
  noted : w'.notices = w.notices ++ notices
  type : ∀ notice ∈ notices, notice.event.type ≠ .deleted
  current : ∀ notice ∈ notices,
    new notice.event.element.absolutePath = some (readingOf notice.event.element)
  visits : Visits new [path] w.readings (notices.map Notice.report) w'.readings

variable {settings action tree}
variable {new : Text → Option Reading} {path : Text}

/-- A difference is reported, and the entry is put into the map if it is accepted. -/
theorem visited_of_reported (event : Event)
    (hrun : visitFile settings action tree path w = (do
        let accepted ← perform action event
        when accepted (modify fun w => { w with paths := w.paths.insert path event.element }) :
          WatcherProcedure Unit) w)
    (hpath : event.element.absolutePath = path) (htype : event.type ≠ .deleted)
    (hnew : new path = some (readingOf event.element))
    (hchange : difference (w.readings path) (new path) = some event.type.difference)
    (hbelow : Below settings.pathToWatch path) (hknown : Known settings.pathToWatch w.paths) :
    ∃ w' notices, Visited settings action tree new path w w' notices := by
  have hreport : ∀ accepted, Notice.report ⟨event, accepted⟩ =
      ⟨path, event.type.difference, accepted⟩ := by
    intro accepted
    rw [← hpath]
    rfl
  have hcurrent : new event.element.absolutePath = some (readingOf event.element) := by
    rw [hpath]
    exact hnew
  cases haccepted : action w.notices event with
  | true =>
      refine ⟨⟨w.paths.insert path event.element, w.notices ++ [⟨event, true⟩]⟩, [⟨event, true⟩],
        hrun.trans (bind_of_returned (perform_run haccepted)), hknown.insert ⟨hpath, hbelow⟩, rfl,
        by simpa using htype, by simpa using hcurrent, ?_⟩
      rw [readings_insert, List.map_singleton, hreport, ← hnew]
      exact .accepted hchange .nil
  | false =>
      refine ⟨⟨w.paths, w.notices ++ [⟨event, false⟩]⟩, [⟨event, false⟩],
        hrun.trans (bind_of_returned (perform_run haccepted)), hknown, rfl,
        by simpa using htype, by simpa using hcurrent, ?_⟩
      rw [List.map_singleton, hreport]
      exact .rejected hchange .nil

variable (action) in
theorem visitFile_visits {current : DirectoryEntry}
    (hload : DirectoryEntry.load settings.platform settings.pathToWatch path tree = some current)
    (hnew : new path = some (readingOf current)) (hbelow : Below settings.pathToWatch path)
    (hknown : Known settings.pathToWatch w.paths) :
    ∃ w' notices, Visited settings action tree new path w w' notices := by
  have hpath := (readingOf_load hload).1
  cases hold : w.paths.lookup path with
  | none =>
      apply visited_of_reported { element := current, type := .created }
      · rw [visitFile, hload, orRaise_some, pure_bind_apply, read_bind_apply, hold, hpath]
      · exact hpath
      · intro hdeleted
        cases hdeleted
      · exact hnew
      · rw [hnew, Watcher.readings, hold]
        rfl
      · exact hbelow
      · exact hknown
  | some el =>
      have hreading : w.readings path = some (readingOf el) := by
        rw [Watcher.readings, hold, Option.map_some]
      cases hdiffers : differs el current with
      | false =>
          have hsame := (differs_eq_false_iff el current).mp hdiffers
          have hnone : difference (w.readings path) (new path) = none := by
            rw [hreading, hnew, hsame, difference_self]
          refine ⟨w, [], ?_, hknown, (List.append_nil _).symm, by simp, by simp, .same hnone .nil⟩
          rw [visitFile, hload, orRaise_some, pure_bind_apply, read_bind_apply, hold]
          simp only [hdiffers, when_false, pure_apply]
      | true =>
          have hother : readingOf el ≠ readingOf current := by
            intro hsame
            rw [(differs_eq_false_iff el current).mpr hsame] at hdiffers
            cases hdiffers
          apply visited_of_reported { element := current, type := .modified }
          · rw [visitFile, hload, orRaise_some, pure_bind_apply, read_bind_apply, hold]
            simp only [hdiffers, when_true]
          · exact hpath
          · intro hdeleted
            cases hdeleted
          · exact hnew
          · rw [hnew, hreading, difference, if_neg hother]
            rfl
          · exact hbelow
          · exact hknown

variable (action new) in
theorem visitFiles_visits {files : List Text}
    (hfiles : ∀ path ∈ files, Below settings.pathToWatch path ∧ ∃ current,
      DirectoryEntry.load settings.platform settings.pathToWatch path tree = some current ∧
        new path = some (readingOf current))
    (hknown : Known settings.pathToWatch w.paths) :
    ∃ w' notices, visitFiles settings action tree files w = .returned () w' ∧
      w'.notices = w.notices ++ notices ∧ Known settings.pathToWatch w'.paths ∧
      (∀ notice ∈ notices, notice.event.type ≠ .deleted ∧
        new notice.event.element.absolutePath = some (readingOf notice.event.element)) ∧
      Visits new files w.readings (notices.map Notice.report) w'.readings := by
  induction files generalizing w with
  | nil => exact ⟨w, [], rfl, (List.append_nil _).symm, hknown, by simp, .nil⟩
  | cons path files ih =>
      obtain ⟨hbelow, current, hload, hnew⟩ := hfiles path List.mem_cons_self
      obtain ⟨w₁, notices, hvisited⟩ :=
        visitFile_visits action hload hnew hbelow hknown
      obtain ⟨w', others, hrun, hnoted, hknown', htypes, hvisits⟩ :=
        ih (fun other hother => hfiles other (List.mem_cons_of_mem path hother)) hvisited.known
      refine ⟨w', notices ++ others, ?_, ?_, hknown', ?_, ?_⟩
      · rw [visitFiles, bind_of_returned hvisited.run]
        exact hrun
      · rw [hnoted, hvisited.noted, List.append_assoc]
      · intro notice hnotice
        cases List.mem_append.mp hnotice with
        | inl hfirst => exact ⟨hvisited.type notice hfirst, hvisited.current notice hfirst⟩
        | inr hother => exact htypes notice hother
      · rw [List.map_append]
        exact hvisited.visits.append hvisits

/-- A loop that comes to its end has read every entry. -/
theorem load_of_visitFiles {files : List Text} {w' : Watcher}
    (hrun : visitFiles settings action tree files w = .returned () w') :
    ∀ path ∈ files, (DirectoryEntry.load settings.platform settings.pathToWatch path tree).isSome := by
  induction files generalizing w with
  | nil => simp
  | cons path files ih =>
      obtain ⟨_, middle, hfirst, hrest⟩ := bind_returned_iff.mp hrun
      obtain ⟨current, _, hload, -⟩ := bind_returned_iff.mp hfirst
      intro other hother
      cases hother with
      | head =>
          cases hentry : DirectoryEntry.load settings.platform settings.pathToWatch path tree with
          | none => simp [hentry] at hload
          | some entry => rfl
      | tail _ hother => exact ih hrest other hother

end Files

/-! ## An iteration -/

/-- An iteration reports the differences between the map and the folder, those of
objects that are gone first, and takes over what is accepted. -/
structure Scanned (settings : Settings) (action : WatcherAction) (tree : FileTree) (files : List Text)
    (w w' : Watcher) (notices : List Notice) : Prop where
  run : scan settings action tree files w = .returned () w'
  known : Known settings.pathToWatch w'.paths
  noted : w'.notices = w.notices ++ notices
  reconciles : Reconciles w.readings (snapshot settings.platform tree files)
    (notices.map Notice.report) w'.readings
  deletedFirst : ∃ deletions others, notices = deletions ++ others ∧
    (∀ notice ∈ deletions, notice.event.type = .deleted) ∧
    ∀ notice ∈ others, notice.event.type ≠ .deleted
  current : ∀ notice ∈ notices, notice.event.type ≠ .deleted →
    snapshot settings.platform tree files notice.event.element.absolutePath =
      some (readingOf notice.event.element)

/-- An iteration reports exactly the differences; another one, of the same folder,
reports what was rejected, and nothing when everything was accepted. -/
def ReportsDifferences (settings : Settings) (action : WatcherAction) (tree : FileTree)
    (files : List Text) (w : Watcher) : Prop :=
  ∃ w' notices, Scanned settings action tree files w w' notices ∧
    (∀ action' files', files'.Perm files → ∃ w'' notices',
      Scanned settings action' tree files' w' w'' notices' ∧
        ∀ path change, (∃ accepted, ⟨path, change, accepted⟩ ∈ notices'.map Notice.report) ↔
          ⟨path, change, false⟩ ∈ notices.map Notice.report) ∧
    ((∀ notice ∈ notices, notice.accepted = true) →
      w'.readings = snapshot settings.platform tree files ∧
        ∀ action' files' w'' notices', files'.Perm files →
          Scanned settings action' tree files' w' w'' notices' → notices' = [])

section Scan

variable {files : List Text} {place : Path}

theorem snapshot_congr {files' : List Text} (hperm : files'.Perm files) :
    snapshot settings.platform tree files' = snapshot settings.platform tree files := by
  funext path
  rw [snapshot, snapshot]
  exact if_congr hperm.mem_iff rfl rfl

variable (action) in
theorem scanned (hfolder : FolderAt tree settings.pathToWatch place)
    (hfiles : files.Perm (SystemCall.listing settings.pathToWatch place tree))
    (hrelative : ∀ path ∈ files, (DirectoryEntry.relativePathOf settings.pathToWatch path).isSome = true)
    (hknown : Known settings.pathToWatch w.paths) :
    ∃ w' notices, Scanned settings action tree files w w' notices := by
  have hmem : ∀ path, path ∈ files ↔
      Below settings.pathToWatch path ∧ (tree.status path).isSome = true := by
    intro path
    rw [hfiles.mem_iff, hfolder.mem_listing_iff, Below]
    constructor
    · rintro ⟨names, hne, hnames, hpath, hsome⟩
      exact ⟨⟨names, hne, hnames, hpath⟩, hsome⟩
    · rintro ⟨⟨names, hne, hnames, hpath⟩, hsome⟩
      exact ⟨names, hne, hnames, hpath, hsome⟩
  have hgoneNew : ∀ path, tree.status path = none →
      snapshot settings.platform tree files path = none := by
    intro path hstatus
    rw [snapshot, hstatus, Option.map_none, ite_self]
  have hread : ∀ path ∈ files, Below settings.pathToWatch path ∧ ∃ current,
      DirectoryEntry.load settings.platform settings.pathToWatch path tree = some current ∧
        snapshot settings.platform tree files path = some (readingOf current) := by
    intro path hpath
    obtain ⟨hbelow, hsome⟩ := (hmem path).mp hpath
    obtain ⟨current, hload⟩ := DirectoryEntry.load_isSome (hrelative path hpath) hsome
    refine ⟨hbelow, current, hload, ?_⟩
    rw [snapshot, if_pos hpath]
    exact (readingOf_load hload).2
  obtain ⟨w₁, deletions, hdeleted, hnoted, hknown₁, htypes, hvisits⟩ :=
    reportDeleted_visits action hgoneNew w.paths.nodupKeys
      (fun entry hentry => AList.mem_lookup_iff.mpr hentry) hknown
  obtain ⟨w', others, hvisited, hnoted', hknown', htypes', hvisits'⟩ :=
    visitFiles_visits action (snapshot settings.platform tree files) hread hknown₁
  refine ⟨w', deletions ++ others, ?_, hknown', ?_, ?_, ⟨deletions, others, rfl, htypes, ?_⟩, ?_⟩
  · rw [scan, read_bind_apply, bind_of_returned hdeleted]
    exact hvisited
  · rw [hnoted', hnoted, List.append_assoc]
  · rw [List.map_append]
    have hgone : ∀ path ∈ gone tree w.paths.entries, tree.status path = none := by
      intro path hpath
      simpa using (List.mem_filter.mp hpath).2
    apply (hvisits.append hvisits').reconciles
    · apply List.Nodup.append
      · exact w.paths.keys_nodup.filter _
      · exact hfiles.nodup_iff.mpr hfolder.nodup_listing
      · intro path hpath hfile
        have hsome := ((hmem path).mp hfile).2
        simp [hgone path hpath] at hsome
    · intro path hdiffers
      rw [List.mem_append]
      by_cases hfile : path ∈ files
      · exact .inr hfile
      · left
        have hnew : snapshot settings.platform tree files path = none := if_neg hfile
        cases hfound : w.paths.lookup path with
        | none =>
            rw [hnew, Watcher.readings, hfound] at hdiffers
            exact absurd rfl hdiffers
        | some element =>
            have hbelow := (hknown path element hfound).2
            have hkey : path ∈ w.paths.keys := by
              rw [KeyedMap.mem_keys_iff, hfound]
              rfl
            apply List.mem_filter.mpr
            refine ⟨hkey, ?_⟩
            rw [Option.isNone_iff_eq_none]
            by_contra hsome
            exact hfile ((hmem path).mpr ⟨hbelow, Option.isSome_iff_ne_none.mpr hsome⟩)
  · exact fun notice hnotice => (htypes' notice hnotice).1
  · intro notice hnotice htype
    cases List.mem_append.mp hnotice with
    | inl hfirst => exact absurd (htypes notice hfirst) htype
    | inr hother => exact (htypes' notice hother).2

/-- An iteration that comes to its end has read every entry of the folder. -/
theorem relativePath_of_scan {w' : Watcher}
    (hrun : scan settings action tree files w = .returned () w') :
    ∀ path ∈ files, (DirectoryEntry.relativePathOf settings.pathToWatch path).isSome = true := by
  rw [scan, read_bind_apply] at hrun
  obtain ⟨_, middle, -, hvisited⟩ := bind_returned_iff.mp hrun
  intro path hpath
  obtain ⟨current, hload⟩ := Option.isSome_iff_exists.mp (load_of_visitFiles hvisited path hpath)
  rw [(DirectoryEntry.load_eq_some hload).1]
  rfl

/-- A scan reports exactly the differences, and later scans what was rejected, if and
only if the relative path of everything in the folder can be found. -/
theorem scan_reports_iff (hfolder : FolderAt tree settings.pathToWatch place)
    (hfiles : files.Perm (SystemCall.listing settings.pathToWatch place tree))
    (hknown : Known settings.pathToWatch w.paths) :
    ReportsDifferences settings action tree files w ↔
      ∀ path ∈ files, (DirectoryEntry.relativePathOf settings.pathToWatch path).isSome = true := by
  constructor
  · rintro ⟨w', notices, hscanned, -⟩
    exact relativePath_of_scan hscanned.run
  · intro hrelative
    obtain ⟨w', notices, hscanned⟩ := scanned action hfolder hfiles hrelative hknown
    refine ⟨w', notices, hscanned, ?_, ?_⟩
    · intro action' files' hperm
      have hrelative' : ∀ path ∈ files',
          (DirectoryEntry.relativePathOf settings.pathToWatch path).isSome = true :=
        fun path hpath => hrelative path (hperm.mem_iff.mp hpath)
      obtain ⟨w'', notices', hscanned'⟩ := scanned action' hfolder
        (hperm.trans hfiles) hrelative' hscanned.known
      have hagain := hscanned'.reconciles
      rw [snapshot_congr hperm] at hagain
      exact ⟨w'', notices', hscanned', hscanned.reconciles.again hagain⟩
    · intro haccepted
      have hafter : w'.readings = snapshot settings.platform tree files := by
        apply hscanned.reconciles.after_of_accepted
        intro report hreport
        obtain ⟨notice, hnotice, rfl⟩ := List.mem_map.mp hreport
        exact haccepted notice hnotice
      refine ⟨hafter, ?_⟩
      intro action' files' w'' notices' hperm hscanned'
      have hagain := hscanned'.reconciles
      rw [snapshot_congr hperm, hafter] at hagain
      exact List.map_eq_nil_iff.mp hagain.nil_of_eq

end Scan

/-! ## Recovery -/

/-- The database has paths of objects below the folder. -/
theorem recoverPaths_known {visits : List Visit} {w' : Watcher}
    (hvisits : ∀ visit ∈ visits, ∃ names, names ≠ [] ∧ PlainPath names ∧ visit.path = render names)
    (hknown : Known settings.pathToWatch w.paths)
    (hrun : recoverPaths settings visits w = .returned () w') :
    Known settings.pathToWatch w'.paths := by
  induction visits generalizing w with
  | nil =>
      simp only [recoverPaths, pure_apply, Exit.returned.injEq, true_and] at hrun
      exact hrun ▸ hknown
  | cons visit visits ih =>
      obtain ⟨_, middle, hfirst, hrest⟩ := bind_returned_iff.mp hrun
      obtain ⟨hash, w₁, hhash, hinsert⟩ := bind_returned_iff.mp hfirst
      obtain ⟨names, hne, hnames, hpath⟩ := hvisits visit List.mem_cons_self
      have hw₁ : w₁ = w := by
        cases hbytes : Hash.ofBytes visit.hash with
        | none => simp [hbytes] at hhash
        | some found =>
            simp only [hbytes, orRaise_some, pure_apply, Exit.returned.injEq] at hhash
            exact hhash.2.symm
      simp only [modify_apply, Exit.returned.injEq, true_and, hw₁] at hinsert
      apply ih (fun other hother => hvisits other (List.mem_cons_of_mem visit hother)) _ hrest
      rw [← hinsert]
      exact hknown.insert ⟨rfl, names, hne, hnames, by rw [← hpath]; rfl⟩

theorem perform_paths {event : Event} {accepted : Bool} {w' : Watcher}
    (hrun : perform action event w = .returned accepted w') :
    w'.paths = w.paths := by
  rw [perform_run rfl] at hrun
  cases hrun
  rfl

theorem reportKnown_paths {entries : List (Sigma fun _ : Text => DirectoryEntry)} {w' : Watcher}
    (hrun : reportKnown action tree entries w = .returned () w') : w'.paths = w.paths := by
  induction entries generalizing w with
  | nil =>
      cases hrun
      rfl
  | cons entry entries ih =>
      rw [reportKnown] at hrun
      split at hrun
      · obtain ⟨accepted, middle, hperform, hrest⟩ := bind_returned_iff.mp hrun
        rw [← perform_paths hperform]
        cases accepted with
        | true => exact ih hrest
        | false =>
            cases hrest
            rfl
      · exact ih hrun

/-- A map that was recovered can be scanned with. -/
theorem recoverFromDB_known {visits : List Visit} {w' : Watcher}
    (hvisits : ∀ visit ∈ visits, ∃ names, names ≠ [] ∧ PlainPath names ∧ visit.path = render names)
    (hrun : recoverFromDB settings action tree visits {} = .returned () w') :
    Known settings.pathToWatch w'.paths := by
  obtain ⟨_, recovered, hrecovered, hrest⟩ := bind_returned_iff.mp hrun
  rw [read_bind_apply] at hrest
  have hknown : Known settings.pathToWatch ({} : Watcher).paths := KeyedMap.All.empty
  rw [reportKnown_paths hrest]
  exact recoverPaths_known hvisits hknown hrecovered

/-! ## A folder to scan -/

/-- The libraries on empty files, at the first second of 1970. -/
def watchSettings : Settings where
  platform :=
    { sha256 := fun _ => .zero
      putTime := fun _ => "Thursday, 01 January 1970 01:00 UTC".toList
      getTime := fun _ => 0 }
  protocolVersion := 1
  pathToWatch := "/home".toList
  maxDataChunkSize := 15360

/-- A folder with one file. -/
def watchedTree (name : Text) : FileTree :=
  ((FileTree.bare 0).putDir ["home".toList] 0).putFile [name, "home".toList] [] 0

theorem scan_reports_one :
    ReportsDifferences watchSettings (fun _ _ => true) (watchedTree "f".toList)
        ["/home/f".toList] {} ↔
      ∀ path ∈ ["/home/f".toList],
        (DirectoryEntry.relativePathOf watchSettings.pathToWatch path).isSome = true :=
  have hfolder : FolderAt (watchedTree "f".toList) watchSettings.pathToWatch ["home".toList] :=
    ⟨by decide +kernel, by decide +kernel, by decide, by decide⟩
  scan_reports_iff hfolder
    (by decide +kernel) KeyedMap.All.empty

/-- A file with a line feed in its name makes the iteration fail. -/
theorem not_scan_reports :
    SystemCall.listing watchSettings.pathToWatch ["home".toList] (watchedTree "a\nb".toList) =
        ["/home/a\nb".toList] ∧
      ¬ ReportsDifferences watchSettings (fun _ _ => true) (watchedTree "a\nb".toList)
        ["/home/a\nb".toList] {} := by
  constructor
  · decide +kernel
  · rintro ⟨w', notices, hscanned, -⟩
    have hrelative := relativePath_of_scan hscanned.run "/home/a\nb".toList List.mem_cons_self
    revert hrelative
    decide +kernel

end PdsBackup.Client
