import PdsBackup.Core.WrittenPaths

/-!
# Ways through a tree

What the components of any text ask of a tree: the directories they are followed
from, the places a way of directories is made of, and where they lead.  A text
leads somewhere when the first are directories; a way can be made when no file
stands on it; and what a text led to is not lost when the tree grows.  With that
the calls on files and directories are known to go through from the tree alone,
also where a text is not a written path.
-/

namespace PdsBackup

/-- Where one component leads from a directory. -/
def advance (current : Path) (name : Text) : Path :=
  if name = [] ∨ name = dot then current
  else if name = dotDot then current.tail
  else name :: current

/-- Where components lead when nothing is in their way. -/
def landing (current : Path) (names : List Text) : Path := names.foldl advance current

/-- The places components are followed from have a property. -/
def Follows (dirs : Path → Prop) : Path → List Text → Prop
  | _, [] => True
  | current, name :: rest => dirs current ∧ Follows dirs (advance current name) rest

/-- The places that have to be directories for components to lead to one. -/
def wayPlaces : Path → List Text → List Path
  | _, [] => []
  | current, name :: rest =>
      if name = [] ∨ name = dot ∨ name = dotDot then wayPlaces (advance current name) rest
      else (name :: current) :: wayPlaces (name :: current) rest

theorem advance_of_name {name : Text} (hname : ¬ (name = [] ∨ name = dot ∨ name = dotDot))
    (current : Path) : advance current name = name :: current := by
  simp only [not_or] at hname
  simp [advance, hname]

theorem Follows.imp {dirs other : Path → Prop} {current : Path} {names : List Text}
    (himp : ∀ path, dirs path → other path) (h : Follows dirs current names) :
    Follows other current names := by
  induction names generalizing current with
  | nil => trivial
  | cons name names ih => exact ⟨himp current h.1, ih h.2⟩

/-- The places of a way are ones that are followed, but for the last. -/
theorem Follows.of_way {dirs : Path → Prop} {current : Path} {names : List Text}
    (h : Follows dirs current names) :
    ∀ path ∈ wayPlaces current names, dirs path ∨ path = landing current names := by
  induction names generalizing current with
  | nil => exact fun path hpath => absurd hpath List.not_mem_nil
  | cons name names ih =>
      intro path hpath
      by_cases hstays : name = [] ∨ name = dot ∨ name = dotDot
      · rw [wayPlaces, if_pos hstays] at hpath
        exact ih h.2 path hpath
      · have hrest := h.2
        rw [advance_of_name hstays] at hrest
        rw [wayPlaces, if_neg hstays] at hpath
        rw [landing, List.foldl_cons, advance_of_name hstays]
        rcases List.mem_cons.mp hpath with rfl | hpath
        · cases names with
          | nil => exact .inr rfl
          | cons next names => exact .inl hrest.1
        · exact ih hrest path hpath

namespace FileTree

variable {tree before after : FileTree} {current path : Path}

/-! ## Following components -/

theorem walk_cons (tree : FileTree) (current : Path) (name : Text) (rest : List Text) :
    tree.walk current (name :: rest) =
      if tree.isDir current then tree.walk (advance current name) rest else none := by
  rw [walk, advance]
  by_cases hskip : name = [] ∨ name = dot
  · rw [if_pos hskip, if_pos hskip]
  · rw [if_neg hskip, if_neg hskip]
    by_cases hup : name = dotDot
    · rw [if_pos hup, if_pos hup]
    · rw [if_neg hup, if_neg hup]

/-- Components lead on from directories, and to one place only. -/
theorem walk_eq_some_iff (tree : FileTree) (current path : Path) (names : List Text) :
    tree.walk current names = some path ↔
      Follows (fun other => tree.isDir other = true) current names ∧
        landing current names = path := by
  induction names generalizing current with
  | nil => simp [walk, Follows, landing]
  | cons name names ih =>
      rw [walk_cons, Follows, landing, List.foldl_cons]
      cases hdir : tree.isDir current with
      | false => simp
      | true =>
          rw [if_pos rfl, ih]
          simp [landing]

theorem resolve_eq_some_iff {text : Text} (htext : cString text ≠ []) (tree : FileTree)
    (path : Path) : tree.resolve text = some path ↔
      Follows (fun other => tree.isDir other = true) [] (components text) ∧
        landing [] (components text) = path := by
  rw [resolve, if_neg htext, walk_eq_some_iff]

theorem cString_ne_of_resolve {text : Text} (hresolve : tree.resolve text = some path) :
    cString text ≠ [] := by
  intro hempty
  simp [resolve, hempty] at hresolve

/-! ## Growth -/

/-- Every directory is still one, and whatever was there still is. -/
structure Grows (before after : FileTree) : Prop where
  isDir : ∀ path, before.isDir path = true → after.isDir path = true
  isSome : ∀ path, (before.node path).isSome = true → (after.node path).isSome = true

theorem Grows.refl (tree : FileTree) : Grows tree tree :=
  ⟨fun _ hdir => hdir, fun _ hsome => hsome⟩

theorem Grows.resolve (hgrows : Grows before after) {text : Text}
    (hresolve : before.resolve text = some path) : after.resolve text = some path := by
  have htext := cString_ne_of_resolve hresolve
  rw [resolve_eq_some_iff htext] at hresolve ⊢
  exact ⟨hresolve.1.imp hgrows.isDir, hresolve.2⟩

theorem Grows.isSome_status (hgrows : Grows before after) {text : Text}
    (hsome : (before.status text).isSome = true) : (after.status text).isSome = true := by
  obtain ⟨node, hnode⟩ := Option.isSome_iff_exists.mp hsome
  obtain ⟨place, hresolve, hplace⟩ := before.resolve_of_status hnode
  rw [status, hgrows.resolve hresolve, Option.bind_some]
  apply hgrows.isSome
  rw [hplace]
  rfl

theorem Grows.trans {between : FileTree} (hfirst : Grows before between)
    (hsecond : Grows between after) : Grows before after where
  isDir path hdir := hsecond.isDir path (hfirst.isDir path hdir)
  isSome path hsome := hsecond.isSome path (hfirst.isSome path hsome)

/-- What is left of a tree had been there. -/
theorem grows_delete (tree : FileTree) (hne : path ≠ []) : Grows (tree.delete path) tree where
  isDir other hdir := by
    rw [isDir, node_delete tree hne] at hdir
    by_cases hbelow : path <:+ other
    · simp [hbelow] at hdir
    · rwa [if_neg hbelow] at hdir
  isSome other hsome := by
    rw [node_delete tree hne] at hsome
    by_cases hbelow : path <:+ other
    · simp [hbelow] at hsome
    · rwa [if_neg hbelow] at hsome

theorem grows_foldl_delete {paths : List Path} (hne : ∀ path ∈ paths, path ≠ [])
    (tree : FileTree) : Grows (paths.foldl FileTree.delete tree) tree := by
  induction paths generalizing tree with
  | nil => exact .refl tree
  | cons path paths ih =>
      have hrest : ∀ other ∈ paths, other ≠ [] := fun other hother =>
        hne other (List.mem_cons_of_mem path hother)
      exact (ih hrest (tree.delete path)).trans (tree.grows_delete (hne path List.mem_cons_self))

/-! ## Names put after a text -/

theorem nul_notMem_join {text name : Text} (hnul : nul ∉ text) (hname : PlainName name) :
    nul ∉ join text name := by
  unfold join
  split
  · simp [hnul, hname.2.2.2.2]
  · have hslash : nul ≠ '/' := by decide
    simp [hnul, hname.2.2.2.2, hslash]

/-- What is put after a text with a NUL is not read. -/
theorem cString_join {text : Text} (hnul : nul ∈ text) (name : Text) :
    nul ∈ join text name ∧ cString (join text name) = cString text := by
  unfold join
  split
  · exact ⟨List.mem_append_left _ hnul, cString_append_of_mem hnul _⟩
  · exact ⟨List.mem_append_left _ hnul, cString_append_of_mem hnul _⟩

theorem cString_join_names {text : Text} (hnul : nul ∈ text) (names : List Text) :
    nul ∈ names.foldr (fun name outer => join outer name) text ∧
      cString (names.foldr (fun name outer => join outer name) text) = cString text := by
  induction names with
  | nil => exact ⟨hnul, rfl⟩
  | cons name names ih =>
      obtain ⟨hmem, hcut⟩ := cString_join ih.1 name
      exact ⟨hmem, hcut.trans ih.2⟩

/-- The name of an object after the text of its directory leads to it. -/
theorem resolve_join {text name : Text} (hnul : nul ∉ text) (hname : PlainName name)
    (hresolve : tree.resolve text = some path) (hdir : tree.isDir path = true) :
    tree.resolve (join text name) = some (name :: path) := by
  have htext := cString_ne_of_resolve hresolve
  rw [resolve, if_neg htext, components, cString_eq_self hnul] at hresolve
  have hsplit : name.splitOn '/' = [name] := List.splitOn_eq_singleton hname.2.2.2.1
  have hfree : nul ∉ join text name := nul_notMem_join hnul hname
  have hne : cString (join text name) ≠ [] := by
    rw [cString_eq_self hfree]
    unfold join
    split
    · simp [hname.1]
    · simp
  rw [resolve, if_neg hne, components, cString_eq_self hfree]
  by_cases hlast : text.getLast? = some '/'
  · obtain ⟨front, rfl⟩ := List.getLast?_eq_some_iff.mp hlast
    rw [List.splitOn_append_cons_self, walk_append, Option.bind_eq_some_iff] at hresolve
    obtain ⟨middle, hfront, hmiddle⟩ := hresolve
    rw [List.splitOn_nil, walk_eq_some_iff] at hmiddle
    obtain ⟨⟨hmiddleDir, -⟩, rfl⟩ := hmiddle
    rw [join, if_pos hlast, List.append_assoc, List.singleton_append,
      List.splitOn_append_cons_self, hsplit, walk_append, hfront, Option.bind_some,
      walk_single tree hname, if_pos hmiddleDir]
    rfl
  · rw [join, if_neg hlast, List.splitOn_append_cons_self, hsplit, walk_append, hresolve,
      Option.bind_some, walk_single tree hname, if_pos hdir]

/-- The names of an object, one after the other, lead from a directory to it. -/
theorem resolve_join_names {text : Text} (hnul : nul ∉ text)
    (hresolve : tree.resolve text = some path) {names : List Text}
    (hsome : (tree.node (names ++ path)).isSome = true) :
    nul ∉ names.foldr (fun name outer => join outer name) text ∧
      tree.resolve (names.foldr (fun name outer => join outer name) text) =
        some (names ++ path) := by
  induction names with
  | nil => exact ⟨hnul, hresolve⟩
  | cons name names ih =>
      have hname := tree.plain_name name (names ++ path) hsome
      have hparent := tree.isDir_parent hsome
      obtain ⟨hfree, hleads⟩ := ih (tree.isSome_of_isDir hparent)
      exact ⟨nul_notMem_join hfree hname, resolve_join hfree hname hleads hparent⟩

/-- The texts of a listing lead to objects. -/
theorem isSome_status_listing {text : Text} (hresolve : tree.resolve text = some path)
    (hdir : tree.isDir path = true) :
    ∀ below ∈ SystemCall.listing text path tree, (tree.status below).isSome = true := by
  intro below hbelow
  obtain ⟨other, hother, rfl⟩ := List.mem_map.mp hbelow
  obtain ⟨⟨names, rfl⟩, -, hsome⟩ := (tree.mem_below _ _).mp hother
  rw [List.length_append, Nat.add_sub_cancel, List.take_left]
  by_cases hnul : nul ∈ text
  · -- the text ends before the names
    have hsame : tree.resolve (names.foldr (fun name outer => join outer name) text) =
        tree.resolve text := by
      rw [resolve, resolve, components, components, (cString_join_names hnul names).2]
    rw [status, hsame, hresolve, Option.bind_some]
    exact tree.isSome_of_isDir hdir
  · rw [status, (resolve_join_names hnul hresolve hsome).2, Option.bind_some]
    exact hsome

end FileTree

/-! ## Making a way -/

/-- The places of a way are directories now, and nothing else is different but
for times. -/
structure Paved (way : List Path) (before after : FileTree) : Prop where
  made : ∀ path ∈ way, after.isDir path = true
  kept : ∀ path, path ∉ way → after.shape path = before.shape path

namespace Paved

variable {way : List Path} {before after : FileTree} {current : Path} {names : List Text}

theorem isDir_iff (hpaved : Paved way before after) (path : Path) :
    after.isDir path = true ↔ before.isDir path = true ∨ path ∈ way := by
  by_cases hmem : path ∈ way
  · simp [hpaved.made path hmem, hmem]
  · rw [FileTree.isDir_iff_shape, hpaved.kept path hmem, ← FileTree.isDir_iff_shape]
    simp [hmem]

theorem grows (hpaved : Paved way before after) : FileTree.Grows before after where
  isDir path hdir := (hpaved.isDir_iff path).mpr (.inl hdir)
  isSome path hsome := by
    by_cases hmem : path ∈ way
    · exact after.isSome_of_isDir (hpaved.made path hmem)
    · rwa [← FileTree.isSome_shape, hpaved.kept path hmem, FileTree.isSome_shape]

/-- A directory at the head of a way, and the rest of the way after it. -/
theorem cons {between : FileTree} {place : Path} (hpaved : Paved way between after)
    (hdir : between.isDir place = true)
    (hkept : ∀ path, path ≠ place → between.shape path = before.shape path) :
    Paved (place :: way) before after where
  made path hpath := by
    rw [hpaved.isDir_iff]
    rcases List.mem_cons.mp hpath with rfl | hpath
    · exact .inl hdir
    · exact .inr hpath
  kept path hpath := by
    rw [List.mem_cons, not_or] at hpath
    rw [hpaved.kept path hpath.2, hkept path hpath.1]

/-- A file beside the way is still there. -/
theorem file (hpaved : Paved way before after) {path : Path} (hmem : path ∉ way)
    {content : List Byte} {mtime : Int} (hfile : before.node path = some (.file content mtime)) :
    after.node path = some (.file content mtime) := by
  rw [← FileTree.shape_file_iff, hpaved.kept path hmem, FileTree.shape_file_iff]
  exact hfile

end Paved

/-- No component but a name leaves the directories. -/
theorem FileTree.isDir_advance {tree : FileTree} {current : Path} {name : Text}
    (hdir : tree.isDir current = true) (hstays : name = [] ∨ name = dot ∨ name = dotDot) :
    tree.isDir (advance current name) = true := by
  unfold advance
  by_cases hskip : name = [] ∨ name = dot
  · rwa [if_pos hskip]
  · rw [if_neg hskip, if_pos (by tauto)]
    exact tree.isDir_of_suffix (List.tail_suffix current) hdir

/-- From a directory, components whose places are directories are followed to a
directory. -/
theorem FileTree.follows_of_way {tree : FileTree} {current : Path} {names : List Text}
    (hdir : tree.isDir current = true)
    (hway : ∀ path ∈ wayPlaces current names, tree.isDir path = true) :
    Follows (fun other => tree.isDir other = true) current names ∧
      tree.isDir (landing current names) = true := by
  induction names generalizing current with
  | nil => exact ⟨trivial, hdir⟩
  | cons name names ih =>
      have hnext : tree.isDir (advance current name) = true ∧
          ∀ path ∈ wayPlaces (advance current name) names, tree.isDir path = true := by
        by_cases hstays : name = [] ∨ name = dot ∨ name = dotDot
        · rw [wayPlaces, if_pos hstays] at hway
          exact ⟨tree.isDir_advance hdir hstays, hway⟩
        · rw [wayPlaces, if_neg hstays] at hway
          rw [advance_of_name hstays]
          exact ⟨hway _ List.mem_cons_self, fun path hpath =>
            hway path (List.mem_cons_of_mem _ hpath)⟩
      obtain ⟨hfollows, hlanding⟩ := ih hnext.1 hnext.2
      exact ⟨⟨hdir, hfollows⟩, hlanding⟩

namespace FileTree

/-- A text whose way is paved leads to a directory. -/
theorem resolve_of_way {tree : FileTree} {text : Text} (htext : cString text ≠ [])
    (hway : ∀ path ∈ wayPlaces [] (components text), tree.isDir path = true) :
    tree.resolve text = some (landing [] (components text)) ∧
      tree.isDir (landing [] (components text)) = true := by
  obtain ⟨hfollows, hdir⟩ := follows_of_way tree.isDir_root hway
  exact ⟨(resolve_eq_some_iff htext tree _).mpr ⟨hfollows, rfl⟩, hdir⟩

end FileTree

namespace SystemCall

open Procedure

theorem makeWay_stays {name : Text} (hstays : name = [] ∨ name = dot ∨ name = dotDot)
    (current : Path) (rest : List Text) :
    makeWay current (name :: rest) = makeWay (advance current name) rest := by
  rcases hstays with rfl | rfl | rfl
  · simp [makeWay, advance]
  · simp [makeWay, advance]
  · simp [makeWay, advance, dotDot, dot]

/-- No file stands on the way that components need. -/
def Passable (tree : FileTree) (current : Path) (names : List Text) : Prop :=
  ∀ path ∈ wayPlaces current names, tree.node path = none ∨ tree.isDir path = true

instance (tree : FileTree) (current : Path) (names : List Text) :
    Decidable (Passable tree current names) :=
  inferInstanceAs (Decidable (∀ path ∈ wayPlaces current names, _ ∨ _))

/-- A way on which no file stands is made when its names are not too long. -/
theorem makeWay_of_passable {names : List Text} {current : Path} {disk : Disk}
    (hnames : ∀ name ∈ names, '/' ∉ name ∧ nul ∉ name)
    (hshort : ∀ name ∈ names, byteLength name ≤ nameMax)
    (hdir : disk.tree.isDir current = true) (hpassable : Passable disk.tree current names) :
    ∃ disk', makeWay current names disk = .returned () disk' ∧
      Paved (wayPlaces current names) disk.tree disk'.tree := by
  induction names generalizing current disk with
  | nil => exact ⟨disk, rfl, fun path hpath => absurd hpath List.not_mem_nil, fun _ _ => rfl⟩
  | cons name names ih =>
      have hnames' : ∀ other ∈ names, '/' ∉ other ∧ nul ∉ other := fun other hother =>
        hnames other (List.mem_cons_of_mem name hother)
      have hshort' : ∀ other ∈ names, byteLength other ≤ nameMax := fun other hother =>
        hshort other (List.mem_cons_of_mem name hother)
      have hlong : ¬ nameMax < byteLength name := Nat.not_lt.mpr (hshort name List.mem_cons_self)
      by_cases hstays : name = [] ∨ name = dot ∨ name = dotDot
      · rw [makeWay_stays hstays, wayPlaces, if_pos hstays]
        rw [Passable, wayPlaces, if_pos hstays] at hpassable
        exact ih hnames' hshort' (disk.tree.isDir_advance hdir hstays) hpassable
      · rw [Passable, wayPlaces, if_neg hstays] at hpassable
        rw [wayPlaces, if_neg hstays]
        simp only [not_or] at hstays
        have hname : PlainName name :=
          ⟨hstays.1, hstays.2.1, hstays.2.2, hnames name List.mem_cons_self⟩
        have hrest : Passable disk.tree (name :: current) names := fun path hpath =>
          hpassable path (List.mem_cons_of_mem _ hpath)
        rw [makeWay_cons hname, read_bind_apply]
        rcases disk.tree.shape_cases (name :: current) with hnone | ⟨content, mtime, hfile⟩ | hsub
        · -- the name is missing: the rest of the way is made in the new directory
          have hshape := disk.shape_makeDir hname hdir hnone
          have hsub : (disk.makeDir (name :: current)).tree.isDir (name :: current) = true := by
            rw [FileTree.isDir_iff_shape, hshape, if_pos rfl]
          have hpassable' : Passable (disk.makeDir (name :: current)).tree (name :: current)
              names := by
            intro path hpath
            by_cases hsame : path = name :: current
            · exact .inr (hsame ▸ hsub)
            · rw [← FileTree.shape_eq_none_iff, FileTree.isDir_iff_shape, hshape, if_neg hsame,
                FileTree.shape_eq_none_iff, ← FileTree.isDir_iff_shape]
              exact hrest path hpath
          simp only [hnone, hlong, if_false, modify_bind_apply]
          obtain ⟨disk', hrun, hpaved⟩ := ih hnames' hshort' hsub hpassable'
          refine ⟨disk', hrun, hpaved.cons hsub fun path hpath => ?_⟩
          rw [hshape, if_neg hpath]
        · have hfree := hpassable _ List.mem_cons_self
          simp [hfile, FileTree.isDir] at hfree
        · obtain ⟨mtime, hnode⟩ := (disk.tree.isDir_iff _).mp hsub
          simp only [hnode]
          obtain ⟨disk', hrun, hpaved⟩ := ih hnames' hshort' hsub hrest
          exact ⟨disk', hrun, hpaved.cons hsub fun _ _ => rfl⟩

theorem createDirectories_of_passable {text : Text} {disk : Disk} (htext : cString text ≠ [])
    (hfits : PathFits text) (hpassable : Passable disk.tree [] (components text)) :
    ∃ disk', createDirectories text disk = .returned () disk' ∧
      Paved (wayPlaces [] (components text)) disk.tree disk'.tree := by
  rw [createDirectories, if_neg htext, if_neg (Nat.not_le.mpr hfits.1)]
  exact makeWay_of_passable (plain_of_mem_components text) hfits.2 disk.tree.isDir_root hpassable

/-- Where components lead to something, a way on which no file stands is there
already. -/
theorem paved_of_resolve {tree : FileTree} {text : Text} {path : Path}
    (hresolve : tree.resolve text = some path) (hsome : (tree.node path).isSome = true)
    (hpassable : Passable tree [] (components text)) :
    Paved (wayPlaces [] (components text)) tree tree := by
  rw [FileTree.resolve_eq_some_iff (FileTree.cString_ne_of_resolve hresolve)] at hresolve
  obtain ⟨hfollows, rfl⟩ := hresolve
  refine ⟨fun other hother => ?_, fun _ _ => rfl⟩
  rcases hfollows.of_way other hother with hdir | rfl
  · exact hdir
  · refine (hpassable _ hother).resolve_left fun hnone => ?_
    simp [hnone] at hsome

/-- The directories that are missing under a text are made. -/
theorem makeMissing {text : Text} (htext : cString text ≠ []) (hfits : PathFits text)
    {disk : Disk} (hpassable : Passable disk.tree [] (components text)) :
    ∃ disk', when (!disk.present text) (createDirectories text) disk = .returned () disk' ∧
      Paved (wayPlaces [] (components text)) disk.tree disk'.tree := by
  cases hpresent : disk.present text with
  | false => exact createDirectories_of_passable htext hfits hpassable
  | true =>
      obtain ⟨path, hresolve, hsome⟩ := Disk.place_of_present hpresent
      exact ⟨disk, rfl, paved_of_resolve hresolve hsome hpassable⟩

/-! ## Removing and renaming -/

section Calls

variable {disk : Disk} {text : Text} {path : Path}

/-- `remove` takes a file by its text, or an empty directory that is not the
root nor named by a dot. -/
def Takeable (text : Text) (path : Path) (tree : FileTree) : Prop :=
  tree.isDir path = true → path ≠ [] ∧ tree.below path = [] ∧ lastName text ≠ some dot

theorem remove_of_takeable (hresolve : disk.tree.resolve text = some path)
    (hsome : (disk.tree.node path).isSome = true) (htakeable : Takeable text path disk.tree) :
    remove text disk = .returned true (disk.unlink path) := by
  rcases disk.tree.shape_cases path with hnone | ⟨content, mtime, hfile⟩ | hdir
  · simp [hnone] at hsome
  · simp [remove, hresolve, hfile]
  · obtain ⟨hroot, hbelow, hdot⟩ := htakeable hdir
    obtain ⟨mtime, hnode⟩ := (disk.tree.isDir_iff _).mp hdir
    simp [remove, hresolve, hnode, hroot, hbelow, hdot]

/-- `remove_all` takes a directory by its text when it is not the root nor named
by a dot.  By a dot-dot it takes what is in the directory only. -/
def Clearable (text : Text) (path : Path) (tree : FileTree) : Prop :=
  if lastName text = some dotDot then tree.below path ≠ []
  else path ≠ [] ∧ lastName text ≠ some dot

/-- What `remove_all` leaves. -/
def leftovers (text : Text) (path : Path) (tree : FileTree) : FileTree :=
  if lastName text = some dotDot then (tree.below path).foldl FileTree.delete tree
  else tree.delete path

theorem removeAll_of_clearable (hresolve : disk.tree.resolve text = some path)
    (hdir : disk.tree.isDir path = true) (hclearable : Clearable text path disk.tree) :
    ∃ count disk', removeAll text disk = .returned count disk' ∧ count ≠ 0 ∧
      ∀ other, (disk'.tree.status other).isSome =
        ((leftovers text path disk.tree).status other).isSome := by
  obtain ⟨mtime, hnode⟩ := (disk.tree.isDir_iff _).mp hdir
  by_cases hup : lastName text = some dotDot
  · rw [Clearable, if_pos hup] at hclearable
    refine ⟨(disk.tree.below path).length, disk.clear path, ?_, ?_, fun other => ?_⟩
    · simp [removeAll, hresolve, hnode, hup]
    · simpa using hclearable
    · rw [leftovers, if_pos hup]
      exact FileTree.isSome_status_retime _ _ _ _
  · rw [Clearable, if_neg hup] at hclearable
    refine ⟨_, _, removeAll_of_isDir hresolve hdir hclearable.1 hclearable.2 hup,
      Nat.succ_ne_zero _, fun other => ?_⟩
    rw [leftovers, if_neg hup]
    exact FileTree.isSome_status_retime _ _ _ _

/-- What is left had been there. -/
theorem grows_leftovers {tree : FileTree} (hclearable : Clearable text path tree) :
    FileTree.Grows (leftovers text path tree) tree := by
  unfold leftovers
  unfold Clearable at hclearable
  split
  · apply FileTree.grows_foldl_delete
    rintro other hother rfl
    obtain ⟨hsuffix, hne, -⟩ := (tree.mem_below _ _).mp hother
    exact hne (List.suffix_nil.mp hsuffix).symm
  · rename_i hup
    rw [if_neg hup] at hclearable
    exact tree.grows_delete hclearable.1

/-- A file is moved to where a text that fits leads, if no directory is there. -/
theorem rename_of_resolve {source : Path} {content : List Byte} {mtime : Int}
    (hsource : PlainPath source) (hne : source ≠ [])
    (hfile : disk.tree.node source = some (.file content mtime))
    (hresolve : disk.tree.resolve text = some path) (hfits : PathFits text)
    (hnotDir : disk.tree.isDir path = false) :
    ∃ disk', rename (render source) text disk = .returned () disk' ∧
      ∀ other, disk'.tree.isDir other = disk.tree.isDir other := by
  have hsome : (disk.tree.node source).isSome = true := by
    rw [hfile]
    rfl
  have hlocate : locate (render source) disk = .returned source disk := by
    obtain ⟨last, outer, rfl⟩ := List.exists_cons_of_ne_nil hne
    exact locate_render hsource (disk.tree.isDir_parent hsome)
  by_cases hsame : source = path
  · subst hsame
    refine ⟨disk, ?_, fun _ => rfl⟩
    rw [rename, bind_of_returned hlocate, bind_of_returned (locate_of_resolve hresolve)]
    simp [hfile, hfits, hnotDir]
  · refine ⟨disk.move source path, ?_, fun other => ?_⟩
    · rw [rename, bind_of_returned hlocate, bind_of_returned (locate_of_resolve hresolve)]
      simp [hfile, hfits, hnotDir, hsame]
    · cases path with
      | nil => simp [disk.tree.isDir_root] at hnotDir
      | cons name parent =>
          have hplace := disk.tree.place_of_resolve hresolve
          have hfalse : disk.tree.isDir source = false := by
            simp [FileTree.isDir, hfile]
          apply Bool.eq_iff_iff.mpr
          rw [FileTree.isDir_iff_shape, FileTree.isDir_iff_shape,
            disk.shape_move hne hfile hplace.1 hplace.2 hnotDir hsame]
          by_cases hfirst : other = source
          · rw [if_pos hfirst, hfirst, ← FileTree.isDir_iff_shape, hfalse]
            simp
          · rw [if_neg hfirst]
            by_cases hsecond : other = name :: parent
            · rw [if_pos hsecond, hsecond, ← FileTree.isDir_iff_shape, hnotDir]
              simp
            · rw [if_neg hsecond]

end Calls

end SystemCall

end PdsBackup
