import PdsBackup.Core.WrittenPaths

/-!
# What is below a folder

A folder that is given by some text, canonical or not: the paths of the objects
below it are the text with their names behind it, and such a path leads to the
object.
-/

namespace PdsBackup

/-- A text, without a slash at its end, leads to a directory. -/
structure FolderAt (tree : FileTree) (text : Text) (place : Path) : Prop where
  resolves : tree.resolve text = some place
  isDir : tree.isDir place = true
  nul_notMem : nul ∉ text
  getLast_ne : text.getLast? ≠ some '/'

theorem components_append_render {text : Text} (hnul : nul ∉ text) {names : Path}
    (hnames : PlainPath names) :
    components (text ++ render names) = components text ++ names.reverse := by
  induction names with
  | nil => simp
  | cons name names ih =>
      have hwhole : nul ∉ text ++ render (name :: names) := by
        rw [List.mem_append, not_or]
        exact ⟨hnul, nul_notMem_render hnames⟩
      have hinit : nul ∉ text ++ render names := by
        rw [List.mem_append, not_or]
        exact ⟨hnul, nul_notMem_render hnames.tail⟩
      have hsplit := ih hnames.tail
      rw [components, cString_eq_self hinit] at hsplit
      have hname : name.splitOn '/' = [name] :=
        List.splitOn_eq_singleton hnames.head.2.2.2.1
      rw [components, cString_eq_self hwhole, render_cons, ← List.append_assoc,
        List.splitOn_append_cons_self, hsplit, hname, List.append_assoc, List.reverse_cons]

theorem foldr_join {text : Text} (htext : text.getLast? ≠ some '/') {names : Path}
    (hnames : PlainPath names) :
    names.foldr (fun name outer => join outer name) text = text ++ render names := by
  induction names with
  | nil => simp
  | cons name names ih =>
      have hlast : (text ++ render names).getLast? ≠ some '/' := by
        cases names with
        | nil => simpa using htext
        | cons last rest =>
            have hne : render (last :: rest) ≠ [] := by
              rw [Ne, render_eq_nil_iff]
              exact List.cons_ne_nil last rest
            rw [List.getLast?_append_of_ne_nil _ hne]
            exact getLast?_render hnames.tail.head
      rw [List.foldr_cons, ih hnames.tail, join, if_neg hlast, render_cons, List.append_assoc]

namespace FileTree

variable (tree : FileTree)

theorem walk_reverse (place : Path) {name : Text} {names : Path}
    (hnames : PlainPath (name :: names)) :
    tree.walk place (name :: names).reverse =
      if tree.isDir (names ++ place) then some (name :: names ++ place) else none := by
  induction names generalizing name with
  | nil =>
      rw [List.reverse_singleton, tree.walk_single hnames.head]
      rfl
  | cons above names ih =>
      rw [List.reverse_cons, walk_append, ih hnames.tail]
      by_cases hdir : tree.isDir (names ++ place) = true
      · rw [if_pos hdir, Option.bind_some, walk_single tree hnames.head]
        rfl
      · have hnone : ¬ tree.isDir (above :: names ++ place) = true := fun habove =>
          hdir (tree.isDir_parent (tree.isSome_of_isDir habove))
        rw [if_neg hdir, if_neg hnone, Option.bind_none]

end FileTree

namespace FolderAt

variable {tree : FileTree} {folder : Text} {place : Path}

/-- A path below the folder leads to what is there. -/
theorem status (h : FolderAt tree folder place) {names : Path} (hnames : PlainPath names)
    (hne : names ≠ []) : tree.status (folder ++ render names) = tree.node (names ++ place) := by
  obtain ⟨name, names, rfl⟩ := List.exists_cons_of_ne_nil hne
  have hresolves := h.resolves
  rw [FileTree.resolve] at hresolves
  have hfolder : cString folder ≠ [] := by
    intro hempty
    simp [hempty] at hresolves
  rw [if_neg hfolder] at hresolves
  have hnul : nul ∉ folder ++ render (name :: names) := by
    rw [List.mem_append, not_or]
    exact ⟨h.nul_notMem, nul_notMem_render hnames⟩
  rw [cString_eq_self h.nul_notMem] at hfolder
  have hne' : cString (folder ++ render (name :: names)) ≠ [] := by
    rw [cString_eq_self hnul]
    exact List.append_ne_nil_of_left_ne_nil hfolder _
  rw [FileTree.status, FileTree.resolve, if_neg hne',
    components_append_render h.nul_notMem hnames, FileTree.walk_append, hresolves,
    Option.bind_some, FileTree.walk_reverse tree place hnames]
  by_cases hdir : tree.isDir (names ++ place) = true
  · rw [if_pos hdir, Option.bind_some]
  · rw [if_neg hdir, Option.bind_none]
    rw [Bool.not_eq_true] at hdir
    exact (tree.node_of_not_isDir hdir).symm

theorem mem_listing_iff (h : FolderAt tree folder place) {path : Text} :
    path ∈ SystemCall.listing folder place tree ↔
      ∃ names, names ≠ [] ∧ PlainPath names ∧ path = folder ++ render names ∧
        (tree.status path).isSome = true := by
  rw [SystemCall.listing, List.mem_map]
  constructor
  · rintro ⟨other, hother, rfl⟩
    obtain ⟨⟨names, rfl⟩, hne, hsome⟩ := (tree.mem_below _ _).mp hother
    have hnames : PlainPath names := PlainPath.left (tree.plain_of_isSome hsome)
    have hnil : names ≠ [] := fun hnil => hne (by rw [hnil]; rfl)
    have htake : (names ++ place).take ((names ++ place).length - place.length) = names := by
      simp
    rw [htake, foldr_join h.getLast_ne hnames]
    refine ⟨names, hnil, hnames, rfl, ?_⟩
    rw [h.status hnames hnil]
    exact hsome
  · rintro ⟨names, hne, hnames, rfl, hsome⟩
    rw [h.status hnames hne] at hsome
    refine ⟨names ++ place, (tree.mem_below _ _).mpr ⟨⟨names, rfl⟩, ?_, hsome⟩, ?_⟩
    · exact fun heq => hne (List.append_left_eq_self.mp heq)
    · have htake : (names ++ place).take ((names ++ place).length - place.length) = names := by
        simp
      rw [htake, foldr_join h.getLast_ne hnames]

/-- No path is listed twice. -/
theorem nodup_listing (h : FolderAt tree folder place) :
    (SystemCall.listing folder place tree).Nodup := by
  have hbelow : (tree.below place).Nodup := (AList.keys_nodup tree.nodes).filter _
  apply hbelow.map_on
  intro first hfirst second hsecond heq
  obtain ⟨⟨names, rfl⟩, -, hsome⟩ := (tree.mem_below _ _).mp hfirst
  obtain ⟨⟨others, rfl⟩, -, hsome'⟩ := (tree.mem_below _ _).mp hsecond
  have hnames : PlainPath names := PlainPath.left (tree.plain_of_isSome hsome)
  have hothers : PlainPath others := PlainPath.left (tree.plain_of_isSome hsome')
  have htake : ∀ names : Path,
      (names ++ place).take ((names ++ place).length - place.length) = names := by
    intro names
    simp
  rw [htake, htake, foldr_join h.getLast_ne hnames, foldr_join h.getLast_ne hothers] at heq
  rw [render_injective hnames hothers (List.append_cancel_left heq)]

end FolderAt

end PdsBackup
