import PdsBackup.Core.PathText
import PdsBackup.Core.Procedure

/-!
# Path resolution

How POSIX follows the text of a path through a tree: every name but the last
has to be a directory's.  Relative texts start at the root.
-/

namespace PdsBackup

/-- Follows the components of a path from a directory. -/
def FileTree.walk (tree : FileTree) : Path → List Text → Option Path
  | current, [] => some current
  | current, name :: rest =>
      if tree.isDir current then
        if name = [] ∨ name = dot then tree.walk current rest
        else if name = dotDot then tree.walk current.tail rest
        else tree.walk (name :: current) rest
      else none

/-- Where a path leads; the last name need not exist. -/
def FileTree.resolve (tree : FileTree) (text : Text) : Option Path :=
  if cString text = [] then none else tree.walk [] (components text)

/-- `stat`: the object a path leads to. -/
def FileTree.status (tree : FileTree) (text : Text) : Option Node :=
  (tree.resolve text).bind tree.node

namespace FileTree

variable (tree : FileTree)

theorem walk_append (current : Path) (names rest : List Text) :
    tree.walk current (names ++ rest) =
      (tree.walk current names).bind fun middle => tree.walk middle rest := by
  induction names generalizing current with
  | nil => rfl
  | cons name names ih =>
      simp only [List.cons_append, walk]
      by_cases hdir : tree.isDir current
      · by_cases hskip : name = [] ∨ name = dot
        · simp only [hdir, hskip, if_true, ih]
        · rw [if_pos hdir, if_pos hdir, if_neg hskip, if_neg hskip]
          by_cases hup : name = dotDot
          · rw [if_pos hup, if_pos hup, ih]
          · rw [if_neg hup, if_neg hup, ih]
      · simp [hdir]

/-- Where a path leads depends on the directories only. -/
theorem walk_congr {tree other : FileTree} (hdirs : ∀ path, tree.isDir path = other.isDir path)
    (current : Path) (names : List Text) : tree.walk current names = other.walk current names := by
  induction names generalizing current with
  | nil => rfl
  | cons name names ih => simp only [walk, hdirs, ih]

theorem resolve_congr {tree other : FileTree} (hdirs : ∀ path, tree.isDir path = other.isDir path)
    (text : Text) : tree.resolve text = other.resolve text := by
  rw [resolve, resolve, walk_congr hdirs]

theorem walk_single {name : Text} (hname : PlainName name) (current : Path) :
    tree.walk current [name] = if tree.isDir current then some (name :: current) else none := by
  simp [walk, hname.1, hname.2.1, hname.2.2.1]

theorem walk_plain {name : Text} {parent : Path} (hpath : PlainPath (name :: parent)) :
    tree.walk [] ([] :: (name :: parent).reverse) =
      if tree.isDir parent then some (name :: parent) else none := by
  induction parent generalizing name with
  | nil => simp [walk, hpath.head.1, hpath.head.2.1, hpath.head.2.2.1, tree.isDir_root]
  | cons above rest ih =>
      rw [List.reverse_cons, ← List.cons_append, walk_append, ih hpath.tail]
      by_cases hrest : tree.isDir rest
      · rw [if_pos hrest, Option.bind_some, walk_single tree hpath.head]
      · have hnone : tree.isDir (above :: rest) ≠ true := fun hdir =>
          hrest (tree.isDir_parent (tree.isSome_of_isDir hdir))
        rw [if_neg hrest, if_neg hnone, Option.bind_none]

theorem resolve_render {name : Text} {parent : Path} (hpath : PlainPath (name :: parent)) :
    tree.resolve (render (name :: parent)) =
      if tree.isDir parent then some (name :: parent) else none := by
  have hne : cString (render (name :: parent)) ≠ [] := by
    rw [cString_eq_self (nul_notMem_render hpath), Ne, render_eq_nil_iff]
    simp
  rw [resolve, if_neg hne, components_render hpath, walk_plain tree hpath]

theorem resolve_render_of_isDir {name : Text} {parent : Path}
    (hpath : PlainPath (name :: parent)) (hparent : tree.isDir parent = true) :
    tree.resolve (render (name :: parent)) = some (name :: parent) := by
  rw [resolve_render tree hpath, if_pos hparent]

theorem eq_of_resolve_render {tree : FileTree} {path place : Path} (hpath : PlainPath path)
    (hne : path ≠ []) (hresolve : tree.resolve (render path) = some place) : place = path := by
  obtain ⟨name, parent, rfl⟩ := List.exists_cons_of_ne_nil hne
  rw [tree.resolve_render hpath] at hresolve
  by_cases hparent : tree.isDir parent = true
  · rw [if_pos hparent] at hresolve
    exact (Option.some.inj hresolve).symm
  · rw [if_neg hparent] at hresolve
    exact absurd hresolve (by simp)

@[simp] theorem node_of_not_isDir {name : Text} {parent : Path}
    (hparent : tree.isDir parent = false) : tree.node (name :: parent) = none := by
  by_contra hnode
  have hsome := tree.isDir_parent (Option.isSome_iff_ne_none.mpr hnode)
  simp [hparent] at hsome

/-- A written path leads to its object. -/
theorem status_render {path : Path} (hpath : PlainPath path) (hne : path ≠ []) :
    tree.status (render path) = tree.node path := by
  obtain ⟨name, parent, rfl⟩ := List.exists_cons_of_ne_nil hne
  rw [status, resolve_render tree hpath]
  by_cases hparent : tree.isDir parent
  · rw [if_pos hparent, Option.bind_some]
  · rw [if_neg hparent, Option.bind_none, node_of_not_isDir tree (by simpa using hparent)]

theorem resolve_retime (path : Path) (mtime : Int) (text : Text) :
    (tree.retime path mtime).resolve text = tree.resolve text :=
  resolve_congr (fun other => tree.isDir_retime path other mtime) text

/-- Setting a time does not change where a path leads, nor whether it does. -/
theorem isSome_status_retime (path : Path) (mtime : Int) (text : Text) :
    ((tree.retime path mtime).status text).isSome = (tree.status text).isSome := by
  rw [status, status, resolve_retime]
  cases tree.resolve text with
  | none => rfl
  | some place => exact tree.isSome_node_retime path place mtime

/-- A place that a name can be put in: a directory has it. -/
def Place (tree : FileTree) : Path → Prop
  | [] => True
  | name :: parent => PlainName name ∧ tree.isDir parent = true

theorem place_of_isDir {path : Path} (hdir : tree.isDir path = true) : tree.Place path := by
  cases path with
  | nil => trivial
  | cons name parent =>
      have hsome := tree.isSome_of_isDir hdir
      exact ⟨tree.plain_name name parent hsome, tree.isDir_parent hsome⟩

theorem place_walk {current path : Path} {names : List Text}
    (hnames : ∀ name ∈ names, '/' ∉ name ∧ nul ∉ name) (hplace : tree.Place current)
    (hwalk : tree.walk current names = some path) : tree.Place path := by
  induction names generalizing current with
  | nil => exact Option.some.inj hwalk ▸ hplace
  | cons name names ih =>
      have hname := hnames name List.mem_cons_self
      have hnames' := fun other hother => hnames other (List.mem_cons_of_mem name hother)
      rw [walk] at hwalk
      cases hdir : tree.isDir current with
      | false => simp [hdir] at hwalk
      | true =>
          rw [hdir, if_pos rfl] at hwalk
          by_cases hskip : name = [] ∨ name = dot
          · rw [if_pos hskip] at hwalk
            exact ih hnames' hplace hwalk
          · rw [if_neg hskip] at hwalk
            by_cases hup : name = dotDot
            · rw [if_pos hup] at hwalk
              have htail := tree.isDir_of_suffix (List.tail_suffix current) hdir
              exact ih hnames' (tree.place_of_isDir htail) hwalk
            · rw [if_neg hup] at hwalk
              rw [not_or] at hskip
              have hplace' : tree.Place (name :: current) :=
                ⟨⟨hskip.1, hskip.2, hup, hname⟩, hdir⟩
              exact ih hnames' hplace' hwalk

/-- Where a text leads there is room for an object. -/
theorem place_of_resolve {text : Text} {path : Path} (hresolve : tree.resolve text = some path) :
    tree.Place path := by
  rw [resolve] at hresolve
  by_cases hempty : cString text = []
  · simp [hempty] at hresolve
  · rw [if_neg hempty] at hresolve
    have hroot : tree.Place [] := trivial
    exact tree.place_walk (plain_of_mem_components text) hroot hresolve

theorem resolve_of_status {text : Text} {node : Node} (hstatus : tree.status text = some node) :
    ∃ path, tree.resolve text = some path ∧ tree.node path = some node :=
  Option.bind_eq_some_iff.mp hstatus

end FileTree

end PdsBackup
