import PdsBackup.Core.FileTree
import Mathlib.Data.List.TakeWhile

/-!
# Paths as texts

POSIX takes a path apart at its slashes, up to the first NUL character.  A path
is *written* as a slash before each of its names; a name that is neither empty
nor a dot nor a dot-dot, and has no slash and no NUL in it, can be read back.
-/

namespace PdsBackup

/-- What a C string holds of a text. -/
def cString (text : Text) : Text := text.takeWhile (· ≠ nul)

theorem cString_eq_self {text : Text} (htext : nul ∉ text) : cString text = text := by
  rw [cString, List.takeWhile_eq_self_iff]
  intro c hc
  simp only [ne_eq, decide_not, Bool.not_eq_eq_eq_not, Bool.not_true, decide_eq_false_iff_not]
  rintro rfl
  exact htext hc

theorem cString_ne_of_slash {text : Text} (hslash : text.head? = some '/') :
    cString text ≠ [] := by
  obtain ⟨rest, rfl⟩ := List.head?_eq_some_iff.mp hslash
  simp [cString, show '/' ≠ nul by decide]

theorem cString_append_of_mem {text : Text} (hnul : nul ∈ text) (rest : Text) :
    cString (text ++ rest) = cString text := by
  rw [cString, List.takeWhile_append, if_neg]
  · rfl
  · intro hlength
    have hsame := (List.takeWhile_prefix (fun c => decide (c ≠ nul))).eq_of_length hlength
    have hfree := List.takeWhile_eq_self_iff.mp hsame nul hnul
    simp at hfree

/-- The pieces between the slashes. -/
def components (text : Text) : List Text := (cString text).splitOn '/'

theorem mem_of_mem_splitOn {separator : Char} {text : Text} :
    ∀ piece ∈ text.splitOn separator, ∀ c ∈ piece, c ∈ text ∧ c ≠ separator := by
  induction text with
  | nil => simp
  | cons first text ih =>
      intro piece hpiece c hc
      rw [List.splitOn_cons_eq_if_modifyHead] at hpiece
      by_cases hseparator : (first == separator) = true
      · rw [if_pos hseparator, List.mem_cons] at hpiece
        rcases hpiece with rfl | hpiece
        · cases hc
        · exact ⟨List.mem_cons_of_mem first (ih piece hpiece c hc).1, (ih piece hpiece c hc).2⟩
      · obtain ⟨head, others, hpieces⟩ :=
          List.exists_cons_of_ne_nil (List.splitOn_ne_nil separator text)
        rw [if_neg hseparator, hpieces, List.modifyHead_cons, List.mem_cons] at hpiece
        rw [hpieces] at ih
        rcases hpiece with rfl | hpiece
        · cases hc with
          | head => exact ⟨List.mem_cons_self, by simpa using hseparator⟩
          | tail _ hc =>
              have hmem := ih head List.mem_cons_self c hc
              exact ⟨List.mem_cons_of_mem first hmem.1, hmem.2⟩
        · have hmem := ih piece (List.mem_cons_of_mem head hpiece) c hc
          exact ⟨List.mem_cons_of_mem first hmem.1, hmem.2⟩

theorem plain_of_mem_components (text : Text) :
    ∀ name ∈ components text, '/' ∉ name ∧ nul ∉ name := by
  intro name hname
  constructor
  · intro hslash
    exact (mem_of_mem_splitOn name hname '/' hslash).2 rfl
  · intro hnul
    have hmem := List.mem_takeWhile_imp (mem_of_mem_splitOn name hname nul hnul).1
    simp at hmem

/-- All names of a path can be written. -/
def PlainPath (path : Path) : Prop := ∀ name ∈ path, PlainName name

instance (path : Path) : Decidable (PlainPath path) :=
  inferInstanceAs (Decidable (∀ name ∈ path, PlainName name))

/-- The text of a path: each name after a slash, outermost first. -/
def render : Path → Text
  | [] => []
  | name :: parent => render parent ++ '/' :: name

@[simp] theorem render_nil : render [] = [] := rfl

theorem render_cons (name : Text) (parent : Path) :
    render (name :: parent) = render parent ++ '/' :: name := rfl

theorem render_append (names parent : Path) :
    render (names ++ parent) = render parent ++ render names := by
  induction names with
  | nil => simp
  | cons name names ih => simp [render_cons, ih, List.append_assoc]

theorem render_eq_nil_iff (path : Path) : render path = [] ↔ path = [] := by
  cases path with
  | nil => simp
  | cons name parent => simp [render_cons]

theorem PlainPath.tail {name : Text} {parent : Path} (hpath : PlainPath (name :: parent)) :
    PlainPath parent :=
  fun other hother => hpath other (List.mem_cons_of_mem name hother)

theorem PlainPath.head {name : Text} {parent : Path} (hpath : PlainPath (name :: parent)) :
    PlainName name :=
  hpath name List.mem_cons_self

theorem PlainPath.append {names parent : Path} (hnames : PlainPath names)
    (hparent : PlainPath parent) : PlainPath (names ++ parent) := by
  intro name hname
  rcases List.mem_append.mp hname with hname | hname
  · exact hnames name hname
  · exact hparent name hname

theorem PlainPath.left {names parent : Path} (hpath : PlainPath (names ++ parent)) :
    PlainPath names :=
  fun name hname => hpath name (List.mem_append_left parent hname)

theorem nul_notMem_render {path : Path} (hpath : PlainPath path) : nul ∉ render path := by
  induction path with
  | nil => simp
  | cons name parent ih =>
      have hslash : nul ≠ '/' := by decide
      simp [render_cons, ih hpath.tail, hpath.head.2.2.2.2, hslash]

/-- A written path is taken apart into its names. -/
theorem components_render {path : Path} (hpath : PlainPath path) :
    components (render path) = [] :: path.reverse := by
  rw [components, cString_eq_self (nul_notMem_render hpath)]
  induction path with
  | nil => simp
  | cons name parent ih =>
      have hname : name.splitOn '/' = [name] :=
        List.splitOn_eq_singleton hpath.head.2.2.2.1
      rw [render_cons, List.splitOn_append_cons_self, ih hpath.tail, hname]
      simp

theorem render_injective {path other : Path} (hpath : PlainPath path) (hother : PlainPath other)
    (heq : render path = render other) : path = other := by
  have hcomponents := congrArg components heq
  rw [components_render hpath, components_render hother] at hcomponents
  exact List.reverse_injective (List.cons.inj hcomponents).2

/-! ## The length of a text -/

/-- The length of a text in bytes. -/
def byteLength : Text → Nat
  | [] => 0
  | c :: text => c.utf8Size + byteLength text

/-- `NAME_MAX` -/
def nameMax : Nat := 255

/-- `PATH_MAX`, which counts the NUL at the end of a text. -/
def pathMax : Nat := 4096

/-- A text that is not too long for the calls, and has no name that is. -/
def PathFits (text : Text) : Prop :=
  byteLength (cString text) < pathMax ∧ ∀ name ∈ components text, byteLength name ≤ nameMax

instance (text : Text) : Decidable (PathFits text) :=
  inferInstanceAs (Decidable (_ ∧ ∀ name ∈ components text, byteLength name ≤ nameMax))

theorem byteLength_append (text other : Text) :
    byteLength (text ++ other) = byteLength text + byteLength other := by
  induction text with
  | nil => simp [byteLength]
  | cons c text ih => simp [byteLength, ih, Nat.add_assoc]

/-! ## Canonical texts -/

/-- A text that begins with a slash and has no empty, dot or dot-dot component
and no NUL, as a path. -/
def pathOf (text : Text) : Option Path :=
  match text with
  | '/' :: rest =>
      if PlainPath (rest.splitOn '/').reverse then some (rest.splitOn '/').reverse else none
  | _ => none

/-- A text that writes a path other than the root. -/
def Canonical (text : Text) : Prop := (pathOf text).isSome = true

instance (text : Text) : Decidable (Canonical text) :=
  inferInstanceAs (Decidable (_ = true))

theorem render_eq_flatten (path : Path) :
    render path = (path.reverse.map fun name => '/' :: name).flatten := by
  induction path with
  | nil => rfl
  | cons name parent ih => simp [render_cons, ih]

theorem cons_intercalate_slash (name : Text) (names : List Text) :
    '/' :: ['/'].intercalate (name :: names) =
      ((name :: names).map fun other => '/' :: other).flatten := by
  induction names generalizing name with
  | nil => simp
  | cons next names ih =>
      rw [List.intercalate_cons_cons, List.map_cons, List.flatten_cons, ← ih next]
      simp

theorem pathOf_eq_some_iff (text : Text) (path : Path) :
    pathOf text = some path ↔ path ≠ [] ∧ PlainPath path ∧ text = render path := by
  constructor
  · intro hpath
    unfold pathOf at hpath
    split at hpath
    · rename_i rest
      split at hpath
      · rename_i hplain
        simp only [Option.some.injEq] at hpath
        subst hpath
        have hcomponents := List.splitOn_ne_nil '/' rest
        refine ⟨by simp, hplain, ?_⟩
        rw [render_eq_flatten, List.reverse_reverse]
        obtain ⟨name, names, hsplit⟩ := List.exists_cons_of_ne_nil hcomponents
        rw [hsplit, ← cons_intercalate_slash, ← hsplit, List.intercalate_splitOn]
      · simp at hpath
    · simp at hpath
  · rintro ⟨hne, hplain, rfl⟩
    obtain ⟨name, names, hsplit⟩ := List.exists_cons_of_ne_nil (List.reverse_ne_nil_iff.mpr hne)
    have hrender : render path = '/' :: ['/'].intercalate path.reverse := by
      rw [render_eq_flatten, hsplit, cons_intercalate_slash]
    have hsplitOn : (['/'].intercalate path.reverse).splitOn '/' = path.reverse := by
      refine List.splitOn_intercalate '/' (fun other hother => ?_) (by simpa using hne)
      exact (hplain other (List.mem_reverse.mp hother)).2.2.2.1
    rw [hrender, pathOf]
    simp only [hsplitOn, List.reverse_reverse, if_pos hplain]

theorem canonical_iff (text : Text) :
    Canonical text ↔ ∃ path, path ≠ [] ∧ PlainPath path ∧ text = render path := by
  rw [Canonical, Option.isSome_iff_exists]
  exact exists_congr fun path => pathOf_eq_some_iff text path

theorem canonical_render {path : Path} (hne : path ≠ []) (hplain : PlainPath path) :
    Canonical (render path) :=
  (canonical_iff _).mpr ⟨path, hne, hplain, rfl⟩

theorem nul_notMem_of_canonical {text : Text} (htext : Canonical text) : nul ∉ text := by
  obtain ⟨path, -, hplain, rfl⟩ := (canonical_iff text).mp htext
  exact nul_notMem_render hplain

/-! ## The parent of a path, taken from its text -/

/-- `std::filesystem::path::parent_path`: the last name and the slashes before
it are cut off, the root's slash is kept. -/
def parentPath (text : Text) : Text :=
  let trimmed := ((text.reverse.dropWhile (· ≠ '/')).dropWhile (· = '/')).reverse
  if trimmed = [] ∧ text.head? = some '/' then ['/'] else trimmed

theorem head?_render (name : Text) (parent : Path) :
    (render (name :: parent)).head? = some '/' := by
  induction parent generalizing name with
  | nil => rfl
  | cons last parent ih =>
      have hne : render (last :: parent) ≠ [] := by
        rw [Ne, render_eq_nil_iff]
        exact List.cons_ne_nil last parent
      rw [render_cons, List.head?_append_of_ne_nil _ hne, ih]

theorem getLast?_render {name : Text} {parent : Path} (hname : PlainName name) :
    (render (name :: parent)).getLast? ≠ some '/' := by
  rw [render_cons]
  obtain ⟨c, rest, rfl⟩ := List.exists_cons_of_ne_nil hname.1
  rw [List.getLast?_append_of_ne_nil _ (by simp), List.getLast?_cons_cons]
  intro hlast
  exact hname.2.2.2.1 (List.mem_of_getLast? hlast)

theorem parentPath_render {name : Text} {parent : Path} (hpath : PlainPath (name :: parent))
    (hparent : parent ≠ []) : parentPath (render (name :: parent)) = render parent := by
  have hname : ∀ c ∈ name.reverse, decide (c ≠ '/') = true := by
    intro c hc
    have hslash := hpath.head.2.2.2.1
    simp only [decide_eq_true_eq]
    rintro rfl
    exact hslash (List.mem_reverse.mp hc)
  have htrim : ((render (name :: parent)).reverse.dropWhile (· ≠ '/')).dropWhile (· = '/') =
      (render parent).reverse := by
    rw [render_cons, List.reverse_append, List.reverse_cons, List.append_assoc,
      List.dropWhile_append_of_pos hname]
    simp only [List.cons_append, List.nil_append, ne_eq, not_true_eq_false, decide_false,
      Bool.false_eq_true, not_false_eq_true, List.dropWhile_cons_of_neg, decide_true,
      List.dropWhile_cons_of_pos]
    obtain ⟨last, rest, rfl⟩ := List.exists_cons_of_ne_nil hparent
    have hlast : (render (last :: rest)).getLast? ≠ some '/' := getLast?_render hpath.tail.head
    rw [List.dropWhile_eq_self_iff]
    intro hpos
    rw [← List.head?_reverse, List.head?_eq_getElem?] at hlast
    simpa [List.getElem?_eq_getElem hpos] using hlast
  have hne : render parent ≠ [] := by
    rw [Ne, render_eq_nil_iff]
    exact hparent
  simp only [parentPath, htrim, List.reverse_reverse]
  rw [if_neg fun h => hne h.1]

/-- What is cut off begins with a slash. -/
theorem parentPath_cases (text : Text) :
    parentPath text = [] ∨ parentPath text = ['/'] ∨
      ∃ rest, text = parentPath text ++ '/' :: rest := by
  generalize hslashes : text.reverse.dropWhile (· ≠ '/') = slashes
  by_cases htrimmed : slashes.dropWhile (· = '/') = []
  · unfold parentPath
    rw [hslashes, htrimmed]
    by_cases hroot : text.head? = some '/'
    · exact .inr (.inl (if_pos ⟨rfl, hroot⟩))
    · exact .inl (if_neg fun h => hroot h.2)
  · have hne : (slashes.dropWhile (· = '/')).reverse ≠ [] := by simpa using htrimmed
    have hparent : parentPath text = (slashes.dropWhile (· = '/')).reverse := by
      unfold parentPath
      rw [hslashes]
      exact if_neg fun h => hne h.1
    have htext : text = parentPath text ++ ((slashes.takeWhile (· = '/')).reverse ++
        (text.reverse.takeWhile (· ≠ '/')).reverse) := by
      rw [hparent, ← List.append_assoc, ← List.reverse_append, List.takeWhile_append_dropWhile,
        ← hslashes, ← List.reverse_append, List.takeWhile_append_dropWhile, List.reverse_reverse]
    have hcut : (slashes.takeWhile (· = '/')).reverse ≠ [] := by
      intro hnone
      rw [List.reverse_eq_nil_iff] at hnone
      cases slashes with
      | nil => simp at htrimmed
      | cons c rest =>
          have hc : c ≠ '/' := by simpa using hnone
          have hhead := List.head?_dropWhile_not (fun c => decide (c ≠ '/')) text.reverse
          rw [hslashes] at hhead
          simp [hc] at hhead
    obtain ⟨c, rest, hcons⟩ := List.exists_cons_of_ne_nil hcut
    have hmem : c ∈ slashes.takeWhile (· = '/') := by
      rw [← List.mem_reverse, hcons]
      exact List.mem_cons_self
    obtain rfl : c = '/' := by simpa using List.mem_takeWhile_imp hmem
    rw [hcons] at htext
    exact .inr (.inr ⟨_, htext⟩)

theorem head?_parentPath {text : Text} (hslash : text.head? = some '/') :
    (parentPath text).head? = some '/' := by
  have hne : parentPath text ≠ [] := by
    unfold parentPath
    dsimp only
    split
    · simp
    · rename_i hroot
      exact fun hnone => hroot ⟨hnone, hslash⟩
  rcases parentPath_cases text with hnone | hroot | ⟨rest, htext⟩
  · exact absurd hnone hne
  · rw [hroot]
    rfl
  · rw [htext, List.head?_append_of_ne_nil _ hne] at hslash
    exact hslash

theorem PathFits.of_append {text rest : Text} (hfits : PathFits (text ++ '/' :: rest)) :
    PathFits text := by
  by_cases hnul : nul ∈ text
  · rwa [PathFits, components, cString_append_of_mem hnul] at hfits
  · have hcut : cString (text ++ '/' :: rest) = text ++ '/' :: cString rest := by
      rw [cString, List.takeWhile_append_of_pos, List.takeWhile_cons_of_pos (by decide)]
      · rfl
      · intro c hc
        simp only [decide_eq_true_eq]
        rintro rfl
        exact hnul hc
    obtain ⟨hlength, hnames⟩ := hfits
    rw [components, hcut, List.splitOn_append_cons_self] at hnames
    rw [hcut, byteLength_append] at hlength
    rw [PathFits, components, cString_eq_self hnul]
    exact ⟨by omega, fun name hname => hnames name (List.mem_append_left _ hname)⟩

/-- The parent of a path that fits does too. -/
theorem PathFits.parentPath {text : Text} (hfits : PathFits text) :
    PathFits (parentPath text) := by
  rcases parentPath_cases text with hnone | hroot | ⟨rest, htext⟩
  · rw [hnone]
    decide
  · rw [hroot]
    decide
  · rw [htext] at hfits
    exact hfits.of_append

/-- A directory entry's path: the name is put after a slash, unless one is there. -/
def join (text name : Text) : Text :=
  if text.getLast? = some '/' then text ++ name else text ++ '/' :: name

theorem join_render {name : Text} {parent : Path} (hparent : PlainPath parent) :
    join (render parent) name = render (name :: parent) := by
  cases parent with
  | nil => rfl
  | cons last rest => rw [join, if_neg (getLast?_render hparent.head), render_cons name]

end PdsBackup
