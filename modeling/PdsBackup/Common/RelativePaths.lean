import PdsBackup.Common.DirectoryEntry
import PdsBackup.Common.Acceptance
import PdsBackup.Core.FlatRegex
import PdsBackup.Core.RegexLanguage

/-!
# Relative paths out of absolute ones

A base path is put into an expression as it is.  It is found again at the front of
an absolute path when it can be read literally, and then what follows it is the
relative path, if that is on one line.
-/

namespace PdsBackup

open Regex

/-- The base paths the program uses. -/
inductive BasePath : Text → Prop where
  | folder {given path : Text} (valid : Validator.validatePath given = some path) : BasePath path
  | user {given path username givenMac mac : Text}
      (valid : Validator.validatePath given = some path)
      (username_valid : Validator.validateUsername username = true)
      (mac_valid : Validator.validateMacAddress givenMac = some mac) :
      BasePath (path ++ '/' :: Validator.folderName username mac)

/-- A text without line terminators. -/
def OneLine (text : Text) : Prop := ∀ c ∈ text, c ∉ ['\n', '\r']

instance (text : Text) : Decidable (OneLine text) :=
  List.decidableBAll (fun c => c ∉ ['\n', '\r']) text

/-- The constructor from a base path and an absolute path finds the relative path,
and with it the keys of the entry that is made of the two. -/
def Inverts (platform : Platform) (tree : FileTree) (basePath relativePath : Text) : Prop :=
  ∃ entry, DirectoryEntry.load platform basePath (basePath ++ relativePath) tree = some entry ∧
    entry.relativePath = relativePath ∧
    ∀ size type lastWriteTime hash,
      let made := DirectoryEntry.make basePath relativePath size type lastWriteTime hash
      entry.relativePath = made.relativePath ∧ entry.absolutePath = made.absolutePath

namespace DirectoryEntry

/-! ## What the expression matches -/

theorem notTerminator_contains (c : Char) :
    CharSet.notTerminator.contains c = true ↔ c ∉ ['\n', '\r'] :=
  except_contains ['\n', '\r'] c

/-- The tail is a slash and what follows it on the line. -/
theorem leads_tailExpr {total : Nat} {text : Text} :
    tailExpr.Leads total text [] ↔ ∃ body, text = '/' :: body ∧ OneLine body := by
  rw [tailExpr, leads_then_empty]
  constructor
  · rintro ⟨rest, ⟨c, hc, rfl⟩, hrest⟩
    obtain ⟨read, hread, -, hall⟩ := leads_repetition_chars.mp (leads_then_empty.mp hrest)
    rw [List.append_nil] at hread
    subst hread
    refine ⟨rest, by rw [(single_contains '/' c).mp hc], ?_⟩
    exact fun d hd => (notTerminator_contains d).mp (hall d hd)
  · rintro ⟨body, rfl, hbody⟩
    have hallowed : Allowed 0 none body.length := ⟨Nat.zero_le _, by simp⟩
    apply leads_char.mpr
    refine ⟨by decide, leads_then_empty.mpr (leads_repetition_chars.mpr ?_)⟩
    exact ⟨body, (List.append_nil body).symm, hallowed,
      fun d hd => (notTerminator_contains d).mpr (hbody d hd)⟩

/-- The second group is what the base path leaves of the text. -/
theorem second_of_match {base : Expr} {text found : Text}
    (hfound : (fullMatch (.seq (.group 1 base) tailExpr) text).map
      (fun groups => groupText groups 2) = some found) :
    ∃ read, text = read ++ found ∧ (∀ c ∈ read, base.alphabet c = true) ∧
      ∃ body, found = '/' :: body ∧ OneLine body := by
  simp only [fullMatch, Option.map_map, Option.map_eq_some_iff, Function.comp_apply] at hfound
  obtain ⟨position, hposition, rfl⟩ := hfound
  have hmem := List.mem_of_find?_eq_some hposition
  have hend := List.find?_some hposition
  simp only [decide_eq_true_eq] at hend
  rw [run_seq] at hmem
  obtain ⟨middle, hmiddle, hmem⟩ := List.mem_flatMap.mp hmem
  have htail : tailExpr.Leads text.length middle.rest [] := by
    apply (run_finds text.length tailExpr middle.rest middle.groups []).mp
    refine ⟨position.groups, ?_⟩
    rw [← hend]
    exact hmem
  rw [tailExpr, run_seq, run_group] at hmem
  obtain ⟨next, hnext, hlast⟩ := List.mem_flatMap.mp hmem
  obtain ⟨body, hbody, rfl⟩ := List.mem_map.mp hnext
  rw [run_empty, List.mem_singleton] at hlast
  subst hlast
  have hrest : body.rest = [] := hend
  have hgroup : groupText ((2, middle.rest.take (middle.rest.length - body.rest.length)) ::
      body.groups) 2 = middle.rest := by
    simp [groupText, hrest]
  obtain ⟨closed, hclosed, rfl⟩ := List.mem_map.mp hmiddle
  obtain ⟨read, hread, hall⟩ := run_reads text.length base _ closed hclosed
  refine ⟨read, ?_, hall, ?_⟩
  · rw [hgroup]
    exact hread
  · rw [hgroup]
    exact leads_tailExpr.mp htail

theorem leads_literalExpr {total : Nat} {text rest : Text} (htext : Literal text) :
    (literalExpr text).Leads total (text ++ rest) rest := by
  apply (run_finds total (literalExpr text) (text ++ rest) [] rest).mp
  refine ⟨[], ?_⟩
  rw [run_literalExpr total [] rest htext]
  exact List.mem_singleton_self _

/-- A base path that is read literally is found, if what follows is on one line. -/
theorem relativePathOf_of_literal {basePath body : Text} (hbase : Literal basePath)
    (hbody : OneLine body) :
    relativePathOf basePath (basePath ++ '/' :: body) = some ('/' :: body) := by
  have hsome : (relativePathOf basePath (basePath ++ '/' :: body)).isSome = true := by
    rw [relativePathOf, compile_relativePathPattern hbase]
    simp only [Option.isSome_map]
    apply (isFullMatch_iff _ _).mpr
    exact ⟨'/' :: body, leads_literalExpr hbase, leads_tailExpr.mpr ⟨body, rfl, hbody⟩⟩
  obtain ⟨found, hfound⟩ := Option.isSome_iff_exists.mp hsome
  rw [hfound, relativePathOf_append hbase hfound]

/-- The expression of a base path without groups, if there is one. -/
theorem compile_of_flat {basePath : Text} {expr : Expr} (hbase : Flat basePath)
    (hquery : ∀ inner, basePath ≠ '?' :: inner)
    (hcompile : compile (relativePathPattern basePath) = some expr) :
    ∃ base : Expr, expr = .seq (.group 1 base) tailExpr ∧
      ∀ c, base.alphabet c = true → c ∉ operators := by
  have hlength : (relativePathPattern basePath).length = basePath.length + 8 := by
    simp [relativePathPattern, relativePathTail]
  have hfuel : 3 * (relativePathPattern basePath).length + 3 =
      3 * basePath.length + 13 + 12 + 1 + 1 := by
    rw [hlength]
    omega
  have hquery' : ∀ inner, basePath ++ ')' :: relativePathTail ≠ '?' :: inner := by
    intro inner
    cases basePath with
    | nil => simp
    | cons c rest =>
        rw [List.cons_append, Ne, List.cons.injEq]
        rintro ⟨rfl, -⟩
        exact hquery rest rfl
  have htail := readSequence_tail (3 * basePath.length + 13)
  unfold compile at hcompile
  split at hcompile
  · rename_i whole next halternatives
    cases hcompile
    rw [hfuel, readAlternatives] at halternatives
    obtain ⟨⟨sequence, index, rest⟩, hsequence, halternatives⟩ :=
      Option.bind_eq_some_iff.mp halternatives
    rw [relativePathPattern, List.cons_append, readSequence, if_neg (by decide)] at hsequence
    obtain ⟨⟨term, middle, left⟩, hterm, hsequence⟩ := Option.bind_eq_some_iff.mp hsequence
    rw [readTerm_group _ _ hquery'] at hterm
    obtain ⟨⟨base, after, closing⟩, hbase', hterm⟩ := Option.bind_eq_some_iff.mp hterm
    obtain ⟨hread, hclosing⟩ := readAlternatives_flat hbase hbase'
    have hquantifiers : ∀ fuel atom, readQuantifiers (fuel + 1) atom relativePathTail =
        some (atom, relativePathTail) := fun fuel atom => rfl
    simp only [hclosing, hread.index, readTerm.closing, Option.bind_eq_bind, Option.bind_some,
      hquantifiers, Option.some.injEq, Prod.mk.injEq] at hterm
    obtain ⟨rfl, rfl, rfl⟩ := hterm
    simp only [htail, Option.bind_eq_bind, Option.bind_some, Option.some.injEq,
      Prod.mk.injEq] at hsequence
    obtain ⟨rfl, rfl, rfl⟩ := hsequence
    cases halternatives
    exact ⟨base, rfl, hread.alphabet⟩
  · cases hcompile

/-- A base path without groups and wildcards is found only if it is read literally. -/
theorem literal_of_relativePathOf {basePath relative : Text} (hbase : Flat basePath)
    (hquery : ∀ inner, basePath ≠ '?' :: inner)
    (hfound : relativePathOf basePath (basePath ++ relative) = some relative) :
    Literal basePath ∧ OneLine relative := by
  unfold relativePathOf at hfound
  cases hcompile : compile (relativePathPattern basePath) with
  | none =>
      rw [hcompile] at hfound
      cases hfound
  | some expr =>
      rw [hcompile] at hfound
      obtain ⟨base, rfl, halphabet⟩ := compile_of_flat hbase hquery hcompile
      obtain ⟨read, hread, hall, body, hrelative, hbody⟩ := second_of_match hfound
      have hbase' : basePath = read := List.append_cancel_right hread
      constructor
      · intro c hc
        exact halphabet c (hall c (hbase' ▸ hc))
      · rw [hrelative]
        intro c hc
        cases hc with
        | head => decide
        | tail _ hc => exact hbody c hc

/-- A relative path that is found after a literal base path is on one line. -/
theorem oneLine_of_relativePathOf {basePath relative : Text} (hbase : Literal basePath)
    (hfound : relativePathOf basePath (basePath ++ relative) = some relative) :
    OneLine relative := by
  rw [relativePathOf, compile_relativePathPattern hbase] at hfound
  obtain ⟨-, -, -, body, rfl, hbody⟩ := second_of_match hfound
  intro c hc
  cases hc with
  | head => decide
  | tail _ hc => exact hbody c hc

end DirectoryEntry

/-! ## Base paths -/

/-- A folder that was accepted has no backslash and no question mark. -/
theorem notMem_validatePath {given path : Text}
    (hvalid : Validator.validatePath given = some path) : '\\' ∉ path ∧ '?' ∉ path := by
  rw [Validator.validatePath] at hvalid
  simp only [Validator.replacePattern_backslash] at hvalid
  split at hvalid
  · rename_i hmatch
    cases hvalid
    constructor
    · intro hmem
      cases Validator.mem_replacePattern _ _ _ hmem with
      | inl hslashed => exact Validator.notMem_slashed _ hslashed
      | inr hnone => simp at hnone
    · exact Validator.notMem_of_matchesPattern hmatch (by decide +kernel)
  · cases hvalid

theorem BasePath.query {basePath : Text} (hbase : BasePath basePath) (inner : Text) :
    basePath ≠ '?' :: inner := by
  intro heq
  cases hbase with
  | folder hvalid =>
      have hquery := (notMem_validatePath hvalid).2
      rw [heq] at hquery
      exact hquery List.mem_cons_self
  | @user given path username givenMac mac hvalid husername hmac =>
      have hquery := (notMem_validatePath hvalid).2
      cases path with
      | nil =>
          rw [List.nil_append] at heq
          exact absurd (List.cons.inj heq).1 (by decide)
      | cons c path =>
          rw [List.cons_append] at heq
          rw [(List.cons.inj heq).1] at hquery
          exact hquery List.mem_cons_self

section Inverts

variable {platform : Platform} {tree : FileTree} {basePath relativePath : Text}

theorem inverts_iff (hexists : (tree.status (basePath ++ relativePath)).isSome = true) :
    Inverts platform tree basePath relativePath ↔
      DirectoryEntry.relativePathOf basePath (basePath ++ relativePath) = some relativePath := by
  constructor
  · intro hinverts
    obtain ⟨entry, hload, hrelative, -⟩ := hinverts
    rw [(DirectoryEntry.load_eq_some hload).1, hrelative]
  · intro hfound
    have hloads : ∃ entry,
        DirectoryEntry.load platform basePath (basePath ++ relativePath) tree = some entry :=
      DirectoryEntry.load_isSome (Option.isSome_iff_exists.mpr ⟨_, hfound⟩) hexists
    obtain ⟨entry, hload⟩ := hloads
    obtain ⟨hrelative, habsolute, -⟩ := DirectoryEntry.load_eq_some hload
    have hkey : entry.relativePath = relativePath :=
      Option.some.inj (hrelative.symm.trans hfound)
    exact ⟨entry, hload, hkey, fun size type lastWriteTime hash => ⟨hkey, habsolute⟩⟩

/-- The relative path is found when the base path is read literally and the relative
path is on one line, and otherwise not, unless the operators of the base path stand
beside groups or wildcards. -/
theorem relativePath_inverts (hbase : BasePath basePath)
    (hslash : relativePath.head? = some '/')
    (hexists : (tree.status (basePath ++ relativePath)).isSome = true) :
    (Literal basePath ∧ OneLine relativePath → Inverts platform tree basePath relativePath) ∧
      (Literal basePath ∨ Flat basePath → Inverts platform tree basePath relativePath →
        Literal basePath ∧ OneLine relativePath) := by
  rw [inverts_iff hexists]
  constructor
  · rintro ⟨hliteral, hline⟩
    cases relativePath with
    | nil => cases hslash
    | cons c body =>
        cases hslash
        exact DirectoryEntry.relativePathOf_of_literal hliteral
          fun d hd => hline d (List.mem_cons_of_mem _ hd)
  · intro hplain hfound
    cases hplain with
    | inl hliteral => exact ⟨hliteral, DirectoryEntry.oneLine_of_relativePathOf hliteral hfound⟩
    | inr hflat => exact DirectoryEntry.literal_of_relativePathOf hflat hbase.query hfound

end Inverts

/-! ## Two folders -/

/-- The libraries on empty files. -/
def emptyPlatform : Platform where
  sha256 := fun _ => .zero
  putTime := fun _ => []
  getTime := fun _ => 0

/-- A file in a folder of the root. -/
def oneFile (folder name : Text) : FileTree :=
  ((FileTree.bare 0).putDir [folder] 0).putFile [name, folder] [] 0

theorem relativePath_inverts_home :
    (Literal "/home".toList ∧ OneLine "/f".toList →
        Inverts emptyPlatform (oneFile "home".toList "f".toList) "/home".toList "/f".toList) ∧
      (Literal "/home".toList ∨ Flat "/home".toList →
        Inverts emptyPlatform (oneFile "home".toList "f".toList) "/home".toList "/f".toList →
        Literal "/home".toList ∧ OneLine "/f".toList) :=
  have hvalid : Validator.validatePath "/home".toList = some "/home".toList := by decide +kernel
  relativePath_inverts (.folder hvalid) (by decide) (by decide)

/-- The folder of the user `a+b` of a server, with one file. -/
def plusFile : FileTree :=
  (((FileTree.bare 0).putDir ["srv".toList] 0).putDir ["a+b_0-0-0-0-0-0".toList, "srv".toList]
    0).putFile ["f".toList, "a+b_0-0-0-0-0-0".toList, "srv".toList] [] 0

/-- A plus in a username repeats what is before it, and no wildcard matches a line feed. -/
theorem not_relativePath_inverts :
    (BasePath "/srv/a+b_0-0-0-0-0-0".toList ∧
      (plusFile.status "/srv/a+b_0-0-0-0-0-0/f".toList).isSome = true ∧
      ¬ Inverts emptyPlatform plusFile "/srv/a+b_0-0-0-0-0-0".toList "/f".toList) ∧
    BasePath "/home".toList ∧
      ((oneFile "home".toList "a\nb".toList).status "/home/a\nb".toList).isSome = true ∧
      ¬ Inverts emptyPlatform (oneFile "home".toList "a\nb".toList) "/home".toList
        "/a\nb".toList := by
  have hsrv : Validator.validatePath "/srv".toList = some "/srv".toList := by decide +kernel
  have hhome : Validator.validatePath "/home".toList = some "/home".toList := by decide +kernel
  have husername : Validator.validateUsername "a+b".toList = true := by decide +kernel
  have hmac : Validator.validateMacAddress ":::::".toList = some "0:0:0:0:0:0".toList := by
    decide +kernel
  have hbase : "/srv".toList ++ '/' :: Validator.folderName "a+b".toList "0:0:0:0:0:0".toList =
      "/srv/a+b_0-0-0-0-0-0".toList := by decide +kernel
  have huser : BasePath "/srv/a+b_0-0-0-0-0-0".toList := by
    rw [← hbase]
    exact .user hsrv husername hmac
  refine ⟨⟨huser, by decide, ?_⟩, .folder hhome, by decide, ?_⟩
  · intro hinverts
    have hfound := (inverts_iff (by decide)).mp hinverts
    revert hfound
    decide +kernel
  · intro hinverts
    have hfound := (inverts_iff (by decide)).mp hinverts
    revert hfound
    decide +kernel

end PdsBackup
