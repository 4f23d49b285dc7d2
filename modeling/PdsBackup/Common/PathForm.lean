import PdsBackup.Common.Acceptance
import Mathlib.Data.List.DropRight

/-!
# The normal form of a path

`validatePath` is to give every path one spelling: slashes for backslashes and no
slash at the end.  It removes one slash at the end, so that what has been spelled
with two or more keeps the others.
-/

namespace PdsBackup

namespace Validator

open Regex

/-- The path that a text spells, whatever its separators and however many of them
are at its end. -/
def normalised (path : Text) : Text := (slashed path).rdropWhile (· = '/')

/-- How many separators are at the end. -/
def trailing (path : Text) : Nat := ((slashed path).rtakeWhile (· = '/')).length

theorem slashed_eq (path : Text) :
    slashed path = normalised path ++ List.replicate (trailing path) '/' := by
  have hslashes : (slashed path).rtakeWhile (· = '/') = List.replicate (trailing path) '/' := by
    apply List.eq_replicate_of_mem
    intro c hc
    have hslash := List.mem_rtakeWhile_imp hc
    simpa using hslash
  rw [← hslashes]
  exact List.rdropWhile_append_rtakeWhile.symm

theorem getLast?_normalised (path : Text) : (normalised path).getLast? ≠ some '/' := by
  intro hlast
  have hne : normalised path ≠ [] := by
    intro hnil
    rw [hnil] at hlast
    cases hlast
  have hnot := List.rdropWhile_last_not (· = '/') (slashed path) hne
  rw [List.getLast?_eq_some_getLast hne, Option.some.injEq] at hlast
  exact hnot (decide_eq_true hlast)

theorem notMem_normalised (path : Text) : '\\' ∉ normalised path := fun hmem =>
  notMem_slashed path ((List.rdropWhile_prefix _ _).subset hmem)

/-! ## What the pattern matches -/

/-- A path of a drive, or one that begins with a slash. -/
theorem matchesPattern_path_iff (text : Text) :
    matchesPattern pathPattern text = true ↔
      ∃ rest, (∀ c ∈ rest, c ∉ illegalCharacters) ∧
        (text = '/' :: rest ∨ ∃ drive, wordSet.contains drive = true ∧ text = drive :: ':' :: rest) := by
  have hallowed : ∀ rest : Text, Allowed 0 none rest.length := fun rest => ⟨Nat.zero_le _, by simp⟩
  rw [matchesPattern_iff compile_pathPattern, pathExpr, leads_start, and_iff_right rfl]
  constructor
  · rintro ⟨middle, hfirst, htail⟩
    rw [leads_lastField] at htail
    refine ⟨middle, fun c hc => (legalSet_contains c).mp (htail.2 c hc), ?_⟩
    rw [leads_alt, leads_then_empty, leads_then_empty, leads_then_empty] at hfirst
    cases hfirst with
    | inl hdrive =>
        obtain ⟨colon, ⟨drive, hdrive, rfl⟩, hcolon⟩ := hdrive
        rw [leads_then_empty] at hcolon
        obtain ⟨c, hc, rfl⟩ := hcolon
        rw [(single_contains ':' c).mp hc]
        exact .inr ⟨drive, hdrive, rfl⟩
    | inr hslash =>
        obtain ⟨c, hc, rfl⟩ := hslash
        rw [(single_contains '/' c).mp hc]
        exact .inl rfl
  · rintro ⟨rest, hlegal, hfirst⟩
    refine ⟨rest, ?_, leads_lastField.mpr
      ⟨hallowed rest, fun c hc => (legalSet_contains c).mpr (hlegal c hc)⟩⟩
    rw [leads_alt, leads_then_empty, leads_then_empty, leads_then_empty]
    cases hfirst with
    | inl hslash => exact .inr ⟨'/', (single_contains '/' '/').mpr rfl, hslash⟩
    | inr hdrive =>
        obtain ⟨drive, hdrive, rfl⟩ := hdrive
        refine .inl ⟨':' :: rest, ⟨drive, hdrive, rfl⟩, ?_⟩
        rw [leads_then_empty]
        exact ⟨':', (single_contains ':' ':').mpr rfl, rfl⟩

/-- Slashes at the end are legal, and make a path of nothing else. -/
theorem matchesPattern_append_slashes (core : Text) (count : Nat) :
    matchesPattern pathPattern (core ++ List.replicate (count + 1) '/') = true ↔
      core = [] ∨ matchesPattern pathPattern core = true := by
  have hslash : ∀ count, ∀ c ∈ List.replicate count '/', c ∉ illegalCharacters := by
    intro count c hc
    rw [List.eq_of_mem_replicate hc]
    decide
  rw [matchesPattern_path_iff, matchesPattern_path_iff]
  constructor
  · rintro ⟨rest, hlegal, hfirst⟩
    cases core with
    | nil => exact .inl rfl
    | cons c core =>
        refine .inr ?_
        cases hfirst with
        | inl hpath =>
            obtain ⟨hc, hrest⟩ := List.cons.inj hpath
            refine ⟨core, fun d hd => hlegal d ?_, .inl (by rw [hc])⟩
            rw [← hrest]
            exact List.mem_append_left _ hd
        | inr hdrive =>
            obtain ⟨drive, hdrive, hpath⟩ := hdrive
            obtain ⟨hc, hrest⟩ := List.cons.inj hpath
            cases core with
            | nil =>
                rw [List.replicate_succ] at hrest
                exact absurd (List.cons.inj hrest).1 (by decide)
            | cons d core =>
                obtain ⟨hd, hrest⟩ := List.cons.inj hrest
                refine ⟨core, fun e he => hlegal e ?_, .inr ⟨drive, hdrive, by rw [hc, hd]⟩⟩
                rw [← hrest]
                exact List.mem_append_left _ he
  · intro hcore
    cases hcore with
    | inl hnil =>
        rw [hnil]
        exact ⟨List.replicate count '/', hslash count, .inl rfl⟩
    | inr hmatch =>
        obtain ⟨rest, hlegal, hfirst⟩ := hmatch
        refine ⟨rest ++ List.replicate (count + 1) '/', ?_, ?_⟩
        · intro c hc
          cases List.mem_append.mp hc with
          | inl hrest => exact hlegal c hrest
          | inr hend => exact hslash _ c hend
        · cases hfirst with
          | inl hpath => exact .inl (by rw [hpath]; rfl)
          | inr hdrive =>
              obtain ⟨drive, hdrive, hpath⟩ := hdrive
              exact .inr ⟨drive, hdrive, by rw [hpath]; rfl⟩

/-- More slashes at the end than one make no difference to the pattern. -/
theorem matchesPattern_slashes (core : Text) (count : Nat) :
    matchesPattern pathPattern (core ++ List.replicate (count + 1) '/') =
      matchesPattern pathPattern (core ++ ['/']) := by
  rw [Bool.eq_iff_iff, matchesPattern_append_slashes core count]
  exact (matchesPattern_append_slashes core 0).symm

/-! ## What is rewritten -/

theorem replacePattern_slashes {core : Text} (hlast : core.getLast? ≠ some '/') (count : Nat) :
    replacePattern "\\/$".toList "".toList (core ++ List.replicate count '/') =
      core ++ List.replicate (count - 1) '/' := by
  cases count with
  | zero =>
      rw [List.replicate_zero, List.append_nil]
      cases List.eq_nil_or_concat core with
      | inl hnil =>
          rw [hnil, replacePattern_eq compile_lastSlash]
          rfl
      | inr hcons =>
          obtain ⟨path, last, rfl⟩ := hcons
          rw [List.concat_eq_append, List.getLast?_concat, ne_eq, Option.some.injEq] at hlast
          rw [List.concat_eq_append, replacePattern_lastSlash, if_neg hlast]
  | succ count =>
      rw [List.replicate_succ', ← List.append_assoc, replacePattern_lastSlash, if_pos rfl,
        Nat.add_sub_cancel]

/-- All but one of the separators at the end are kept. -/
theorem validatePath_eq (path : Text) :
    validatePath path =
      let rewritten := normalised path ++ List.replicate (trailing path - 1) '/'
      if matchesPattern pathPattern rewritten then some rewritten else none := by
  rw [validatePath]
  simp only [replacePattern_backslash, slashed_eq path,
    replacePattern_slashes (getLast?_normalised path)]

/-- What a caller relies on: an accepted path is rewritten to a text without a
backslash and without a slash at the end, which is accepted as it is. -/
def NormalForm (path : Text) : Prop :=
  ∀ rewritten, validatePath path = some rewritten →
    '\\' ∉ rewritten ∧ rewritten.getLast? ≠ some '/' ∧ validatePath rewritten = some rewritten

theorem validatePath_of_trailing_le {path : Text} (htrailing : trailing path ≤ 1) :
    validatePath path =
      if matchesPattern pathPattern (normalised path) then some (normalised path) else none := by
  rw [validatePath_eq]
  simp only [show trailing path - 1 = 0 by omega, List.replicate_zero, List.append_nil]

theorem normalised_normalised (path : Text) :
    normalised (normalised path) = normalised path ∧ trailing (normalised path) = 0 := by
  have hslashed : slashed (normalised path) = normalised path :=
    slashed_of_notMem (notMem_normalised path)
  constructor
  · rw [normalised, hslashed]
    exact List.rdropWhile_idempotent _ _
  · rw [trailing, hslashed, List.rtakeWhile_eq_nil_iff.mpr]
    · rfl
    · intro hne hlast
      exact List.rdropWhile_last_not (· = '/') (slashed path) hne hlast

theorem normalForm_of_trailing_le {path : Text} (htrailing : trailing path ≤ 1) :
    NormalForm path := by
  intro rewritten haccepted
  rw [validatePath_of_trailing_le htrailing] at haccepted
  split at haccepted
  · rename_i hmatch
    rw [← Option.some.inj haccepted]
    refine ⟨notMem_normalised path, getLast?_normalised path, ?_⟩
    have hagain := normalised_normalised path
    rw [validatePath_of_trailing_le (by omega), hagain.1, if_pos hmatch]
  · cases haccepted

theorem validatePath_eq_none {path : Text}
    (hmatch : matchesPattern pathPattern (normalised path ++ ['/']) = false) :
    validatePath path = none := by
  rw [validatePath_eq]
  refine if_neg ?_
  cases trailing path - 1 with
  | zero =>
      rw [List.replicate_zero, List.append_nil]
      intro hshort
      have hlong := (matchesPattern_append_slashes (normalised path) 0).mpr (.inr hshort)
      rw [List.replicate_one, hmatch] at hlong
      cases hlong
  | succ count =>
      rw [matchesPattern_slashes, hmatch]
      exact Bool.false_ne_true

theorem normalForm_of_rejected {path : Text} (hnone : validatePath path = none) :
    NormalForm path := by
  intro rewritten haccepted
  rw [hnone] at haccepted
  cases haccepted

/-- With two separators at the end an accepted path keeps one of them. -/
theorem rejected_of_normalForm {path : Text} (htrailing : 1 < trailing path)
    (hform : NormalForm path) :
    matchesPattern pathPattern (normalised path ++ ['/']) = false := by
  obtain ⟨count, hcount⟩ : ∃ count, trailing path - 1 = count + 1 :=
    Nat.exists_eq_succ_of_ne_zero (by omega)
  have hvalid := validatePath_eq path
  simp only [hcount, matchesPattern_slashes] at hvalid
  by_contra hmatch
  rw [if_pos (by simpa using hmatch)] at hvalid
  apply (hform _ hvalid).2.1
  rw [List.replicate_succ', ← List.append_assoc]
  exact List.getLast?_concat

/-- Two spellings of one path have one normal form exactly if none of them ends
with more than one separator, or the path is rejected in any case. -/
theorem normal_form_iff (left right : Text) (hsame : normalised left = normalised right) :
    (NormalForm left ∧ NormalForm right ∧ validatePath left = validatePath right) ↔
      (trailing left ≤ 1 ∧ trailing right ≤ 1) ∨
        matchesPattern pathPattern (normalised left ++ ['/']) = false := by
  constructor
  · rintro ⟨hleft, hright, -⟩
    by_cases hmany : 1 < trailing left
    · exact .inr (rejected_of_normalForm hmany hleft)
    · by_cases hmany' : 1 < trailing right
      · rw [hsame]
        exact .inr (rejected_of_normalForm hmany' hright)
      · exact .inl ⟨by omega, by omega⟩
  · intro hcondition
    cases hcondition with
    | inl hfew =>
        refine ⟨normalForm_of_trailing_le hfew.1, normalForm_of_trailing_le hfew.2, ?_⟩
        rw [validatePath_of_trailing_le hfew.1, validatePath_of_trailing_le hfew.2, hsame]
    | inr hmatch =>
        have hleft := validatePath_eq_none hmatch
        have hmatch' := hmatch
        rw [hsame] at hmatch'
        have hright := validatePath_eq_none hmatch'
        exact ⟨normalForm_of_rejected hleft, normalForm_of_rejected hright, hleft.trans hright.symm⟩

/-- A backslash and a slash at the end, against neither. -/
theorem normal_form_iff_accepted :
    normalised "/a\\b/".toList = normalised "/a/b".toList ∧
      (NormalForm "/a\\b/".toList ∧ NormalForm "/a/b".toList ∧
        validatePath "/a\\b/".toList = validatePath "/a/b".toList) :=
  ⟨by decide, (normal_form_iff "/a\\b/".toList "/a/b".toList (by decide)).mpr (.inl (by decide))⟩

/-- Two slashes at the end: one of them stays, and is removed the next time. -/
theorem two_slashes_stay :
    validatePath "/a//".toList = some "/a/".toList ∧ validatePath "/a/".toList = some "/a".toList ∧
      ¬ ∀ left right, normalised left = normalised right →
        NormalForm left ∧ NormalForm right ∧ validatePath left = validatePath right := by
  have htwo : validatePath "/a//".toList = some "/a/".toList := by decide +kernel
  have hone : validatePath "/a/".toList = some "/a".toList := by decide +kernel
  refine ⟨htwo, hone, fun hclaim => ?_⟩
  have hsame := (hclaim "/a//".toList "/a/".toList (by decide)).2.2
  rw [htwo, hone] at hsame
  cases hsame

end Validator

end PdsBackup
