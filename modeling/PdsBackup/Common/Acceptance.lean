import PdsBackup.Common.TimeText
import PdsBackup.Common.Validator
import PdsBackup.Core.RegexLanguage

/-!
# What the validators accept

The patterns of `Validator` are read once and for all; what they match is then
said without them.
-/

namespace PdsBackup

namespace Validator

open Regex

theorem matchesPattern_iff {pattern : Text} {expr : Expr} (hcompile : compile pattern = some expr)
    (text : Text) : matchesPattern pattern text = true ↔ expr.Leads text.length text [] := by
  unfold matchesPattern
  rw [hcompile]
  exact isFullMatch_iff expr text

theorem replacePattern_eq {pattern : Text} {expr : Expr} (hcompile : compile pattern = some expr)
    (by' text : Text) : replacePattern pattern by' text = replaceAll expr by' text := by
  unfold replacePattern
  rw [hcompile]

/-! ## Paths -/

def illegalCharacters : List Char := ['<', '>', '"', '|', '?', '*', ':']

def legalSet : CharSet := ⟨true, illegalCharacters.map ClassItem.single⟩

def slashExpr : Expr := .chars (.single '/')

def pathExpr : Expr :=
  .seq .inputStart (.seq
    (.alt (.seq (.seq (.chars ⟨false, [.word]⟩) (.seq (.chars (.single ':')) .empty)) .empty)
      (.seq (.seq slashExpr .empty) .empty))
    (.seq (.repetition 0 none true (.chars legalSet)) (.seq .inputEnd .empty)))

theorem compile_pathPattern : compile pathPattern = some pathExpr := by decide +kernel

theorem legalSet_contains (c : Char) : legalSet.contains c = true ↔ c ∉ illegalCharacters :=
  except_contains illegalCharacters c

/-- A path that begins with a slash matches unless it has an illegal character. -/
theorem matchesPattern_path (rest : Text) :
    matchesPattern pathPattern ('/' :: rest) = true ↔ ∀ c ∈ rest, c ∉ illegalCharacters := by
  have hallowed : Allowed 0 none rest.length := ⟨Nat.zero_le _, by simp⟩
  rw [matchesPattern_iff compile_pathPattern, pathExpr, leads_start]
  constructor
  · rintro ⟨-, middle, hfirst, htail⟩
    rw [leads_alt, leads_then_empty, leads_then_empty, leads_then_empty, leads_char, slashExpr,
      leads_chars_cons] at hfirst
    cases hfirst with
    | inl hdrive => exact absurd hdrive.1 (by decide)
    | inr hslash =>
        rw [show middle = rest from hslash.2, leads_lastField] at htail
        exact fun c hc => (legalSet_contains c).mp (htail.2 c hc)
  · intro hlegal
    refine ⟨rfl, rest, .inr ?_, leads_lastField.mpr ⟨hallowed, ?_⟩⟩
    · rw [leads_then_empty, leads_then_empty, slashExpr, leads_chars_cons]
      exact ⟨by decide, rfl⟩
    · exact fun c hc => (legalSet_contains c).mpr (hlegal c hc)

def backslashExpr : Expr := .seq (.chars (.single '\\')) .empty

theorem compile_backslash : compile "\\\\".toList = some backslashExpr := by decide

def lastSlashExpr : Expr := .seq slashExpr (.seq .inputEnd .empty)

theorem compile_lastSlash : compile "\\/$".toList = some lastSlashExpr := by decide

/-- Slashes for backslashes. -/
def slashed (path : Text) : Text := path.map fun c => if c = '\\' then '/' else c

theorem replacePattern_backslash (path : Text) :
    replacePattern "\\\\".toList "/".toList path = slashed path := by
  rw [replacePattern_eq compile_backslash, backslashExpr, replaceAll_chars, slashed,
    List.map_eq_flatMap]
  congr 1
  funext c
  by_cases hc : c = '\\' <;> simp [hc]

theorem slashed_of_notMem {path : Text} (hpath : '\\' ∉ path) : slashed path = path := by
  unfold slashed
  calc path.map (fun c => if c = '\\' then '/' else c)
      = path.map id := List.map_congr_left fun c hc => if_neg (ne_of_mem_of_not_mem hc hpath)
    _ = path := List.map_id path

theorem notMem_slashed (path : Text) : '\\' ∉ slashed path := by
  intro hmem
  obtain ⟨c, -, hc⟩ := List.mem_map.mp hmem
  by_cases hback : c = '\\'
  · rw [if_pos hback] at hc
    exact absurd hc (by decide)
  · rw [if_neg hback] at hc
    exact hback hc

/-- A slash at the end is removed. -/
theorem replacePattern_lastSlash (path : Text) (last : Char) :
    replacePattern "\\/$".toList "".toList (path ++ [last]) =
      if last = '/' then path else path ++ [last] := by
  rw [replacePattern_eq compile_lastSlash, lastSlashExpr, slashExpr, replaceAll_last]
  by_cases hlast : last = '/'
  · simp [hlast]
  · simp [hlast]

/-- A path that begins with a slash and does not end with one is accepted as it
is unless it has a backslash or an illegal character. -/
theorem validatePath_eq_self_iff {rest : Text} (hlast : ('/' :: rest).getLast? ≠ some '/') :
    validatePath ('/' :: rest) = some ('/' :: rest) ↔
      ∀ c ∈ rest, c ≠ '\\' ∧ c ∉ illegalCharacters := by
  constructor
  · intro haccepted c hc
    rw [validatePath] at haccepted
    simp only [replacePattern_backslash] at haccepted
    split at haccepted
    · rename_i hmatch
      have hsame := Option.some.inj haccepted
      rw [hsame] at hmatch
      refine ⟨?_, (matchesPattern_path rest).mp hmatch c hc⟩
      rintro rfl
      have hmem : '\\' ∈ '/' :: rest := List.mem_cons_of_mem _ hc
      rw [← hsame] at hmem
      cases mem_replacePattern _ _ _ hmem with
      | inl hslashed => exact notMem_slashed _ hslashed
      | inr hnone => simp at hnone
    · simp at haccepted
  · intro hlegal
    have hback : '\\' ∉ '/' :: rest := by
      intro hmem
      cases List.mem_cons.mp hmem with
      | inl heq => exact absurd heq (by decide)
      | inr hmem => exact (hlegal _ hmem).1 rfl
    obtain ⟨path, last, hpath⟩ : ∃ path last, '/' :: rest = path ++ [last] :=
      ⟨_, _, (List.dropLast_append_getLast (List.cons_ne_nil '/' rest)).symm⟩
    have hend : last ≠ '/' := by
      rw [hpath] at hlast
      simpa using hlast
    rw [validatePath]
    simp only [replacePattern_backslash, slashed_of_notMem hback]
    rw [hpath, replacePattern_lastSlash, if_neg hend, ← hpath, if_pos]
    exact (matchesPattern_path rest).mpr fun c hc => (hlegal c hc).2

/-! ## Times -/

def wordSet : CharSet := ⟨false, [.word]⟩

def digitSet : CharSet := ⟨false, [.digit]⟩

def digits (count : Nat) : Expr := .repetition count (some count) true (.chars digitSet)

def wordExpr : Expr := .seq (.repetition 1 none true (.chars wordSet)) .empty

def lastWriteTimeExpr : Expr :=
  .seq .inputStart (.seq wordExpr (.seq (.chars (.single ',')) (.seq (.chars (.single ' '))
    (.seq (digits 2) (.seq (.chars (.single ' ')) (.seq wordExpr (.seq (.chars (.single ' '))
      (.seq (digits 4) (.seq (.chars (.single ' ')) (.seq (digits 2) (.seq (.chars (.single ':'))
        (.seq (digits 2) (.seq (.chars (.single ' '))
          (.seq (.repetition 0 none true (.chars wordSet)) (.seq .inputEnd .empty)))))))))))))))

theorem compile_lastWriteTimePattern :
    compile lastWriteTimePattern = some lastWriteTimeExpr := by decide +kernel

theorem digitSet_contains (c : Char) : digitSet.contains c = true ↔ c.isDigit = true := by
  simp [digitSet, CharSet.contains, ClassItem.contains]

section Fields

variable {total : Nat} {field text rest : Text} {c : Char} {after : Expr}

theorem leads_digits {count : Nat} (hc : digitSet.contains c = false) (hfield : c ∉ field) :
    (Expr.seq (digits count) (.seq (.chars (.single c)) after)).Leads total (field ++ c :: text)
        rest ↔
      (field.length = count ∧ ∀ d ∈ field, d.isDigit = true) ∧ after.Leads total text rest := by
  have hallowed : Allowed count (some count) field.length ↔ field.length = count := by
    simp only [Allowed, Option.mem_some_iff, forall_eq']
    omega
  rw [digits, leads_field hc hfield, hallowed]
  simp only [digitSet_contains]

/-- A text of word characters, and at least one. -/
def isWord (text : Text) : Bool := text ≠ [] ∧ text.all wordSet.contains

theorem leads_word (hc : wordSet.contains c = false) (hfield : isWord field = true) :
    (Expr.seq wordExpr (.seq (.chars (.single c)) after)).Leads total (field ++ c :: text) rest ↔
      after.Leads total text rest := by
  simp only [isWord, ne_eq, decide_eq_true_eq, List.all_eq_true] at hfield
  have hmem : c ∉ field := by
    intro hmem
    rw [hfield.2 c hmem] at hc
    exact absurd hc (by decide)
  have hallowed : Allowed 1 none field.length :=
    ⟨List.length_pos_of_ne_nil hfield.1, by simp⟩
  rw [wordExpr, leads_seq_empty, leads_field hc hmem, and_iff_right ⟨hallowed, hfield.2⟩]

end Fields

section PutTime

open TimeText

theorem isWord_weekdayNames (weekday : Fin 7) :
    isWord (weekdayNames.getD weekday []) = true := by
  have hall : ∀ weekday : Fin 7, isWord (weekdayNames.getD weekday []) = true := by decide
  exact hall weekday

theorem isWord_monthNames (month : Fin 12) : isWord (monthNames.getD month []) = true := by
  have hall : ∀ month : Fin 12, isWord (monthNames.getD month []) = true := by decide
  exact hall month

theorem twoDigits_digits {number : Nat} (hnumber : number < 100) :
    (twoDigits number).length = 2 ∧ ∀ c ∈ twoDigits number, c.isDigit = true := by
  have htens : number / 10 < 10 := by omega
  have hunits : number % 10 < 10 := by omega
  refine ⟨rfl, ?_⟩
  simp [twoDigits, Nat.isDigit_digitChar, htens, hunits]

theorem notMem_of_digits {text : Text} {c : Char} (hall : ∀ d ∈ text, d.isDigit = true)
    (hc : c.isDigit = false) : c ∉ text := by
  intro hmem
  rw [hall c hmem] at hc
  exact absurd hc (by decide)

/-- A time that was formatted is accepted when its year has four digits. -/
theorem validateLastWriteTime_putTime (tm : Tm) :
    validateLastWriteTime (putTime tm) = true ↔ 1000 ≤ tm.year ∧ tm.year ≤ 9999 := by
  have hday := @twoDigits_digits tm.day (by omega)
  have hhour := @twoDigits_digits tm.hour (by omega)
  have hminute := @twoDigits_digits tm.minute (by omega)
  have hzone : Allowed 0 none "UTC".toList.length ∧ ∀ c ∈ "UTC".toList,
      wordSet.contains c = true :=
    ⟨⟨Nat.zero_le _, by simp⟩, List.all_eq_true.mp (by decide)⟩
  rw [validateLastWriteTime, matchesPattern_iff compile_lastWriteTimePattern, lastWriteTimeExpr,
    leads_start, and_iff_right rfl, putTime,
    leads_word (by decide) (isWord_weekdayNames tm.weekday), leads_char, and_iff_right (by decide),
    leads_digits (by decide) (notMem_of_digits hday.2 (by decide)), and_iff_right hday,
    leads_word (by decide) (isWord_monthNames tm.month),
    leads_digits (by decide) (yearText_ne_space tm.year), yearText_four,
    leads_digits (by decide) (notMem_of_digits hhour.2 (by decide)), and_iff_right hhour,
    leads_digits (by decide) (notMem_of_digits hminute.2 (by decide)), and_iff_right hminute,
    leads_lastField, and_iff_left hzone]

end PutTime

end Validator

end PdsBackup
