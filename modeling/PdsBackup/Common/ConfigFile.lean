import PdsBackup.Common.PathForm

/-!
# Configuration files

The two `Config` classes read their files alike: a line is a key, an equals sign
and a value, a path goes through `validatePath`, every other value has to be an
unsigned integer, and what is not understood is skipped.  What differs is which
keys there are.
-/

namespace PdsBackup

namespace ConfigFile

open Regex Validator

def keyValuePattern : Text := "\\s*(\\w+)\\s*=\\s*([^\\s]+)\\s*".toList

/-- The key in lower case and the value of a line that the pattern matches. -/
def keyValue (line : Text) : Option (Text × Text) :=
  ((compile keyValuePattern).bind fun expr => fullMatch expr line).map fun m =>
    ((groupText m 1).map Char.toLower, groupText m 2)

/-- What `getline` delivers until it fails: the last line needs no terminator,
unless it is empty. -/
def getlines : Text → List Text
  | [] => []
  | c :: rest =>
      if c = '\n' then [] :: getlines rest
      else
        match getlines rest with
        | [] => [[c]]
        | line :: lines => (c :: line) :: lines

/-- What the lines say, in their order. -/
def entries (content : Text) : List (Text × Text) := (getlines content).filterMap keyValue

/-- The variables of a program: those that are paths and those that are numbers,
with the key of each. -/
structure Schema (π ν : Type) where
  paths : List (Text × π)
  numbers : List (Text × ν)
  pathKey : π → Text
  numberKey : ν → Text
  paths_lookup : ∀ member, paths.lookup (pathKey member) = some member
  paths_key : ∀ entry ∈ paths, entry.1 = pathKey entry.2
  numbers_lookup : ∀ member, numbers.lookup (numberKey member) = some member
  numbers_key : ∀ entry ∈ numbers, entry.1 = numberKey entry.2
  numbers_apart : ∀ member, paths.lookup (numberKey member) = none

/-- The member variables, empty and zero until they are set. -/
structure Settings (π ν : Type) where
  path : π → Text
  number : ν → UInt32

namespace Schema

variable {π ν : Type} [DecidableEq π] [DecidableEq ν] (schema : Schema π ν)

/-- What the loop does with a key and its value. -/
def assign (settings : Settings π ν) (key value : Text) : Settings π ν :=
  match schema.paths.lookup key with
  | some member =>
      match validatePath value with
      | some value => { settings with path := Function.update settings.path member value }
      | none => settings
  | none =>
      if validateUint value then
        match schema.numbers.lookup key with
        | some member =>
            { settings with
              number := Function.update settings.number member (UInt32.ofNat (stoul value)) }
        | none => settings
      else settings

/-- `_load`, of a file that can be opened. -/
def load (content : Text) : Settings π ν :=
  (entries content).foldl (fun settings entry => schema.assign settings entry.1 entry.2)
    { path := fun _ => [], number := fun _ => 0 }

end Schema

/-- A getter of a path; an empty one is replaced by the default. -/
def pathOr (default path : Text) : Text := if path = [] then default else path

/-- A getter of a number; zero is replaced by the default. -/
def numberOr (default number : UInt32) : UInt32 := if number = 0 then default else number

/-! ## What is loaded -/

def valueOf (key : Text) (entry : Text × Text) : Option Text :=
  if entry.1 = key then some entry.2 else none

/-- The values that the lines give a key, in their order. -/
def values (key content : Text) : List Text := (entries content).filterMap (valueOf key)

theorem Schema.paths_lookup_iff {π ν : Type} (schema : Schema π ν) (key : Text) (member : π) :
    schema.paths.lookup key = some member ↔ key = schema.pathKey member := by
  constructor
  · intro hlookup
    obtain ⟨before, after, hpaths, -⟩ := List.lookup_eq_some_iff.mp hlookup
    exact schema.paths_key (key, member) (by rw [hpaths]; simp)
  · rintro rfl
    exact schema.paths_lookup member

section Load

variable {π ν : Type} [DecidableEq π] [DecidableEq ν] (schema : Schema π ν)

/-- One line changes a path only if it is about that path and gives it a value
that is accepted. -/
theorem Schema.assign_path (settings : Settings π ν) (key value : Text) (member : π) :
    (schema.assign settings key value).path member =
      if key = schema.pathKey member then (validatePath value).getD (settings.path member)
      else settings.path member := by
  rw [Schema.assign]
  cases hlookup : schema.paths.lookup key with
  | none =>
      have hkey : key ≠ schema.pathKey member := by
        intro heq
        rw [heq, schema.paths_lookup] at hlookup
        cases hlookup
      rw [if_neg hkey]
      dsimp only
      split
      · cases schema.numbers.lookup key <;> rfl
      · rfl
  | some other =>
      have hother := (schema.paths_lookup_iff key other).mp hlookup
      by_cases hmember : member = other
      · subst hmember
        rw [if_pos hother]
        cases validatePath value with
        | none => rfl
        | some rewritten => exact Function.update_self member rewritten settings.path
      · have hkey : key ≠ schema.pathKey member := by
          intro heq
          have hsame := (schema.paths_lookup_iff key member).mpr heq
          rw [hlookup] at hsame
          exact hmember (Option.some.inj hsame).symm
        rw [if_neg hkey]
        cases validatePath value with
        | none => rfl
        | some rewritten => exact Function.update_of_ne hmember rewritten settings.path

/-- A path is the last accepted value of its key, and empty without one. -/
theorem Schema.load_path (content : Text) (member : π) :
    (schema.load content).path member =
      ((values (schema.pathKey member) content).filterMap validatePath).getLast?.getD [] := by
  have hfold : ∀ (lines : List (Text × Text)) (settings : Settings π ν),
      (lines.foldl (fun settings entry => schema.assign settings entry.1 entry.2) settings).path
          member =
        ((lines.filterMap (valueOf (schema.pathKey member))).filterMap validatePath).getLast?.getD
          (settings.path member) := by
    intro lines
    induction lines with
    | nil => exact fun settings => rfl
    | cons entry lines ih =>
        intro settings
        rw [List.foldl_cons, ih, schema.assign_path]
        by_cases hkey : entry.1 = schema.pathKey member
        · have hvalue : valueOf (schema.pathKey member) entry = some entry.2 := if_pos hkey
          rw [if_pos hkey, List.filterMap_cons_some hvalue]
          cases hvalid : validatePath entry.2 with
          | none => rw [List.filterMap_cons_none hvalid, Option.getD_none]
          | some rewritten =>
              rw [List.filterMap_cons_some hvalid, Option.getD_some, List.getLast?_cons]
              rfl
        · have hvalue : valueOf (schema.pathKey member) entry = none := if_neg hkey
          rw [if_neg hkey, List.filterMap_cons_none hvalue]
  exact hfold (entries content) _

end Load

/-! ## Which values are honoured -/

/-- A value without the characters that no path can have. -/
def Legal (value : Text) : Prop := ∀ c ∈ value, c ∉ illegalCharacters

instance (value : Text) : Decidable (Legal value) :=
  decidable_of_iff (value.all (fun c => decide (c ∉ illegalCharacters)) = true)
    (by simp [Legal, List.all_eq_true])

/-- A path from the root, other than the root, with at most one separator at the
end. -/
def Absolute (value : Text) : Prop :=
  (normalised value).head? = some '/' ∧ trailing value ≤ 1

theorem legal_normalised {value : Text} (hlegal : Legal value) : Legal (normalised value) := by
  intro c hc
  have hslashed : c ∈ slashed value := (List.rdropWhile_prefix _ _).subset hc
  obtain ⟨d, hd, rfl⟩ := List.mem_map.mp hslashed
  by_cases hback : d = '\\'
  · rw [if_pos hback]
    decide
  · rw [if_neg hback]
    exact hlegal d hd

/-- Of a legal text only the first character matters to the pattern. -/
theorem matchesPattern_of_legal {text : Text} (hlegal : Legal text) :
    matchesPattern pathPattern text = true ↔ text.head? = some '/' := by
  rw [matchesPattern_path_iff]
  constructor
  · rintro ⟨rest, -, htext⟩
    cases htext with
    | inl hslash => rw [hslash]; rfl
    | inr hdrive =>
        obtain ⟨drive, -, rfl⟩ := hdrive
        exact absurd (hlegal ':' (List.mem_cons_of_mem _ List.mem_cons_self)) (by decide)
  · intro hhead
    obtain ⟨rest, rfl⟩ : ∃ rest, text = '/' :: rest := by
      cases text with
      | nil => cases hhead
      | cons c rest => exact ⟨rest, by rw [Option.some.inj hhead]⟩
    exact ⟨rest, fun c hc => hlegal c (List.mem_cons_of_mem _ hc), .inl rfl⟩

/-- A legal value is accepted as its normal form exactly if it is absolute. -/
theorem validatePath_eq_normalised_iff {value : Text} (hlegal : Legal value) :
    validatePath value = some (normalised value) ↔ Absolute value := by
  have hmatch := matchesPattern_of_legal (legal_normalised hlegal)
  constructor
  · intro hvalid
    by_cases hfew : trailing value ≤ 1
    · refine ⟨hmatch.mp ?_, hfew⟩
      rw [validatePath_of_trailing_le hfew] at hvalid
      by_contra hnot
      rw [if_neg hnot] at hvalid
      cases hvalid
    · -- more than one separator at the end: the rewritten path is longer
      rw [validatePath_eq] at hvalid
      dsimp only at hvalid
      split at hvalid
      · have hlength := congrArg List.length (Option.some.inj hvalid)
        rw [List.length_append, List.length_replicate] at hlength
        omega
      · cases hvalid
  · rintro ⟨hhead, hfew⟩
    rw [validatePath_of_trailing_le hfew, if_pos (hmatch.mpr hhead)]

/-- A value with the normal form of a path that is accepted is accepted. -/
theorem accepted_of_normalised {value rewritten other : Text}
    (hother : validatePath other = some rewritten) (hsame : rewritten = normalised value) :
    ∃ accepted, validatePath value = some accepted := by
  rw [validatePath_eq] at hother
  dsimp only at hother
  split at hother
  · rename_i hmatch
    rw [Option.some.inj hother, hsame] at hmatch
    rw [validatePath_eq]
    cases trailing value - 1 with
    | zero => exact ⟨_, by rw [List.replicate_zero, List.append_nil]; exact if_pos hmatch⟩
    | succ count =>
        exact ⟨_, if_pos ((matchesPattern_append_slashes (normalised value) count).mpr
          (.inr hmatch))⟩
  · cases hother

theorem ne_nil_of_accepted {value rewritten : Text} (hvalid : validatePath value = some rewritten) :
    rewritten ≠ [] := by
  rintro rfl
  rw [validatePath_eq] at hvalid
  dsimp only at hvalid
  split at hvalid
  · rename_i hmatch
    rw [Option.some.inj hvalid] at hmatch
    obtain ⟨rest, -, hpath | ⟨drive, -, hpath⟩⟩ := (matchesPattern_path_iff []).mp hmatch
    · cases hpath
    · cases hpath
  · cases hvalid

/-- Of the values that a key is given in a row the last one is honoured, if it is
legal, exactly if it is absolute, or is the default and no value is accepted. -/
theorem honoured_iff (default : Text) {earlier : List Text} {value : Text} (hlegal : Legal value) :
    pathOr default (((earlier ++ [value]).filterMap validatePath).getLast?.getD []) =
        normalised value ↔
      Absolute value ∨
        (normalised value = default ∧ ∀ other ∈ earlier ++ [value], validatePath other = none) := by
  have habsolute := validatePath_eq_normalised_iff hlegal
  rw [List.filterMap_append]
  cases hvalid : validatePath value with
  | some rewritten =>
      have hlast : [value].filterMap validatePath = [rewritten] := by simp [hvalid]
      have hnever : ¬ ∀ other ∈ earlier ++ [value], validatePath other = none := by
        intro hnone
        rw [hnone value (by simp)] at hvalid
        cases hvalid
      rw [hlast, List.getLast?_concat, Option.getD_some, pathOr,
        if_neg (ne_nil_of_accepted hvalid), ← habsolute, hvalid, Option.some.injEq]
      constructor
      · exact Or.inl
      · rintro (habs | hdefault)
        · exact habs
        · exact absurd hdefault.2 hnever
  | none =>
      have hlast : [value].filterMap validatePath = [] := by simp [hvalid]
      have hnot : ¬ Absolute value := by
        rw [← habsolute, hvalid]
        exact fun heq => by cases heq
      rw [hlast, List.append_nil]
      cases hbefore : (earlier.filterMap validatePath).getLast? with
      | none =>
          have hnil := List.getLast?_eq_none_iff.mp hbefore
          have hnone : ∀ other ∈ earlier ++ [value], validatePath other = none := by
            intro other hother
            cases List.mem_append.mp hother with
            | inl hearlier => exact (List.filterMap_eq_nil_iff.mp hnil) other hearlier
            | inr hlast => rw [List.mem_singleton.mp hlast, hvalid]
          rw [Option.getD_none, pathOr, if_pos rfl]
          constructor
          · exact fun heq => .inr ⟨heq.symm, hnone⟩
          · rintro (habs | hdefault)
            · exact absurd habs hnot
            · exact hdefault.1.symm
      | some rewritten =>
          -- an earlier value was accepted: it is another path
          obtain ⟨other, hother, haccepted⟩ :=
            List.mem_filterMap.mp (List.mem_of_getLast? hbefore)
          rw [Option.getD_some, pathOr, if_neg (ne_nil_of_accepted haccepted)]
          constructor
          · intro hsame
            obtain ⟨accepted, hagain⟩ := accepted_of_normalised haccepted hsame
            rw [hvalid] at hagain
            cases hagain
          · rintro (habs | hdefault)
            · exact absurd habs hnot
            · have hnone := hdefault.2 other (List.mem_append_left _ hother)
              rw [haccepted] at hnone
              cases hnone

end ConfigFile

end PdsBackup
