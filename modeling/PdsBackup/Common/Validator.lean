import PdsBackup.Core.FileTree
import PdsBackup.Core.RegexText

/-!
# Validation and rewriting of request fields

The functions of the namespace `Validator` that the servers and clients apply to
what they are sent.  A function that rewrites its argument in place returns the
rewritten text when it accepts it.
-/

namespace PdsBackup

namespace Validator

open Regex

/-- `std::regex_match` against a pattern given as a text. -/
@[irreducible] def matchesPattern (pattern text : Text) : Bool :=
  match compile pattern with
  | some expr => isFullMatch expr text
  | none => false

/-- `std::regex_replace` with a pattern given as a text. -/
@[irreducible] def replacePattern (pattern by' text : Text) : Text :=
  match compile pattern with
  | some expr => replaceAll expr by' text
  | none => text

theorem mem_replacePattern (pattern by' text : Text) {c : Char}
    (hc : c ∈ replacePattern pattern by' text) : c ∈ text ∨ c ∈ by' := by
  unfold replacePattern at hc
  split at hc
  · exact mem_replaceAll _ by' text hc
  · exact .inl hc

def usernamePattern : Text := "^[a-zA-Z0-9_@+-.]+$".toList

def validateUsername (username : Text) : Bool := matchesPattern usernamePattern username

def macAddressPattern : Text :=
  "^(([0-9a-fA-F])\x7b0,2\x7d:)\x7b5\x7d([0-9a-fA-F])\x7b0,2\x7d$".toList

/-- Lower case, no leading zeros, no empty group. -/
def validateMacAddress (mac : Text) : Option Text :=
  let mac := mac.map Char.toLower
  if matchesPattern macAddressPattern mac then
    let mac := replacePattern "0(?=[0-9a-z])".toList "".toList mac
    let mac := replacePattern ":(?=:)|:$".toList ":0".toList mac
    some (replacePattern "^:".toList "0:".toList mac)
  else none

def pathPattern : Text := "^(?:(?:\\w:)|(?:\\/))[^<>\"|?*:]*$".toList

/-- Slashes for backslashes, no slash at the end. -/
def validatePath (path : Text) : Option Text :=
  let path := replacePattern "\\\\".toList "/".toList path
  let path := replacePattern "\\/$".toList "".toList path
  if matchesPattern pathPattern path then some path else none

def lastWriteTimePattern : Text :=
  "^(?:\\w+), \\d\x7b2\x7d (?:\\w+) \\d\x7b4\x7d \\d\x7b2\x7d:\\d\x7b2\x7d \\w*$".toList

def validateLastWriteTime (lastWriteTime : Text) : Bool :=
  matchesPattern lastWriteTimePattern lastWriteTime

def uintPattern : Text := "^(?:\\d)\x7b1,10\x7d$".toList

/-- `stoul` of a text of digits. -/
def stoul (digits : Text) : Nat :=
  digits.foldl (fun value d => 10 * value + (d.toNat - '0'.toNat)) 0

/-- At most ten digits, of a number that an `unsigned int` can have. -/
def validateUint (unsignedInteger : Text) : Bool :=
  matchesPattern uintPattern unsignedInteger && stoul unsignedInteger ≤ 4294967295

example : validateMacAddress "00:0A:b::c:1F".toList = some "0:a:b:0:c:1f".toList := by
  decide +kernel

example : validatePath "/a\\..\\b\\".toList = some "/a/../b".toList := by
  decide +kernel

/-- A character no part of a pattern can go over is in no text it matches. -/
theorem notMem_of_matchesPattern {pattern text : Text} {c : Char}
    (hmatch : matchesPattern pattern text = true)
    (hc : ((compile pattern).all fun expr => !expr.alphabet c) = true) : c ∉ text := by
  intro hmem
  unfold matchesPattern at hmatch
  cases hcompile : compile pattern with
  | none => simp [hcompile] at hmatch
  | some expr =>
      rw [hcompile] at hmatch hc
      have halphabet := alphabet_of_isFullMatch hmatch hmem
      simp [halphabet] at hc

/-! ## Folder names -/

/-- The folder of a user and a machine: colons are replaced by dashes. -/
def folderName (username mac : Text) : Text :=
  username ++ '_' :: replacePattern ":".toList "-".toList mac

theorem notMem_username {username : Text} (hvalid : validateUsername username = true) {c : Char}
    (hc : c = '/' ∨ c = nul ∨ c ∈ operators ∧ c ≠ '+') : c ∉ username := by
  refine notMem_of_matchesPattern hvalid ?_
  have hall : (['/', nul] ++ operators.filter (· ≠ '+')).all (fun c =>
      (compile usernamePattern).all fun expr => !expr.alphabet c) = true := by
    decide +kernel
  apply List.all_eq_true.mp hall c
  rcases hc with rfl | rfl | ⟨hc, hplus⟩
  · simp
  · simp
  · simp [hc, hplus]

theorem notMem_mac {raw mac : Text} (hvalid : validateMacAddress raw = some mac) {c : Char}
    (hc : c = '/' ∨ c = nul ∨ c ∈ operators) : c ∉ mac := by
  unfold validateMacAddress at hvalid
  simp only at hvalid
  split at hvalid
  · rename_i hmatch
    have hall : (['/', nul] ++ operators).all (fun c =>
        ((compile macAddressPattern).all fun expr => !expr.alphabet c) && c ∉ [':', '0']) = true := by
      decide +kernel
    have hc' : c ∈ ['/', nul] ++ operators := by
      rcases hc with rfl | rfl | hc <;> simp [*]
    obtain ⟨halphabet, hown⟩ := Bool.and_eq_true_iff.mp (List.all_eq_true.mp hall c hc')
    rw [decide_eq_true_iff] at hown
    have hraw := notMem_of_matchesPattern hmatch halphabet
    simp only [List.mem_cons, List.not_mem_nil, or_false, not_or] at hown
    intro hmem
    rw [← Option.some.inj hvalid] at hmem
    rcases mem_replacePattern _ _ _ hmem with hmem | hmem
    · rcases mem_replacePattern _ _ _ hmem with hmem | hmem
      · rcases mem_replacePattern _ _ _ hmem with hmem | hmem
        · exact hraw hmem
        · simp at hmem
      · simp [hown] at hmem
    · simp [hown] at hmem
  · simp at hvalid

theorem notMem_folderName {username raw mac : Text} (husername : validateUsername username = true)
    (hmac : validateMacAddress raw = some mac) {c : Char}
    (hc : c = '/' ∨ c = nul ∨ c ∈ operators ∧ c ≠ '+') : c ∉ folderName username mac := by
  have hmac' : c ∉ mac := notMem_mac hmac (hc.imp_right (Or.imp_right And.left))
  have hown : c ≠ '_' ∧ c ≠ '-' := by
    rcases hc with rfl | rfl | ⟨hc, -⟩
    · decide
    · decide
    · have hall : ∀ c ∈ operators, c ≠ '_' ∧ c ≠ '-' := by simp [operators]
      exact hall c hc
  intro hmem
  rcases List.mem_append.mp hmem with hmem | hmem
  · exact notMem_username husername hc hmem
  · rcases List.mem_cons.mp hmem with hmem | hmem
    · exact hown.1 hmem
    · rcases mem_replacePattern _ _ _ hmem with hmem | hmem
      · exact hmac' hmem
      · simp [hown.2] at hmem

/-- A user and a machine that passed validation have a folder of their own name. -/
theorem plainName_folderName {username raw mac : Text}
    (husername : validateUsername username = true) (hmac : validateMacAddress raw = some mac) :
    PlainName (folderName username mac) := by
  have hbar : '_' ∈ folderName username mac := by simp [folderName]
  refine ⟨?_, ?_, ?_, notMem_folderName husername hmac (.inl rfl),
    notMem_folderName husername hmac (.inr (.inl rfl))⟩
  · intro heq
    simp [heq] at hbar
  · intro heq
    simp [heq, dot] at hbar
  · intro heq
    simp [heq, dotDot] at hbar

end Validator

end PdsBackup
