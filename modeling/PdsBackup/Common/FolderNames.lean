import PdsBackup.Common.MacAddress
import PdsBackup.Core.PathText

/-!
# Folder names

A username may contain underscores, dashes and digits, but a canonical MAC
address with dashes for its colons has no underscore.  The last underscore of a
folder name is therefore the one between the two, and the two can be read back.
-/

namespace PdsBackup

namespace Validator

open Regex

theorem compile_colon : compile ":".toList = some (.seq (.chars (.single ':')) .empty) := by
  decide

/-- Dashes for colons. -/
def dashed (mac : Text) : Text := mac.map fun c => if c = ':' then '-' else c

theorem replacePattern_colon (mac : Text) : replacePattern ":".toList "-".toList mac = dashed mac := by
  rw [replacePattern_eq compile_colon, replaceAll_chars, dashed, List.map_eq_flatMap]
  congr 1
  funext c
  by_cases hc : c = ':' <;> simp [hc]

theorem folderName_eq (username mac : Text) : folderName username mac = username ++ '_' :: dashed mac := by
  rw [folderName, replacePattern_colon]

/-- A canonical address has digits and colons. -/
theorem mem_mac {raw mac : Text} (hvalid : validateMacAddress raw = some mac) {c : Char}
    (hc : c ∈ mac) : c = ':' ∨ hexSet.contains c = true := by
  obtain ⟨groups, rfl⟩ := exists_groups hvalid
  rw [validateMacAddress_joined, Option.some.injEq, getMAC_eq] at hvalid
  have hhex : ∀ byte : Byte, ∀ c ∈ hexText byte, hexSet.contains c = true := fun byte =>
    (hexText_digits byte).2.1
  rw [← hvalid] at hc
  simp only [joined, List.mem_append, List.mem_cons] at hc
  rcases hc with hc | hc | hc | hc | hc | hc | hc | hc | hc | hc | hc
  all_goals first | exact .inl hc | exact .inr (hhex _ c hc)

theorem dash_notMem_mac {raw mac : Text} (hvalid : validateMacAddress raw = some mac) :
    '-' ∉ mac := by
  intro hmem
  cases mem_mac hvalid hmem with
  | inl hcolon => exact absurd hcolon (by decide)
  | inr hhex => exact absurd hhex (by decide)

theorem underscore_notMem_dashed {raw mac : Text} (hvalid : validateMacAddress raw = some mac) :
    '_' ∉ dashed mac := by
  intro hmem
  obtain ⟨c, hc, heq⟩ := List.mem_map.mp hmem
  by_cases hcolon : c = ':'
  · rw [if_pos hcolon] at heq
    exact absurd heq (by decide)
  · rw [if_neg hcolon] at heq
    rw [heq] at hc
    cases mem_mac hvalid hc with
    | inl hcolon => exact absurd hcolon (by decide)
    | inr hhex => exact absurd hhex (by decide)

/-- The colons can be told from what the dashes replaced. -/
theorem dashed_injective {left right : Text} (hleft : '-' ∉ left) (hright : '-' ∉ right)
    (heq : dashed left = dashed right) : left = right := by
  have hback : ∀ mac, '-' ∉ mac → (dashed mac).map (fun c => if c = '-' then ':' else c) = mac := by
    intro mac hmac
    rw [dashed, List.map_map]
    calc mac.map _ = mac.map id := by
          apply List.map_congr_left
          intro c hc
          have hdash : c ≠ '-' := ne_of_mem_of_not_mem hc hmac
          by_cases hcolon : c = ':' <;> simp [hcolon, hdash]
      _ = mac := List.map_id mac
  rw [← hback left hleft, heq, hback right hright]

/-- Two ways to split a text at the last occurrence of a character. -/
theorem append_cons_inj_right {c : Char} {left right left' right' : Text} (hright : c ∉ right)
    (hright' : c ∉ right') (heq : left ++ c :: right = left' ++ c :: right') :
    left = left' ∧ right = right' := by
  have hreverse := congrArg List.reverse heq
  simp only [List.reverse_append, List.reverse_cons, List.append_assoc, List.singleton_append]
    at hreverse
  obtain ⟨hr, hl⟩ := append_cons_inj (by simpa using hright) (by simpa using hright') hreverse
  exact ⟨List.reverse_injective hl, List.reverse_injective hr⟩

section Pairs

variable {username username' raw raw' mac mac' : Text}

theorem folderName_inj (hmac : validateMacAddress raw = some mac)
    (hmac' : validateMacAddress raw' = some mac') :
    folderName username mac = folderName username' mac' ↔ username = username' ∧ mac = mac' := by
  constructor
  · intro heq
    rw [folderName_eq, folderName_eq] at heq
    obtain ⟨husername, hdashed⟩ := append_cons_inj_right (underscore_notMem_dashed hmac)
      (underscore_notMem_dashed hmac') heq
    exact ⟨husername, dashed_injective (dash_notMem_mac hmac) (dash_notMem_mac hmac') hdashed⟩
  · rintro ⟨rfl, rfl⟩
    rfl

/-- A username and a canonical address name a folder of their own: its name is a
single component, no other pair has it, and nothing lies below the folders of
two pairs. -/
theorem folders_distinct (husername : validateUsername username = true)
    (hmac : validateMacAddress raw = some mac) (husername' : validateUsername username' = true)
    (hmac' : validateMacAddress raw' = some mac') :
    PlainName (folderName username mac) ∧
      (folderName username mac = folderName username' mac' ↔ username = username' ∧ mac = mac') ∧
      (∀ base : Path, render base ++ '/' :: folderName username mac =
        render (folderName username mac :: base)) ∧
      ((username, mac) ≠ (username', mac') → ∀ base place : Path,
        ¬ (folderName username mac :: base <:+ place ∧
          folderName username' mac' :: base <:+ place)) := by
  refine ⟨plainName_folderName husername hmac, folderName_inj hmac hmac', fun _ => rfl, ?_⟩
  rintro hne base place ⟨hleft, hright⟩
  have hsame := (List.suffix_of_suffix_length_le hleft hright (Nat.le_refl _)).eq_of_length rfl
  obtain ⟨rfl, rfl⟩ := (folderName_inj hmac hmac').mp (List.cons.inj hsame).1
  exact hne rfl

end Pairs

/-- A username with an underscore that the other one has not. -/
theorem folders_distinct_underscore :
    validateUsername "u_0".toList = true ∧ validateUsername "u".toList = true ∧
      validateMacAddress "0:0:0:0:0:1".toList = some "0:0:0:0:0:1".toList ∧
      ∀ base place : Path, ¬ (folderName "u_0".toList "0:0:0:0:0:1".toList :: base <:+ place ∧
        folderName "u".toList "0:0:0:0:0:1".toList :: base <:+ place) := by
  have hlong : validateUsername "u_0".toList = true := by decide +kernel
  have hshort : validateUsername "u".toList = true := by decide +kernel
  have hmac : validateMacAddress "0:0:0:0:0:1".toList = some "0:0:0:0:0:1".toList := by
    decide +kernel
  exact ⟨hlong, hshort, hmac, (folders_distinct hlong hmac hshort hmac).2.2.2 (by decide)⟩

end Validator

end PdsBackup
