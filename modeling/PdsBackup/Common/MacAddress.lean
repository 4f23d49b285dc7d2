import PdsBackup.Common.Acceptance
import PdsBackup.Common.Hash
import Mathlib.Data.Fin.VecNotation

/-!
# Canonical MAC addresses

A MAC address is given as six groups of at most two hexadecimal digits.
`validateMacAddress` rewrites it with three replacements over the whole text;
here it is the number of each group that is printed, the way `getMAC` prints the
bytes of an interface.
-/

namespace PdsBackup

namespace Validator

open Regex

def hexSet : CharSet := ⟨false, [.range '0' '9', .range 'a' 'f', .range 'A' 'F']⟩

/-- Every hexadecimal digit of either case. -/
def hexChars : List Char := "0123456789abcdefABCDEF".toList

theorem mem_hexChars {c : Char} (hc : hexSet.contains c = true) : c ∈ hexChars := by
  have hascii : c.toNat < 128 := by
    simp only [hexSet, CharSet.contains, ClassItem.contains, List.any_cons, List.any_nil,
      Bool.or_false, Bool.bne_false, Bool.or_eq_true, Bool.and_eq_true, decide_eq_true_eq] at hc
    have hle : ∀ last : Char, c ≤ last → c.toNat ≤ last.toNat := fun _ hlast => hlast
    rcases hc with ⟨-, hlast⟩ | ⟨-, hlast⟩ | ⟨-, hlast⟩
    · exact Nat.lt_of_le_of_lt (hle _ hlast) (by decide)
    · exact Nat.lt_of_le_of_lt (hle _ hlast) (by decide)
    · exact Nat.lt_of_le_of_lt (hle _ hlast) (by decide)
  have hall : ∀ n : Fin 128, hexSet.contains (Char.ofNat n) = true → Char.ofNat n ∈ hexChars := by
    decide +kernel
  have hofNat := hall ⟨c.toNat, hascii⟩
  rw [Char.ofNat_toNat] at hofNat
  exact hofNat hc

/-- What has been tested of every digit. -/
theorem of_hexChars {p : Char → Bool} (hall : hexChars.all p = true) {c : Char}
    (hc : hexSet.contains c = true) : p c = true :=
  List.all_eq_true.mp hall c (mem_hexChars hc)

/-- At most two hexadecimal digits of either case. -/
structure MacGroup where
  digits : Text
  length_le : digits.length ≤ 2
  hex : ∀ c ∈ digits, hexSet.contains c = true

/-- Six groups. -/
abbrev MacGroups := Fin 6 → MacGroup

/-- Six texts with colons between them. -/
def joined (texts : Fin 6 → Text) : Text :=
  texts 0 ++ ':' :: (texts 1 ++ ':' :: (texts 2 ++ ':' :: (texts 3 ++ ':' :: (texts 4 ++
    ':' :: texts 5))))

/-- What a hexadecimal digit stands for. -/
def digitValue (c : Char) : Nat := ((hexValue c).map Fin.val).getD 0

theorem digitValue_lt (c : Char) : digitValue c < 16 := by
  unfold digitValue
  cases hexValue c with
  | none => decide
  | some value => exact value.isLt

namespace MacGroup

/-- The number of a group; no digit at all is zero. -/
def value (group : MacGroup) : Byte :=
  ⟨group.digits.foldl (fun value c => 16 * value + digitValue c) 0, by
    have hlength := group.length_le
    match group.digits, hlength with
    | [], _ => decide
    | [c], _ =>
        have hc := digitValue_lt c
        simp only [List.foldl_cons, List.foldl_nil]
        omega
    | [c, d], _ =>
        have hc := digitValue_lt c
        have hd := digitValue_lt d
        simp only [List.foldl_cons, List.foldl_nil]
        omega⟩

end MacGroup

/-! ## What is accepted -/

/-- Up to two digits, as the pattern has them. -/
def groupExpr (index : Nat) : Expr :=
  .repetition 0 (some 2) true (.group index (.seq (.chars hexSet) .empty))

def macAddressExpr : Expr :=
  .seq .inputStart (.seq
    (.repetition 5 (some 5) true
      (.group 1 (.seq (groupExpr 2) (.seq (.chars (.single ':')) .empty))))
    (.seq (groupExpr 3) (.seq .inputEnd .empty)))

theorem compile_macAddressPattern : compile macAddressPattern = some macAddressExpr := by
  decide +kernel

theorem leads_groupExpr {index total : Nat} {text rest : Text} :
    (groupExpr index).Leads total text rest ↔
      ∃ group : MacGroup, text = group.digits ++ rest := by
  have hsame : ∀ count text rest,
      Times ((Expr.group index (.seq (.chars hexSet) .empty)).Leads total) count text rest ↔
        Times ((Expr.chars hexSet).Leads total) count text rest := by
    intro count
    induction count with
    | zero => exact fun text rest => Iff.rfl
    | succ count ih =>
        intro text rest
        apply exists_congr
        intro middle
        exact and_congr leads_then_empty (ih middle rest)
  constructor
  · rintro ⟨further, hbound, htimes⟩
    rw [hsame, times_chars] at htimes
    obtain ⟨read, htext, hlength, hall⟩ := htimes
    have hfurther := hbound 2 rfl
    exact ⟨⟨read, by omega, hall⟩, htext⟩
  · rintro ⟨group, htext⟩
    refine ⟨group.digits.length, ?_, ?_⟩
    · intro bound hbound
      cases hbound
      exact group.length_le
    · rw [hsame, times_chars]
      exact ⟨group.digits, htext, by omega, group.hex⟩

theorem leads_groupColon {total : Nat} {text rest : Text} :
    (Expr.group 1 (.seq (groupExpr 2) (.seq (.chars (.single ':')) .empty))).Leads total text rest ↔
      ∃ group : MacGroup, text = group.digits ++ ':' :: rest := by
  constructor
  · rintro ⟨middle, hgroup, hcolon⟩
    obtain ⟨group, htext⟩ := leads_groupExpr.mp hgroup
    rw [leads_then_empty] at hcolon
    obtain ⟨c, hc, hmiddle⟩ := hcolon
    rw [(single_contains ':' c).mp hc] at hmiddle
    exact ⟨group, by rw [htext, hmiddle]⟩
  · rintro ⟨group, htext⟩
    refine ⟨':' :: rest, leads_groupExpr.mpr ⟨group, htext⟩, ?_⟩
    rw [leads_then_empty]
    exact ⟨':', (single_contains ':' ':').mpr rfl, rfl⟩

/-- The pattern matches six groups with colons between them. -/
theorem matchesPattern_mac (mac : Text) :
    matchesPattern macAddressPattern mac = true ↔
      ∃ groups : MacGroups, mac = joined fun i => (groups i).digits := by
  rw [matchesPattern_iff compile_macAddressPattern, macAddressExpr, leads_start,
    and_iff_right rfl]
  constructor
  · rintro ⟨middle, ⟨further, hbound, htimes⟩, last, hlast, hend⟩
    have hfurther := hbound 5 rfl
    obtain rfl : further = 0 := by omega
    obtain ⟨group, htext⟩ := leads_groupExpr.mp hlast
    rw [leads_then_empty] at hend
    obtain ⟨t₁, h₁, t₂, h₂, t₃, h₃, t₄, h₄, t₅, h₅, hmiddle⟩ := htimes
    obtain ⟨g₁, rfl⟩ := leads_groupColon.mp h₁
    obtain ⟨g₂, rfl⟩ := leads_groupColon.mp h₂
    obtain ⟨g₃, rfl⟩ := leads_groupColon.mp h₃
    obtain ⟨g₄, rfl⟩ := leads_groupColon.mp h₄
    obtain ⟨g₅, rfl⟩ := leads_groupColon.mp h₅
    refine ⟨![g₁, g₂, g₃, g₄, g₅, group], ?_⟩
    have hrest : t₅ = group.digits := by
      rw [← show middle = t₅ from hmiddle, htext, hend.2, List.append_nil]
    rw [hrest]
    rfl
  · rintro ⟨groups, rfl⟩
    refine ⟨(groups 5).digits, ⟨0, fun _ _ => Nat.zero_le _, ?_⟩, [], ?_, ?_⟩
    · exact ⟨_, leads_groupColon.mpr ⟨groups 0, rfl⟩, _, leads_groupColon.mpr ⟨groups 1, rfl⟩,
        _, leads_groupColon.mpr ⟨groups 2, rfl⟩, _, leads_groupColon.mpr ⟨groups 3, rfl⟩,
        _, leads_groupColon.mpr ⟨groups 4, rfl⟩, rfl⟩
    · exact leads_groupExpr.mpr ⟨groups 5, (List.append_nil _).symm⟩
    · rw [leads_then_empty]
      exact ⟨rfl, rfl⟩

/-! ## Lower case -/

theorem toLower_cases (c : Char) :
    c.toLower = c ∨ ∃ n : Fin 26, c = Char.ofNat (65 + n) := by
  by_cases hupper : c.val ≥ 'A'.val ∧ c.val ≤ 'Z'.val
  · refine .inr ⟨⟨c.toNat - 65, ?_⟩, ?_⟩
    · have hle : c.toNat ≤ 90 := hupper.2
      omega
    · have hge : 65 ≤ c.toNat := hupper.1
      rw [show 65 + (c.toNat - 65) = c.toNat by omega]
      exact (Char.ofNat_toNat c).symm
  · exact .inl (dif_neg hupper)

theorem hexSet_toLower (c : Char) :
    (hexSet.contains c.toLower = true ↔ hexSet.contains c = true) ∧
      (c.toLower = ':' ↔ c = ':') ∧ digitValue c.toLower = digitValue c := by
  cases toLower_cases c with
  | inl hsame => rw [hsame]; exact ⟨Iff.rfl, Iff.rfl, rfl⟩
  | inr hupper =>
      obtain ⟨n, rfl⟩ := hupper
      revert n
      decide +kernel

namespace MacGroup

def lower (group : MacGroup) : MacGroup where
  digits := group.digits.map Char.toLower
  length_le := by
    rw [List.length_map]
    exact group.length_le
  hex := by
    intro c hc
    obtain ⟨d, hd, rfl⟩ := List.mem_map.mp hc
    exact (hexSet_toLower d).1.mpr (group.hex d hd)

theorem exists_of_lower {text : Text} {group : MacGroup}
    (htext : text.map Char.toLower = group.digits) : ∃ raw : MacGroup, raw.digits = text := by
  refine ⟨⟨text, ?_, ?_⟩, rfl⟩
  · rw [← List.length_map (f := Char.toLower), htext]
    exact group.length_le
  · intro c hc
    apply (hexSet_toLower c).1.mp
    apply group.hex
    rw [← htext]
    exact List.mem_map_of_mem hc

end MacGroup

theorem map_toLower_joined (texts : Fin 6 → Text) :
    (joined texts).map Char.toLower = joined fun i => (texts i).map Char.toLower := by
  simp only [joined, List.map_append, List.map_cons]
  rfl

/-- A text that is a group and a colon in lower case is one as it is. -/
theorem split_lower {text rest : Text} {group : MacGroup}
    (htext : text.map Char.toLower = group.digits ++ ':' :: rest) :
    ∃ (raw : MacGroup) (after : Text), text = raw.digits ++ ':' :: after ∧
      after.map Char.toLower = rest := by
  obtain ⟨left, right, rfl, hleft, hright⟩ := List.map_eq_append_iff.mp htext
  obtain ⟨c, after, rfl, hc, hafter⟩ := List.map_eq_cons_iff.mp hright
  obtain ⟨raw, rfl⟩ := MacGroup.exists_of_lower hleft
  rw [(hexSet_toLower c).2.1.mp hc]
  exact ⟨raw, after, rfl, hafter⟩

theorem matchesPattern_lower (mac : Text) :
    matchesPattern macAddressPattern (mac.map Char.toLower) = true ↔
      ∃ groups : MacGroups, mac = joined fun i => (groups i).digits := by
  rw [matchesPattern_mac]
  constructor
  · rintro ⟨groups, hmac⟩
    obtain ⟨g₀, t₀, rfl, h₀⟩ := split_lower hmac
    obtain ⟨g₁, t₁, rfl, h₁⟩ := split_lower h₀
    obtain ⟨g₂, t₂, rfl, h₂⟩ := split_lower h₁
    obtain ⟨g₃, t₃, rfl, h₃⟩ := split_lower h₂
    obtain ⟨g₄, t₄, rfl, h₄⟩ := split_lower h₃
    obtain ⟨g₅, rfl⟩ := MacGroup.exists_of_lower h₄
    exact ⟨![g₀, g₁, g₂, g₃, g₄, g₅], rfl⟩
  · rintro ⟨groups, rfl⟩
    exact ⟨fun i => (groups i).lower, map_toLower_joined _⟩

/-! ## The three replacements -/

def leadingZeroExpr : Expr :=
  .seq (.chars (.single '0')) (.seq (.lookahead false
    (.seq (.chars ⟨false, [.range '0' '9', .range 'a' 'z']⟩) .empty)) .empty)

theorem compile_leadingZero : compile "0(?=[0-9a-z])".toList = some leadingZeroExpr := by
  decide +kernel

def gapExpr : Expr :=
  .alt (.seq (.chars (.single ':')) (.seq (.lookahead false
      (.seq (.chars (.single ':')) .empty)) .empty))
    (.seq (.chars (.single ':')) (.seq .inputEnd .empty))

theorem compile_gap : compile ":(?=:)|:$".toList = some gapExpr := by decide +kernel

def firstColonExpr : Expr := .seq .inputStart (.seq (.chars (.single ':')) .empty)

theorem compile_firstColon : compile "^:".toList = some firstColonExpr := by decide

/-- A zero with a digit or letter behind it. -/
def isLeadingZero (c : Char) (rest : Text) : Bool :=
  c = '0' && rest.head?.any (CharSet.contains ⟨false, [.range '0' '9', .range 'a' 'z']⟩)

/-- A colon with a colon or nothing behind it. -/
def isGap (c : Char) (rest : Text) : Bool := c = ':' && rest.head?.all (· = ':')

theorem replacePattern_leadingZero (text : Text) :
    replacePattern "0(?=[0-9a-z])".toList "".toList text = replaceOne isLeadingZero [] text := by
  rw [replacePattern_eq compile_leadingZero]
  apply replaceFrom_one
  intro c rest
  by_cases hc : c = '0'
  · cases rest with
    | nil => simp [leadingZeroExpr, run_seq, run_chars_cons, run_lookahead, isLeadingZero, hc]
    | cons d rest =>
        by_cases hd : CharSet.contains ⟨false, [.range '0' '9', .range 'a' 'z']⟩ d = true
        · simp [leadingZeroExpr, run_seq, run_chars_cons, run_lookahead, isLeadingZero, hc, hd]
        · simp [leadingZeroExpr, run_seq, run_chars_cons, run_lookahead, isLeadingZero, hc, hd]
  · simp [leadingZeroExpr, run_seq, run_chars_cons, isLeadingZero, hc]

theorem replacePattern_gap (text : Text) :
    replacePattern ":(?=:)|:$".toList ":0".toList text = replaceOne isGap [':', '0'] text := by
  rw [replacePattern_eq compile_gap]
  apply replaceFrom_one
  intro c rest
  by_cases hc : c = ':'
  · cases rest with
    | nil =>
        simp [gapExpr, run_alt, run_seq, run_chars_cons, run_lookahead, run_inputEnd, isGap, hc]
    | cons d rest =>
        by_cases hd : d = ':'
        · simp [gapExpr, run_alt, run_seq, run_chars_cons, run_lookahead, isGap, hc, hd]
        · simp [gapExpr, run_alt, run_seq, run_chars_cons, run_lookahead, run_inputEnd, isGap, hc,
            hd]
  · simp [gapExpr, run_alt, run_seq, run_chars_cons, isGap, hc]

/-- A zero in front of a colon at the start. -/
def fillFirst : Text → Text
  | [] => []
  | c :: rest => if c = ':' then '0' :: ':' :: rest else c :: rest

theorem replacePattern_firstColon (text : Text) :
    replacePattern "^:".toList "0:".toList text = fillFirst text := by
  have hlater : ∀ total text, text.length < total →
      replaceFrom firstColonExpr "0:".toList total text.length text = text := by
    intro total text htotal
    induction text with
    | nil => rfl
    | cons c rest ih =>
        have hnot : rest.length + 1 ≠ total := Nat.ne_of_lt htotal
        rw [List.length_cons, replaceFrom, firstColonExpr, run_seq]
        simp [Expr.run, hnot]
        exact ih (Nat.lt_of_succ_lt htotal)
  rw [replacePattern_eq compile_firstColon, replaceAll]
  cases text with
  | nil => rfl
  | cons c rest =>
      have hrest := hlater (rest.length + 1) rest (Nat.lt_succ_self _)
      rw [List.length_cons, replaceFrom, firstColonExpr, run_seq]
      by_cases hc : c = ':'
      · simp [Expr.run, hc, fillFirst]
        exact hrest
      · simp [Expr.run, hc, fillFirst]
        exact hrest

/-! ## Group by group -/

/-- A group without its leading zero. -/
def strip : Text → Text
  | [c, d] => if c = '0' then [d] else [c, d]
  | text => text

/-- An empty group is a zero. -/
def fill (text : Text) : Text := if text = [] then ['0'] else text

/-- Behind a group there is a colon or nothing. -/
def EndsGroup (rest : Text) : Prop := rest.head?.all (· = ':') = true

theorem endsGroup_nil : EndsGroup [] := rfl

theorem endsGroup_colon (rest : Text) : EndsGroup (':' :: rest) := rfl

theorem isLeadingZero_ends {rest : Text} (hrest : EndsGroup rest) (c : Char) :
    isLeadingZero c rest = false := by
  cases rest with
  | nil => simp [isLeadingZero]
  | cons d rest =>
      have hd : d = ':' := by simpa [EndsGroup] using hrest
      rw [isLeadingZero, List.head?_cons, Option.any_some, hd]
      simp only [Bool.and_eq_false_iff]
      exact .inr (by decide)

theorem isLeadingZero_digit {d : Char} (hd : hexSet.contains d = true) (rest : Text) :
    isLeadingZero '0' (d.toLower :: rest) = true := by
  have hall : hexChars.all (fun d =>
      CharSet.contains ⟨false, [.range '0' '9', .range 'a' 'z']⟩ d.toLower) = true := by
    decide
  rw [isLeadingZero, List.head?_cons, Option.any_some, of_hexChars hall hd]
  rfl

theorem replaceOne_leadingZero (group : MacGroup) {rest : Text} (hrest : EndsGroup rest) :
    replaceOne isLeadingZero [] (group.digits.map Char.toLower ++ rest) =
      strip (group.digits.map Char.toLower) ++ replaceOne isLeadingZero [] rest := by
  have hlength := group.length_le
  have hhex := group.hex
  generalize group.digits = digits at hlength hhex
  match digits, hlength, hhex with
  | [], _, _ => rfl
  | [c], _, _ =>
      rw [List.map_singleton, List.singleton_append, replaceOne, isLeadingZero_ends hrest]
      rfl
  | [c, d], _, hhex =>
      have hd := hhex d (List.mem_cons_of_mem c List.mem_cons_self)
      simp only [List.map_cons, List.map_nil, List.cons_append, List.nil_append, replaceOne,
        isLeadingZero_ends hrest, strip]
      by_cases hc : c.toLower = '0'
      · rw [hc, isLeadingZero_digit hd]
        simp
      · have hnot : isLeadingZero c.toLower (d.toLower :: rest) = false := by
          simp [isLeadingZero, hc]
        simp [hnot, hc]

theorem replaceOne_gap {text rest : Text} (htext : ':' ∉ text) :
    replaceOne isGap [':', '0'] (text ++ rest) = text ++ replaceOne isGap [':', '0'] rest := by
  induction text with
  | nil => rfl
  | cons c text ih =>
      have hc : c ≠ ':' := fun heq => htext (heq ▸ List.mem_cons_self)
      have hnot : isGap c (text ++ rest) = false := by simp [isGap, hc]
      rw [List.cons_append, replaceOne, hnot, ih (List.not_mem_of_not_mem_cons htext)]
      rfl

theorem replaceOne_colon {text rest : Text} (htext : ':' ∉ text) (hrest : EndsGroup rest) :
    replaceOne isGap [':', '0'] (':' :: (text ++ rest)) =
      ':' :: (fill text ++ replaceOne isGap [':', '0'] rest) := by
  rw [replaceOne, replaceOne_gap htext]
  cases text with
  | nil =>
      have hgap : isGap ':' rest = true := by
        rw [isGap, hrest]
        rfl
      rw [List.nil_append, hgap]
      rfl
  | cons c text =>
      have hc : c ≠ ':' := fun heq => htext (heq ▸ List.mem_cons_self)
      have hnot : isGap ':' (c :: text ++ rest) = false := by simp [isGap, hc]
      rw [hnot]
      rfl

theorem fillFirst_eq {text : Text} (htext : ':' ∉ text) (rest : Text) :
    fillFirst (text ++ ':' :: rest) = fill text ++ ':' :: rest := by
  cases text with
  | nil => rfl
  | cons c text =>
      have hc : c ≠ ':' := fun heq => htext (heq ▸ List.mem_cons_self)
      rw [List.cons_append, fillFirst, if_neg hc]
      rfl

/-! ## The number of each group -/

/-- `std::hex << (int)` of a byte: lower case, without leading zeros. -/
def hexText (byte : Byte) : Text := Nat.toDigits 16 byte.val

/-- What `TCP_Socket::getMAC` returns for the six bytes of an interface. -/
def getMAC (hwaddr : Fin 6 → Byte) : Text :=
  hexText (hwaddr 0) ++ ":".toList ++ (hexText (hwaddr 1) ++ ":".toList ++
    (hexText (hwaddr 2) ++ ":".toList ++ (hexText (hwaddr 3) ++ ":".toList ++
      (hexText (hwaddr 4) ++ ":".toList ++ hexText (hwaddr 5)))))

/-- A group without its leading zero, and not empty, is its number printed. -/
theorem fill_strip (group : MacGroup) :
    fill (strip (group.digits.map Char.toLower)) = hexText group.value := by
  have hnone : fill (strip []) = Nat.toDigits 16 0 := by decide
  have hone : hexChars.all (fun c =>
      fill (strip [c.toLower]) = Nat.toDigits 16 (digitValue c)) = true := by decide
  have htwo : hexChars.all (fun c => hexChars.all fun d =>
      fill (strip [c.toLower, d.toLower]) =
        Nat.toDigits 16 (16 * digitValue c + digitValue d)) = true := by decide +kernel
  unfold hexText MacGroup.value
  obtain ⟨digits, hlength, hhex⟩ := group
  match digits, hlength, hhex with
  | [], _, _ => exact hnone
  | [c], _, hhex =>
      have hc := of_hexChars hone (hhex c List.mem_cons_self)
      simpa using hc
  | [c, d], _, hhex =>
      have hd := of_hexChars (of_hexChars htwo (hhex c List.mem_cons_self))
        (hhex d (List.mem_cons_of_mem c List.mem_cons_self))
      simpa using hd

theorem mem_of_mem_strip {text : Text} {c : Char} (hmem : c ∈ strip text) : c ∈ text := by
  unfold strip at hmem
  split at hmem
  · split at hmem
    · exact List.mem_cons_of_mem _ hmem
    · exact hmem
  · exact hmem

theorem colon_notMem_strip (group : MacGroup) : ':' ∉ strip (group.digits.map Char.toLower) := by
  have hlower : ':' ∉ group.digits.map Char.toLower := by
    intro hmem
    obtain ⟨c, hc, hcolon⟩ := List.mem_map.mp hmem
    have hhex := group.hex c hc
    rw [(hexSet_toLower c).2.1.mp hcolon] at hhex
    exact absurd hhex (by decide)
  exact fun hmem => hlower (mem_of_mem_strip hmem)

/-- The first replacement, in every group. -/
theorem leadingZero_joined (groups : MacGroups) :
    replaceOne isLeadingZero [] (joined fun i => (groups i).digits.map Char.toLower) =
      joined fun i => strip ((groups i).digits.map Char.toLower) := by
  have hcolon : ∀ rest, replaceOne isLeadingZero [] (':' :: rest) =
      ':' :: replaceOne isLeadingZero [] rest := fun rest => rfl
  have hlast := replaceOne_leadingZero (groups 5) endsGroup_nil
  rw [List.append_nil, replaceOne, List.append_nil] at hlast
  simp only [joined]
  rw [replaceOne_leadingZero (groups 0) (endsGroup_colon _), hcolon,
    replaceOne_leadingZero (groups 1) (endsGroup_colon _), hcolon,
    replaceOne_leadingZero (groups 2) (endsGroup_colon _), hcolon,
    replaceOne_leadingZero (groups 3) (endsGroup_colon _), hcolon,
    replaceOne_leadingZero (groups 4) (endsGroup_colon _), hcolon, hlast]

/-- The other two: the second fills every group but the first, the third that. -/
theorem gaps_joined {texts : Fin 6 → Text} (htexts : ∀ i, ':' ∉ texts i) :
    fillFirst (replaceOne isGap [':', '0'] (joined texts)) = joined fun i => fill (texts i) := by
  have hlast := replaceOne_colon (htexts 5) endsGroup_nil
  rw [List.append_nil, replaceOne, List.append_nil] at hlast
  simp only [joined]
  rw [replaceOne_gap (htexts 0), replaceOne_colon (htexts 1) (endsGroup_colon _),
    replaceOne_colon (htexts 2) (endsGroup_colon _),
    replaceOne_colon (htexts 3) (endsGroup_colon _),
    replaceOne_colon (htexts 4) (endsGroup_colon _), hlast, fillFirst_eq (htexts 0)]

theorem getMAC_eq (hwaddr : Fin 6 → Byte) : getMAC hwaddr = joined fun i => hexText (hwaddr i) := by
  simp [getMAC, joined]

/-- Six groups are rewritten to the six bytes they stand for, as `getMAC` prints
them. -/
theorem validateMacAddress_joined (groups : MacGroups) :
    validateMacAddress (joined fun i => (groups i).digits) =
      some (getMAC fun i => (groups i).value) := by
  have hmatch := (matchesPattern_lower _).mpr ⟨groups, rfl⟩
  rw [validateMacAddress]
  simp only [hmatch, if_true]
  rw [replacePattern_leadingZero, replacePattern_gap, replacePattern_firstColon,
    map_toLower_joined, leadingZero_joined, gaps_joined fun i => colon_notMem_strip (groups i),
    getMAC_eq]
  simp only [fill_strip]

/-! ## Printing and reading -/

/-- The number that digits stand for. -/
def readHex (digits : Text) : Nat := digits.foldl (fun value c => 16 * value + digitValue c) 0

theorem hexText_digits (byte : Byte) :
    (hexText byte).length ≤ 2 ∧ (∀ c ∈ hexText byte, hexSet.contains c = true) ∧
      readHex (hexText byte) = byte := by
  have hall : ∀ byte : Byte, (hexText byte).length ≤ 2 ∧
      (hexText byte).all hexSet.contains = true ∧ readHex (hexText byte) = byte := by
    decide +kernel
  obtain ⟨hlength, hhex, hvalue⟩ := hall byte
  exact ⟨hlength, List.all_eq_true.mp hhex, hvalue⟩

theorem hexText_injective : Function.Injective hexText := by
  intro left right heq
  apply Fin.ext
  rw [← (hexText_digits left).2.2, heq, (hexText_digits right).2.2]

theorem colon_notMem_hexText (byte : Byte) : ':' ∉ hexText byte := by
  intro hmem
  exact absurd ((hexText_digits byte).2.1 _ hmem) (by decide)

/-- The group that is printed of a byte. -/
def MacGroup.ofByte (byte : Byte) : MacGroup where
  digits := hexText byte
  length_le := (hexText_digits byte).1
  hex := (hexText_digits byte).2.1

theorem MacGroup.value_ofByte (byte : Byte) : (MacGroup.ofByte byte).value = byte :=
  Fin.ext (hexText_digits byte).2.2

theorem joined_injective {left right : Fin 6 → Text} (hleft : ∀ i, ':' ∉ left i)
    (hright : ∀ i, ':' ∉ right i) (heq : joined left = joined right) : ∀ i, left i = right i := by
  obtain ⟨h₀, heq⟩ := append_cons_inj (hleft 0) (hright 0) heq
  obtain ⟨h₁, heq⟩ := append_cons_inj (hleft 1) (hright 1) heq
  obtain ⟨h₂, heq⟩ := append_cons_inj (hleft 2) (hright 2) heq
  obtain ⟨h₃, heq⟩ := append_cons_inj (hleft 3) (hright 3) heq
  obtain ⟨h₄, h₅⟩ := append_cons_inj (hleft 4) (hright 4) heq
  intro i
  match i with
  | 0 => exact h₀
  | 1 => exact h₁
  | 2 => exact h₂
  | 3 => exact h₃
  | 4 => exact h₄
  | 5 => exact h₅

theorem getMAC_injective : Function.Injective getMAC := by
  intro left right heq
  rw [getMAC_eq, getMAC_eq] at heq
  funext i
  exact hexText_injective (joined_injective (fun i => colon_notMem_hexText (left i))
    (fun i => colon_notMem_hexText (right i)) heq i)

/-- What `getMAC` returns is accepted as it is. -/
theorem validateMacAddress_getMAC (hwaddr : Fin 6 → Byte) :
    validateMacAddress (getMAC hwaddr) = some (getMAC hwaddr) := by
  have hgroups := validateMacAddress_joined fun i => MacGroup.ofByte (hwaddr i)
  simp only [MacGroup.value_ofByte] at hgroups
  rw [getMAC_eq] at hgroups ⊢
  exact hgroups

theorem exists_groups {mac canonical : Text} (haccepted : validateMacAddress mac = some canonical) :
    ∃ groups : MacGroups, mac = joined fun i => (groups i).digits := by
  rw [validateMacAddress] at haccepted
  simp only at haccepted
  split at haccepted
  · rename_i hmatch
    exact (matchesPattern_lower mac).mp hmatch
  · cases haccepted

/-- Exactly six groups of at most two digits are accepted; they are rewritten to
the bytes they stand for, as `getMAC` prints them; a rewritten address is
accepted as it is; and two addresses are rewritten to one text exactly if they
stand for the same bytes. -/
theorem mac_canonical :
    (∀ mac, (∃ canonical, validateMacAddress mac = some canonical) ↔
        ∃ groups : MacGroups, mac = joined fun i => (groups i).digits) ∧
      (∀ groups : MacGroups, validateMacAddress (joined fun i => (groups i).digits) =
        some (getMAC fun i => (groups i).value)) ∧
      (∀ mac canonical, validateMacAddress mac = some canonical →
        validateMacAddress canonical = some canonical) ∧
      ∀ groups groups' : MacGroups,
        validateMacAddress (joined fun i => (groups i).digits) =
            validateMacAddress (joined fun i => (groups' i).digits) ↔
          ∀ i, (groups i).value = (groups' i).value := by
  refine ⟨fun mac => ⟨?_, ?_⟩, validateMacAddress_joined, ?_, ?_⟩
  · rintro ⟨canonical, haccepted⟩
    exact exists_groups haccepted
  · rintro ⟨groups, rfl⟩
    exact ⟨_, validateMacAddress_joined groups⟩
  · intro mac canonical haccepted
    obtain ⟨groups, rfl⟩ := exists_groups haccepted
    rw [validateMacAddress_joined, Option.some.injEq] at haccepted
    rw [← haccepted]
    exact validateMacAddress_getMAC _
  · intro groups groups'
    rw [validateMacAddress_joined, validateMacAddress_joined, Option.some.injEq,
      getMAC_injective.eq_iff, funext_iff]

end Validator

end PdsBackup
