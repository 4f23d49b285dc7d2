import PdsBackup.Common.Hash
import Mathlib.Data.List.Induction

/-!
# The hexadecimal codec on the chars of the code

`Hash` describes the notation the databases keep.  Here `RandomNumberGenerator`
computes it the way the code does, on signed chars: the digits by shifts and
masks, their values from a table of 256 entries, and the input read through an
iterator that nothing keeps from being advanced past the end.
-/

namespace PdsBackup.RandomNumberGenerator

/-- A `char` is a signed byte, a `std::string` any sequence of them. -/
abbrev CString := List Int8

inductive Fault where
  | invalidArgument (what : Text)
  /-- an iterator is dereferenced at the end: the behaviour is undefined -/
  | pastEnd
  deriving DecidableEq

/-- `"0123456789ABCDEF"`, without its terminating zero, which no index reaches. -/
def hexDigits : CString :=
  [48, 49, 50, 51, 52, 53, 54, 55, 56, 57, 65, 66, 67, 68, 69, 70]

/-- What an index up to fifteen picks of `hexDigits`. -/
def hexDigit (index : UInt8) : Int8 := hexDigits.getD index.toNat 0

def stringToHex (input : CString) : CString :=
  input.flatMap fun c =>
    [hexDigit (c.toUInt8 >>> (4 : UInt8)), hexDigit (c.toUInt8 &&& (15 : UInt8))]

/-- From an ASCII code to the value of the digit. -/
def hexValues : List Int8 :=
  [-1, -1, -1, -1, -1, -1, -1, -1, -1, -1, -1, -1, -1, -1, -1, -1,
   -1, -1, -1, -1, -1, -1, -1, -1, -1, -1, -1, -1, -1, -1, -1, -1,
   -1, -1, -1, -1, -1, -1, -1, -1, -1, -1, -1, -1, -1, -1, -1, -1,
    0,  1,  2,  3,  4,  5,  6,  7,  8,  9, -1, -1, -1, -1, -1, -1,
   -1, 10, 11, 12, 13, 14, 15, -1, -1, -1, -1, -1, -1, -1, -1, -1,
   -1, -1, -1, -1, -1, -1, -1, -1, -1, -1, -1, -1, -1, -1, -1, -1,
   -1, 10, 11, 12, 13, 14, 15, -1, -1, -1, -1, -1, -1, -1, -1, -1,
   -1, -1, -1, -1, -1, -1, -1, -1, -1, -1, -1, -1, -1, -1, -1, -1,
   -1, -1, -1, -1, -1, -1, -1, -1, -1, -1, -1, -1, -1, -1, -1, -1,
   -1, -1, -1, -1, -1, -1, -1, -1, -1, -1, -1, -1, -1, -1, -1, -1,
   -1, -1, -1, -1, -1, -1, -1, -1, -1, -1, -1, -1, -1, -1, -1, -1,
   -1, -1, -1, -1, -1, -1, -1, -1, -1, -1, -1, -1, -1, -1, -1, -1,
   -1, -1, -1, -1, -1, -1, -1, -1, -1, -1, -1, -1, -1, -1, -1, -1,
   -1, -1, -1, -1, -1, -1, -1, -1, -1, -1, -1, -1, -1, -1, -1, -1,
   -1, -1, -1, -1, -1, -1, -1, -1, -1, -1, -1, -1, -1, -1, -1, -1,
   -1, -1, -1, -1, -1, -1, -1, -1, -1, -1, -1, -1, -1, -1, -1, -1]

/-- The entry there is to be for the character of a code. -/
def entryOf (code : Nat) : Int32 :=
  match PdsBackup.hexValue (Char.ofNat code) with
  | some value => Int32.ofNat value
  | none => -1

theorem hexValues_eq : hexValues.map Int8.toInt32 = (List.range 256).map entryOf := by
  decide +kernel

theorem hexValues_length : hexValues.length = 256 := by
  have hlength := congrArg List.length hexValues_eq
  rwa [List.length_map, List.length_map, List.length_range] at hlength

/-- An `unsigned char` is always an index of the table. -/
def hexValue (digit : UInt8) : Except Fault Int32 :=
  let value := (hexValues.get (Fin.cast hexValues_length.symm digit.toFin)).toInt32
  if value = -1 then .error (.invalidArgument "invalid hex digit".toList) else .ok value

/-- The loop of `hex_to_string`; the iterator is what it has not passed yet.  It
is compared with the end once in two steps. -/
def decode : CString → CString → Except Fault CString
  | [], output => .ok output
  | c :: it, output => do
      let hi ← hexValue c.toUInt8
      match it with
      | [] => .error .pastEnd
      | d :: it =>
          let lo ← hexValue d.toUInt8
          decode it (output ++ [(hi <<< 4 ||| lo).toInt8])

def hexToString (input : CString) : Except Fault CString :=
  if input.length % 2 = 1 then .error (.invalidArgument "odd length".toList)
  else decode input []

/-! ## One digit -/

/-- A hexadecimal digit of either case. -/
def IsHexDigit (c : Int8) : Prop :=
  (48 ≤ c ∧ c ≤ 57) ∨ (65 ≤ c ∧ c ≤ 70) ∨ (97 ≤ c ∧ c ≤ 102)

instance (c : Int8) : Decidable (IsHexDigit c) := inferInstanceAs (Decidable (_ ∨ _))

/-- `toupper` in the "C" locale. -/
def upper (c : Int8) : Int8 := if 97 ≤ c ∧ c ≤ 122 then c - 32 else c

/-- The byte of a char, as files and hashes have it. -/
def byteOf (c : Int8) : Byte := c.toUInt8.toFin

/-- The letter of a char, as the columns of a row have it. -/
def letterOf (c : Int8) : Char := Char.ofNat c.toUInt8.toNat

/-- What holds of every pattern of eight bits holds of every char. -/
theorem forall_char {P : Int8 → Prop} (h : ∀ bits : BitVec 8, P ⟨⟨bits⟩⟩) (c : Int8) : P c :=
  h c.toUInt8.toBitVec

theorem hexValue_eq (digit : UInt8) :
    hexValue digit = if entryOf digit.toNat = -1
      then .error (.invalidArgument "invalid hex digit".toList)
      else .ok (entryOf digit.toNat) := by
  have hlt : digit.toNat < hexValues.length := by
    rw [hexValues_length]
    exact digit.toNat_lt
  have hentry : (hexValues.map Int8.toInt32)[digit.toNat]? =
      some (hexValues.get ⟨digit.toNat, hlt⟩).toInt32 := by
    rw [List.getElem?_map, List.getElem?_eq_getElem hlt]
    rfl
  rw [hexValues_eq, List.getElem?_map, List.getElem?_range digit.toNat_lt] at hentry
  rw [Option.some.inj hentry]
  rfl

/-- The table against the digits: which entries are not `-1`, and which digit
prints each of the others. -/
theorem hexValue_digit (c : Int8) :
    (IsHexDigit c ∧ ∃ value : Fin 16, hexValue c.toUInt8 = .ok (Int32.ofNat value) ∧
        hexDigit (UInt8.ofNat value) = upper c ∧ PdsBackup.hexValue (letterOf c) = some value) ∨
      (¬ IsHexDigit c ∧
        hexValue c.toUInt8 = .error (.invalidArgument "invalid hex digit".toList) ∧
        PdsBackup.hexValue (letterOf c) = none) := by
  have hvalues : ∀ value : Fin 16, Int32.ofNat value ≠ -1 := by decide
  have hall : ∀ c : Int8, (IsHexDigit c ↔ (PdsBackup.hexValue (letterOf c)).isSome = true) ∧
      (PdsBackup.hexValue (letterOf c)).all
        (fun value => hexDigit (UInt8.ofNat value) = upper c) = true := by
    apply forall_char
    decide +kernel
  obtain ⟨hdigit, hupper⟩ := hall c
  rw [hexValue_eq, entryOf, ← letterOf]
  cases hletter : PdsBackup.hexValue (letterOf c) with
  | some value =>
      rw [hletter] at hdigit hupper
      exact .inl ⟨hdigit.mpr rfl, value, if_neg (hvalues value), of_decide_eq_true hupper, rfl⟩
  | none =>
      rw [hletter] at hdigit
      exact .inr ⟨fun hhex => Bool.false_ne_true (hdigit.mp hhex), if_pos rfl, rfl⟩

/-- The digits of a char, and the char they are put together to. -/
theorem digits_of_char (c : Int8) :
    c.toUInt8 >>> (4 : UInt8) = UInt8.ofNat ((byteOf c).val / 16) ∧
      c.toUInt8 &&& (15 : UInt8) = UInt8.ofNat ((byteOf c).val % 16) ∧
      (Int32.ofNat ((byteOf c).val / 16) <<< 4 ||| Int32.ofNat ((byteOf c).val % 16)).toInt8 =
        c := by
  revert c
  apply forall_char
  decide

theorem digit_of_value (value : Fin 16) :
    hexValue (hexDigit (UInt8.ofNat value)).toUInt8 = .ok (Int32.ofNat value) ∧
      letterOf (hexDigit (UInt8.ofNat value)) = PdsBackup.hexDigit value := by
  revert value
  decide

/-- The two digits printed of a char are put together to that char. -/
theorem hexValue_hexDigit (c : Int8) :
    (do
      let hi ← hexValue (hexDigit (c.toUInt8 >>> (4 : UInt8))).toUInt8
      let lo ← hexValue (hexDigit (c.toUInt8 &&& (15 : UInt8))).toUInt8
      pure (hi <<< 4 ||| lo).toInt8) = .ok c := by
  have hbyte := (byteOf c).isLt
  have hhigh := (digit_of_value ⟨(byteOf c).val / 16, by omega⟩).1
  have hlow := (digit_of_value ⟨(byteOf c).val % 16, by omega⟩).1
  obtain ⟨hshift, hmask, hchar⟩ := digits_of_char c
  rw [hshift, hmask, hhigh, hlow]
  exact congrArg Except.ok hchar

/-- Two values below sixteen are the shifted and the masked byte of what they
are put together to. -/
theorem nibbles (hi lo : Fin 16) :
    let c := (Int32.ofNat hi <<< 4 ||| Int32.ofNat lo).toInt8
    c.toUInt8 >>> (4 : UInt8) = UInt8.ofNat hi ∧ c.toUInt8 &&& (15 : UInt8) = UInt8.ofNat lo ∧
      (byteOf c).val = hi.val * 16 + lo.val := by
  revert hi lo
  decide

/-! ## Whole strings -/

theorem stringToHex_cons (c : Int8) (input : CString) :
    stringToHex (c :: input) =
      hexDigit (c.toUInt8 >>> (4 : UInt8)) :: hexDigit (c.toUInt8 &&& (15 : UInt8)) ::
        stringToHex input := rfl

theorem stringToHex_length (input : CString) :
    (stringToHex input).length = 2 * input.length := by
  induction input with
  | nil => rfl
  | cons c input ih =>
      rw [stringToHex_cons, List.length_cons, List.length_cons, ih, List.length_cons]
      omega

/-- One round of the loop on what was printed of a char. -/
theorem decode_printed (c : Int8) (it output : CString) :
    decode (hexDigit (c.toUInt8 >>> (4 : UInt8)) :: hexDigit (c.toUInt8 &&& (15 : UInt8)) :: it)
        output = decode it (output ++ [c]) := by
  have hc := hexValue_hexDigit c
  rw [decode]
  cases hhi : hexValue (hexDigit (c.toUInt8 >>> (4 : UInt8))).toUInt8 with
  | error fault =>
      rw [hhi] at hc
      cases hc
  | ok hi =>
      cases hlo : hexValue (hexDigit (c.toUInt8 &&& (15 : UInt8))).toUInt8 with
      | error fault =>
          rw [hhi, hlo] at hc
          cases hc
      | ok lo =>
          rw [hhi, hlo] at hc
          have hput : (hi <<< 4 ||| lo).toInt8 = c := Except.ok.inj hc
          show (hexValue (hexDigit (c.toUInt8 &&& (15 : UInt8))).toUInt8 >>= fun lo => _) = _
          rw [hlo]
          show decode it (output ++ [(hi <<< 4 ||| lo).toInt8]) = _
          rw [hput]

theorem decode_stringToHex (input output : CString) :
    decode (stringToHex input) output = .ok (output ++ input) := by
  induction input generalizing output with
  | nil => rw [List.append_nil]; rfl
  | cons c input ih => rw [stringToHex_cons, decode_printed, ih, List.append_assoc]; rfl

theorem hexToString_stringToHex (input : CString) :
    hexToString (stringToHex input) = .ok input := by
  rw [hexToString, if_neg (by rw [stringToHex_length]; omega), decode_stringToHex]
  rfl

/-- A string of digits of even length is read to the end, and what was read
prints as the string in upper case. -/
theorem decode_digits (it output : CString) (heven : it.length % 2 = 0)
    (hdigits : ∀ c ∈ it, IsHexDigit c) :
    ∃ s, decode it output = .ok (output ++ s) ∧ stringToHex s = it.map upper := by
  induction it using List.twoStepInduction generalizing output with
  | nil => exact ⟨[], by rw [List.append_nil]; rfl, rfl⟩
  | singleton c => cases heven
  | cons_cons c d it ih _ =>
      have hsub : ∀ x ∈ it, IsHexDigit x := fun x hx =>
        hdigits x (List.mem_cons_of_mem c (List.mem_cons_of_mem d hx))
      have hlength : it.length % 2 = 0 := by
        rw [List.length_cons, List.length_cons] at heven
        omega
      cases hexValue_digit c with
      | inr hno => exact absurd (hdigits c List.mem_cons_self) hno.1
      | inl hc =>
          cases hexValue_digit d with
          | inr hno => exact absurd (hdigits d (List.mem_cons_of_mem c List.mem_cons_self)) hno.1
          | inl hd =>
              cases hc.2 with
              | intro hi hhi =>
                  cases hd.2 with
                  | intro lo hlo =>
                      let byte := (Int32.ofNat hi <<< 4 ||| Int32.ofNat lo).toInt8
                      cases ih (output ++ [byte]) hlength hsub with
                      | intro s hs =>
                          refine ⟨byte :: s, ?_, ?_⟩
                          · rw [decode, hhi.1]
                            show (hexValue d.toUInt8 >>= fun lo => _) = _
                            rw [hlo.1]
                            show decode it (output ++ [byte]) = _
                            rw [hs.1, List.append_assoc]
                            rfl
                          · rw [stringToHex_cons, (nibbles hi lo).1, (nibbles hi lo).2.1,
                              hhi.2.1, hlo.2.1, hs.2]
                            rfl

/-- Where a char is no digit, the loop raises the exception there, or at an
earlier such char. -/
theorem decode_invalid (it output : CString) (heven : it.length % 2 = 0)
    (hinvalid : ¬ ∀ c ∈ it, IsHexDigit c) :
    decode it output = .error (.invalidArgument "invalid hex digit".toList) := by
  induction it using List.twoStepInduction generalizing output with
  | nil => exact absurd (fun c hc => absurd hc List.not_mem_nil) hinvalid
  | singleton c => cases heven
  | cons_cons c d it ih _ =>
      have hlength : it.length % 2 = 0 := by
        rw [List.length_cons, List.length_cons] at heven
        omega
      rw [decode]
      cases hexValue_digit c with
      | inr hno => rw [hno.2.1]; rfl
      | inl hc =>
          cases hc.2 with
          | intro hi hhi =>
              rw [hhi.1]
              show (hexValue d.toUInt8 >>= fun lo => _) = _
              cases hexValue_digit d with
              | inr hno => rw [hno.2.1]; rfl
              | inl hd =>
                  cases hd.2 with
                  | intro lo hlo =>
                      rw [hlo.1]
                      apply ih _ hlength
                      intro hrest
                      apply hinvalid
                      intro x hx
                      cases List.mem_cons.1 hx with
                      | inl heq => rw [heq]; exact hc.1
                      | inr hx =>
                          cases List.mem_cons.1 hx with
                          | inl heq => rw [heq]; exact hd.1
                          | inr hx => exact hrest x hx

/-- What the notation of a byte string is: an even number of digits. -/
def IsHex (h : CString) : Prop := h.length % 2 = 0 ∧ ∀ c ∈ h, IsHexDigit c

theorem hexToString_of_isHex {h : CString} (hhex : IsHex h) :
    ∃ s, hexToString h = .ok s ∧ stringToHex s = h.map upper := by
  rw [hexToString, if_neg (by rw [hhex.1]; decide)]
  exact decode_digits h [] hhex.1 hhex.2

theorem hexToString_of_not_isHex {h : CString} (hhex : ¬ IsHex h) :
    ∃ what, hexToString h = .error (.invalidArgument what) := by
  cases Nat.mod_two_eq_zero_or_one h.length with
  | inr hodd => exact ⟨_, if_pos hodd⟩
  | inl heven =>
      apply Exists.intro
      rw [hexToString, if_neg (by rw [heven]; decide)]
      exact decode_invalid h [] heven fun hdigits => hhex ⟨heven, hdigits⟩

/-- The codec: what was printed is read back, exactly the strings of an even
number of digits are read, each to bytes that print as the string in upper
case, and every other string is refused with an exception before the end of it
is passed. -/
theorem hex_codec :
    (∀ s, hexToString (stringToHex s) = .ok s) ∧
      (∀ h, (∃ s, hexToString h = .ok s) ↔ h.length % 2 = 0 ∧ ∀ c ∈ h, IsHexDigit c) ∧
      (∀ h s, hexToString h = .ok s → stringToHex s = h.map upper) ∧
      (∀ h, ¬ (h.length % 2 = 0 ∧ ∀ c ∈ h, IsHexDigit c) →
        ∃ what, hexToString h = .error (.invalidArgument what)) ∧
      ∀ h, hexToString h ≠ .error .pastEnd := by
  refine ⟨hexToString_stringToHex, fun h => ⟨fun hread => ?_, fun hhex => ?_⟩,
    fun h s hread => ?_, fun h => hexToString_of_not_isHex, fun h hpast => ?_⟩
  · by_contra hhex
    cases hread with
    | intro s hs =>
        cases hexToString_of_not_isHex hhex with
        | intro what hwhat =>
            rw [hs] at hwhat
            cases hwhat
  · cases hexToString_of_isHex hhex with
    | intro s hs => exact ⟨s, hs.1⟩
  · by_cases hhex : IsHex h
    · cases hexToString_of_isHex hhex with
      | intro t ht =>
          rw [hread] at ht
          rw [Except.ok.inj ht.1, ht.2]
    · cases hexToString_of_not_isHex hhex with
      | intro what hwhat =>
          rw [hread] at hwhat
          cases hwhat
  · by_cases hhex : IsHex h
    · cases hexToString_of_isHex hhex with
      | intro s hs =>
          rw [hpast] at hs
          cases hs.1
    · cases hexToString_of_not_isHex hhex with
      | intro what hwhat =>
          rw [hpast] at hwhat
          cases hwhat

/-! ## The notation the databases keep -/

theorem hexDigit_eq (c : Int8) :
    letterOf (hexDigit (c.toUInt8 >>> (4 : UInt8))) =
        PdsBackup.hexDigit ⟨(byteOf c).val / 16, by omega⟩ ∧
      letterOf (hexDigit (c.toUInt8 &&& (15 : UInt8))) =
        PdsBackup.hexDigit ⟨(byteOf c).val % 16, by omega⟩ := by
  have hbyte := (byteOf c).isLt
  have hhigh := (digit_of_value ⟨(byteOf c).val / 16, by omega⟩).2
  have hlow := (digit_of_value ⟨(byteOf c).val % 16, by omega⟩).2
  obtain ⟨hshift, hmask, -⟩ := digits_of_char c
  rw [hshift, hmask]
  exact ⟨hhigh, hlow⟩

/-- The codec prints the notation of `Hash`. -/
theorem stringToHex_eq (input : CString) :
    (stringToHex input).map letterOf = PdsBackup.stringToHex (input.map byteOf) := by
  induction input with
  | nil => rfl
  | cons c input ih =>
      rw [stringToHex_cons, List.map_cons, List.map_cons, ih, (hexDigit_eq c).1, (hexDigit_eq c).2]
      rfl

/-- The loop against the recursion of `Hash`, round by round. -/
theorem decode_eq (it output : CString) (heven : it.length % 2 = 0) :
    (decode it output).toOption.map (List.map byteOf) =
      (PdsBackup.hexToString (it.map letterOf)).map (output.map byteOf ++ ·) := by
  induction it using List.twoStepInduction generalizing output with
  | nil => simp [decode, PdsBackup.hexToString, Except.toOption]
  | singleton c => cases heven
  | cons_cons c d it ih _ =>
      have hlength : it.length % 2 = 0 := by
        rw [List.length_cons, List.length_cons] at heven
        omega
      rw [decode, List.map_cons, List.map_cons, PdsBackup.hexToString]
      cases hexValue_digit c with
      | inr hno => rw [hno.2.1, hno.2.2]; rfl
      | inl hc =>
          cases hc.2 with
          | intro hi hhi =>
              rw [hhi.1, hhi.2.2]
              show ((hexValue d.toUInt8 >>= fun lo => _).toOption.map _ : Option (List Byte)) =
                (PdsBackup.hexValue (letterOf d) >>= fun lo => _).map _
              cases hexValue_digit d with
              | inr hno => rw [hno.2.1, hno.2.2]; rfl
              | inl hd =>
                  cases hd.2 with
                  | intro lo hlo =>
                      rw [hlo.1, hlo.2.2]
                      show (decode it (output ++ [_])).toOption.map (List.map byteOf) = _
                      have hbyte : byteOf (Int32.ofNat hi <<< 4 ||| Int32.ofNat lo).toInt8 =
                          ⟨hi.val * 16 + lo.val, by omega⟩ := Fin.ext (nibbles hi lo).2.2
                      rw [ih _ hlength, List.map_append, List.map_singleton, hbyte]
                      cases PdsBackup.hexToString (it.map letterOf) with
                      | none => rfl
                      | some rest => simp

/-- The codec reads what `Hash` reads. -/
theorem hexToString_eq (h : CString) :
    (hexToString h).toOption.map (List.map byteOf) = PdsBackup.hexToString (h.map letterOf) := by
  rw [hexToString]
  split
  · rename_i hodd
    rw [PdsBackup.hexToString_of_odd _ (by rw [List.length_map]; exact hodd)]
    rfl
  · rw [decode_eq h [] (by omega)]
    cases PdsBackup.hexToString (h.map letterOf) <;> rfl

end PdsBackup.RandomNumberGenerator
