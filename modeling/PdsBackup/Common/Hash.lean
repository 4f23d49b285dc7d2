import PdsBackup.Core.FileTree

/-!
# Hashes and their hexadecimal notation

A `Hash` is 32 bytes; its constructor from a buffer fails on any other length.
SHA-256 itself belongs to a library: it is a parameter wherever a hash is
computed.  The databases keep hashes in hexadecimal notation.
-/

namespace PdsBackup

def shaDigestSize : Nat := 32

/-- The class `Hash`. -/
structure Hash where
  bytes : List Byte
  size : bytes.length = shaDigestSize
  deriving DecidableEq

namespace Hash

/-- The default constructor: all zeros. -/
def zero : Hash := ⟨List.replicate shaDigestSize 0, List.length_replicate⟩

/-- The constructor from a buffer; `none` is the `HashException`. -/
def ofBytes (bytes : List Byte) : Option Hash :=
  if h : bytes.length = shaDigestSize then some ⟨bytes, h⟩ else none

/-- `Hash::str` -/
def str (hash : Hash) : List Byte := hash.bytes

@[simp] theorem ofBytes_str (hash : Hash) : ofBytes hash.str = some hash := by
  simp [ofBytes, str, hash.size]

theorem ofBytes_eq_some_iff (bytes : List Byte) (hash : Hash) :
    ofBytes bytes = some hash ↔ hash.bytes = bytes := by
  constructor
  · intro h
    unfold ofBytes at h
    split at h
    · rw [← Option.some.inj h]
    · simp at h
  · rintro rfl
    exact ofBytes_str hash

end Hash

/-- `HashMaker` over a library's SHA-256: the bytes it has been given so far. -/
structure HashMaker where
  given : List Byte := []

namespace HashMaker

def update (maker : HashMaker) (block : List Byte) : HashMaker := ⟨maker.given ++ block⟩

def get (sha256 : List Byte → Hash) (maker : HashMaker) : Hash := sha256 maker.given

end HashMaker

/-! ## Reading a file in blocks -/

/-- What `read` delivers block by block: full blocks while there are any, and
the rest, which may be empty, in the end. -/
def blocks (size : Nat) (content : List Byte) : List (List Byte) :=
  if size = 0 then [[]]
  else if size ≤ content.length then
    content.take size :: blocks size (content.drop size)
  else [content]
termination_by content.length
decreasing_by
  rw [List.length_drop]
  omega

theorem blocks_ne_nil (size : Nat) (content : List Byte) : blocks size content ≠ [] := by
  fun_cases blocks size content with
  | case1 => exact List.cons_ne_nil _ _
  | case2 => exact List.cons_ne_nil _ _
  | case3 => exact List.cons_ne_nil _ _

theorem blocks_flatten {size : Nat} (hsize : 0 < size) (content : List Byte) :
    (blocks size content).flatten = content := by
  fun_induction blocks size content with
  | case1 content hzero => omega
  | case2 content hzero hfull ih => rw [List.flatten_cons, ih, List.take_append_drop]
  | case3 content hzero hfull => simp

/-- How `Directory_entry` hashes a file: 1024 bytes at a time. -/
def hashFile (sha256 : List Byte → Hash) (content : List Byte) : Hash :=
  ((blocks 1024 content).foldl HashMaker.update {}).get sha256

theorem foldl_update (parts : List (List Byte)) (maker : HashMaker) :
    (parts.foldl HashMaker.update maker).given = maker.given ++ parts.flatten := by
  induction parts generalizing maker with
  | nil => simp
  | cons part parts ih => simp [ih, HashMaker.update]

theorem hashFile_eq (sha256 : List Byte → Hash) (content : List Byte) :
    hashFile sha256 content = sha256 content := by
  rw [hashFile, HashMaker.get, foldl_update, blocks_flatten (by decide)]
  rfl

/-! ## Hexadecimal notation -/

def hexDigits : List Char :=
  ['0', '1', '2', '3', '4', '5', '6', '7', '8', '9', 'A', 'B', 'C', 'D', 'E', 'F']

def hexDigit (value : Fin 16) : Char := hexDigits.getD value '0'

/-- `RandomNumberGenerator::string_to_hex` -/
def stringToHex (input : List Byte) : Text :=
  input.flatMap fun c => [hexDigit ⟨c.val / 16, by omega⟩, hexDigit ⟨c.val % 16, by omega⟩]

/-- `RandomNumberGenerator::hex_value`; `none` is the `invalid_argument`. -/
def hexValue (digit : Char) : Option (Fin 16) :=
  if '0' ≤ digit ∧ digit ≤ '9' then some (Fin.ofNat 16 (digit.toNat - '0'.toNat))
  else if 'A' ≤ digit ∧ digit ≤ 'F' then some (Fin.ofNat 16 (digit.toNat - 'A'.toNat + 10))
  else if 'a' ≤ digit ∧ digit ≤ 'f' then some (Fin.ofNat 16 (digit.toNat - 'a'.toNat + 10))
  else none

/-- `RandomNumberGenerator::hex_to_string`; `none` is the `invalid_argument`. -/
def hexToString : Text → Option (List Byte)
  | [] => some []
  | [_] => none
  | hi :: lo :: rest => do
      let hi ← hexValue hi
      let lo ← hexValue lo
      let output ← hexToString rest
      some (⟨hi.val * 16 + lo.val, by omega⟩ :: output)

theorem hexValue_hexDigit (value : Fin 16) : hexValue (hexDigit value) = some value := by
  revert value
  decide

theorem hexToString_stringToHex (input : List Byte) :
    hexToString (stringToHex input) = some input := by
  induction input with
  | nil => rfl
  | cons c rest ih =>
      have hcons : stringToHex (c :: rest) =
          hexDigit ⟨c.val / 16, by omega⟩ :: hexDigit ⟨c.val % 16, by omega⟩ ::
            stringToHex rest := rfl
      have hbyte : c.val / 16 * 16 + c.val % 16 = c.val := by omega
      rw [hcons, hexToString]
      simp [hexValue_hexDigit, ih, hbyte]

theorem hexToString_of_odd (text : Text) (hodd : text.length % 2 = 1) :
    hexToString text = none := by
  fun_induction hexToString text with
  | case1 => cases hodd
  | case2 => rfl
  | case3 hi lo rest ih =>
      have hrest : rest.length % 2 = 1 := by
        rw [List.length_cons, List.length_cons] at hodd
        omega
      rw [ih hrest]
      cases hexValue hi with
      | none => rfl
      | some hi => cases hexValue lo <;> rfl

/-- Hexadecimal notation is made of hexadecimal digits. -/
theorem mem_hexDigits_of_mem_stringToHex (input : List Byte) {c : Char}
    (hc : c ∈ stringToHex input) : c ∈ hexDigits := by
  have hdigit : ∀ value : Fin 16, hexDigit value ∈ hexDigits := by decide
  simp only [stringToHex, List.mem_flatMap, List.mem_cons, List.not_mem_nil, or_false] at hc
  obtain ⟨byte, -, rfl | rfl⟩ := hc
  · exact hdigit _
  · exact hdigit _

/-! ## Two digests -/

/-- SHA-256 of no bytes. -/
def emptyDigest : List Byte :=
  [0xe3, 0xb0, 0xc4, 0x42, 0x98, 0xfc, 0x1c, 0x14, 0x9a, 0xfb, 0xf4, 0xc8, 0x99, 0x6f, 0xb9, 0x24,
    0x27, 0xae, 0x41, 0xe4, 0x64, 0x9b, 0x93, 0x4c, 0xa4, 0x95, 0x99, 0x1b, 0x78, 0x52, 0xb8, 0x55]

/-- SHA-256 of the letter `a`. -/
def letterDigest : List Byte :=
  [0xca, 0x97, 0x81, 0x12, 0xca, 0x1b, 0xbd, 0xca, 0xfa, 0xc2, 0x31, 0xb3, 0x9a, 0x23, 0xdc, 0x4d,
    0xa7, 0x86, 0xef, 0xf8, 0x14, 0x7c, 0x4e, 0x72, 0xb9, 0x80, 0x77, 0x85, 0xaf, 0xee, 0x48, 0xbb]

theorem emptyDigest_length : emptyDigest.length = 32 := rfl

theorem letterDigest_length : letterDigest.length = 32 := rfl

end PdsBackup
