import Mathlib.Algebra.Group.Nat.Defs
import Mathlib.Data.List.TakeDrop
import Mathlib.Tactic.Common

/-!
# Frames with a length in front

Numbers in a fixed number of bytes, the most significant first, and messages with
their length in front.  A number that does not fit is cut to its low bytes.
-/

namespace PdsBackup.Framing

def bigEndian : Nat → Nat → List (Fin 256)
  | 0, _ => []
  | width + 1, number => bigEndian width (number / 256) ++ [Fin.ofNat 256 number]

def ofBigEndian (bytes : List (Fin 256)) : Nat :=
  bytes.foldl (fun number byte => number * 256 + byte.val) 0

@[simp] theorem length_bigEndian (width number : Nat) :
    (bigEndian width number).length = width := by
  induction width generalizing number with
  | zero => rfl
  | succ width ih => simp [bigEndian, ih]

theorem ofBigEndian_bigEndian (width number : Nat) :
    ofBigEndian (bigEndian width number) = number % 256 ^ width := by
  induction width generalizing number with
  | zero => simp [bigEndian, ofBigEndian, Nat.mod_one]
  | succ width ih =>
      have hlast : ofBigEndian (bigEndian (width + 1) number) =
          ofBigEndian (bigEndian width (number / 256)) * 256 + number % 256 := by
        simp [ofBigEndian, bigEndian, List.foldl_append, Fin.ofNat]
      rw [hlast, ih, Nat.pow_succ', Nat.mod_mul]
      omega

/-- A message after its length. -/
def frame (width : Nat) (message : List (Fin 256)) : List (Fin 256) :=
  bigEndian width message.length ++ message

theorem length_frame (width : Nat) (message : List (Fin 256)) :
    (frame width message).length = width + message.length := by
  simp [frame]

/-- The frames of some messages, one after another. -/
def frames (width : Nat) (messages : List (List (Fin 256))) : List (Fin 256) :=
  messages.flatMap (frame width)

theorem frames_cons (width : Nat) (message : List (Fin 256)) (messages : List (List (Fin 256))) :
    frames width (message :: messages) = frame width message ++ frames width messages := rfl

theorem frames_append (width : Nat) (messages others : List (List (Fin 256))) :
    frames width (messages ++ others) = frames width messages ++ frames width others :=
  List.flatMap_append

end PdsBackup.Framing
