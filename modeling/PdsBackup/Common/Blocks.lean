import PdsBackup.Common.Hash

/-!
# Messages that carry a file

The blocks of a file, of which the last is marked, and the messages they travel
in.
-/

namespace PdsBackup

theorem length_le_of_mem_blocks {size : Nat} {content : List Byte} (hsize : 0 < size) :
    ∀ block ∈ blocks size content, block.length ≤ size := by
  fun_induction blocks size content with
  | case1 content hzero => omega
  | case2 content hzero hfull ih =>
      intro block hblock
      cases hblock with
      | head => exact List.length_take_le size content
      | tail _ hblock => exact ih block hblock
  | case3 content hzero hfull =>
      intro block hblock
      rw [List.mem_singleton.mp hblock]
      omega

section Messages

variable {M : Type}

/-- One message for each block; the last one is marked. -/
def markLast (message : List Byte → Bool → M) : List (List Byte) → List M
  | [] => []
  | [block] => [message block true]
  | block :: next :: others => message block false :: markLast message (next :: others)

theorem markLast_append (message : List Byte → Bool → M) (before : List (List Byte))
    (last : List Byte) :
    markLast message (before ++ [last]) =
      before.map (fun block => message block false) ++ [message last true] := by
  induction before with
  | nil => rfl
  | cons block before ih =>
      cases before with
      | nil => rfl
      | cons next before =>
          rw [List.cons_append, List.cons_append, markLast, ← List.cons_append, ih]
          rfl

/-- The messages carry a content in blocks of a size: together they have its
bytes, none has more than the size, and the last one is marked and no other. -/
structure Carries (data : M → List Byte) (last : M → Bool) (size : Nat) (content : List Byte)
    (messages : List M) : Prop where
  bytes : messages.flatMap data = content
  bounded : ∀ message ∈ messages, (data message).length ≤ size
  marked : ∃ before final, messages = before ++ [final] ∧ last final = true ∧
    ∀ message ∈ before, last message = false

variable {data : M → List Byte} {last : M → Bool} {message : List Byte → Bool → M}

/-- Marked messages for the blocks of a file carry the file. -/
theorem carries_markLast (hdata : ∀ block flag, data (message block flag) = block)
    (hlast : ∀ block flag, last (message block flag) = flag) {size : Nat} (hsize : 0 < size)
    (content : List Byte) :
    Carries data last size content (markLast message (blocks size content)) := by
  have hflatten := blocks_flatten hsize content
  have hbounded : ∀ block ∈ blocks size content, block.length ≤ size :=
    length_le_of_mem_blocks hsize
  rw [← List.dropLast_append_getLast (blocks_ne_nil size content)] at hflatten hbounded ⊢
  generalize (blocks size content).dropLast = before at hflatten hbounded ⊢
  generalize (blocks size content).getLast _ = final at hflatten hbounded ⊢
  rw [markLast_append]
  refine ⟨?_, ?_, _, _, rfl, hlast final true, ?_⟩
  · rw [← hflatten, List.flatMap_append, List.flatMap_map, List.flatten_append]
    simp [hdata, List.flatMap_def]
  · intro sent hsent
    rw [List.mem_append, List.mem_map, List.mem_singleton] at hsent
    rcases hsent with ⟨block, hblock, rfl⟩ | rfl
    · rw [hdata]
      exact hbounded block (List.mem_append_left _ hblock)
    · rw [hdata]
      exact hbounded final (List.mem_append_right _ (List.mem_singleton.mpr rfl))
  · intro sent hsent
    obtain ⟨block, -, rfl⟩ := List.mem_map.mp hsent
    exact hlast block false

theorem forall_mem_markLast {P : M → Prop} (hP : ∀ block flag, P (message block flag))
    (parts : List (List Byte)) : ∀ sent ∈ markLast message parts, P sent := by
  fun_induction markLast message parts with
  | case1 => simp
  | case2 block => simp [hP]
  | case3 block next others ih => simpa [hP] using ih

end Messages

end PdsBackup
