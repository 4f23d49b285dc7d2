import Mathlib.Data.List.TakeDrop
import PdsBackup.Core.Procedure

/-!
# Streams delivered in pieces

The two ends of a stream that a transport cuts as it likes.  A call that receives
delivers at least one and at most as many elements as it is asked for, none at the
end of the stream; a call that sends accepts at least one of what it is given.
Either may fail.  What a transport does is a script: for each call the number of
elements it would take, or none for a failure.

The loops that receive or send an exact number of elements do so however the
stream is cut.
-/

namespace PdsBackup.Delivery

open Procedure

variable {α ε : Type}

abbrev Script := Nat → Option Nat

/-- Every call succeeds. -/
def Script.Sound (script : Script) : Prop := ∀ call, (script call).isSome = true

/-- The receiving end: what will still come before the end of the stream. -/
structure Inbound (α : Type) where
  coming : List α
  script : Script
  calls : Nat := 0

/-- One call: a failure, or a piece, which is empty at the end of the stream. -/
def recv (len : Nat) (s : Inbound α) : Option (List α) × Inbound α :=
  match s.script s.calls with
  | none => (none, { s with calls := s.calls + 1 })
  | some wish =>
      (some (s.coming.take (min len (max 1 wish))),
        { s with
          coming := s.coming.drop (min len (max 1 wish))
          calls := s.calls + 1 })

/-- The loop that fills a buffer. -/
def readLoop (failed closed : ε) (len : Nat) (buffer : List α) :
    Procedure (Inbound α) ε (List α) := fun s =>
  if _ : len = 0 then .returned buffer s
  else
    match recv len s with
    | (none, s') => .raised failed s'
    | (some [], s') => .raised closed s'
    | (some (first :: piece), s') =>
        readLoop failed closed (len - (piece.length + 1)) (buffer ++ first :: piece) s'
termination_by len
decreasing_by omega

/-- The sending end: what was accepted so far. -/
structure Outbound (α : Type) where
  sent : List α := []
  script : Script
  calls : Nat := 0

/-- One call: a failure, or the number of elements that are accepted. -/
def send (data : List α) (s : Outbound α) : Option Nat :=
  (s.script s.calls).map fun wish => min data.length (max 1 wish)

/-- What a call that accepts `count` elements leaves. -/
def Outbound.accept (data : List α) (count : Nat) (s : Outbound α) : Outbound α where
  sent := s.sent ++ data.take count
  script := s.script
  calls := s.calls + 1

/-- The loop that sends all of a buffer, and counts. -/
def writeLoop (failed : ε) (data : List α) (total : Nat) : Procedure (Outbound α) ε Nat := fun s =>
  if _ : data = [] then .returned total s
  else
    match _ : send data s with
    | none => .raised failed (s.accept data 0)
    | some count => writeLoop failed (data.drop count) (total + count) (s.accept data count)
termination_by data.length
decreasing_by
  rename_i s hdata hsend
  have hpos := List.length_pos_iff.mpr hdata
  simp only [send, Option.map_eq_some_iff] at hsend
  obtain ⟨wish, -, rfl⟩ := hsend
  rw [List.length_drop]
  omega

/-! ## Receiving -/

section Receiving

variable (failed closed : ε)

theorem readLoop_zero (buffer : List α) (s : Inbound α) :
    readLoop failed closed 0 buffer s = .returned buffer s := by
  rw [readLoop, dif_pos rfl]

/-- The loop returns exactly the next `len` elements, or it raises. -/
theorem readLoop_cases (len : Nat) (buffer : List α) (s : Inbound α) :
    (len ≤ s.coming.length ∧ ∃ calls, readLoop failed closed len buffer s =
        .returned (buffer ++ s.coming.take len)
          { s with coming := s.coming.drop len, calls }) ∨
      ((len ≤ s.coming.length → ¬ s.script.Sound) ∧
        ∃ exception s', readLoop failed closed len buffer s = .raised exception s') := by
  induction len using Nat.strongRecOn generalizing buffer s with
  | ind len ih =>
      by_cases hlen : len = 0
      · subst hlen
        refine .inl ⟨Nat.zero_le _, s.calls, ?_⟩
        rw [readLoop_zero, List.take_zero, List.append_nil, List.drop_zero]
      · rw [readLoop, dif_neg hlen]
        cases hscript : s.script s.calls with
        | none =>
            refine .inr ⟨fun _ hsound => ?_, failed, { s with calls := s.calls + 1 },
              by simp only [recv, hscript]⟩
            have hsome := hsound s.calls
            rw [hscript] at hsome
            cases hsome
        | some wish =>
            have hcount : 0 < min len (max 1 wish) := by omega
            simp only [recv, hscript]
            cases hpiece : s.coming.take (min len (max 1 wish)) with
            | nil =>
                have hempty : s.coming.length = 0 := by
                  have hlength := congrArg List.length hpiece
                  rw [List.length_take, List.length_nil] at hlength
                  omega
                exact .inr ⟨fun hle => by omega, _, _, rfl⟩
            | cons first piece =>
                have hlength := congrArg List.length hpiece
                rw [List.length_take, List.length_cons] at hlength
                have hdrop : s.coming.drop (min len (max 1 wish)) =
                    s.coming.drop (piece.length + 1) := by
                  by_cases hle : min len (max 1 wish) ≤ s.coming.length
                  · rw [Nat.min_eq_left hle] at hlength
                    rw [hlength]
                  · rw [List.drop_eq_nil_of_le (by omega), List.drop_eq_nil_of_le (by omega)]
                have htake : s.coming.take (piece.length + 1) = first :: piece := by
                  rw [← hpiece]
                  by_cases hle : min len (max 1 wish) ≤ s.coming.length
                  · rw [Nat.min_eq_left hle] at hlength
                    rw [hlength]
                  · rw [List.take_of_length_le (by omega), List.take_of_length_le (by omega)]
                simp only
                rcases ih (len - (piece.length + 1)) (by omega) (buffer ++ first :: piece)
                    { s with
                      coming := s.coming.drop (min len (max 1 wish))
                      calls := s.calls + 1 } with
                  ⟨hle, calls, hrun⟩ | ⟨hwhy, exception, s', hrun⟩
                · rw [hdrop, List.length_drop] at hle
                  refine .inl ⟨by omega, calls, ?_⟩
                  rw [hrun, hdrop, List.drop_drop, List.append_assoc, ← htake, ← List.take_add]
                  rw [show piece.length + 1 + (len - (piece.length + 1)) = len by omega]
                · refine .inr ⟨fun hle => hwhy ?_, exception, s', hrun⟩
                  rw [hdrop, List.length_drop]
                  omega

end Receiving

/-! ## Sending -/

/-- The loop sends everything, or it raises. -/
theorem writeLoop_cases (failed : ε) (data : List α) (total : Nat) (s : Outbound α) :
    (∃ calls, writeLoop failed data total s =
        .returned (total + data.length) { s with sent := s.sent ++ data, calls }) ∨
      (¬ s.script.Sound ∧ ∃ s', writeLoop failed data total s = .raised failed s') := by
  induction hlength : data.length using Nat.strongRecOn generalizing data total s with
  | ind length ih =>
      subst hlength
      by_cases hdata : data = []
      · subst hdata
        refine .inl ⟨s.calls, ?_⟩
        rw [writeLoop, dif_pos rfl, List.append_nil]
        rfl
      · have hpos := List.length_pos_iff.mpr hdata
        rw [writeLoop, dif_neg hdata]
        cases hscript : s.script s.calls with
        | none =>
            have hsend : send data s = none := by rw [send, hscript, Option.map_none]
            rw [hsend]
            refine .inr ⟨fun hsound => ?_, _, rfl⟩
            have hsome := hsound s.calls
            rw [hscript] at hsome
            cases hsome
        | some wish =>
            have hsend : send data s = some (min data.length (max 1 wish)) := by
              rw [send, hscript, Option.map_some]
            rw [hsend]
            generalize hcount : min data.length (max 1 wish) = count
            simp only
            rcases ih _ (by rw [List.length_drop]; omega) (data.drop count) (total + count)
                (s.accept data count) rfl with ⟨calls, hrun⟩ | ⟨hwhy, s', hrun⟩
            · refine .inl ⟨calls, ?_⟩
              rw [hrun, Outbound.accept, List.append_assoc, List.take_append_drop,
                List.length_drop]
              rw [show total + count + (data.length - count) = total + data.length by omega]
            · exact .inr ⟨hwhy, s', hrun⟩

end PdsBackup.Delivery
