import PdsBackup.Common.MachineRing

/-!
# Which sizes a circular vector can have

A size of 2^31 or more is too large for the `int` of the tail: pushed and popped
in turns, a ring reaches an index that is negative.  The two largest sizes fail
earlier, since one or two more than them is zero modulo 2^32.
-/

namespace PdsBackup.Machine

variable {α : Type}

/-- An empty ring whose head and tail have been moved on `n` times, of more slots
than an `int` can count. -/
structure Idle (n : Nat) (ring : Ring α) : Prop where
  start : ring.start = ring.tail
  tail : ring.tail.toUInt32.toNat = n
  capacity : 2 ^ 31 < ring.capacity.toNat
  length : 2 ^ 31 ≤ ring.v.length

namespace Idle

variable {n : Nat} {ring : Ring α}

theorem next_eq (ring : Ring α) {i : Int32} {capacity : Nat} (hcapacity : ring.capacity.toNat = capacity)
    (hi : i.toUInt32.toNat < 2 ^ 31) (hlarge : 2 ^ 31 < capacity) :
    ∃ next, ring.next i = .ok next ∧ next.toNat = i.toUInt32.toNat + 1 := by
  obtain ⟨next, hnext, hvalue⟩ := remainder_eq (a := (i + 1).toUInt32) (b := ring.capacity)
    (by omega)
  refine ⟨next, hnext, ?_⟩
  rw [hvalue, toNat_succ hi, hcapacity]
  exact Nat.mod_eq_of_lt (by omega)

theorem index_eq (ring : Ring α) {i : Int32} (hi : i.toUInt32.toNat < 2 ^ 31) (hlength : 2 ^ 31 ≤ ring.v.length) :
    ∃ hslot, ring.index i = .ok ⟨i.toUInt32.toNat, hslot⟩ := by
  refine ⟨by omega, ?_⟩
  rw [Ring.index, if_neg (by rw [neg_iff]; omega), dif_pos (by omega)]

/-- There is room, whatever the index is. -/
theorem full (h : Idle n ring) (hn : n ≤ 2 ^ 31) : ring.full = .ok false := by
  have hcapacity := h.capacity
  have htail := h.tail
  have hbound := ring.capacity.toNat_lt
  have hsum : (ring.tail + 1).toUInt32.toNat = n + 1 := by
    rw [Int32.toUInt32_add, UInt32.toNat_add, htail]
    exact Nat.mod_eq_of_lt (by
      show n + 1 < 2 ^ 32
      omega)
  obtain ⟨next, hnext, hvalue⟩ := remainder_eq (a := (ring.tail + 1).toUInt32)
    (b := ring.capacity) (by omega)
  rw [hsum] at hvalue
  rw [Ring.full, Ring.next, hnext]
  apply congrArg Except.ok
  rw [decide_eq_false_iff_not, ← UInt32.toNat_inj, hvalue, h.start, htail]
  by_cases hlast : n + 1 < ring.capacity.toNat
  · rw [Nat.mod_eq_of_lt hlast]
    omega
  · rw [show n + 1 = ring.capacity.toNat by omega, Nat.mod_self]
    omega

/-- One element is pushed, and the ring is not empty then. -/
theorem push (h : Idle n ring) (hn : n < 2 ^ 31) (value : α) :
    ∃ middle, ring.push value = .ok middle ∧ middle.start = ring.start ∧
      middle.tail.toUInt32.toNat = n + 1 ∧ middle.capacity = ring.capacity ∧
      middle.v.length = ring.v.length := by
  have htail : ring.tail.toUInt32.toNat < 2 ^ 31 := by
    rw [h.tail]
    exact hn
  obtain ⟨hslot, hindex⟩ := index_eq ring htail h.length
  obtain ⟨next, hnext, hvalue⟩ := next_eq ring rfl htail h.capacity
  refine ⟨{ ring with v := ring.v.set ring.tail.toUInt32.toNat value, tail := next.toInt32 }, ?_,
    rfl, ?_, rfl, List.length_set⟩
  · rw [Ring.push, hindex, hnext]
    rfl
  · rw [UInt32.toUInt32_toInt32, hvalue, h.tail]

/-- And popped again. -/
theorem round [MoveFrom α] (h : Idle n ring) (hn : n < 2 ^ 31) (value : α) :
    ∃ middle last next, ring.push value = .ok middle ∧ middle.empty = false ∧
      middle.get = .ok (last, next) ∧ Idle (n + 1) next := by
  obtain ⟨middle, hpush, hstart, htail, hcapacity, hlength⟩ := h.push hn value
  have hhead : middle.start.toUInt32.toNat = n := by
    rw [hstart, h.start, h.tail]
  obtain ⟨hslot, hindex⟩ := index_eq middle (i := middle.start) (by omega)
    (by rw [hlength]; exact h.length)
  obtain ⟨next, hnext, hvalue⟩ := next_eq middle (i := middle.start) rfl (by omega)
    (by rw [hcapacity]; exact h.capacity)
  refine ⟨middle, middle.v.get ⟨_, hslot⟩, { middle with
    v := middle.v.set middle.start.toUInt32.toNat
      (MoveFrom.movedFrom (middle.v.get ⟨_, hslot⟩))
    start := next.toInt32 }, hpush, ?_, ?_, ?_⟩
  · rw [Ring.empty, decide_eq_false_iff_not]
    intro heq
    rw [heq, htail] at hhead
    omega
  · rw [Ring.get, hindex, hnext]
    rfl
  · refine ⟨?_, htail, ?_, ?_⟩
    · apply congrArg UInt32.toInt32
      apply UInt32.toNat_inj.mp
      rw [hvalue, hhead]
      exact htail.symm
    · rw [hcapacity]
      exact h.capacity
    · rw [List.length_set, hlength]
      exact h.length

theorem push_negative (h : Idle (2 ^ 31) ring) (value : α) :
    ring.push value = .error .negativeIndex := by
  have hneg : ring.tail < 0 := by
    rw [neg_iff, h.tail]
  rw [Ring.push, Ring.index, if_pos hneg]
  rfl

end Idle

section Services

variable [MoveFrom α] {ring : Ring α}

theorem serve_push (hfull : ring.full = .ok false) (value : α) :
    Ring.serve (.push value) ring = Ring.serveAll (.push value) ring := by
  rw [Ring.serve, Ring.permits, hfull]
  rfl

theorem serve_pop (hempty : ring.empty = false) :
    Ring.serve (.pop : QueueCall α) ring = Ring.serveAll .pop ring := by
  rw [Ring.serve, Ring.permits, hempty]
  rfl

theorem serveShared_push (hfull : ring.full = .ok false) (value : α) :
    Ring.serveShared (.push value) ring = Ring.serveAll (.push value) ring := by
  rw [Ring.serveShared, hfull, Ring.serveAll, Ring.answer]
  show (do return some (_, ← ring.push value)) = _
  cases ring.push value <;> rfl

theorem serveShared_pop (hempty : ring.empty = false) :
    Ring.serveShared (.pop : SharedCall α) ring = Ring.serveAll .pop ring := by
  rw [Ring.serveShared, hempty, Ring.serveAll, Ring.answer]
  show (do return some (_, (← ring.get).2)) = _
  cases ring.get <;> rfl

theorem serveAll_push_error {fault : Fault} {value : α} (hpush : ring.push value = .error fault) :
    Ring.serveAll (.push value) ring = .error fault := by
  rw [Ring.serveAll, Ring.answer, hpush]
  rfl

/-- One round, as each of the classes serves it. -/
theorem Idle.served {n : Nat} (h : Idle n ring) (hn : n < 2 ^ 31) (value : α) :
    ∃ middle next, Ring.serveAll (.push value) ring = .ok (some (.done, middle)) ∧
      middle.empty = false ∧ Ring.serveAll .pop middle = .ok (some (.done, next)) ∧
      Idle (n + 1) next := by
  obtain ⟨middle, last, next, hpush, hempty, hget, hnext⟩ := h.round hn value
  refine ⟨middle, next, ?_, hempty, ?_, hnext⟩
  · rw [Ring.serveAll, Ring.answer, hpush]
    rfl
  · rw [Ring.serveAll, Ring.answer, hget]
    rfl

theorem Idle.not_safe (h : Idle 0 ring) (value : α) :
    ¬ FailingService.Safe Ring.serveAll ring ∧ ¬ FailingService.Safe Ring.serve ring ∧
      ¬ FailingService.Safe Ring.serveShared ring := by
  refine ⟨?_, ?_, ?_⟩
  · refine FailingService.not_safe_of_rounds (.push value) .pop Idle (2 ^ 31) .negativeIndex ?_ ?_ h
    · intro n ring hn h
      obtain ⟨middle, next, hpush, -, hpop, hnext⟩ := h.served hn value
      exact ⟨_, middle, _, next, hpush, hpop, hnext⟩
    · intro ring h
      exact serveAll_push_error (h.push_negative value)
  · refine FailingService.not_safe_of_rounds (.push value) .pop Idle (2 ^ 31) .negativeIndex ?_ ?_ h
    · intro n ring hn h
      obtain ⟨middle, next, hpush, hempty, hpop, hnext⟩ := h.served hn value
      exact ⟨_, middle, _, next, (serve_push (h.full (Nat.le_of_lt hn)) value).trans hpush,
        (serve_pop hempty).trans hpop, hnext⟩
    · intro ring h
      exact (serve_push (h.full (Nat.le_refl _)) value).trans
        (serveAll_push_error (h.push_negative value))
  · refine FailingService.not_safe_of_rounds (.push value) .pop Idle (2 ^ 31) .negativeIndex ?_ ?_ h
    · intro n ring hn h
      obtain ⟨middle, next, hpush, hempty, hpop, hnext⟩ := h.served hn value
      exact ⟨_, middle, _, next, (serveShared_push (h.full (Nat.le_of_lt hn)) value).trans hpush,
        (serveShared_pop hempty).trans hpop, hnext⟩
    · intro ring h
      exact (serveShared_push (h.full (Nat.le_refl _)) value).trans
        (serveAll_push_error (h.push_negative value))

/-! ## The largest sizes -/

/-- The capacity is zero, and the first push takes a remainder by it. -/
theorem not_safe_of_wrapped (hcapacity : ring.capacity = 0) (value : α) :
    ¬ FailingService.Safe Ring.serveAll ring ∧ ¬ FailingService.Safe Ring.serve ring ∧
      ¬ FailingService.Safe Ring.serveShared ring := by
  have hnext : ∀ i, ring.next i = .error .remainderByZero := by
    intro i
    rw [Ring.next, hcapacity]
    rfl
  have hfull : ring.full = .error .remainderByZero := by
    rw [Ring.full, hnext]
    rfl
  refine ⟨?_, ?_, ?_⟩
  · have hpush : ∃ fault, ring.push value = .error fault := by
      rw [Ring.push]
      cases ring.index ring.tail with
      | error fault => exact ⟨fault, rfl⟩
      | ok slot =>
          refine ⟨.remainderByZero, ?_⟩
          rw [hnext]
          rfl
    obtain ⟨fault, hpush⟩ := hpush
    exact FailingService.not_safe_of_call (serveAll_push_error hpush)
  · have hserve : Ring.serve (.push value) ring = .error .remainderByZero := by
      rw [Ring.serve, Ring.permits, hfull]
      rfl
    exact FailingService.not_safe_of_call hserve
  · have hserve : Ring.serveShared (.push value) ring = .error .remainderByZero := by
      rw [Ring.serveShared, hfull]
      rfl
    exact FailingService.not_safe_of_call hserve

/-- The vector has no slot, and the first push goes past it. -/
theorem not_safe_of_empty (hfull : ring.full = .ok false) (hslots : ring.v = [])
    (htail : ring.tail = 0) (value : α) :
    ¬ FailingService.Safe Ring.serveAll ring ∧ ¬ FailingService.Safe Ring.serve ring := by
  have hpush : ring.push value = .error .outOfVector := by
    rw [Ring.push, Ring.index, htail, if_neg (by decide), dif_neg (by simp [hslots])]
    rfl
  have hserve : Ring.serveAll (.push value) ring = .error .outOfVector := serveAll_push_error hpush
  refine ⟨FailingService.not_safe_of_call hserve, ?_⟩
  rw [← serve_push hfull value] at hserve
  exact FailingService.not_safe_of_call hserve

end Services

/-! ## All sizes -/

section Sizes

variable [Inhabited α] [MoveFrom α]

theorem ofSize_not_safe {size : UInt32} (hsize : 2 ^ 31 ≤ size.toNat) :
    ¬ FailingService.Safe Ring.serveAll (Ring.ofSize size : Ring α) ∧
      ¬ FailingService.Safe Ring.serve (Ring.ofSize size : Ring α) := by
  have hbound : size.toNat < 2 ^ 32 := size.toNat_lt
  by_cases hlast : size.toNat = 2 ^ 32 - 1
  · have hzero : size + 1 = 0 := by
      apply UInt32.toNat_inj.mp
      rw [UInt32.toNat_add, hlast]
      rfl
    have hwrapped : (Ring.ofSize size : Ring α).capacity = 0 := hzero
    have hnot := not_safe_of_wrapped hwrapped default
    exact ⟨hnot.1, hnot.2.1⟩
  have hcapacity : (size + 1).toNat = size.toNat + 1 := toNat_add_one (by omega)
  by_cases hprevious : size.toNat = 2 ^ 32 - 2
  · have hmax : size + 1 = 4294967295 := by
      apply UInt32.toNat_inj.mp
      rw [hcapacity, hprevious]
      rfl
    have hzero : size + 1 + 1 = 0 := by rw [hmax]; rfl
    refine not_safe_of_empty ?_ ?_ rfl default
    · rw [Ring.full, Ring.next, Ring.ofSize, hmax]
      rfl
    · show List.replicate (size + 1 + 1).toNat default = []
      rw [hzero]
      rfl
  · have hlength : (size + 1 + 1).toNat = size.toNat + 2 := by
      rw [toNat_add_one (by omega), hcapacity]
    have hidle : Idle 0 (Ring.ofSize size : Ring α) := by
      refine ⟨rfl, rfl, ?_, ?_⟩
      · show 2 ^ 31 < (size + 1).toNat
        omega
      · show 2 ^ 31 ≤ (List.replicate (size + 1 + 1).toNat default).length
        rw [List.length_replicate]
        omega
    have hnot := hidle.not_safe default
    exact ⟨hnot.1, hnot.2.1⟩

theorem ofSizeShared_not_safe {size : UInt32} (hsize : 2 ^ 31 ≤ size.toNat) :
    ¬ FailingService.Safe Ring.serveShared (Ring.ofSizeShared size : Ring α) := by
  have hbound : size.toNat < 2 ^ 32 := size.toNat_lt
  by_cases hlast : size.toNat = 2 ^ 32 - 1
  · have hzero : size + 1 = 0 := by
      apply UInt32.toNat_inj.mp
      rw [UInt32.toNat_add, hlast]
      rfl
    have hwrapped : (Ring.ofSizeShared size : Ring α).capacity = 0 := hzero
    exact (not_safe_of_wrapped hwrapped default).2.2
  · have hcapacity : (size + 1).toNat = size.toNat + 1 := toNat_add_one (by omega)
    have hidle : Idle 0 (Ring.ofSizeShared size : Ring α) := by
      refine ⟨rfl, rfl, ?_, ?_⟩
      · show 2 ^ 31 < (size + 1).toNat
        omega
      · show 2 ^ 31 ≤ (List.replicate (size + 1).toNat default).length
        rw [List.length_replicate]
        omega
    exact (hidle.not_safe default).2.2

/-- A size is safe if it is below 2^31, with the calls that the callers make and
with any calls; from 2^31 on the calls that they make are enough to fail. -/
theorem safe_iff (size : UInt32) :
    (FailingService.Safe Ring.serveAll (Ring.ofSize size : Ring α) ↔ size.toNat < 2 ^ 31) ∧
      (FailingService.Safe Ring.serve (Ring.ofSize size : Ring α) ↔ size.toNat < 2 ^ 31) ∧
      (FailingService.Safe Ring.serveShared (Ring.ofSizeShared size : Ring α) ↔
        size.toNat < 2 ^ 31) := by
  by_cases hsize : size.toNat < 2 ^ 31
  · have hring := ofSize_represents (α := α) hsize
    have hshared := ofSizeShared_represents (α := α) hsize
    exact ⟨iff_of_true (serveAll_follows.safe hring) hsize,
      iff_of_true (serve_follows.safe hring) hsize,
      iff_of_true (serveShared_follows.safe hshared) hsize⟩
  · have hring := ofSize_not_safe (α := α) (Nat.le_of_not_lt hsize)
    exact ⟨iff_of_false hring.1 hsize, iff_of_false hring.2 hsize,
      iff_of_false (ofSizeShared_not_safe (Nat.le_of_not_lt hsize)) hsize⟩

end Sizes

end PdsBackup.Machine
