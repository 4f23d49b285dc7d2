import Mathlib.Algebra.Group.Int.Defs
import Mathlib.Algebra.Group.Nat.Defs
import PdsBackup.Common.Fifo

/-!
# Circular vectors in machine arithmetic

The fields and methods of `Circular_vector` and `TS_Circular_vector` with the
integers of the code: the head and the tail are `int`, the capacity is `unsigned
int`, and the two meet in comparisons and remainders modulo 2^32.  Three things
can go wrong, a remainder by zero, a negative index and an index past the
vector.  None does as long as the capacity is at most 2^31.
-/

namespace PdsBackup.Machine

inductive Fault where
  | remainderByZero
  | negativeIndex
  | outOfVector
  /-- a loop over the elements is still running -/
  | unfinished
  deriving DecidableEq

/-- `a % b` of unsigned numbers. -/
def remainder (a b : UInt32) : Except Fault UInt32 :=
  if b = 0 then .error .remainderByZero else .ok (a % b)

/-- `a % b` of signed numbers. -/
def signedRemainder (a b : Int32) : Except Fault Int32 :=
  if b = 0 then .error .remainderByZero else .ok (a % b)

structure Ring (α : Type) where
  v : List α
  start : Int32
  tail : Int32
  capacity : UInt32

namespace Ring

variable {α : Type}

/-- The constructor of `Circular_vector`. -/
def ofSize [Inhabited α] (size : UInt32) : Ring α :=
  let capacity := size + 1
  { v := List.replicate (capacity + 1).toNat default, start := 0, tail := 0, capacity }

/-- The constructor of `TS_Circular_vector`. -/
def ofSizeShared [Inhabited α] (size : UInt32) : Ring α :=
  { v := List.replicate (size + 1).toNat default, start := 0, tail := 0, capacity := size + 1 }

/-- Where `_v[i]` is: the `int` becomes a `size_t`. -/
def index (ring : Ring α) (i : Int32) : Except Fault (Fin ring.v.length) :=
  if i < 0 then .error .negativeIndex
  else if hindex : i.toUInt32.toNat < ring.v.length then .ok ⟨i.toUInt32.toNat, hindex⟩
  else .error .outOfVector

/-- `(i + 1) % _capacity` -/
def next (ring : Ring α) (i : Int32) : Except Fault UInt32 :=
  remainder (i + 1).toUInt32 ring.capacity

def push (value : α) (ring : Ring α) : Except Fault (Ring α) := do
  let slot ← ring.index ring.tail
  let tail ← ring.next ring.tail
  return { ring with v := ring.v.set slot value, tail := tail.toInt32 }

def front (ring : Ring α) : Except Fault α := do
  let slot ← ring.index ring.start
  return ring.v.get slot

/-- `get`; `pop` is the same without the element. -/
def get [MoveFrom α] (ring : Ring α) : Except Fault (α × Ring α) := do
  let slot ← ring.index ring.start
  let tmp := ring.v.get slot
  let start ← ring.next ring.start
  return (tmp, { ring with v := ring.v.set slot (MoveFrom.movedFrom tmp), start := start.toInt32 })

def empty (ring : Ring α) : Bool := ring.start = ring.tail

def full (ring : Ring α) : Except Fault Bool := do
  return (← ring.next ring.tail) = ring.start.toUInt32

def size (ring : Ring α) : Except Fault Int32 := do
  let rest ← remainder (ring.capacity + ring.tail.toUInt32 - ring.start.toUInt32) ring.capacity
  return rest.toInt32

/-- `for(int i = start; i != end; i = (i+1)%capacity)` with the `int` that
`capacity()` returns. -/
def walkFrom (ring : Ring α) : Nat → Int32 → Except Fault (List α)
  | 0, _ => .error .unfinished
  | fuel + 1, i =>
      if i = ring.tail then .ok []
      else do
        let slot ← ring.index i
        let i ← signedRemainder (i + 1) ring.capacity.toInt32
        return ring.v.get slot :: (← ring.walkFrom fuel i)

def walk (ring : Ring α) : Except Fault (List α) :=
  ring.walkFrom (ring.v.length + 1) ring.start

section Calls

variable [MoveFrom α]

def answer : QueueCall α → Ring α → Except Fault (QueueResponse α × Ring α)
  | .push value, ring => do return (.done, ← ring.push value)
  | .front, ring => do return (.value (← ring.front), ring)
  | .pop, ring => do return (.done, (← ring.get).2)
  | .get, ring => do
      let (value, next) ← ring.get
      return (.value value, next)
  | .empty, ring => .ok (.flag ring.empty, ring)
  | .full, ring => do return (.flag (← ring.full), ring)
  | .size, ring => do return (.count (← ring.size).toInt, ring)
  | .walk, ring => do return (.values (← ring.walk), ring)

/-- What the callers test before a call. -/
def permits (ring : Ring α) : QueueCall α → Except Fault Bool
  | .push _ => do return !(← ring.full)
  | .front | .pop | .get => .ok !ring.empty
  | .empty | .full | .size | .walk => .ok true

/-- `Circular_vector` with any calls, tested for or not. -/
def serveAll : FailingService Fault (QueueCall α) (QueueResponse α) (Ring α) := fun call ring => do
  return some (← answer call ring)

/-- `Circular_vector` with the calls that its callers make. -/
def serve : FailingService Fault (QueueCall α) (QueueResponse α) (Ring α) := fun call ring => do
  if ← ring.permits call then serveAll call ring else return none

/-- `TS_Circular_vector`; a call is served when what it waits for is there. -/
def serveShared : FailingService Fault (SharedCall α) (QueueResponse α) (Ring α)
  | .push value, ring => do
      if ← ring.full then return none
      else return some (.done, ← ring.push value)
  | .pushUntil value stop, ring => do
      if (← ring.full) && !stop then return none
      else if stop then return some (.flag false, ring)
      else return some (.flag true, ← ring.push value)
  | .tryPush value, ring => do
      if ← ring.full then return some (.flag false, ring)
      else return some (.flag true, ← ring.push value)
  | .front, ring => do
      if ring.empty then return none
      else return some (.value (← ring.front), ring)
  | .waitForCondition stop, ring =>
      if ring.empty && !stop then .ok none else .ok (some (.flag !stop, ring))
  | .pop, ring => do
      if ring.empty then return none
      else return some (.done, (← ring.get).2)
  | .get, ring => do
      if ring.empty then return none
      else
        let (value, next) ← ring.get
        return some (.value value, next)
  | .tryGetUntil stop, ring => do
      if ring.empty && !stop then return none
      else if stop then return some (.optional none, ring)
      else
        let (value, next) ← ring.get
        return some (.optional (some value), next)
  | .canGet, ring => .ok (some (.flag !ring.empty, ring))
  | .notifyAll, ring => .ok (some (.done, ring))

end Calls

end Ring

/-! ## The two kinds of integers -/

theorem toInt_eq (i : Int32) :
    i.toInt = if i.toUInt32.toNat < 2 ^ 31 then (i.toUInt32.toNat : Int)
      else i.toUInt32.toNat - 2 ^ 32 := by
  have hcond := BitVec.toInt_eq_toNat_cond i.toBitVec
  have htoNat : i.toBitVec.toNat = i.toUInt32.toNat := rfl
  rw [htoNat, Int32.toInt_toBitVec] at hcond
  rw [hcond]
  split <;> split <;> omega

/-- An `int` that is not negative is its own `unsigned int`. -/
theorem toInt_of_lt {i : Int32} (hi : i.toUInt32.toNat < 2 ^ 31) : i.toInt = i.toUInt32.toNat := by
  rw [toInt_eq, if_pos hi]

theorem toNat_of_toInt {i : Int32} {n : Nat} (hi : i.toInt = n) : i.toUInt32.toNat = n := by
  have hbound := i.toUInt32.toNat_lt
  rw [toInt_eq] at hi
  split at hi <;> omega

/-- From 2^31 on an `unsigned int` is a negative `int`. -/
theorem neg_iff (i : Int32) : i < 0 ↔ 2 ^ 31 ≤ i.toUInt32.toNat := by
  have hbound := i.toUInt32.toNat_lt
  rw [Int32.lt_iff_toInt_lt, toInt_eq, Int32.toInt_zero]
  split <;> omega

theorem toNat_succ {i : Int32} (hi : i.toUInt32.toNat < 2 ^ 31) :
    (i + 1).toUInt32.toNat = i.toUInt32.toNat + 1 := by
  rw [Int32.toUInt32_add, UInt32.toNat_add]
  exact Nat.mod_eq_of_lt (by
    show i.toUInt32.toNat + 1 < 2 ^ 32
    omega)

theorem remainder_eq {a b : UInt32} (hb : 0 < b.toNat) :
    ∃ rest, remainder a b = .ok rest ∧ rest.toNat = a.toNat % b.toNat := by
  refine ⟨a % b, if_neg ?_, UInt32.toNat_mod a b⟩
  rintro rfl
  exact absurd hb (by decide)

/-- A capacity of 2^31 is a negative `int`, of which the remainders are the same. -/
theorem signedRemainder_eq {i : Int32} {capacity : UInt32} {n : Nat}
    (hi : i.toUInt32.toNat = n) (hn : n < capacity.toNat) (hcapacity : capacity.toNat ≤ 2 ^ 31) :
    ∃ rest, signedRemainder (i + 1) capacity.toInt32 = .ok rest ∧
      rest.toUInt32.toNat = (n + 1) % capacity.toNat := by
  have hne : capacity.toInt32 ≠ 0 := by
    intro heq
    have hzero : capacity = 0 := congrArg Int32.toUInt32 heq
    rw [hzero] at hn
    exact absurd hn (by simp)
  refine ⟨_, if_neg hne, toNat_of_toInt ?_⟩
  have hsucc := toNat_succ (i := i) (by omega)
  have htail := toInt_eq (i + 1)
  have hmodulus := toInt_eq capacity.toInt32
  rw [UInt32.toUInt32_toInt32] at hmodulus
  rw [hsucc, hi] at htail
  rw [Int32.toInt_mod, htail, hmodulus]
  by_cases hlast : n + 1 < 2 ^ 31
  · rw [if_pos hlast]
    by_cases hsmall : capacity.toNat < 2 ^ 31
    · rw [if_pos hsmall]
      exact (Int.ofNat_tmod (n + 1) capacity.toNat).symm
    · have hnegative : (capacity.toNat : Int) - 2 ^ 32 = -(capacity.toNat : Int) := by omega
      rw [if_neg hsmall, hnegative, Int.tmod_neg]
      exact (Int.ofNat_tmod (n + 1) capacity.toNat).symm
  · have hfull : n + 1 = capacity.toNat := by omega
    rw [if_neg hlast, if_neg (by omega), hfull, Int.tmod_self, Nat.mod_self]
    rfl

/-! ## Rings of at most 2^31 slots -/

/-- The ring with the numbers that its integers stand for. -/
structure Represents {α : Type} (ring : Ring α) (vector : CircularVector α) : Prop where
  slots : ring.v = vector.slots
  start : ring.start.toUInt32.toNat = vector.start
  tail : ring.tail.toUInt32.toNat = vector.tail
  capacity : ring.capacity.toNat = vector.capacity
  bound : vector.capacity ≤ 2 ^ 31

namespace Represents

variable {α : Type} {ring : Ring α} {vector : CircularVector α}

theorem capacity_pos (h : Represents ring vector) : 0 < ring.capacity.toNat := by
  rw [h.capacity]
  exact vector.capacity_pos

/-- An index of the ring is one of the vector. -/
theorem index {i : Int32} (h : Represents ring vector) (hi : i.toUInt32.toNat < vector.capacity) :
    ∃ hslot, ring.index i = .ok ⟨i.toUInt32.toNat, hslot⟩ := by
  have hbound := h.bound
  have hslot : i.toUInt32.toNat < ring.v.length := by
    rw [h.slots]
    exact Nat.lt_of_lt_of_le hi vector.capacity_le
  refine ⟨hslot, ?_⟩
  rw [Ring.index, if_neg (by rw [neg_iff]; omega), dif_pos hslot]

theorem next {i : Int32} (h : Represents ring vector) (hi : i.toUInt32.toNat < vector.capacity) :
    ∃ next, ring.next i = .ok next ∧
      next.toNat = (i.toUInt32.toNat + 1) % vector.capacity := by
  have hbound := h.bound
  obtain ⟨next, hnext, hvalue⟩ := remainder_eq (a := (i + 1).toUInt32) h.capacity_pos
  refine ⟨next, hnext, ?_⟩
  rw [hvalue, toNat_succ (by omega), h.capacity]

theorem empty (h : Represents ring vector) : ring.empty = vector.empty := by
  rw [Bool.eq_iff_iff, Ring.empty, CircularVector.empty, decide_eq_true_iff, decide_eq_true_iff,
    ← h.start, ← h.tail]
  constructor
  · intro heq
    rw [heq]
  · intro heq
    exact congrArg UInt32.toInt32 (UInt32.toNat_inj.mp heq)

theorem full (h : Represents ring vector) : ring.full = .ok vector.full := by
  obtain ⟨next, hnext, hvalue⟩ := h.next (i := ring.tail) (by rw [h.tail]; exact vector.tail_lt)
  rw [Ring.full, hnext]
  show Except.ok (decide (next = ring.start.toUInt32)) = .ok (decide _)
  apply congrArg Except.ok
  rw [Bool.eq_iff_iff, decide_eq_true_iff, decide_eq_true_iff, ← UInt32.toNat_inj, hvalue, h.start,
    h.tail]

theorem size (h : Represents ring vector) :
    ∃ size, ring.size = .ok size ∧ size.toInt = vector.size := by
  have hbound := h.bound
  have hstart := vector.start_lt
  have htail := vector.tail_lt
  have hsize := vector.size_lt
  obtain ⟨rest, hrest, hvalue⟩ := remainder_eq
    (a := ring.capacity + ring.tail.toUInt32 - ring.start.toUInt32) h.capacity_pos
  have hsum : (ring.capacity + ring.tail.toUInt32).toNat = vector.capacity + vector.tail := by
    rw [UInt32.toNat_add, h.capacity, h.tail]
    exact Nat.mod_eq_of_lt (by omega)
  have hdifference : (ring.capacity + ring.tail.toUInt32 - ring.start.toUInt32).toNat =
      vector.capacity + vector.tail - vector.start := by
    rw [UInt32.toNat_sub_of_le _ _ (by rw [UInt32.le_iff_toNat_le, hsum, h.start]; omega), hsum,
      h.start]
  rw [hdifference, h.capacity] at hvalue
  refine ⟨rest.toInt32, ?_, ?_⟩
  · rw [Ring.size, hrest]
    rfl
  · have hvector : rest.toNat = vector.size := hvalue
    rw [toInt_of_lt (by rw [UInt32.toUInt32_toInt32]; omega), UInt32.toUInt32_toInt32, hvector]

theorem push (h : Represents ring vector) (value : α) :
    ∃ next, ring.push value = .ok next ∧ Represents next (vector.push value) := by
  have htail : ring.tail.toUInt32.toNat < vector.capacity := by
    rw [h.tail]
    exact vector.tail_lt
  obtain ⟨hslot, hindex⟩ := h.index htail
  obtain ⟨next, hnext, hvalue⟩ := h.next htail
  refine ⟨{ ring with v := ring.v.set ring.tail.toUInt32.toNat value, tail := next.toInt32 }, ?_, ?_⟩
  · rw [Ring.push, hindex, hnext]
    rfl
  · refine ⟨?_, h.start, ?_, h.capacity, h.bound⟩
    · rw [h.slots, h.tail]
      rfl
    · rw [UInt32.toUInt32_toInt32, hvalue, h.tail]
      rfl

/-- What is returned after a push. -/
theorem push_some (h : Represents ring vector) (value : α) (response : QueueResponse α) :
    ∃ next, (do return some (response, ← ring.push value)) = Except.ok (some (response, next)) ∧
      Represents next (vector.push value) := by
  obtain ⟨next, hpush, hnext⟩ := h.push value
  refine ⟨next, ?_, hnext⟩
  rw [hpush]
  rfl

theorem getElem (h : Represents ring vector) (index : Fin ring.v.length) :
    vector.slots[index.val]? = some (ring.v.get index) := by
  rw [← h.slots]
  exact List.getElem?_eq_getElem index.isLt

theorem head (h : Represents ring vector) (hslot : ring.start.toUInt32.toNat < ring.v.length) :
    ring.v.get ⟨ring.start.toUInt32.toNat, hslot⟩ = vector.front := by
  have hfront : vector.slots[ring.start.toUInt32.toNat]? = some vector.front := by
    rw [h.start]
    exact vector.getElem?_start
  exact Option.some.inj ((h.getElem ⟨_, hslot⟩).symm.trans hfront)

theorem front (h : Represents ring vector) : ring.front = .ok vector.front := by
  obtain ⟨hslot, hindex⟩ := h.index (i := ring.start) (by rw [h.start]; exact vector.start_lt)
  rw [Ring.front, hindex]
  exact congrArg Except.ok (h.head hslot)

theorem get [MoveFrom α] (h : Represents ring vector) :
    ∃ next, ring.get = .ok (vector.front, next) ∧ Represents next vector.pop := by
  have hstart : ring.start.toUInt32.toNat < vector.capacity := by
    rw [h.start]
    exact vector.start_lt
  obtain ⟨hslot, hindex⟩ := h.index hstart
  obtain ⟨next, hnext, hvalue⟩ := h.next hstart
  refine ⟨{ ring with
    v := ring.v.set ring.start.toUInt32.toNat (MoveFrom.movedFrom vector.front)
    start := next.toInt32 }, ?_, ?_⟩
  · rw [Ring.get, hindex, hnext, ← h.head hslot]
    rfl
  · refine ⟨?_, ?_, h.tail, h.capacity, h.bound⟩
    · rw [h.slots, h.start]
      rfl
    · rw [UInt32.toUInt32_toInt32, hvalue, h.start]
      rfl

/-- The loop visits what lies between its index and the tail; the induction is
on the fuel, of which there is more than the distance. -/
theorem walkFrom (h : Represents ring vector) {fuel : Nat} {i : Int32}
    (hi : i.toUInt32.toNat < vector.capacity) (distance : Nat)
    (hdistance : (i.toUInt32.toNat + distance) % vector.capacity = vector.tail)
    (hfuel : distance < fuel) :
    ring.walkFrom fuel i =
      .ok ((CircularVector.visited vector.tail vector.capacity distance
        i.toUInt32.toNat).filterMap (vector.slots[·]?)) := by
  induction fuel generalizing i distance with
  | zero => omega
  | succ fuel ih =>
      have hstop : i = ring.tail ↔ i.toUInt32.toNat = vector.tail := by
        rw [← h.tail]
        constructor
        · intro heq
          rw [heq]
        · intro heq
          exact congrArg UInt32.toInt32 (UInt32.toNat_inj.mp heq)
      rw [Ring.walkFrom]
      cases distance with
      | zero =>
          rw [Nat.add_zero, Nat.mod_eq_of_lt hi] at hdistance
          rw [if_pos (hstop.mpr hdistance)]
          rfl
      | succ distance =>
          rw [CircularVector.visited]
          by_cases heq : i.toUInt32.toNat = vector.tail
          · rw [if_pos (hstop.mpr heq), if_pos heq]
            rfl
          · obtain ⟨hslot, hindex⟩ := h.index hi
            obtain ⟨next, hnext, hvalue⟩ := signedRemainder_eq (n := i.toUInt32.toNat) rfl
              (by rw [h.capacity]; exact hi) (by rw [h.capacity]; exact h.bound)
            rw [h.capacity] at hvalue
            have hrest : (next.toUInt32.toNat + distance) % vector.capacity = vector.tail := by
              rw [hvalue, Nat.mod_add_mod, ← hdistance]
              congr 1
              omega
            have hlater := ih (i := next) (by rw [hvalue]; exact Nat.mod_lt _ vector.capacity_pos)
              distance hrest (by omega)
            have hget := h.getElem ⟨i.toUInt32.toNat, hslot⟩
            rw [if_neg (fun hsame => heq (hstop.mp hsame)), if_neg heq,
              List.filterMap_cons_some hget, hindex, ← hvalue]
            show (do
              let i ← signedRemainder (i + 1) ring.capacity.toInt32
              return _ :: (← ring.walkFrom fuel i)) = _
            rw [hnext]
            show (do return _ :: (← ring.walkFrom fuel next)) = _
            rw [hlater]
            rfl

theorem walk (h : Represents ring vector) : ring.walk = .ok vector.toList := by
  have hlength : vector.size < ring.v.length + 1 := by
    have hsize := vector.size_lt
    have hcapacity := vector.capacity_le
    rw [h.slots]
    omega
  have hdistance : (ring.start.toUInt32.toNat + vector.size) % vector.capacity = vector.tail := by
    rw [h.start, vector.start_add_size]
  rw [Ring.walk, h.walkFrom (by rw [h.start]; exact vector.start_lt) vector.size hdistance hlength,
    h.start, vector.toList_eq, CircularVector.visited_eq vector.tail_lt vector.start_lt vector.size
      vector.start_add_size vector.size_lt (Nat.le_refl _)]
  rfl

/-! ### Every call -/

theorem permits (h : Represents ring vector) (call : QueueCall α) :
    ring.permits call = .ok (vector.permits call) := by
  cases call with
  | push value => rw [Ring.permits, h.full]; rfl
  | front => rw [Ring.permits, h.empty]; rfl
  | pop => rw [Ring.permits, h.empty]; rfl
  | get => rw [Ring.permits, h.empty]; rfl
  | empty => rfl
  | full => rfl
  | size => rfl
  | walk => rfl

variable [MoveFrom α]

theorem answer (h : Represents ring vector) (call : QueueCall α) :
    ∃ next, Ring.answer call ring = .ok ((CircularVector.answer call vector).1, next) ∧
      Represents next (CircularVector.answer call vector).2 := by
  cases call with
  | push value =>
      obtain ⟨next, hpush, hnext⟩ := h.push value
      exact ⟨next, by rw [Ring.answer, hpush]; rfl, hnext⟩
  | front => exact ⟨ring, by rw [Ring.answer, h.front]; rfl, h⟩
  | pop =>
      obtain ⟨next, hget, hnext⟩ := h.get
      exact ⟨next, by rw [Ring.answer, hget]; rfl, hnext⟩
  | get =>
      obtain ⟨next, hget, hnext⟩ := h.get
      exact ⟨next, by rw [Ring.answer, hget]; rfl, hnext⟩
  | empty => exact ⟨ring, by rw [Ring.answer, h.empty]; rfl, h⟩
  | full => exact ⟨ring, by rw [Ring.answer, h.full]; rfl, h⟩
  | size =>
      obtain ⟨size, hsize, hvalue⟩ := h.size
      refine ⟨ring, ?_, h⟩
      rw [Ring.answer, hsize, CircularVector.answer, ← hvalue]
      rfl
  | walk => exact ⟨ring, by rw [Ring.answer, h.walk]; rfl, h⟩

end Represents

section Services

variable {α : Type} [MoveFrom α]

theorem serveAll_follows :
    FailingService.Follows (Represents (α := α)) Ring.serveAll
      fun call vector => some (CircularVector.answer call vector) := by
  intro call ring vector h
  obtain ⟨next, hanswer, hnext⟩ := h.answer call
  exact .inr ⟨_, next, _, by rw [Ring.serveAll, hanswer]; rfl, rfl, hnext⟩

theorem serve_follows :
    FailingService.Follows (Represents (α := α)) Ring.serve CircularVector.serve := by
  intro call ring vector h
  cases hpermits : vector.permits call with
  | false =>
      have hring : ring.permits call = .ok false := by rw [h.permits, hpermits]
      refine .inl ⟨?_, ?_⟩
      · rw [Ring.serve, hring]
        rfl
      · rw [CircularVector.serve, hpermits]
        rfl
  | true =>
      have hring : ring.permits call = .ok true := by rw [h.permits, hpermits]
      obtain ⟨next, hanswer, hnext⟩ := h.answer call
      refine .inr ⟨(CircularVector.answer call vector).1, next,
        (CircularVector.answer call vector).2, ?_, ?_, hnext⟩
      · rw [Ring.serve, hring]
        show Ring.serveAll call ring = _
        rw [Ring.serveAll, hanswer]
        rfl
      · rw [CircularVector.serve, hpermits]
        rfl

theorem serveShared_follows :
    FailingService.Follows (Represents (α := α)) Ring.serveShared TSCircularVector.serve := by
  intro call ring vector h
  have hempty := h.empty
  cases call with
  | push value =>
      cases hfull : vector.full with
      | true =>
          refine .inl ⟨?_, ?_⟩
          · rw [Ring.serveShared, h.full, hfull]
            rfl
          · simp [TSCircularVector.serve, TSCircularVector.push, hfull]
      | false =>
          obtain ⟨next, hpush, hnext⟩ := h.push_some value .done
          refine .inr ⟨.done, next, vector.push value, ?_, ?_, hnext⟩
          · rw [Ring.serveShared, h.full, hfull]
            exact hpush
          · simp [TSCircularVector.serve, TSCircularVector.push, hfull]
  | pushUntil value stop =>
      cases stop with
      | true =>
          refine .inr ⟨.flag false, ring, vector, ?_, ?_, h⟩
          · rw [Ring.serveShared, h.full, Bool.not_true]
            show (if (vector.full && false) = true then _ else _) = _
            rw [Bool.and_false]
            rfl
          · simp [TSCircularVector.serve, TSCircularVector.push]
      | false =>
          cases hfull : vector.full with
          | true =>
              refine .inl ⟨?_, ?_⟩
              · rw [Ring.serveShared, h.full, hfull]
                rfl
              · simp [TSCircularVector.serve, TSCircularVector.push, hfull]
          | false =>
              obtain ⟨next, hpush, hnext⟩ := h.push_some value (.flag true)
              refine .inr ⟨.flag true, next, vector.push value, ?_, ?_, hnext⟩
              · rw [Ring.serveShared, h.full, hfull]
                exact hpush
              · simp [TSCircularVector.serve, TSCircularVector.push, hfull]
  | tryPush value =>
      cases hfull : vector.full with
      | true =>
          refine .inr ⟨.flag false, ring, vector, ?_, ?_, h⟩
          · rw [Ring.serveShared, h.full, hfull]
            rfl
          · simp [TSCircularVector.serve, TSCircularVector.tryPush, hfull]
      | false =>
          obtain ⟨next, hpush, hnext⟩ := h.push_some value (.flag true)
          refine .inr ⟨.flag true, next, vector.push value, ?_, ?_, hnext⟩
          · rw [Ring.serveShared, h.full, hfull]
            exact hpush
          · simp [TSCircularVector.serve, TSCircularVector.tryPush, hfull]
  | front =>
      cases hvector : vector.empty with
      | true =>
          rw [hvector] at hempty
          exact .inl ⟨by rw [Ring.serveShared, hempty]; rfl, by simp [TSCircularVector.serve, hvector]⟩
      | false =>
          rw [hvector] at hempty
          refine .inr ⟨.value vector.front, ring, vector, ?_, ?_, h⟩
          · rw [Ring.serveShared, hempty, h.front]
            rfl
          · simp [TSCircularVector.serve, hvector]
  | waitForCondition stop =>
      cases hwaits : vector.empty && !stop with
      | true =>
          exact .inl ⟨by simp [Ring.serveShared, hempty, hwaits],
            by simp [TSCircularVector.serve, hwaits]⟩
      | false =>
          exact .inr ⟨.flag !stop, ring, vector, by simp [Ring.serveShared, hempty, hwaits],
            by simp [TSCircularVector.serve, hwaits], h⟩
  | pop =>
      cases hvector : vector.empty with
      | true =>
          rw [hvector] at hempty
          exact .inl ⟨by rw [Ring.serveShared, hempty]; rfl,
            by simp [TSCircularVector.serve, TSCircularVector.pop, hvector]⟩
      | false =>
          rw [hvector] at hempty
          obtain ⟨next, hget, hnext⟩ := h.get
          refine .inr ⟨.done, next, vector.pop, ?_, ?_, hnext⟩
          · rw [Ring.serveShared, hempty, hget]
            rfl
          · simp [TSCircularVector.serve, TSCircularVector.pop, hvector]
  | get =>
      cases hvector : vector.empty with
      | true =>
          rw [hvector] at hempty
          exact .inl ⟨by rw [Ring.serveShared, hempty]; rfl,
            by simp [TSCircularVector.serve, TSCircularVector.pop, hvector]⟩
      | false =>
          rw [hvector] at hempty
          obtain ⟨next, hget, hnext⟩ := h.get
          refine .inr ⟨.value vector.front, next, vector.pop, ?_, ?_, hnext⟩
          · rw [Ring.serveShared, hempty, hget]
            rfl
          · simp [TSCircularVector.serve, TSCircularVector.pop, hvector]
  | tryGetUntil stop =>
      cases stop with
      | true =>
          refine .inr ⟨.optional none, ring, vector, ?_, by simp [TSCircularVector.serve], h⟩
          rw [Ring.serveShared, Bool.not_true, Bool.and_false]
          rfl
      | false =>
          cases hvector : vector.empty with
          | true =>
              rw [hvector] at hempty
              exact .inl ⟨by rw [Ring.serveShared, hempty]; rfl,
                by simp [TSCircularVector.serve, TSCircularVector.pop, hvector]⟩
          | false =>
              rw [hvector] at hempty
              obtain ⟨next, hget, hnext⟩ := h.get
              refine .inr ⟨.optional (some vector.front), next, vector.pop, ?_, ?_, hnext⟩
              · rw [Ring.serveShared, hempty, hget]
                rfl
              · simp [TSCircularVector.serve, TSCircularVector.pop, hvector]
  | canGet =>
      exact .inr ⟨.flag !vector.empty, ring, vector, by rw [Ring.serveShared, hempty], rfl, h⟩
  | notifyAll => exact .inr ⟨.done, ring, vector, rfl, rfl, h⟩

end Services

/-! ## New rings -/

section New

variable {α : Type} [Inhabited α]

theorem toNat_add_one {size : UInt32} (hsize : size.toNat + 1 < 2 ^ 32) :
    (size + 1).toNat = size.toNat + 1 := by
  rw [UInt32.toNat_add]
  exact Nat.mod_eq_of_lt hsize

theorem ofSize_represents {size : UInt32} (hsize : size.toNat < 2 ^ 31) :
    Represents (Ring.ofSize size : Ring α) (CircularVector.ofSize size.toNat) := by
  have hcapacity : (size + 1).toNat = size.toNat + 1 := toNat_add_one (by omega)
  have hlength : (size + 1 + 1).toNat = size.toNat + 2 := by
    rw [toNat_add_one (by omega), hcapacity]
  refine ⟨?_, rfl, rfl, hcapacity, hsize⟩
  show List.replicate (size + 1 + 1).toNat default = List.replicate (size.toNat + 2) default
  rw [hlength]

theorem ofSizeShared_represents {size : UInt32} (hsize : size.toNat < 2 ^ 31) :
    Represents (Ring.ofSizeShared size : Ring α) (TSCircularVector.ofSize size.toNat) := by
  have hcapacity : (size + 1).toNat = size.toNat + 1 := toNat_add_one (by omega)
  refine ⟨?_, rfl, rfl, hcapacity, hsize⟩
  show List.replicate (size + 1).toNat default = List.replicate (size.toNat + 1) default
  rw [hcapacity]

end New

/-- Both classes are queues of as many elements as their size says: no call ever
fails, and every sequence of calls is answered as a queue answers it. -/
theorem refines_fifo {α : Type} [Inhabited α] [MoveFrom α] (size : UInt32)
    (hsize : size.toNat + 2 < 2 ^ 31) :
    (∀ calls : List (QueueCall α),
        FailingService.responses Ring.serve calls (Ring.ofSize size) =
          .ok (Service.responses (Fifo.serve size.toNat) calls .nothing)) ∧
      ∀ calls : List (SharedCall α),
        FailingService.responses Ring.serveShared calls (Ring.ofSizeShared size) =
          .ok (Service.responses (Fifo.serveShared size.toNat) calls .nothing) := by
  constructor
  · intro calls
    rw [serve_follows.responses calls (ofSize_represents (by omega)),
      (CircularVector.serve_refines size.toNat).responses calls (holds_ofSize size.toNat)]
  · intro calls
    rw [serveShared_follows.responses calls (ofSizeShared_represents (by omega)),
      (TSCircularVector.serve_refines size.toNat).responses calls (holds_ofSizeShared size.toNat)]

/-- Two elements fit, and the third is not taken. -/
theorem refines_fifo_two :
    (2 : UInt32).toNat + 2 < 2 ^ 31 ∧
      FailingService.responses (@Ring.serve Nat ⟨id⟩) [.push 7, .push 8, .push 9, .get, .walk]
          (Ring.ofSize 2) =
        .ok [some .done, some .done, none, some (.value 7), some (.values [8])] ∧
      FailingService.responses (@Ring.serveShared Nat ⟨id⟩) [.push 7, .tryPush 8, .tryPush 9, .get]
          (Ring.ofSizeShared 2) =
        .ok [some .done, some (.flag true), some (.flag false), some (.value 7)] :=
  ⟨by decide, (@refines_fifo Nat _ ⟨id⟩ 2 (by decide)).1 [.push 7, .push 8, .push 9, .get, .walk],
    (@refines_fifo Nat _ ⟨id⟩ 2 (by decide)).2 [.push 7, .tryPush 8, .tryPush 9, .get]⟩

end PdsBackup.Machine
