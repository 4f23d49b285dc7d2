import PdsBackup.Common.CircularVector
import PdsBackup.Core.Objects

/-!
# Circular vectors as queues

What a bounded queue answers to the calls of `Circular_vector` and of
`TS_Circular_vector`, and that the two classes answer the same.  Of
`Circular_vector` a caller tests `full` before `push`, and `empty` before
`front`, `pop` and `get`; the methods of `TS_Circular_vector` wait for the same,
and a method that waits is not served.
-/

namespace PdsBackup

/-- The methods of `Circular_vector`, and the loop of `recoverFromError` from
`start()` to `end()` over `operator[]`. -/
inductive QueueCall (α : Type) where
  | push (value : α)
  | front
  | pop
  | get
  | empty
  | full
  | size
  | walk

/-- The methods of `TS_Circular_vector`, with what `stop` is when they read it. -/
inductive SharedCall (α : Type) where
  | push (value : α)
  | pushUntil (value : α) (stop : Bool)
  | tryPush (value : α)
  | front
  | waitForCondition (stop : Bool)
  | pop
  | get
  | tryGetUntil (stop : Bool)
  | canGet
  | notifyAll

inductive QueueResponse (α : Type) where
  | done
  | value (value : α)
  | optional (value : Option α)
  | flag (flag : Bool)
  | count (count : Int)
  | values (list : List α)

variable {α : Type}

/-! ## The queue -/

/-- A queue that takes `capacity` elements. -/
structure Fifo (α : Type) (capacity : Nat) where
  elements : List α
  length_le : elements.length ≤ capacity

namespace Fifo

variable {capacity : Nat}

def nothing : Fifo α capacity := ⟨[], Nat.zero_le capacity⟩

/-- A new last element, where there is room. -/
def put (queue : Fifo α capacity) (value : α) : Option (Fifo α capacity) :=
  if hroom : queue.elements.length < capacity then
    some ⟨queue.elements ++ [value], by rw [List.length_append]; exact hroom⟩
  else none

/-- The first element and the queue of the others, where there is one. -/
def take (queue : Fifo α capacity) : Option (α × Fifo α capacity) :=
  match hqueue : queue.elements with
  | [] => none
  | value :: rest => some (value, ⟨rest, by
      have hlength := queue.length_le
      rw [hqueue] at hlength
      exact Nat.le_of_succ_le hlength⟩)

def isEmpty (queue : Fifo α capacity) : Bool := queue.elements.length = 0

def isFull (queue : Fifo α capacity) : Bool := queue.elements.length = capacity

def serve (capacity : Nat) : Service (QueueCall α) (QueueResponse α) (Fifo α capacity)
  | .push value, queue => (queue.put value).map fun next => (.done, next)
  | .front, queue => queue.take.map fun taken => (.value taken.1, queue)
  | .pop, queue => queue.take.map fun taken => (.done, taken.2)
  | .get, queue => queue.take.map fun taken => (.value taken.1, taken.2)
  | .empty, queue => some (.flag queue.isEmpty, queue)
  | .full, queue => some (.flag queue.isFull, queue)
  | .size, queue => some (.count queue.elements.length, queue)
  | .walk, queue => some (.values queue.elements, queue)

def serveShared (capacity : Nat) : Service (SharedCall α) (QueueResponse α) (Fifo α capacity)
  | .push value, queue => (queue.put value).map fun next => (.done, next)
  | .pushUntil value stop, queue =>
      if stop then some (.flag false, queue)
      else (queue.put value).map fun next => (.flag true, next)
  | .tryPush value, queue =>
      match queue.put value with
      | none => some (.flag false, queue)
      | some next => some (.flag true, next)
  | .front, queue => queue.take.map fun taken => (.value taken.1, queue)
  | .waitForCondition stop, queue =>
      if queue.isEmpty && !stop then none else some (.flag !stop, queue)
  | .pop, queue => queue.take.map fun taken => (.done, taken.2)
  | .get, queue => queue.take.map fun taken => (.value taken.1, taken.2)
  | .tryGetUntil stop, queue =>
      if stop then some (.optional none, queue)
      else queue.take.map fun taken => (.optional (some taken.1), taken.2)
  | .canGet, queue => some (.flag !queue.isEmpty, queue)
  | .notifyAll, queue => some (.done, queue)

end Fifo

/-! ## The circular vectors -/

/-- The ring holds the elements of the queue and has room for as many. -/
structure Holds {capacity : Nat} (ring : CircularVector α) (queue : Fifo α capacity) : Prop where
  elements : ring.toList = queue.elements
  capacity_eq : ring.capacity = capacity + 1

namespace Holds

variable {capacity : Nat} {ring : CircularVector α} {queue : Fifo α capacity}

theorem size (hholds : Holds ring queue) : ring.size = queue.elements.length := by
  rw [← hholds.elements, ring.length_toList]

theorem isEmpty (hholds : Holds ring queue) : queue.isEmpty = ring.empty := by
  rw [Bool.eq_iff_iff, ring.empty_eq_true_iff, hholds.size, Fifo.isEmpty, decide_eq_true_iff]

theorem isFull (hholds : Holds ring queue) : queue.isFull = ring.full := by
  rw [Bool.eq_iff_iff, ring.full_eq_true_iff, hholds.size, hholds.capacity_eq, Fifo.isFull,
    decide_eq_true_iff, Nat.add_right_cancel_iff]

/-- Both refuse an element, or both take it. -/
theorem push (hholds : Holds ring queue) (value : α) :
    (ring.full = true ∧ queue.put value = none) ∨
      (ring.full = false ∧ ∃ next, queue.put value = some next ∧ Holds (ring.push value) next) := by
  have hfull := hholds.isFull
  have hlength := queue.length_le
  cases hring : ring.full with
  | true =>
      rw [hring, Fifo.isFull, decide_eq_true_iff] at hfull
      exact .inl ⟨rfl, dif_neg (by omega)⟩
  | false =>
      rw [hring, Fifo.isFull, decide_eq_false_iff_not] at hfull
      refine .inr ⟨rfl, _, dif_pos (by omega), ?_, hholds.capacity_eq⟩
      rw [CircularVector.toList_push value hring, hholds.elements]

end Holds

theorem holds_ofSize [Inhabited α] (size : Nat) :
    Holds (CircularVector.ofSize size : CircularVector α) (Fifo.nothing : Fifo α size) :=
  ⟨CircularVector.toList_ofSize size, rfl⟩

theorem holds_ofSizeShared [Inhabited α] (size : Nat) :
    Holds (TSCircularVector.ofSize size : TSCircularVector α) (Fifo.nothing : Fifo α size) :=
  ⟨CircularVector.toList_of_empty rfl, rfl⟩

section Rings

variable [MoveFrom α]

namespace CircularVector

/-- What a call does, whether or not the caller should make it. -/
def answer : QueueCall α → CircularVector α → QueueResponse α × CircularVector α
  | .push value, ring => (.done, ring.push value)
  | .front, ring => (.value ring.front, ring)
  | .pop, ring => (.done, ring.pop)
  | .get, ring => (.value ring.front, ring.pop)
  | .empty, ring => (.flag ring.empty, ring)
  | .full, ring => (.flag ring.full, ring)
  | .size, ring => (.count ring.size, ring)
  | .walk, ring => (.values ring.toList, ring)

/-- Where the caller may make the call. -/
def permits (ring : CircularVector α) : QueueCall α → Bool
  | .push _ => !ring.full
  | .front | .pop | .get => !ring.empty
  | .empty | .full | .size | .walk => true

def serve : Service (QueueCall α) (QueueResponse α) (CircularVector α) := fun call ring =>
  if ring.permits call then some (answer call ring) else none

end CircularVector

namespace TSCircularVector

open CircularVector

def serve : Service (SharedCall α) (QueueResponse α) (TSCircularVector α)
  | .push value, ring => (ring.push value false).map fun next => (.done, next.2)
  | .pushUntil value stop, ring => (ring.push value stop).map fun next => (.flag next.1, next.2)
  | .tryPush value, ring => some (.flag (ring.tryPush value).1, (ring.tryPush value).2)
  | .front, ring => if ring.empty then none else some (.value (CircularVector.front ring), ring)
  | .waitForCondition stop, ring =>
      if ring.empty && !stop then none else some (.flag !stop, ring)
  | .pop, ring => ring.pop.map fun next => (.done, next)
  | .get, ring => ring.pop.map fun next => (.value (CircularVector.front ring), next)
  | .tryGetUntil stop, ring =>
      if stop then some (.optional none, ring)
      else ring.pop.map fun next => (.optional (some (CircularVector.front ring)), next)
  | .canGet, ring => some (.flag ring.canGet, ring)
  | .notifyAll, ring => some (.done, ring)

end TSCircularVector

/-- Both are empty, or both give up the same element. -/
theorem Holds.pop {capacity : Nat} {ring : CircularVector α} {queue : Fifo α capacity}
    (hholds : Holds ring queue) :
    (ring.empty = true ∧ queue.take = none) ∨
      (ring.empty = false ∧ ∃ next, queue.take = some (ring.front, next) ∧ Holds ring.pop next) := by
  cases hring : ring.empty with
  | true =>
      refine .inl ⟨rfl, ?_⟩
      have hnil : queue.elements = [] :=
        hholds.elements.symm.trans (CircularVector.toList_of_empty hring)
      unfold Fifo.take
      split
      · rfl
      · rename_i value rest hqueue
        rw [hnil] at hqueue
        cases hqueue
  | false =>
      refine .inr ⟨rfl, ?_⟩
      have hcons : queue.elements = ring.front :: ring.pop.toList :=
        hholds.elements.symm.trans (CircularVector.toList_pop hring)
      unfold Fifo.take
      split
      · rename_i hqueue
        rw [hcons] at hqueue
        cases hqueue
      · rename_i value rest hqueue
        rw [hcons] at hqueue
        cases hqueue
        exact ⟨_, rfl, rfl, hholds.capacity_eq⟩

/-- `Circular_vector` is a queue. -/
theorem CircularVector.serve_refines (capacity : Nat) :
    Service.Refines (Holds (α := α)) CircularVector.serve (Fifo.serve capacity) := by
  intro call ring queue hholds
  cases call with
  | push value =>
      cases hholds.push value with
      | inl hfull => exact .inl ⟨by simp [serve, permits, hfull.1], by simp [Fifo.serve, hfull.2]⟩
      | inr hroom =>
          obtain ⟨hfull, next, hput, hnext⟩ := hroom
          exact .inr ⟨.done, _, next, by simp [serve, permits, hfull, answer],
            by simp [Fifo.serve, hput], hnext⟩
  | front =>
      cases hholds.pop with
      | inl hempty => exact .inl ⟨by simp [serve, permits, hempty.1], by simp [Fifo.serve, hempty.2]⟩
      | inr hsome =>
          obtain ⟨hempty, next, htake, -⟩ := hsome
          exact .inr ⟨.value ring.front, ring, queue, by simp [serve, permits, hempty, answer],
            by simp [Fifo.serve, htake], hholds⟩
  | pop =>
      cases hholds.pop with
      | inl hempty => exact .inl ⟨by simp [serve, permits, hempty.1], by simp [Fifo.serve, hempty.2]⟩
      | inr hsome =>
          obtain ⟨hempty, next, htake, hnext⟩ := hsome
          exact .inr ⟨.done, _, next, by simp [serve, permits, hempty, answer],
            by simp [Fifo.serve, htake], hnext⟩
  | get =>
      cases hholds.pop with
      | inl hempty => exact .inl ⟨by simp [serve, permits, hempty.1], by simp [Fifo.serve, hempty.2]⟩
      | inr hsome =>
          obtain ⟨hempty, next, htake, hnext⟩ := hsome
          exact .inr ⟨.value ring.front, _, next, by simp [serve, permits, hempty, answer],
            by simp [Fifo.serve, htake], hnext⟩
  | empty => exact .inr ⟨_, ring, queue, rfl, by rw [Fifo.serve, hholds.isEmpty], hholds⟩
  | full => exact .inr ⟨_, ring, queue, rfl, by rw [Fifo.serve, hholds.isFull], hholds⟩
  | size => exact .inr ⟨_, ring, queue, rfl, by rw [Fifo.serve, hholds.size], hholds⟩
  | walk => exact .inr ⟨_, ring, queue, rfl, by rw [Fifo.serve, hholds.elements], hholds⟩

/-- `TS_Circular_vector` is a queue. -/
theorem TSCircularVector.serve_refines (capacity : Nat) :
    Service.Refines (Holds (α := α)) TSCircularVector.serve
      (Fifo.serveShared capacity) := by
  intro call ring queue hholds
  have hnone : ring.empty = true ∧ queue.take = none ∨
      ring.empty = false ∧ ∃ next, queue.take = some (CircularVector.front ring, next) ∧
        Holds (CircularVector.pop ring) next := hholds.pop
  cases call with
  | push value =>
      cases hholds.push value with
      | inl hfull =>
          exact .inl ⟨by simp [serve, push, hfull.1], by simp [Fifo.serveShared, hfull.2]⟩
      | inr hroom =>
          obtain ⟨hfull, next, hput, hnext⟩ := hroom
          exact .inr ⟨.done, _, next, by simp [serve, push, hfull],
            by simp [Fifo.serveShared, hput], hnext⟩
  | pushUntil value stop =>
      cases stop with
      | true => exact .inr ⟨.flag false, ring, queue, by simp [serve, push], rfl, hholds⟩
      | false =>
          cases hholds.push value with
          | inl hfull =>
              exact .inl ⟨by simp [serve, push, hfull.1], by simp [Fifo.serveShared, hfull.2]⟩
          | inr hroom =>
              obtain ⟨hfull, next, hput, hnext⟩ := hroom
              exact .inr ⟨.flag true, _, next, by simp [serve, push, hfull],
                by simp [Fifo.serveShared, hput], hnext⟩
  | tryPush value =>
      cases hholds.push value with
      | inl hfull =>
          exact .inr ⟨.flag false, ring, queue, by simp [serve, tryPush, hfull.1],
            by simp [Fifo.serveShared, hfull.2], hholds⟩
      | inr hroom =>
          obtain ⟨hfull, next, hput, hnext⟩ := hroom
          exact .inr ⟨.flag true, _, next, by simp [serve, tryPush, hfull],
            by simp [Fifo.serveShared, hput], hnext⟩
  | front =>
      cases hnone with
      | inl hempty => exact .inl ⟨by simp [serve, hempty.1], by simp [Fifo.serveShared, hempty.2]⟩
      | inr hsome =>
          obtain ⟨hempty, next, htake, -⟩ := hsome
          exact .inr ⟨_, ring, queue, by simp [serve, hempty]; rfl,
            by simp [Fifo.serveShared, htake], hholds⟩
  | waitForCondition stop =>
      have hempty := hholds.isEmpty
      cases hwaits : ring.empty && !stop with
      | true => exact .inl ⟨by simp [serve, hwaits], by simp [Fifo.serveShared, hempty, hwaits]⟩
      | false =>
          exact .inr ⟨.flag !stop, ring, queue, by simp [serve, hwaits],
            by simp [Fifo.serveShared, hempty, hwaits], hholds⟩
  | pop =>
      cases hnone with
      | inl hempty =>
          exact .inl ⟨by simp [serve, pop, hempty.1], by simp [Fifo.serveShared, hempty.2]⟩
      | inr hsome =>
          obtain ⟨hempty, next, htake, hnext⟩ := hsome
          exact .inr ⟨.done, _, next, by simp [serve, pop, hempty],
            by simp [Fifo.serveShared, htake], hnext⟩
  | get =>
      cases hnone with
      | inl hempty =>
          exact .inl ⟨by simp [serve, pop, hempty.1], by simp [Fifo.serveShared, hempty.2]⟩
      | inr hsome =>
          obtain ⟨hempty, next, htake, hnext⟩ := hsome
          exact .inr ⟨.value (CircularVector.front ring), _, next, by simp [serve, pop, hempty],
            by simp [Fifo.serveShared, htake], hnext⟩
  | tryGetUntil stop =>
      cases stop with
      | true => exact .inr ⟨.optional none, ring, queue, by simp [serve], rfl, hholds⟩
      | false =>
          cases hnone with
          | inl hempty =>
              exact .inl ⟨by simp [serve, pop, hempty.1], by simp [Fifo.serveShared, hempty.2]⟩
          | inr hsome =>
              obtain ⟨hempty, next, htake, hnext⟩ := hsome
              exact .inr ⟨.optional (some (CircularVector.front ring)), _, next,
                by simp [serve, pop, hempty], by simp [Fifo.serveShared, htake], hnext⟩
  | canGet =>
      exact .inr ⟨_, ring, queue, rfl, by rw [Fifo.serveShared, hholds.isEmpty]; rfl, hholds⟩
  | notifyAll => exact .inr ⟨.done, ring, queue, rfl, rfl, hholds⟩

end Rings

end PdsBackup
