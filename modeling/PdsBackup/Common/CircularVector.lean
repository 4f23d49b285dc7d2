import Mathlib.Data.List.Range
import Mathlib.Tactic.Common

/-!
# Circular vectors

The class `Circular_vector`: a vector of slots with the index of the head and
the index after the tail.  One index in use is never reached by the other, so
that the two are equal exactly when there is no element.  What a circular vector
holds, from head to tail, is read off with the loop its users walk it with.
-/

namespace PdsBackup

/-- What is left of a value that has been moved from. -/
class MoveFrom (α : Type) where
  movedFrom : α → α

structure CircularVector (α : Type) where
  slots : List α
  start : Nat
  tail : Nat
  capacity : Nat
  capacity_le : capacity ≤ slots.length
  start_lt : start < capacity
  tail_lt : tail < capacity

namespace CircularVector

variable {α : Type}

/-- The constructor from a size; the slots are default-constructed. -/
def ofSize [Inhabited α] (size : Nat) : CircularVector α where
  slots := List.replicate (size + 2) default
  start := 0
  tail := 0
  capacity := size + 1
  capacity_le := by simp
  start_lt := Nat.succ_pos size
  tail_lt := Nat.succ_pos size

theorem capacity_pos (ring : CircularVector α) : 0 < ring.capacity :=
  Nat.zero_lt_of_lt ring.start_lt

/-- `operator[]` at an index of the ring. -/
def slot (ring : CircularVector α) (index : Nat) (hindex : index < ring.capacity) : α :=
  ring.slots.get ⟨index, Nat.lt_of_lt_of_le hindex ring.capacity_le⟩

def push (value : α) (ring : CircularVector α) : CircularVector α where
  slots := ring.slots.set ring.tail value
  start := ring.start
  tail := (ring.tail + 1) % ring.capacity
  capacity := ring.capacity
  capacity_le := by rw [List.length_set]; exact ring.capacity_le
  start_lt := ring.start_lt
  tail_lt := Nat.mod_lt _ ring.capacity_pos

def front (ring : CircularVector α) : α := ring.slot ring.start ring.start_lt

def pop [MoveFrom α] (ring : CircularVector α) : CircularVector α where
  slots := ring.slots.set ring.start (MoveFrom.movedFrom ring.front)
  start := (ring.start + 1) % ring.capacity
  tail := ring.tail
  capacity := ring.capacity
  capacity_le := by rw [List.length_set]; exact ring.capacity_le
  start_lt := Nat.mod_lt _ ring.capacity_pos
  tail_lt := ring.tail_lt

def empty (ring : CircularVector α) : Bool := ring.start = ring.tail

def full (ring : CircularVector α) : Bool := (ring.tail + 1) % ring.capacity = ring.start

def size (ring : CircularVector α) : Nat :=
  (ring.capacity + ring.tail - ring.start) % ring.capacity

/-! ## Walking from head to tail -/

/-- The indices of `for (i = start; i != end; i = (i + 1) % capacity)`. -/
def visited (stop capacity : Nat) : Nat → Nat → List Nat
  | 0, _ => []
  | fuel + 1, index =>
      if index = stop then []
      else index :: visited stop capacity fuel ((index + 1) % capacity)

/-- What the walk reads; no walk has more than `capacity` steps. -/
def toList (ring : CircularVector α) : List α :=
  (visited ring.tail ring.capacity ring.capacity ring.start).filterMap (ring.slots[·]?)

/-- An index inside the ring, moved on by at most one round. -/
theorem add_mod_of_lt {index steps capacity : Nat} (hindex : index < capacity)
    (hsteps : steps ≤ capacity) :
    (index + steps) % capacity =
      if index + steps < capacity then index + steps else index + steps - capacity := by
  split
  · rename_i hlt
    exact Nat.mod_eq_of_lt hlt
  · rename_i hge
    rw [Nat.mod_eq_sub_mod (by omega), Nat.mod_eq_of_lt (by omega)]

theorem size_eq (ring : CircularVector α) :
    ring.size =
      if ring.start ≤ ring.tail then ring.tail - ring.start
      else ring.capacity + ring.tail - ring.start := by
  have hstart := ring.start_lt
  have hend := ring.tail_lt
  rw [size]
  split
  · rw [Nat.mod_eq_sub_mod (by omega), Nat.mod_eq_of_lt (by omega)]
    omega
  · exact Nat.mod_eq_of_lt (by omega)

theorem size_lt (ring : CircularVector α) : ring.size < ring.capacity :=
  Nat.mod_lt _ ring.capacity_pos

/-- A walk that ends has visited as many indices as the distance it covered. -/
theorem visited_eq {stop capacity : Nat} (hstop : stop < capacity) {fuel index : Nat}
    (hindex : index < capacity) (distance : Nat)
    (hdistance : (index + distance) % capacity = stop) (hlt : distance < capacity)
    (hfuel : distance ≤ fuel) :
    visited stop capacity fuel index =
      (List.range distance).map fun steps => (index + steps) % capacity := by
  induction fuel generalizing index distance with
  | zero =>
      obtain rfl : distance = 0 := by omega
      rfl
  | succ fuel ih =>
      rw [visited]
      cases distance with
      | zero =>
          rw [Nat.add_zero, Nat.mod_eq_of_lt hindex] at hdistance
          simp [hdistance]
      | succ distance =>
          have hne : index ≠ stop := by
            rintro rfl
            rw [add_mod_of_lt hindex (by omega)] at hdistance
            split at hdistance <;> omega
          have hnext : ((index + 1) % capacity + distance) % capacity = stop := by
            rw [Nat.mod_add_mod, ← hdistance]
            congr 1
            omega
          rw [if_neg hne, ih (Nat.mod_lt _ (by omega)) distance hnext (by omega) (by omega),
            List.range_succ_eq_map, List.map_cons, List.map_map]
          congr 1
          · exact (Nat.mod_eq_of_lt hindex).symm
          · apply List.map_congr_left
            intro steps _
            rw [Function.comp_apply, Nat.mod_add_mod]
            congr 1
            omega

/-- The indices in use, from head to tail. -/
def indices (ring : CircularVector α) : List Nat :=
  (List.range ring.size).map fun steps => (ring.start + steps) % ring.capacity

theorem start_add_size (ring : CircularVector α) :
    (ring.start + ring.size) % ring.capacity = ring.tail := by
  have hstart := ring.start_lt
  have hend := ring.tail_lt
  have hsize := ring.size_eq
  rw [add_mod_of_lt hstart (Nat.le_of_lt ring.size_lt)]
  split at hsize <;> split <;> omega

theorem size_eq_of_add_mod {ring : CircularVector α} {distance : Nat}
    (hdistance : (ring.start + distance) % ring.capacity = ring.tail)
    (hlt : distance < ring.capacity) : ring.size = distance := by
  have hsize := ring.start_add_size
  have hbound := ring.size_lt
  have hstart := ring.start_lt
  rw [← hdistance, add_mod_of_lt hstart (by omega), add_mod_of_lt hstart (by omega)] at hsize
  split at hsize <;> split at hsize <;> omega

theorem visited_start (ring : CircularVector α) :
    visited ring.tail ring.capacity ring.capacity ring.start = ring.indices :=
  visited_eq ring.tail_lt ring.start_lt ring.size ring.start_add_size ring.size_lt
    (Nat.le_of_lt ring.size_lt)

theorem toList_eq (ring : CircularVector α) :
    ring.toList = ring.indices.filterMap (ring.slots[·]?) := by
  rw [toList, visited_start]

theorem lt_of_mem_indices {ring : CircularVector α} {index : Nat}
    (hindex : index ∈ ring.indices) : index < ring.capacity := by
  obtain ⟨steps, _, rfl⟩ := List.mem_map.mp hindex
  exact Nat.mod_lt _ ring.capacity_pos

/-- The slot after the tail is not in use. -/
theorem tail_notMem_indices (ring : CircularVector α) : ring.tail ∉ ring.indices := by
  intro hmem
  obtain ⟨steps, hsteps, heq⟩ := List.mem_map.mp hmem
  have hlt := List.mem_range.mp hsteps
  have hsize := size_eq_of_add_mod heq (Nat.lt_trans hlt ring.size_lt)
  omega

/-- Changing a slot that is not in use changes no element. -/
theorem filterMap_set {indices : List Nat} {index : Nat} (hindex : index ∉ indices) (slots : List α)
    (value : α) :
    indices.filterMap ((slots.set index value)[·]?) = indices.filterMap (slots[·]?) := by
  apply List.filterMap_congr
  intro other hother
  rw [List.getElem?_set_ne]
  rintro rfl
  exact hindex hother

theorem full_eq_true_iff (ring : CircularVector α) :
    ring.full = true ↔ ring.size + 1 = ring.capacity := by
  have hstart := ring.start_lt
  have hend := ring.tail_lt
  have hsize := ring.size_eq
  rw [full, decide_eq_true_iff, add_mod_of_lt hend (by omega)]
  constructor
  · intro hfull
    split at hfull <;> split at hsize <;> omega
  · intro hfull
    split <;> split at hsize <;> omega

theorem empty_eq_true_iff (ring : CircularVector α) : ring.empty = true ↔ ring.size = 0 := by
  have hstart := ring.start_lt
  have hend := ring.tail_lt
  have hsize := ring.size_eq
  rw [empty, decide_eq_true_iff]
  split at hsize <;> omega

theorem size_push (value : α) {ring : CircularVector α} (hfull : ring.full = false) :
    (ring.push value).size = ring.size + 1 := by
  have hnot : ring.size + 1 ≠ ring.capacity := fun hsize => by
    simp [(ring.full_eq_true_iff).mpr hsize] at hfull
  have hbound := ring.size_lt
  apply size_eq_of_add_mod
  · show (ring.start + (ring.size + 1)) % ring.capacity = (ring.tail + 1) % ring.capacity
    rw [← Nat.add_assoc, ← Nat.mod_add_mod, ring.start_add_size]
  · show ring.size + 1 < ring.capacity
    omega

theorem indices_push (value : α) {ring : CircularVector α} (hfull : ring.full = false) :
    (ring.push value).indices = ring.indices ++ [ring.tail] := by
  rw [indices, size_push value hfull, List.range_succ, List.map_append, List.map_singleton]
  exact congrArg (ring.indices ++ [·]) ring.start_add_size

theorem toList_push (value : α) {ring : CircularVector α} (hfull : ring.full = false) :
    (ring.push value).toList = ring.toList ++ [value] := by
  have hend : ring.tail < ring.slots.length := Nat.lt_of_lt_of_le ring.tail_lt ring.capacity_le
  rw [toList_eq, toList_eq, indices_push value hfull, List.filterMap_append]
  congr 1
  · exact filterMap_set ring.tail_notMem_indices ring.slots value
  · simp [push, hend]

theorem size_eq_succ {ring : CircularVector α} (hempty : ring.empty = false) :
    ∃ rest, ring.size = rest + 1 := by
  apply Nat.exists_eq_succ_of_ne_zero
  intro hsize
  simp [(ring.empty_eq_true_iff).mpr hsize] at hempty

section Pop

variable [MoveFrom α]

theorem size_pop {ring : CircularVector α} (hempty : ring.empty = false) :
    ring.size = ring.pop.size + 1 := by
  obtain ⟨rest, hrest⟩ := size_eq_succ hempty
  have hbound := ring.size_lt
  rw [hrest, size_eq_of_add_mod]
  · show ((ring.start + 1) % ring.capacity + rest) % ring.capacity = ring.tail
    rw [Nat.mod_add_mod, Nat.add_assoc, Nat.add_comm 1, ← hrest, ring.start_add_size]
  · show rest < ring.capacity
    omega

theorem indices_pop {ring : CircularVector α} (hempty : ring.empty = false) :
    ring.indices = ring.start :: ring.pop.indices := by
  rw [indices, size_pop hempty, List.range_succ_eq_map, List.map_cons, List.map_map]
  congr 1
  · exact Nat.mod_eq_of_lt ring.start_lt
  · apply List.map_congr_left
    intro steps _
    simp only [pop, Function.comp_apply, Nat.mod_add_mod]
    congr 1
    omega

theorem start_notMem_indices_pop {ring : CircularVector α} (hempty : ring.empty = false) :
    ring.start ∉ ring.pop.indices := by
  intro hmem
  obtain ⟨steps, hsteps, heq⟩ := List.mem_map.mp hmem
  have hlt := List.mem_range.mp hsteps
  have hsize := size_pop hempty
  have hbound := ring.size_lt
  have hstart := ring.start_lt
  simp only [pop, Nat.mod_add_mod] at heq
  rw [Nat.add_assoc, add_mod_of_lt hstart (by omega)] at heq
  split at heq <;> omega

theorem toList_pop {ring : CircularVector α} (hempty : ring.empty = false) :
    ring.toList = ring.front :: ring.pop.toList := by
  have hstart : ring.start < ring.slots.length :=
    Nat.lt_of_lt_of_le ring.start_lt ring.capacity_le
  have hslots : ring.pop.indices.filterMap (ring.pop.slots[·]?) =
      ring.pop.indices.filterMap (ring.slots[·]?) :=
    filterMap_set (start_notMem_indices_pop hempty) ring.slots _
  rw [toList_eq, indices_pop hempty, toList_eq ring.pop, hslots,
    List.filterMap_cons_some (List.getElem?_eq_getElem hstart)]
  rfl

end Pop

theorem toList_of_empty {ring : CircularVector α} (hempty : ring.empty = true) :
    ring.toList = [] := by
  rw [toList_eq, indices, (ring.empty_eq_true_iff).mp hempty]
  rfl

theorem toList_eq_nil_iff [MoveFrom α] (ring : CircularVector α) :
    ring.toList = [] ↔ ring.empty = true := by
  constructor
  · intro hnil
    by_contra hempty
    rw [toList_pop (by simpa using hempty)] at hnil
    exact absurd hnil (by simp)
  · exact toList_of_empty

theorem length_toList (ring : CircularVector α) : ring.toList.length = ring.size := by
  have hslots : ∀ index ∈ ring.indices, (ring.slots[index]?).isSome = true := by
    intro index hindex
    have hlt := lt_of_mem_indices hindex
    have hslot : index < ring.slots.length := Nat.lt_of_lt_of_le hlt ring.capacity_le
    simp [hslot]
  rw [toList_eq, List.length_filterMap_eq_countP, List.countP_eq_length.mpr hslots, indices,
    List.length_map, List.length_range]

@[simp] theorem toList_ofSize [Inhabited α] (size : Nat) :
    (ofSize size : CircularVector α).toList = [] :=
  toList_of_empty (by simp [ofSize, empty])

theorem getElem?_start (ring : CircularVector α) : ring.slots[ring.start]? = some ring.front :=
  List.getElem?_eq_getElem (Nat.lt_of_lt_of_le ring.start_lt ring.capacity_le)

/-- A push does not touch the slot of the head. -/
theorem front_push (value : α) {ring : CircularVector α} (hempty : ring.empty = false) :
    (ring.push value).front = ring.front := by
  have hne : ring.tail ≠ ring.start := by
    intro hsame
    simp [empty, hsame] at hempty
  have hslot := (ring.push value).getElem?_start
  have hset : (ring.push value).slots[(ring.push value).start]? = ring.slots[ring.start]? :=
    List.getElem?_set_ne hne
  rw [hset, ring.getElem?_start, Option.some.injEq] at hslot
  exact hslot.symm

end CircularVector

/-- The class `TS_Circular_vector`: the same ring without the spare slot.  A method
is one step, under the mutex; the result is `none` as long as the method waits. -/
abbrev TSCircularVector := CircularVector

namespace TSCircularVector

variable {α : Type}

def ofSize [Inhabited α] (size : Nat) : TSCircularVector α where
  slots := List.replicate (size + 1) default
  start := 0
  tail := 0
  capacity := size + 1
  capacity_le := by simp
  start_lt := Nat.succ_pos size
  tail_lt := Nat.succ_pos size

/-- `push` with a flag that ends the wait. -/
def push (value : α) (stop : Bool) (ring : TSCircularVector α) :
    Option (Bool × TSCircularVector α) :=
  if ring.full && !stop then none
  else if stop then some (false, ring)
  else some (true, CircularVector.push value ring)

def tryPush (value : α) (ring : TSCircularVector α) : Bool × TSCircularVector α :=
  if ring.full then (false, ring) else (true, CircularVector.push value ring)

/-- The index of the slot that the returned reference refers to. -/
def front (ring : TSCircularVector α) : Option Nat :=
  if ring.empty then none else some ring.start

def canGet (ring : TSCircularVector α) : Bool := !ring.empty

def pop [MoveFrom α] (ring : TSCircularVector α) : Option (TSCircularVector α) :=
  if ring.empty then none else some (CircularVector.pop ring)

theorem push_eq_some {value : α} {stop accepted : Bool} {ring next : TSCircularVector α}
    (hpush : ring.push value stop = some (accepted, next)) :
    accepted = false ∧ next = ring ∨
      accepted = true ∧ ring.full = false ∧ next = CircularVector.push value ring := by
  rw [push] at hpush
  cases stop with
  | true =>
      simp only [Bool.not_true, Bool.and_false, Bool.false_eq_true, if_false, if_true,
        Option.some.injEq, Prod.mk.injEq] at hpush
      exact .inl ⟨hpush.1.symm, hpush.2.symm⟩
  | false =>
      cases hfull : ring.full with
      | true => simp [hfull] at hpush
      | false =>
          simp only [hfull, Bool.false_and, Bool.false_eq_true, if_false, Option.some.injEq,
            Prod.mk.injEq] at hpush
          exact .inr ⟨hpush.1.symm, rfl, hpush.2.symm⟩

theorem tryPush_eq {value : α} {accepted : Bool} {ring next : TSCircularVector α}
    (hpush : ring.tryPush value = (accepted, next)) :
    accepted = false ∧ next = ring ∨
      accepted = true ∧ ring.full = false ∧ next = CircularVector.push value ring := by
  rw [tryPush] at hpush
  cases hfull : ring.full with
  | true =>
      rw [hfull, if_pos rfl, Prod.mk.injEq] at hpush
      exact .inl ⟨hpush.1.symm, hpush.2.symm⟩
  | false =>
      rw [hfull, if_neg Bool.false_ne_true, Prod.mk.injEq] at hpush
      exact .inr ⟨hpush.1.symm, rfl, hpush.2.symm⟩

end TSCircularVector

end PdsBackup
