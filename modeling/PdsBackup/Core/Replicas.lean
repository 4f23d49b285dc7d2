import Mathlib.Data.List.Induction
import Mathlib.Logic.Function.Basic
import Mathlib.Tactic.Common

/-!
# Tables that are kept twice

Two parties keep a table by the same operations.  One of them removes with a key all
that is below it; the other removes the keys one by one, as it is told of each.  The
first table is part of the second, and what is missing in it was below a key that was
swept and has not been put again.
-/

namespace PdsBackup

inductive TableOperation (κ ν : Type) where
  | put (key : κ) (value : ν)
  | drop (key : κ)
  | sweep (key : κ)
  deriving DecidableEq

namespace TableOperation

variable {κ ν : Type}

def key : TableOperation κ ν → κ
  | put key _ => key
  | drop key => key
  | sweep key => key

/-- What it leaves at its key. -/
def outcome : TableOperation κ ν → Option ν
  | put _ value => some value
  | drop _ => none
  | sweep _ => none

section Tables

variable [DecidableEq κ]

/-- The operation by a party that removes one key at a time. -/
def shallow (table : κ → Option ν) (operation : TableOperation κ ν) : κ → Option ν :=
  Function.update table operation.key operation.outcome

variable (below : κ → κ → Prop) [DecidableRel below]

/-- The operation by a party that sweeps what is below a key, if it has the key. -/
def deep (table : κ → Option ν) : TableOperation κ ν → κ → Option ν
  | put key value => Function.update table key (some value)
  | drop key => Function.update table key none
  | sweep key => fun other =>
      if (table key).isSome = true ∧ (other = key ∨ below key other) then none else table other

end Tables

section Orphans

variable (below : κ → κ → Prop)

/-- A key above was swept, and since then no operation was on the key itself. -/
def Orphan (operations : List (TableOperation κ ν)) (key : κ) : Prop :=
  ∃ before above after, operations = before ++ sweep above :: after ∧ below above key ∧
    ∀ operation ∈ after, operation.key ≠ key

variable {below} {operations : List (TableOperation κ ν)} {operation : TableOperation κ ν} {key : κ}

theorem Orphan.concat (horphan : Orphan below operations key) (hkey : operation.key ≠ key) :
    Orphan below (operations ++ [operation]) key := by
  obtain ⟨before, above, after, rfl, habove, hafter⟩ := horphan
  refine ⟨before, above, after ++ [operation], by simp, habove, ?_⟩
  intro other hother
  cases List.mem_append.mp hother with
  | inl hold => exact hafter other hold
  | inr hlast =>
      rw [List.mem_singleton.mp hlast]
      exact hkey

theorem orphan_swept {above : κ} (habove : below above key) :
    Orphan below (operations ++ [sweep above]) key :=
  ⟨operations, above, [], rfl, habove, fun _ hother => absurd hother List.not_mem_nil⟩

end Orphans

section Agreement

variable [DecidableEq κ] {below : κ → κ → Prop} [DecidableRel below]
variable {table : κ → Option ν} {operations : List (TableOperation κ ν)} {key : κ}

/-- What an operation leaves at a key does not depend on another key. -/
theorem shallow_congr {other : κ → Option ν} {operation : TableOperation κ ν}
    (htables : key ≠ operation.key → table key = other key) :
    shallow table operation key = shallow other operation key := by
  rw [shallow, shallow, Function.update_apply, Function.update_apply]
  split
  · rfl
  · next hkey => exact htables hkey

theorem shallow_of_ne {operation : TableOperation κ ν} (hkey : key ≠ operation.key) :
    shallow table operation key = table key := Function.update_of_ne hkey ..

variable (below) in
/-- Of the key it is on, the operation leaves the same in both tables. -/
theorem deep_key_eq (other : κ → Option ν) (operation : TableOperation κ ν) :
    deep below other operation operation.key = shallow table operation operation.key := by
  rw [shallow, Function.update_self]
  cases operation with
  | put own value => exact Function.update_self ..
  | drop own => exact Function.update_self ..
  | sweep own =>
      rw [TableOperation.key, deep]
      cases hown : other own with
      | none => simp [hown, outcome]
      | some value => simp [outcome]

variable (below) in
/-- Another key is left alone, or swept. -/
theorem deep_of_ne {operation : TableOperation κ ν} (hkey : key ≠ operation.key) :
    deep below table operation key = table key ∨
      deep below table operation key = none ∧
        ∃ above, operation = sweep above ∧ below above key := by
  cases operation with
  | put own value => exact .inl (Function.update_of_ne hkey ..)
  | drop own => exact .inl (Function.update_of_ne hkey ..)
  | sweep own =>
      by_cases hswept : (table own).isSome = true ∧ (key = own ∨ below own key)
      · exact .inr ⟨if_pos hswept, own, rfl, hswept.2.resolve_left hkey⟩
      · exact .inl (if_neg hswept)

variable (below table operations key) in
/-- The tables differ only where the first one has nothing and the key is an orphan. -/
theorem deep_eq_or_orphan :
    operations.foldl (deep below) table key = operations.foldl shallow table key ∨
      operations.foldl (deep below) table key = none ∧ Orphan below operations key := by
  induction operations using List.reverseRecOn with
  | nil => exact .inl rfl
  | append_singleton operations operation ih =>
      simp only [List.foldl_append, List.foldl_cons, List.foldl_nil]
      by_cases hkey : key = operation.key
      · rw [hkey]
        exact .inl (deep_key_eq below _ operation)
      rw [shallow_of_ne hkey]
      cases deep_of_ne below hkey with
      | inl hsame =>
          rw [hsame]
          exact ih.imp_right fun hgone => ⟨hgone.1, hgone.2.concat (Ne.symm hkey)⟩
      | inr hswept =>
          obtain ⟨hnone, above, rfl, habove⟩ := hswept
          exact .inr ⟨hnone, orphan_swept habove⟩

/-- What the first table has, the second one has as well. -/
theorem shallow_of_deep {value : ν}
    (hdeep : operations.foldl (deep below) table key = some value) :
    operations.foldl shallow table key = some value := by
  cases deep_eq_or_orphan below table operations key with
  | inl hsame => exact hsame ▸ hdeep
  | inr horphan => simp [horphan.1] at hdeep

/-- Of a key that is no orphan both tables have the same. -/
theorem deep_eq_shallow (hkept : ¬ Orphan below operations key) :
    operations.foldl (deep below) table key = operations.foldl shallow table key :=
  (deep_eq_or_orphan below table operations key).resolve_right fun horphan => hkept horphan.2

end Agreement

/-- Operations that leave what is there change nothing. -/
theorem foldl_shallow_self [DecidableEq κ] {table : κ → Option ν}
    {operations : List (TableOperation κ ν)}
    (hsame : ∀ operation ∈ operations, operation.outcome = table operation.key) :
    operations.foldl shallow table = table := by
  induction operations with
  | nil => rfl
  | cons operation operations ih =>
      obtain ⟨hfirst, hothers⟩ := List.forall_mem_cons.mp hsame
      rw [List.foldl_cons, shallow, hfirst, Function.update_eq_self]
      exact ih hothers

/-! ## The last operation on a key -/

section Last

variable [DecidableEq κ]

def lastOn (operations : List (TableOperation κ ν)) (key : κ) : Option (TableOperation κ ν) :=
  (operations.filter fun operation => operation.key = key).getLast?

variable {operations others : List (TableOperation κ ν)} {operation : TableOperation κ ν} {key : κ}

theorem lastOn_append : lastOn (operations ++ others) key =
    (lastOn others key).or (lastOn operations key) := by
  rw [lastOn, List.filter_append, List.getLast?_append]
  rfl

theorem lastOn_cons : lastOn (operation :: operations) key =
    (lastOn operations key).or (if operation.key = key then some operation else none) := by
  rw [← List.singleton_append, lastOn_append]
  by_cases hkey : operation.key = key
  · simp [lastOn, hkey]
  · simp [lastOn, hkey]

theorem lastOn_eq_none (hnone : ∀ operation ∈ operations, operation.key ≠ key) :
    lastOn operations key = none := by
  rw [lastOn, List.getLast?_eq_none_iff, List.filter_eq_nil_iff]
  simpa using hnone

theorem isSome_lastOn (hsome : ∃ operation ∈ operations, operation.key = key) :
    (lastOn operations key).isSome = true := by
  rw [lastOn, Option.isSome_iff_ne_none, Ne, List.getLast?_eq_none_iff, List.filter_eq_nil_iff]
  simpa using hsome

/-- Of a key the last operation on it decides. -/
theorem foldl_shallow_apply (table : κ → Option ν) (operations : List (TableOperation κ ν))
    (key : κ) :
    operations.foldl shallow table key = (lastOn operations key).elim (table key) outcome := by
  induction operations using List.reverseRecOn with
  | nil => rfl
  | append_singleton operations operation ih =>
      rw [List.foldl_append, lastOn_append, lastOn_cons]
      by_cases hkey : operation.key = key
      · rw [if_pos hkey, ← hkey]
        exact Function.update_self ..
      · rw [if_neg hkey]
        exact (shallow_of_ne (Ne.symm hkey)).trans ih

end Last

end TableOperation

end PdsBackup
