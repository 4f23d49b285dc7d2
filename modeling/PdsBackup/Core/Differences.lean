import Mathlib.Data.List.Nodup
import Mathlib.Logic.Function.Basic
import Mathlib.Tactic.Common

/-!
# Differences between maps

Two states of a partial map differ at some keys: a value is there only before,
only after, or it is another one.  Someone who visits the keys one by one reports
each difference and is answered whether to take it over.
-/

namespace PdsBackup

inductive Difference where
  | created
  | deleted
  | modified
  deriving DecidableEq

section Difference

variable {V : Type} [DecidableEq V]

/-- How a value has changed, if it has. -/
def difference : Option V → Option V → Option Difference
  | none, none => none
  | none, some _ => some .created
  | some _, none => some .deleted
  | some old, some new => if old = new then none else some .modified

theorem difference_eq_none_iff (old new : Option V) : difference old new = none ↔ old = new := by
  cases old with
  | none => cases new <;> simp [difference]
  | some old =>
      cases new with
      | none => simp [difference]
      | some new =>
          by_cases hsame : old = new <;> simp [difference, hsame]

@[simp] theorem difference_self (value : Option V) : difference value value = none :=
  (difference_eq_none_iff value value).mpr rfl

end Difference

/-- A difference that was reported, and whether it was taken over. -/
structure Report (K : Type) where
  key : K
  difference : Difference
  accepted : Bool
  deriving DecidableEq

section TakenOver

variable {K : Type} [DecidableEq K]

/-- A difference at the key was reported and accepted. -/
def takenOver (reports : List (Report K)) (key : K) : Bool :=
  reports.any fun report => report.key = key && report.accepted

theorem takenOver_iff (reports : List (Report K)) (key : K) :
    takenOver reports key = true ↔ ∃ change, ⟨key, change, true⟩ ∈ reports := by
  simp only [takenOver, List.any_eq_true, Bool.and_eq_true, decide_eq_true_eq]
  constructor
  · rintro ⟨⟨_, change, _⟩, hreport, rfl, rfl⟩
    exact ⟨change, hreport⟩
  · rintro ⟨change, hreport⟩
    exact ⟨_, hreport, rfl, rfl⟩

theorem takenOver_cons (report : Report K) (reports : List (Report K)) (key : K) :
    takenOver (report :: reports) key =
      (decide (report.key = key) && report.accepted || takenOver reports key) := rfl

end TakenOver

section Reports

variable {K V : Type} [DecidableEq K] [DecidableEq V] {new : K → Option V}

/-- A visit of some keys in turn: where the map differs, this is reported, and taken
over if the answer is yes. -/
inductive Visits (new : K → Option V) :
    List K → (K → Option V) → List (Report K) → (K → Option V) → Prop
  | nil {map : K → Option V} : Visits new [] map [] map
  | same {key : K} {keys : List K} {map after : K → Option V} {reports : List (Report K)}
      (hsame : difference (map key) (new key) = none) (hrest : Visits new keys map reports after) :
      Visits new (key :: keys) map reports after
  | accepted {key : K} {keys : List K} {map after : K → Option V} {reports : List (Report K)}
      {change : Difference} (hchange : difference (map key) (new key) = some change)
      (hrest : Visits new keys (Function.update map key (new key)) reports after) :
      Visits new (key :: keys) map (⟨key, change, true⟩ :: reports) after
  | rejected {key : K} {keys : List K} {map after : K → Option V} {reports : List (Report K)}
      {change : Difference} (hchange : difference (map key) (new key) = some change)
      (hrest : Visits new keys map reports after) :
      Visits new (key :: keys) map (⟨key, change, false⟩ :: reports) after

/-- The reports are the differences between two maps, one report for each, and what was
accepted is taken over. -/
structure Reconciles (old new : K → Option V) (reports : List (Report K))
    (after : K → Option V) : Prop where
  once : (reports.map Report.key).Nodup
  exact : ∀ key change, (∃ accepted, ⟨key, change, accepted⟩ ∈ reports) ↔
    difference (old key) (new key) = some change
  after : ∀ key, after key = if takenOver reports key then new key else old key

namespace Visits

variable {keys others : List K} {old middle after : K → Option V}
variable {reports reports' : List (Report K)}

theorem append (hfirst : Visits new keys old reports middle)
    (hrest : Visits new others middle reports' after) :
    Visits new (keys ++ others) old (reports ++ reports') after := by
  induction hfirst with
  | nil => exact hrest
  | same hsame _ ih => exact .same hsame (ih hrest)
  | accepted hchange _ ih => exact .accepted hchange (ih hrest)
  | rejected hchange _ ih => exact .rejected hchange (ih hrest)

/-- Only keys that are visited are reported, and no key more often. -/
theorem keys_sublist (h : Visits new keys old reports after) :
    (reports.map Report.key).Sublist keys := by
  induction h with
  | nil => exact List.Sublist.slnil
  | same _ _ ih => exact ih.cons _
  | accepted _ _ ih => exact ih.cons_cons _
  | rejected _ _ ih => exact ih.cons_cons _

theorem key_mem (h : Visits new keys old reports after) {report : Report K}
    (hreport : report ∈ reports) : report.key ∈ keys :=
  h.keys_sublist.subset (List.mem_map_of_mem hreport)

/-- Where the keys are distinct, what is found at each is what was there at first. -/
theorem reports_iff (h : Visits new keys old reports after) (hnodup : keys.Nodup) (key : K)
    (change : Difference) :
    (∃ accepted, ⟨key, change, accepted⟩ ∈ reports) ↔
      key ∈ keys ∧ difference (old key) (new key) = some change := by
  induction h with
  | nil => simp
  | same hsame hrest ih =>
      rename_i first keys map after reports
      obtain ⟨hfirst, hnodup⟩ := List.nodup_cons.mp hnodup
      rw [ih hnodup, List.mem_cons]
      constructor
      · exact fun hkey => ⟨.inr hkey.1, hkey.2⟩
      · rintro ⟨rfl | hkey, hchange⟩
        · simp [hsame] at hchange
        · exact ⟨hkey, hchange⟩
  | accepted hchange hrest ih =>
      rename_i first keys map after reports found
      obtain ⟨hfirst, hnodup⟩ := List.nodup_cons.mp hnodup
      by_cases hkey : key = first
      · subst hkey
        have habsent : ¬ ∃ accepted, ⟨key, change, accepted⟩ ∈ reports := fun hmem =>
          hfirst (hrest.key_mem hmem.choose_spec)
        simp only [List.mem_cons, Report.mk.injEq, true_and, exists_or, habsent, or_false,
          true_or, hchange, Option.some.injEq]
        exact ⟨fun hfound => hfound.choose_spec.1.symm, fun hfound => ⟨true, hfound.symm, rfl⟩⟩
      · have hmap := ih hnodup
        rw [Function.update_of_ne hkey] at hmap
        simp only [List.mem_cons, Report.mk.injEq, hkey, false_and, false_or]
        exact hmap
  | rejected hchange hrest ih =>
      rename_i first keys map after reports found
      obtain ⟨hfirst, hnodup⟩ := List.nodup_cons.mp hnodup
      by_cases hkey : key = first
      · subst hkey
        have habsent : ¬ ∃ accepted, ⟨key, change, accepted⟩ ∈ reports := fun hmem =>
          hfirst (hrest.key_mem hmem.choose_spec)
        simp only [List.mem_cons, Report.mk.injEq, true_and, exists_or, habsent, or_false,
          true_or, hchange, Option.some.injEq]
        exact ⟨fun hfound => hfound.choose_spec.1.symm, fun hfound => ⟨false, hfound.symm, rfl⟩⟩
      · simp only [List.mem_cons, Report.mk.injEq, hkey, false_and, false_or]
        exact ih hnodup

theorem after_eq (h : Visits new keys old reports after) (hnodup : keys.Nodup) (key : K) :
    after key = if takenOver reports key then new key else old key := by
  induction h with
  | nil => rfl
  | same hsame hrest ih => exact ih (List.nodup_cons.mp hnodup).2
  | accepted hchange hrest ih =>
      rename_i first keys map after reports found
      obtain ⟨hfirst, hnodup⟩ := List.nodup_cons.mp hnodup
      rw [ih hnodup, takenOver_cons]
      by_cases hkey : key = first
      · subst hkey
        simp
      · rw [Function.update_of_ne hkey, decide_eq_false (Ne.symm hkey), Bool.false_and,
          Bool.false_or]
  | rejected hchange hrest ih =>
      rw [ih (List.nodup_cons.mp hnodup).2, takenOver_cons, Bool.and_false, Bool.false_or]

/-- A visit of distinct keys, all that differ among them, reconciles the maps. -/
theorem reconciles (h : Visits new keys old reports after) (hnodup : keys.Nodup)
    (hkeys : ∀ key, old key ≠ new key → key ∈ keys) : Reconciles old new reports after where
  once := hnodup.sublist h.keys_sublist
  exact key change := by
    rw [h.reports_iff hnodup]
    apply and_iff_right_of_imp
    intro hchange
    apply hkeys
    intro hsame
    simp [hsame] at hchange
  after := h.after_eq hnodup

end Visits

namespace Reconciles

variable {old after after' : K → Option V} {reports reports' : List (Report K)}

theorem report_unique (h : Reconciles old new reports after) {first second : Report K}
    (hfirst : first ∈ reports) (hsecond : second ∈ reports) (hkey : first.key = second.key) :
    first = second :=
  List.inj_on_of_nodup_map h.once hfirst hsecond hkey

/-- Another visit reports what was rejected. -/
theorem again (h : Reconciles old new reports after)
    (h' : Reconciles after new reports' after') (key : K) (change : Difference) :
    (∃ accepted, ⟨key, change, accepted⟩ ∈ reports') ↔ ⟨key, change, false⟩ ∈ reports := by
  rw [h'.exact, h.after]
  by_cases htaken : takenOver reports key = true
  · rw [if_pos htaken, difference_self]
    obtain ⟨taken, htaken⟩ := (takenOver_iff reports key).mp htaken
    constructor
    · intro hnone
      cases hnone
    · intro hrejected
      have hsame := h.report_unique htaken hrejected rfl
      simp at hsame
  · rw [if_neg htaken, ← h.exact]
    constructor
    · rintro ⟨accepted, hreport⟩
      cases accepted with
      | false => exact hreport
      | true => exact absurd ((takenOver_iff reports key).mpr ⟨change, hreport⟩) htaken
    · exact fun hreport => ⟨false, hreport⟩

/-- When everything is accepted, the new map is there. -/
theorem after_of_accepted (h : Reconciles old new reports after)
    (haccepted : ∀ report ∈ reports, report.accepted = true) : after = new := by
  funext key
  rw [h.after]
  cases hchange : difference (old key) (new key) with
  | none =>
      rw [(difference_eq_none_iff _ _).mp hchange, ite_self]
  | some change =>
      obtain ⟨accepted, hreport⟩ := (h.exact key change).mpr hchange
      have hyes : accepted = true := haccepted _ hreport
      rw [if_pos ((takenOver_iff reports key).mpr ⟨change, hyes ▸ hreport⟩)]

/-- Between equal maps there is nothing to report. -/
theorem nil_of_eq (h : Reconciles new new reports after) : reports = [] := by
  apply List.eq_nil_iff_forall_not_mem.mpr
  intro report hreport
  have hchange := (h.exact report.key report.difference).mp ⟨report.accepted, hreport⟩
  simp at hchange

theorem eq_of_nil (h : Reconciles old new [] after) : old = new := by
  funext key
  rw [← difference_eq_none_iff]
  cases hchange : difference (old key) (new key) with
  | none => rfl
  | some change =>
      obtain ⟨accepted, hmem⟩ := (h.exact key change).mpr hchange
      exact absurd hmem List.not_mem_nil

end Reconciles

end Reports

end PdsBackup
