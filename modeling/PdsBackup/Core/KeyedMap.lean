import Mathlib.Data.List.AList
import Mathlib.Tactic.Common

/-!
# Keyed maps

Additions to Mathlib's association lists for maps whose values do not depend on
the key: keeping the entries whose key passes a test, and inserting only where
there is no entry yet.
-/

namespace PdsBackup

/-- A finite map with values in `ν`; no key occurs twice. -/
abbrev KeyedMap (κ ν : Type) := AList fun _ : κ => ν

namespace KeyedMap

variable {κ ν : Type} [DecidableEq κ]

/-- Lookup through a filter on the keys. -/
theorem dlookup_filter (test : κ → Bool) (key : κ) (entries : List (Sigma fun _ : κ => ν)) :
    (entries.filter fun entry => test entry.1).dlookup key =
      if test key then entries.dlookup key else none := by
  induction entries with
  | nil => simp
  | cons entry entries ih =>
      obtain ⟨k, value⟩ := entry
      by_cases hkey : key = k
      · subst hkey
        by_cases htest : test key
        · simp [htest]
        · simpa [htest] using ih
      · have hskip := fun tail : List (Sigma fun _ : κ => ν) =>
          List.dlookup_cons_ne tail ⟨k, value⟩ hkey
        by_cases htest : test k
        · simpa [htest, hskip] using ih
        · simpa [htest, hskip] using ih

def keepKeys (test : κ → Bool) (map : KeyedMap κ ν) : KeyedMap κ ν where
  entries := map.entries.filter fun entry => test entry.1
  nodupKeys := map.nodupKeys.sublist List.filter_sublist

@[simp] theorem lookup_keepKeys (test : κ → Bool) (map : KeyedMap κ ν) (key : κ) :
    (keepKeys test map).lookup key = if test key then map.lookup key else none :=
  dlookup_filter test key map.entries

theorem lookup_singleton (key other : κ) (value : ν) :
    AList.lookup other (AList.singleton key value : KeyedMap κ ν) =
      if other = key then some value else none := by
  show ([⟨key, value⟩] : List (Sigma fun _ : κ => ν)).dlookup other = _
  by_cases hkey : other = key
  · subst hkey
    rw [if_pos rfl, List.dlookup_cons_eq]
  · rw [if_neg hkey, List.dlookup_cons_ne _ _ hkey, List.dlookup_nil]

theorem lookup_insert (map : KeyedMap κ ν) (key other : κ) (value : ν) :
    (map.insert key value).lookup other = if other = key then some value else map.lookup other := by
  by_cases hkey : other = key
  · subst hkey
    simp [AList.lookup_insert]
  · rw [if_neg hkey, AList.lookup_insert_ne hkey]

theorem lookup_erase (map : KeyedMap κ ν) (key other : κ) :
    (map.erase key).lookup other = if other = key then none else map.lookup other := by
  by_cases hkey : other = key
  · subst hkey
    simp [AList.lookup_erase]
  · rw [if_neg hkey, AList.lookup_erase_ne hkey]

/-- `emplace`: an entry already there is left alone. -/
def emplace (map : KeyedMap κ ν) (key : κ) (value : ν) : KeyedMap κ ν :=
  if key ∈ map then map else map.insert key value

theorem lookup_emplace (map : KeyedMap κ ν) (key other : κ) (value : ν) :
    (emplace map key value).lookup other =
      if other = key then some ((map.lookup key).getD value) else map.lookup other := by
  unfold emplace
  by_cases hmem : key ∈ map
  · obtain ⟨present, hpresent⟩ := Option.isSome_iff_exists.mp (AList.lookup_isSome.mpr hmem)
    rw [if_pos hmem]
    by_cases hkey : other = key
    · subst hkey
      simp [hpresent]
    · rw [if_neg hkey]
  · rw [if_neg hmem, lookup_insert, AList.lookup_eq_none.mpr hmem]
    simp

theorem lookup_emplace_of_not_mem (map : KeyedMap κ ν) {key : κ} (other : κ) (value : ν)
    (hkey : map.lookup key = none) :
    (emplace map key value).lookup other =
      if other = key then some value else map.lookup other := by
  rw [lookup_emplace, hkey]
  rfl

theorem mem_keys_iff (map : KeyedMap κ ν) (key : κ) :
    key ∈ map.keys ↔ (map.lookup key).isSome := by
  rw [AList.lookup_isSome, AList.mem_keys]

/-! ## Properties of every value -/

/-- A property of every value in a map, with its key. -/
def All (property : κ → ν → Prop) (map : KeyedMap κ ν) : Prop :=
  ∀ key value, map.lookup key = some value → property key value

namespace All

variable {property : κ → ν → Prop} {map : KeyedMap κ ν} {key : κ} {value : ν}

theorem empty : All property (∅ : KeyedMap κ ν) := by
  intro other found hfound
  simp at hfound

theorem insert (hmap : All property map) (hvalue : property key value) :
    All property (map.insert key value) := by
  intro other found hfound
  rw [lookup_insert] at hfound
  by_cases hother : other = key
  · rw [if_pos hother, Option.some.injEq] at hfound
    rwa [hother, ← hfound]
  · rw [if_neg hother] at hfound
    exact hmap other found hfound

theorem emplace (hmap : All property map) (hvalue : property key value) :
    All property (KeyedMap.emplace map key value) := by
  unfold KeyedMap.emplace
  by_cases hmem : key ∈ map
  · rwa [if_pos hmem]
  · rw [if_neg hmem]
    exact hmap.insert hvalue

theorem erase (hmap : All property map) (key : κ) : All property (map.erase key) := by
  intro other found hfound
  rw [lookup_erase] at hfound
  by_cases hother : other = key
  · simp [hother] at hfound
  · rw [if_neg hother] at hfound
    exact hmap other found hfound

end All

end KeyedMap

end PdsBackup
