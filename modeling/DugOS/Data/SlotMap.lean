import Mathlib.Data.List.Basic
import Mathlib.Logic.Function.Basic

namespace DugOS.Data

/-! A finite map kept in a table of slots. A slot is empty or holds a key with
its value, and no key stands in two slots. -/

variable {ι κ ν : Type*}

def Unique (slots : ι → Option (κ × ν)) : Prop :=
  ∀ i j key value other, slots i = some (key, value) → slots j = some (key, other) → i = j

def Represents (slots : ι → Option (κ × ν)) (map : κ → Option ν) : Prop :=
  ∀ key value, map key = some value ↔ ∃ i, slots i = some (key, value)

/-- The value of a key, found by going through the slots in order. -/
def lookup [DecidableEq κ] (order : List ι) (slots : ι → Option (κ × ν)) (key : κ) : Option ν :=
  order.findSome? fun i => (slots i).bind fun entry => if entry.1 = key then some entry.2 else none

variable {slots : ι → Option (κ × ν)} {map other : κ → Option ν} {i : ι} {key fresh : κ} {value old : ν}

theorem Represents.unique_map (represents : Represents slots map) (again : Represents slots other) :
    map = other := by
  funext key
  apply Option.ext
  intro value
  rw [represents key value, again key value]

theorem Represents.map_eq_none (represents : Represents slots map) :
    map key = none ↔ ∀ i value, slots i ≠ some (key, value) := by
  rw [Option.eq_none_iff_forall_ne_some]
  constructor
  · intro absent i value stored
    exact absent value ((represents key value).mpr ⟨i, stored⟩)
  · intro absent value found
    obtain ⟨i, stored⟩ := (represents key value).mp found
    exact absent i value stored

theorem lookup_represents [DecidableEq κ] {order : List ι} (complete : ∀ i, i ∈ order)
    (unique : Unique slots) : Represents slots (lookup order slots) := by
  intro key value
  constructor
  · intro found
    obtain ⟨i, _, matched⟩ := List.exists_of_findSome?_eq_some found
    obtain ⟨⟨stored, kept⟩, slot, same⟩ := Option.bind_eq_some_iff.mp matched
    split at same
    · rename_i sameKey
      cases same
      cases sameKey
      exact ⟨i, slot⟩
    · cases same
  · intro given
    obtain ⟨i, stored⟩ := given
    cases result : lookup order slots key with
    | none =>
        have skipped := List.findSome?_eq_none_iff.mp result i (complete i)
        simp [stored] at skipped
    | some found =>
        obtain ⟨j, _, matched⟩ := List.exists_of_findSome?_eq_some result
        obtain ⟨⟨keyJ, kept⟩, slot, same⟩ := Option.bind_eq_some_iff.mp matched
        split at same
        · rename_i sameKey
          cases same
          cases sameKey
          cases unique i j _ _ _ stored slot
          cases stored.symm.trans slot
          rfl
        · cases same

section Update

variable [DecidableEq ι] [DecidableEq κ]

theorem Represents.clear (unique : Unique slots) (represents : Represents slots map)
    (stored : slots i = some (key, old)) :
    Represents (Function.update slots i none) (Function.update map key none) := by
  intro query value
  by_cases sameKey : query = key
  · subst sameKey
    simp only [Function.update_self, reduceCtorEq, false_iff, not_exists]
    intro j found
    by_cases sameSlot : j = i
    · simp [sameSlot] at found
    · rw [Function.update_of_ne sameSlot] at found
      exact sameSlot (unique j i _ _ _ found stored)
  · rw [Function.update_of_ne sameKey, represents query value]
    constructor
    · intro given
      obtain ⟨j, found⟩ := given
      refine ⟨j, ?_⟩
      rw [Function.update_of_ne, found]
      intro same
      subst same
      cases stored.symm.trans found
      exact sameKey rfl
    · intro given
      obtain ⟨j, found⟩ := given
      by_cases sameSlot : j = i
      · simp [sameSlot] at found
      · exact ⟨j, by rwa [Function.update_of_ne sameSlot] at found⟩

theorem Represents.fill (represents : Represents slots map) (vacant : slots i = none)
    (absent : map key = none) :
    Represents (Function.update slots i (some (key, value))) (Function.update map key (some value)) := by
  have nowhere := represents.map_eq_none.mp absent
  intro query result
  by_cases sameKey : query = key
  · subst sameKey
    rw [Function.update_self]
    constructor
    · intro impossible
      cases impossible
      exact ⟨i, Function.update_self ..⟩
    · intro given
      obtain ⟨j, found⟩ := given
      by_cases sameSlot : j = i
      · subst sameSlot
        rw [Function.update_self] at found
        cases found
        rfl
      · rw [Function.update_of_ne sameSlot] at found
        exact absurd found (nowhere j result)
  · rw [Function.update_of_ne sameKey, represents query result]
    constructor
    · intro given
      obtain ⟨j, found⟩ := given
      refine ⟨j, ?_⟩
      rw [Function.update_of_ne, found]
      intro same
      subst same
      cases vacant.symm.trans found
    · intro given
      obtain ⟨j, found⟩ := given
      by_cases sameSlot : j = i
      · subst sameSlot
        rw [Function.update_self] at found
        cases found
        exact absurd rfl sameKey
      · exact ⟨j, by rwa [Function.update_of_ne sameSlot] at found⟩

omit [DecidableEq κ] in
theorem Unique.clear (unique : Unique slots) : Unique (Function.update slots i none) := by
  intro j k key value other first second
  by_cases isJ : j = i
  · simp [isJ] at first
  · by_cases isK : k = i
    · simp [isK] at second
    · rw [Function.update_of_ne isJ] at first
      rw [Function.update_of_ne isK] at second
      exact unique j k key value other first second

omit [DecidableEq κ] in
theorem Unique.replace (unique : Unique slots) (elsewhere : ∀ j other, j ≠ i → slots j ≠ some (key, other)) :
    Unique (Function.update slots i (some (key, value))) := by
  intro j k query first second storedJ storedK
  by_cases isJ : j = i
  · by_cases isK : k = i
    · rw [isJ, isK]
    · subst isJ
      rw [Function.update_self] at storedJ
      rw [Function.update_of_ne isK] at storedK
      cases storedJ
      exact absurd storedK (elsewhere k second isK)
  · rw [Function.update_of_ne isJ] at storedJ
    by_cases isK : k = i
    · subst isK
      rw [Function.update_self] at storedK
      cases storedK
      exact absurd storedJ (elsewhere j first isJ)
    · rw [Function.update_of_ne isK] at storedK
      exact unique j k query first second storedJ storedK

/-- The slot of a key is given a value under another key, which may be the same
one. -/
theorem Represents.replace (unique : Unique slots) (represents : Represents slots map)
    (stored : slots i = some (key, old)) (absent : fresh = key ∨ map fresh = none) :
    Represents (Function.update slots i (some (fresh, value)))
      (Function.update (Function.update map key none) fresh (some value)) := by
  have cleared := represents.clear unique stored
  have free : Function.update map key none fresh = none := by
    rcases absent with rfl | missing
    · exact Function.update_self ..
    · rw [Function.update_apply]
      split
      · rfl
      · exact missing
  have filled : Represents (Function.update (Function.update slots i none) i (some (fresh, value)))
      (Function.update (Function.update map key none) fresh (some value)) :=
    cleared.fill (Function.update_self ..) free
  rwa [Function.update_idem] at filled

end Update

end DugOS.Data
