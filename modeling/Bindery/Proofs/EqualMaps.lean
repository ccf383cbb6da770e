/-
**Maps that are equal up to the order of their names.**

Equality of maps asks for equal values under the same names. What is read under a name is equal,
then, and what is drawn from all values comes in another order at most.

* `OrderedMap.exists_get?_of_beq` — look-ups in equal maps.
* `OrderedMap.flatMap_values_perm_of_beq` — the values of equal maps.
-/

import Mathlib.Data.List.Basic
import Mathlib.Data.List.Perm.Basic
import Bindery.Proofs.OrderedMap

namespace Bindery.OrderedMap

variable {α β : Type} [BEq α] {m n : OrderedMap α}

/-- What a map holds has an equal value in each map that is equal to it. -/
theorem exists_get?_of_beq (same : (m == n) = true) {key : String}
    {value : α} (found : m.get? key = some value) :
    ∃ other, n.get? key = some other ∧ (other == value) = true := by
  have agree : m.agrees n = true := same
  rw [agrees, Bool.and_eq_true, List.all_eq_true] at agree
  have isSame := agree.2 _ ((get?_eq_some_iff ..).mp found)
  cases isOther : n.get? key with
  | none =>
    rw [isOther] at isSame
    cases isSame
  | some other =>
    rw [isOther] at isSame
    exact ⟨other, rfl, isSame⟩

/-- Equal maps have the same names in some order. -/
theorem keys_perm_of_beq (same : (m == n) = true) :
    m.keys.Perm n.keys := by
  have agree : m.agrees n = true := same
  rw [agrees, Bool.and_eq_true, beq_iff_eq] at agree
  have sameLength : n.keys.length ≤ m.keys.length := by
    rw [keys, keys, List.length_map, List.length_map]
    exact Nat.le_of_eq agree.1.symm
  have subset : m.keys ⊆ n.keys := by
    intro key isKey
    obtain ⟨value, found⟩ := (m.mem_keys key).mp isKey
    obtain ⟨other, isOther, -⟩ := exists_get?_of_beq same found
    exact (n.mem_keys key).mpr ⟨other, isOther⟩
  exact (List.subperm_of_subset m.distinct subset).perm_of_length_le sameLength

/-- What is drawn from equal values is drawn from equal maps, in some order. -/
theorem flatMap_values_perm_of_beq (same : (m == n) = true)
    {drawn : α → List β}
    (each : ∀ first second, (first == second) = true → (drawn first).Perm (drawn second)) :
    (m.values.flatMap drawn).Perm (n.values.flatMap drawn) := by
  have byKey : ∀ map : OrderedMap α, map.values.flatMap drawn =
      map.keys.flatMap fun key => ((map.get? key).map drawn).getD [] := by
    intro map
    rw [values, keys, List.flatMap_map, List.flatMap_map]
    refine List.flatMap_congr fun pair isPair => ?_
    rw [(map.get?_eq_some_iff pair.1 pair.2).mpr isPair]
    rfl
  rw [byKey, byKey]
  refine (List.Perm.flatMap_left _ fun key isKey => ?_).trans
    ((keys_perm_of_beq same).flatMap_right _)
  obtain ⟨value, found⟩ := (m.mem_keys key).mp isKey
  obtain ⟨other, isOther, isSame⟩ := exists_get?_of_beq same found
  rw [found, isOther]
  exact (each other value isSame).symm

/-- What is read off equal values is read off equal maps, in some order. -/
theorem map_values_perm_of_beq (same : (m == n) = true) {read : α → β}
    (each : ∀ first second, (first == second) = true → read first = read second) :
    (m.values.map read).Perm (n.values.map read) := by
  rw [List.map_eq_flatMap, List.map_eq_flatMap]
  refine flatMap_values_perm_of_beq same fun first second isSame => ?_
  rw [each first second isSame]

end Bindery.OrderedMap
