/-
**The last item of each key, in the order in which the keys first came.**

This is what remains of a list of writes when a later write replaces an earlier one where it stands:
maps that remember the order of arrival hold just these items.

* `lastOfEach` — the items that remain; it commutes with picking keys (`filter_lastOfEach`) and with
  changing items (`lastOfEach_map`).
* `OrderedMap.entries_ofList_eq_lastOfEach` — a chain of writes leaves the last pair of each name.
* `perm_flatMap_filter` — items fall apart into those of each key.
-/

import Mathlib.Data.List.Perm.Basic
import Bindery.Proofs.OrderedMap

namespace Bindery

variable {α β κ μ : Type} [DecidableEq κ] [DecidableEq μ]

/-! ### Keys in order of arrival -/

/-- Induction along the keys as they arrive: behind each one, it does not count any more. -/
@[elab_as_elim]
theorem arrivalInduction {motive : List κ → Prop} (nil : motive [])
    (cons : ∀ key rest, motive (rest.filter fun other => !other == key) → motive (key :: rest)) :
    ∀ keys, motive keys
  | [] => nil
  | key :: rest => cons key rest (arrivalInduction nil cons _)
termination_by keys => keys.length
decreasing_by exact Nat.lt_succ_of_le (List.length_filter_le ..)

theorem nodup_eraseDups (keys : List κ) : keys.eraseDups.Nodup := by
  induction keys using arrivalInduction with
  | nil => simp
  | cons key rest ih =>
    rw [List.eraseDups_cons, List.nodup_cons, List.mem_eraseDups]
    exact ⟨by simp, ih⟩

/-- Some keys of a list arrive in the order in which they do without the others. -/
theorem filter_eraseDups (isPicked : κ → Bool) (keys : List κ) :
    keys.eraseDups.filter isPicked = (keys.filter isPicked).eraseDups := by
  induction keys using arrivalInduction with
  | nil => rfl
  | cons key rest ih =>
    rw [List.eraseDups_cons]
    cases picked : isPicked key with
    | true =>
      rw [List.filter_cons_of_pos picked, List.filter_cons_of_pos picked, List.eraseDups_cons, ih,
        List.filter_filter, List.filter_filter]
      simp only [Bool.and_comm]
    | false =>
      have others : (rest.filter fun other => !other == key).filter isPicked =
          rest.filter isPicked := by
        rw [List.filter_filter]
        refine List.filter_congr fun other _ => ?_
        by_cases same : other = key <;> simp [same, picked]
      rw [List.filter_cons_of_neg (by simp [picked]), List.filter_cons_of_neg (by simp [picked]),
        ih, others]

/-- Renaming keys apart does not change the order in which they arrive. -/
theorem eraseDups_map {rename : κ → μ} (apart : Function.Injective rename) (keys : List κ) :
    (keys.map rename).eraseDups = keys.eraseDups.map rename := by
  induction keys using arrivalInduction with
  | nil => rfl
  | cons key rest ih =>
    rw [List.map_cons, List.eraseDups_cons, List.eraseDups_cons, List.map_cons, ← ih,
      List.filter_map]
    refine congrArg (fun others : List κ => rename key :: (others.map rename).eraseDups) ?_
    refine List.filter_congr fun other _ => ?_
    by_cases same : other = key
    · simp [same]
    · simp [same, apart.ne same]

/-- A set that is filled name by name holds the new names in order of arrival. -/
theorem NameSet.names_foldl_insert (s : NameSet) (names : List String) :
    (names.foldl insert s).names = s.names ++ (names.removeAll s.names).eraseDups := by
  induction names generalizing s with
  | nil => simp [List.removeAll]
  | cons name rest ih =>
    rw [List.foldl_cons, ih]
    by_cases isThere : name ∈ s.names
    · rw [insert_of_mem isThere]
      simp [List.removeAll, isThere]
    · rw [names_insert_of_notMem isThere, List.append_assoc]
      have others : rest.removeAll (s.names ++ [name]) =
          (rest.removeAll s.names).filter fun other => !other == name := by
        simp only [List.removeAll, List.filter_filter, List.elem_eq_mem]
        refine List.filter_congr fun other _ => ?_
        by_cases same : other = name <;> simp [same]
      rw [others]
      simp [List.removeAll, isThere, List.eraseDups_cons]

/-! ### What remains of a list of writes -/

/-- The last item of each key; the keys stand in the order in which they first came. -/
def lastOfEach (key : α → κ) (items : List α) : List α :=
  (items.map key).eraseDups.filterMap fun name => (items.filter (key · = name)).getLast?

theorem key_of_getLast? {key : α → κ} {items : List α} {name : κ} {item : α}
    (isLast : (items.filter (key · = name)).getLast? = some item) : key item = name := by
  have isIn := List.mem_of_getLast? isLast
  simpa using (List.mem_filter.mp isIn).2

/-- The items that remain have the keys in order of arrival. -/
theorem map_lastOfEach (key : α → κ) (items : List α) :
    (lastOfEach key items).map key = (items.map key).eraseDups := by
  have itself : ∀ name ∈ (items.map key).eraseDups,
      ((items.filter (key · = name)).getLast?).map key = some name := by
    intro name isKey
    rw [List.mem_eraseDups, List.mem_map] at isKey
    obtain ⟨item, isItem, isName⟩ := isKey
    cases isLast : (items.filter (key · = name)).getLast? with
    | none =>
      have isIn : item ∈ items.filter (key · = name) := by simp [isItem, isName]
      simp [List.getLast?_eq_none_iff.mp isLast] at isIn
    | some other => rw [Option.map_some, key_of_getLast? isLast]
  rw [lastOfEach, List.map_filterMap, List.filterMap_congr itself, List.filterMap_some]

theorem mem_map_lastOfEach (key : α → κ) (items : List α) (name : κ) :
    name ∈ (lastOfEach key items).map key ↔ name ∈ items.map key := by
  rw [map_lastOfEach, List.mem_eraseDups]

theorem nodup_map_lastOfEach (key : α → κ) (items : List α) :
    ((lastOfEach key items).map key).Nodup := by
  rw [map_lastOfEach]
  exact nodup_eraseDups _

/-- Picking keys before or behind a list of writes is the same. -/
theorem filter_lastOfEach (isPicked : κ → Bool) (key : α → κ) (items : List α) :
    (lastOfEach key items).filter (isPicked ∘ key) =
      lastOfEach key (items.filter (isPicked ∘ key)) := by
  have pickedKeys : (items.filter (isPicked ∘ key)).map key = (items.map key).filter isPicked :=
    (List.filter_map ..).symm
  rw [lastOfEach, lastOfEach, List.filter_filterMap, pickedKeys, ← filter_eraseDups,
    List.filterMap_filter]
  refine List.filterMap_congr fun name _ => ?_
  cases picked : isPicked name with
  | true =>
    have sameItems : (items.filter (isPicked ∘ key)).filter (key · = name) =
        items.filter (key · = name) := by
      rw [List.filter_filter]
      refine List.filter_congr fun item _ => ?_
      by_cases isName : key item = name
      · simp [isName, picked]
      · simp [isName]
    rw [if_pos rfl, sameItems]
    cases isLast : (items.filter (key · = name)).getLast? with
    | none => rfl
    | some item => simp [key_of_getLast? isLast, picked]
  | false =>
    rw [if_neg (by simp)]
    cases isLast : (items.filter (key · = name)).getLast? with
    | none => rfl
    | some item => simp [key_of_getLast? isLast, picked]

/-- Keys that are renamed apart let the same items remain. -/
theorem lastOfEach_rename {rename : κ → μ} (apart : Function.Injective rename) {key : α → κ}
    {other : α → μ} {items : List α} (same : ∀ item ∈ items, other item = rename (key item)) :
    lastOfEach other items = lastOfEach key items := by
  have sameKeys : items.map other = (items.map key).map rename := by
    rw [List.map_map]
    exact List.map_congr_left same
  rw [lastOfEach, lastOfEach, sameKeys, eraseDups_map apart, List.filterMap_map]
  refine List.filterMap_congr fun name _ => ?_
  refine congrArg List.getLast? (List.filter_congr fun item isItem => ?_)
  rw [same item isItem]
  exact decide_eq_decide.mpr apart.eq_iff

/-- Items may be changed before or behind a list of writes. -/
theorem lastOfEach_map (change : α → β) (key : β → κ) (items : List α) :
    lastOfEach key (items.map change) = (lastOfEach (key ∘ change) items).map change := by
  rw [lastOfEach, lastOfEach, List.map_map, List.map_filterMap]
  refine List.filterMap_congr fun name _ => ?_
  rw [List.filter_map, List.getLast?_map]
  rfl

/-! ### Maps -/

namespace OrderedMap

theorem keys_ofList (pairs : List (String × α)) :
    (ofList pairs).keys = (pairs.map Prod.fst).eraseDups := by
  have growing : ∀ m : OrderedMap α,
      (pairs.foldl (fun m pair => m.insert pair.1 pair.2) m).nameSet =
        (pairs.map Prod.fst).foldl NameSet.insert m.nameSet := by
    induction pairs with
    | nil => exact fun _ => rfl
    | cons pair rest ih =>
      intro m
      rw [List.foldl_cons, ih, nameSet_insert]
      rfl
  have names := congrArg NameSet.names (growing empty)
  rw [NameSet.names_foldl_insert] at names
  refine names.trans ?_
  simp [nameSet, keys, empty, List.removeAll]

/-- A chain of writes leaves the last pair of each name. -/
theorem entries_ofList_eq_lastOfEach (pairs : List (String × α)) :
    (ofList pairs).entries = lastOfEach Prod.fst pairs := by
  have found : ∀ name, (ofList pairs).get? name = (under name pairs).getLast? := by
    intro name
    rw [ofList, get?_foldl_insert, get?_empty, Option.or_none]
  have byLookup : (ofList pairs).entries = (ofList pairs).keys.filterMap fun name =>
      ((ofList pairs).get? name).map (name, ·) := by
    rw [keys, List.filterMap_map]
    refine (List.filterMap_some.symm.trans (List.filterMap_congr fun pair isPair => ?_))
    have isFound := (get?_eq_some_iff (ofList pairs) pair.1 pair.2).mpr isPair
    simp only [Function.comp_apply, isFound, Option.map_some]
  rw [byLookup, keys_ofList, lastOfEach]
  refine List.filterMap_congr fun name _ => ?_
  have asPairs : pairs.filter (fun pair => pair.1 == name) = pairs.filter (·.1 = name) := by
    refine List.filter_congr fun pair _ => ?_
    rw [Bool.beq_eq_decide_eq]
  rw [found, under, asPairs, List.getLast?_map, Option.map_map]
  cases isLast : (pairs.filter (·.1 = name)).getLast? with
  | none => rfl
  | some pair =>
    have isName : pair.1 = name := key_of_getLast? isLast
    rw [Option.map_some, ← isName]
    rfl

end OrderedMap

/-! ### Items by key -/

/-- Items are those of each key, one key after the other. -/
theorem perm_flatMap_filter {key : α → κ} {names : List κ} {items : List α}
    (distinct : names.Nodup) (covered : ∀ item ∈ items, key item ∈ names) :
    (names.flatMap fun name => items.filter (key · = name)).Perm items := by
  induction names generalizing items with
  | nil =>
    have none : items = [] := List.eq_nil_iff_forall_not_mem.mpr fun item isItem => by
      simpa using covered item isItem
    rw [none]
    exact .refl _
  | cons name rest ih =>
    rw [List.nodup_cons] at distinct
    have coveredLater : ∀ item ∈ items.filter fun item => !decide (key item = name),
        key item ∈ rest := by
      intro item isItem
      obtain ⟨isItem, isOther⟩ := List.mem_filter.mp isItem
      rcases List.mem_cons.mp (covered item isItem) with isName | isLater
      · simp [isName] at isOther
      · exact isLater
    have sameLater : (rest.flatMap fun other =>
        (items.filter fun item => !decide (key item = name)).filter (key · = other)) =
        rest.flatMap fun other => items.filter (key · = other) := by
      refine List.flatMap_congr fun other isLater => ?_
      rw [List.filter_filter]
      refine List.filter_congr fun item _ => ?_
      by_cases isOther : key item = other
      · have notName : other ≠ name := fun same => distinct.1 (same ▸ isLater)
        simp [isOther, notName]
      · simp [isOther]
    rw [List.flatMap_cons, ← sameLater]
    exact ((ih distinct.2 coveredLater).append_left _).trans
      (List.filter_append_perm (key · = name) items)

end Bindery
