/-
**Laws of maps and sets that remember the order of arrival.**

A map is known by the order of its names and by its look-ups (`OrderedMap.ext_get?`), so a chain of
writes is described by two facts: the order in which the names arrive, and what happens to the value
under one name.

* `OrderedMap.entries_ofList` — pairs under distinct names are kept as they stand.
* `OrderedMap.perform` — changes under names, one after the other; `nameSet_perform` and
  `get?_perform` are the two facts about them.
* `OrderedMap.Forall` — a property of every value under its name, kept by every way to write.
-/

import Bindery.OrderedMap

namespace Bindery

/-! ### The pairs of a map -/

section Pairs

variable {α β : Type}

theorem lookupPair_eq_none_iff (key : String) (pairs : List (String × α)) :
    lookupPair key pairs = none ↔ key ∉ pairs.map Prod.fst := by
  induction pairs with
  | nil => simp [lookupPair]
  | cons pair rest ih =>
    obtain ⟨name, value⟩ := pair
    by_cases isKey : name = key
    · simp [lookupPair, isKey]
    · simp [lookupPair, isKey, ih, Ne.symm isKey]

theorem mem_of_lookupPair {key : String} {value : α} {pairs : List (String × α)}
    (found : lookupPair key pairs = some value) : (key, value) ∈ pairs := by
  induction pairs with
  | nil => simp [lookupPair] at found
  | cons pair rest ih =>
    obtain ⟨name, first⟩ := pair
    by_cases isKey : name = key
    · simp_all [lookupPair]
    · simp only [lookupPair, isKey, if_false] at found
      exact List.mem_cons_of_mem _ (ih found)

theorem lookupPair_of_mem {key : String} {value : α} {pairs : List (String × α)}
    (distinct : (pairs.map Prod.fst).Nodup) (isPair : (key, value) ∈ pairs) :
    lookupPair key pairs = some value := by
  induction pairs with
  | nil => simp at isPair
  | cons pair rest ih =>
    obtain ⟨name, first⟩ := pair
    simp only [List.map_cons, List.nodup_cons] at distinct
    rcases List.mem_cons.mp isPair with isFirst | isLater
    · obtain ⟨rfl, rfl⟩ := Prod.mk.inj isFirst
      simp [lookupPair]
    · have isOther : name ≠ key := by
        rintro rfl
        exact distinct.1 (List.mem_map.mpr ⟨_, isLater, rfl⟩)
      simp only [lookupPair, isOther, if_false]
      exact ih distinct.2 isLater

@[simp] theorem lookupPair_append (key : String) (first second : List (String × α)) :
    lookupPair key (first ++ second) = (lookupPair key first).or (lookupPair key second) := by
  induction first with
  | nil => rfl
  | cons pair rest ih =>
    obtain ⟨name, value⟩ := pair
    by_cases isKey : name = key <;> simp [lookupPair, isKey, ih]

theorem lookupPair_map (change : α → β) (key : String) (pairs : List (String × α)) :
    lookupPair key (pairs.map fun pair => (pair.1, change pair.2)) =
      (lookupPair key pairs).map change := by
  induction pairs with
  | nil => rfl
  | cons pair rest ih =>
    obtain ⟨name, value⟩ := pair
    by_cases isKey : name = key <;> simp [lookupPair, isKey, ih]

/-- A new name goes behind all pairs. -/
theorem placePair_of_notMem {key : String} (value : α) {pairs : List (String × α)}
    (isNew : key ∉ pairs.map Prod.fst) : placePair key value pairs = pairs ++ [(key, value)] := by
  induction pairs with
  | nil => rfl
  | cons pair rest ih =>
    obtain ⟨name, first⟩ := pair
    simp only [List.map_cons, List.mem_cons, not_or] at isNew
    simp only [placePair, Ne.symm isNew.1, if_false, ih isNew.2, List.cons_append]

/-- A known name keeps its place. -/
theorem map_fst_placePair_of_mem {key : String} (value : α) {pairs : List (String × α)}
    (isThere : key ∈ pairs.map Prod.fst) :
    (placePair key value pairs).map Prod.fst = pairs.map Prod.fst := by
  induction pairs with
  | nil => simp at isThere
  | cons pair rest ih =>
    obtain ⟨name, first⟩ := pair
    by_cases isKey : name = key
    · simp [placePair, isKey]
    · have isLater : key ∈ rest.map Prod.fst := by
        rcases List.mem_cons.mp isThere with isName | isLater
        · exact absurd isName.symm isKey
        · exact isLater
      simp [placePair, isKey, ih isLater]

end Pairs

/-! ### What stands under a name -/

section Under

variable {α β : Type}

/-- What the pairs with a name hold, in order. -/
def under (name : String) (pairs : List (String × α)) : List α :=
  (pairs.filter fun pair => pair.1 == name).map Prod.snd

theorem under_append (name : String) (first second : List (String × α)) :
    under name (first ++ second) = under name first ++ under name second := by
  simp [under]

theorem under_eq_nil_of_notMem {name : String} {pairs : List (String × α)}
    (isOther : name ∉ pairs.map Prod.fst) : under name pairs = [] := by
  simp only [under, List.map_eq_nil_iff, List.filter_eq_nil_iff, beq_iff_eq]
  rintro pair isPair rfl
  exact isOther (List.mem_map.mpr ⟨pair, isPair, rfl⟩)

theorem under_map (name : String) (change : α → β) (pairs : List (String × α)) :
    under name (pairs.map fun pair => (pair.1, change pair.2)) =
      (under name pairs).map change := by
  simp [under, List.filter_map, Function.comp_def]

theorem under_flatMap (name : String) (items : List β) (pairs : β → List (String × α)) :
    under name (items.flatMap pairs) = items.flatMap fun item => under name (pairs item) := by
  simp [under, List.filter_flatMap, List.map_flatMap]

/-- Groups under one name each, with distinct names, stay apart. -/
theorem under_groups {items : List β} {key : β → String} (group : β → List α)
    (distinct : (items.map key).Nodup) {item : β} (isItem : item ∈ items) :
    under (key item) (items.flatMap fun item => (group item).map (key item, ·)) = group item := by
  induction items with
  | nil => simp at isItem
  | cons first rest ih =>
    rw [List.map_cons, List.nodup_cons] at distinct
    rw [List.flatMap_cons, under_append]
    have keysOfRest : ∀ name, name ∉ rest.map key →
        name ∉ (rest.flatMap fun item => (group item).map (key item, ·)).map Prod.fst := by
      intro name isOther isKey
      simp only [List.mem_map, List.mem_flatMap] at isKey
      obtain ⟨pair, ⟨other, isLater, value, _, rfl⟩, rfl⟩ := isKey
      exact isOther (List.mem_map.mpr ⟨other, isLater, rfl⟩)
    rcases List.mem_cons.mp isItem with rfl | isLater
    · rw [under_eq_nil_of_notMem (keysOfRest _ distinct.1), List.append_nil]
      simp [under, List.filter_map, Function.comp_def]
    · have isOther : key item ∉ ((group first).map (key first, ·)).map Prod.fst := by
        intro isKey
        simp only [List.mem_map] at isKey
        obtain ⟨pair, ⟨value, _, rfl⟩, sameKey⟩ := isKey
        exact distinct.1 (List.mem_map.mpr ⟨item, isLater, sameKey.symm⟩)
      rw [under_eq_nil_of_notMem isOther, List.nil_append]
      exact ih distinct.2 isLater

end Under

/-! ### Sets -/

namespace NameSet

theorem ext {s t : NameSet} (same : s.names = t.names) : s = t := by
  cases s
  cases t
  cases same
  rfl

theorem insert_of_mem {s : NameSet} {name : String} (isThere : name ∈ s.names) :
    s.insert name = s := by
  simp [insert, isThere]

theorem names_insert_of_notMem {s : NameSet} {name : String} (isNew : name ∉ s.names) :
    (s.insert name).names = s.names ++ [name] := by
  simp [insert, isNew]

/-- Distinct names go behind the others in their order, those that are there apart. -/
theorem names_foldl_insert_of_nodup {s : NameSet} {names : List String} (distinct : names.Nodup) :
    (names.foldl insert s).names = s.names ++ names.filter (· ∉ s.names) := by
  induction names generalizing s with
  | nil => simp
  | cons name rest ih =>
    rw [List.nodup_cons] at distinct
    rw [List.foldl_cons, ih distinct.2]
    by_cases isThere : name ∈ s.names
    · rw [insert_of_mem isThere, List.filter_cons_of_neg (by simp [isThere])]
    · rw [List.filter_cons_of_pos (by simp [isThere]), names_insert_of_notMem isThere,
        List.append_assoc]
      refine congrArg _ (congrArg _ (List.filter_congr fun other isLater => ?_))
      have isOther : other ≠ name := fun same => distinct.1 (same ▸ isLater)
      simp [isOther]

/-- A set is what its names in order make. -/
theorem ofList_names (s : NameSet) : ofList s.names = s :=
  ext (by simp [ofList, names_foldl_insert_of_nodup s.distinct, empty])

theorem foldl_insert_of_subset {s : NameSet} {names : List String}
    (areThere : ∀ name ∈ names, name ∈ s.names) : names.foldl insert s = s := by
  induction names with
  | nil => rfl
  | cons name rest ih =>
    rw [List.foldl_cons, insert_of_mem (areThere name (by simp))]
    exact ih fun other isLater => areThere other (List.mem_cons_of_mem _ isLater)

end NameSet

/-! ### Maps -/

namespace OrderedMap

variable {α β γ : Type}

/-- The names of a map as a set. -/
def nameSet (m : OrderedMap α) : NameSet := ⟨m.keys, m.distinct⟩

theorem get?_eq_some_iff (m : OrderedMap α) (key : String) (value : α) :
    m.get? key = some value ↔ (key, value) ∈ m.entries :=
  ⟨mem_of_lookupPair, lookupPair_of_mem m.distinct⟩

theorem get?_eq_none_iff (m : OrderedMap α) (key : String) : m.get? key = none ↔ key ∉ m.keys :=
  lookupPair_eq_none_iff ..

theorem mem_keys (m : OrderedMap α) (key : String) :
    key ∈ m.keys ↔ ∃ value, m.get? key = some value := by
  simp only [get?_eq_some_iff, keys, List.mem_map, Prod.exists, exists_and_right, exists_eq_right]

/-- Maps with the same names lack the same values. -/
theorem get?_eq_none_of_nameSet {m : OrderedMap α} {n : OrderedMap β}
    (sameNames : m.nameSet = n.nameSet) {key : String} (missing : n.get? key = none) :
    m.get? key = none := by
  have sameKeys : m.keys = n.keys := congrArg NameSet.names sameNames
  rw [get?_eq_none_iff] at missing ⊢
  exact sameKeys ▸ missing

theorem mem_values (m : OrderedMap α) (value : α) :
    value ∈ m.values ↔ ∃ key, m.get? key = some value := by
  simp only [get?_eq_some_iff, values, List.mem_map, Prod.exists, exists_eq_right]

/-- Maps with the same names in the same order and the same look-ups are equal. -/
theorem ext_get? {m n : OrderedMap α} (sameNames : m.nameSet = n.nameSet)
    (sameValues : ∀ key, m.get? key = n.get? key) : m = n := by
  have onPairs : ∀ pairs others : List (String × α), (pairs.map Prod.fst).Nodup →
      pairs.map Prod.fst = others.map Prod.fst →
      (∀ key, lookupPair key pairs = lookupPair key others) → pairs = others := by
    intro pairs
    induction pairs with
    | nil =>
      intro others _ sameKeys _
      exact (List.map_eq_nil_iff.mp sameKeys.symm).symm
    | cons pair rest ih =>
      intro others distinct sameKeys sameLookups
      obtain ⟨name, value⟩ := pair
      cases others with
      | nil => simp at sameKeys
      | cons other more =>
        obtain ⟨otherName, otherValue⟩ := other
        obtain ⟨rfl, sameRest⟩ := List.cons_eq_cons.mp sameKeys
        have atName := sameLookups name
        simp only [lookupPair, if_true, Option.some.injEq] at atName
        subst atName
        rw [List.map_cons, List.nodup_cons] at distinct
        refine congrArg _ (ih more distinct.2 sameRest fun key => ?_)
        by_cases isName : name = key
        · subst isName
          rw [(lookupPair_eq_none_iff name rest).mpr distinct.1,
            (lookupPair_eq_none_iff name more).mpr (sameRest ▸ distinct.1)]
        · simpa [lookupPair, isName] using sameLookups key
  cases m with
  | mk pairs distinct =>
    cases n with
    | mk others _ =>
      have : pairs = others :=
        onPairs pairs others distinct (congrArg NameSet.names sameNames) sameValues
      subst this
      rfl

/-! ### Writing -/

theorem nameSet_insert (m : OrderedMap α) (key : String) (value : α) :
    (m.insert key value).nameSet = m.nameSet.insert key := by
  apply NameSet.ext
  by_cases isThere : key ∈ m.keys
  · rw [NameSet.insert_of_mem (s := m.nameSet) isThere]
    exact map_fst_placePair_of_mem value isThere
  · rw [NameSet.names_insert_of_notMem (s := m.nameSet) isThere]
    show (placePair key value m.entries).map Prod.fst = _
    rw [placePair_of_notMem value isThere]
    simp [nameSet, keys]

theorem nameSet_upsert (m : OrderedMap α) (key : String) (fresh : α) (change : α → α) :
    (m.upsert key fresh change).nameSet = m.nameSet.insert key :=
  nameSet_insert ..

theorem nameSet_adjust (m : OrderedMap α) (key : String) (change : α → α) :
    (m.adjust key change).nameSet = m.nameSet := by
  unfold adjust
  cases found : m.get? key with
  | none => rfl
  | some value =>
    rw [nameSet_insert]
    exact NameSet.insert_of_mem ((m.mem_keys key).mpr ⟨value, found⟩)

theorem adjust_of_eq_some {m : OrderedMap α} {key : String} {value : α}
    (found : m.get? key = some value) (change : α → α) :
    m.adjust key change = m.insert key (change value) := by
  rw [adjust, found]

/-- Where there is a value, changing it needs no fresh one. -/
theorem upsert_of_eq_some {m : OrderedMap α} {key : String} {value : α}
    (found : m.get? key = some value) (fresh : α) (change : α → α) :
    m.upsert key fresh change = m.insert key (change value) := by
  rw [upsert, found, Option.getD_some]

/-- Changing a value takes none away. -/
theorem get?_adjust_of_eq_some {m : OrderedMap α} {name : String} {value : α}
    (found : m.get? name = some value) (key : String) (change : α → α) :
    ∃ kept, (m.adjust key change).get? name = some kept ∧ (kept = value ∨ kept = change value) := by
  rw [get?_adjust]
  split
  next isName =>
    subst isName
    exact ⟨change value, by rw [found, Option.map_some], .inr rfl⟩
  next => exact ⟨value, found, .inl rfl⟩

/-- Distinct names that are new go behind the others in their order. -/
theorem entries_foldl_insert {m : OrderedMap α} {pairs : List (String × α)}
    (distinct : (m.keys ++ pairs.map Prod.fst).Nodup) :
    (pairs.foldl (fun m pair => m.insert pair.1 pair.2) m).entries = m.entries ++ pairs := by
  induction pairs generalizing m with
  | nil => simp
  | cons pair rest ih =>
    obtain ⟨key, value⟩ := pair
    have isNew : key ∉ m.keys := by
      intro isThere
      exact (List.nodup_append.mp distinct).2.2 key isThere key (by simp) rfl
    have placed : (m.insert key value).entries = m.entries ++ [(key, value)] :=
      placePair_of_notMem value isNew
    have keysPlaced : (m.insert key value).keys = m.keys ++ [key] := by simp [keys, placed]
    rw [List.map_cons, List.append_cons, ← keysPlaced] at distinct
    rw [List.foldl_cons, ih distinct, placed, List.append_assoc]
    rfl

theorem isEmpty_eq (m : OrderedMap α) : m.isEmpty = m.nameSet.names.isEmpty := by
  simp [isEmpty, nameSet, keys]

theorem isEmpty_insert (m : OrderedMap α) (key : String) (value : α) :
    (m.insert key value).isEmpty = false := by
  rw [isEmpty_eq, nameSet_insert, List.isEmpty_eq_false_iff]
  exact List.ne_nil_of_mem ((NameSet.mem_insert _ key key).mpr (.inl rfl))

theorem isEmpty_adjust (m : OrderedMap α) (key : String) (change : α → α) :
    (m.adjust key change).isEmpty = m.isEmpty := by
  rw [isEmpty_eq, nameSet_adjust, ← isEmpty_eq]

/-- Pairs under distinct names are kept as they stand. -/
theorem entries_ofList {pairs : List (String × α)} (distinct : (pairs.map Prod.fst).Nodup) :
    (ofList pairs).entries = pairs :=
  entries_foldl_insert (m := empty) distinct

/-- A map is what its pairs in order make. -/
theorem ofList_entries (m : OrderedMap α) : ofList m.entries = m := by
  cases same : ofList m.entries
  cases m
  have := entries_ofList (α := α) ‹_›
  simp_all

/-! ### Changing every value -/

theorem get?_mapValues (change : α → β) (m : OrderedMap α) (key : String) :
    (m.mapValues change).get? key = (m.get? key).map change :=
  lookupPair_map ..

theorem nameSet_mapValues (change : α → β) (m : OrderedMap α) :
    (m.mapValues change).nameSet = m.nameSet :=
  NameSet.ext (by simp [nameSet, keys, mapValues])

theorem values_mapValues (change : α → β) (m : OrderedMap α) :
    (m.mapValues change).values = m.values.map change := by
  simp [values, mapValues]

theorem mapValues_mapValues (second : β → γ) (first : α → β) (m : OrderedMap α) :
    (m.mapValues first).mapValues second = m.mapValues (second ∘ first) := by
  simp [mapValues]

theorem mapValues_congr {m : OrderedMap α} {first second : α → β}
    (same : ∀ key value, m.get? key = some value → first value = second value) :
    m.mapValues first = m.mapValues second := by
  refine ext_get? ((nameSet_mapValues ..).trans (nameSet_mapValues ..).symm) fun key => ?_
  rw [get?_mapValues, get?_mapValues]
  cases found : m.get? key with
  | none => rfl
  | some value => rw [Option.map_some, Option.map_some, same key value found]

theorem mapValues_insert (change : α → β) (m : OrderedMap α) (key : String) (value : α) :
    (m.insert key value).mapValues change = (m.mapValues change).insert key (change value) := by
  refine ext_get? ?_ fun name => ?_
  · rw [nameSet_mapValues, nameSet_insert, nameSet_insert, nameSet_mapValues]
  · rw [get?_mapValues, get?_insert, get?_insert, get?_mapValues]
    split <;> rfl

/-- Values may be changed before or behind a write, if both changes of the value agree. -/
theorem mapValues_upsert (m : OrderedMap α) (key : String) (fresh : α) {change : α → β}
    {first : α → α} {second : β → β}
    (same : ∀ value, change (first value) = second (change value)) :
    (m.upsert key fresh first).mapValues change =
      (m.mapValues change).upsert key (change fresh) second := by
  rw [upsert, upsert, mapValues_insert, get?_mapValues, same]
  cases m.get? key <;> rfl

/-! ### Properties of all values -/

/-- Every value has a property together with its name. -/
def Forall (property : String → α → Prop) (m : OrderedMap α) : Prop :=
  ∀ key value, m.get? key = some value → property key value

namespace Forall

variable {property : String → α → Prop} {m : OrderedMap α}

theorem empty : (OrderedMap.empty : OrderedMap α).Forall property := by
  intro key value found
  simp at found

theorem insert (holds : m.Forall property) {key : String} {value : α}
    (ofNew : property key value) : (m.insert key value).Forall property := by
  intro name found isFound
  rw [get?_insert] at isFound
  split at isFound
  next isName => exact isName ▸ Option.some.inj isFound ▸ ofNew
  next => exact holds name found isFound

theorem upsert (holds : m.Forall property) {key : String} {fresh : α} {change : α → α}
    (ofFresh : property key (change fresh))
    (kept : ∀ value, property key value → property key (change value)) :
    (m.upsert key fresh change).Forall property := by
  refine holds.insert ?_
  cases found : m.get? key with
  | none => exact ofFresh
  | some value => exact kept value (holds key value found)

theorem adjust (holds : m.Forall property) {key : String} {change : α → α}
    (kept : ∀ value, property key value → property key (change value)) :
    (m.adjust key change).Forall property := by
  unfold OrderedMap.adjust
  cases found : m.get? key with
  | none => exact holds
  | some value => exact holds.insert (kept value (holds key value found))

theorem mapValues {target : String → β → Prop} (holds : m.Forall property) {change : α → β}
    (kept : ∀ key value, property key value → target key (change value)) :
    (m.mapValues change).Forall target := by
  intro key found isFound
  rw [get?_mapValues, Option.map_eq_some_iff] at isFound
  obtain ⟨value, isValue, rfl⟩ := isFound
  exact kept key value (holds key value isValue)

theorem foldl_insert (holds : m.Forall property) {pairs : List (String × α)}
    (each : ∀ pair ∈ pairs, property pair.1 pair.2) :
    (pairs.foldl (fun m pair => m.insert pair.1 pair.2) m).Forall property := by
  induction pairs generalizing m with
  | nil => exact holds
  | cons pair rest ih =>
    rw [List.forall_mem_cons] at each
    exact ih (holds.insert each.1) each.2

theorem of_pairs {pairs : List (String × α)} (each : ∀ pair ∈ pairs, property pair.1 pair.2) :
    (OrderedMap.ofList pairs).Forall property :=
  empty.foldl_insert each

theorem imp (holds : m.Forall property) {target : String → α → Prop}
    (weaker : ∀ key value, property key value → target key value) : m.Forall target :=
  fun key value found => weaker key value (holds key value found)

theorem of_mem (holds : m.Forall property) {key : String} {value : α}
    (isPair : (key, value) ∈ m.entries) : property key value :=
  holds key value ((m.get?_eq_some_iff key value).mpr isPair)

theorem mapValues_eq_self (holds : m.Forall property) {change : α → α}
    (unchanged : ∀ key value, property key value → change value = value) :
    m.mapValues change = m := by
  refine ext_get? (nameSet_mapValues ..) fun key => ?_
  rw [get?_mapValues]
  cases found : m.get? key with
  | none => rfl
  | some value => rw [Option.map_some, unchanged key value (holds key value found)]

/-- Values that know their names tell the names of the map in order. -/
theorem map_values {nameOf : α → String} (named : m.Forall fun key value => nameOf value = key) :
    m.values.map nameOf = m.keys := by
  simp only [values, keys, List.map_map]
  refine List.map_congr_left fun pair isPair => ?_
  exact named.of_mem (show (pair.1, pair.2) ∈ m.entries from isPair)

/-- Values that know their names are found under them. -/
theorem get?_nameOf {nameOf : α → String} (named : m.Forall fun key value => nameOf value = key)
    {value : α} (isValue : value ∈ m.values) : m.get? (nameOf value) = some value := by
  obtain ⟨key, found⟩ := (m.mem_values value).mp isValue
  rw [named key value found, found]

/-- Values that know their names are the pairs of the map. -/
theorem pairs_of_values {nameOf : α → String}
    (named : m.Forall fun key value => nameOf value = key) (change : α → β) :
    m.values.map (fun value => (nameOf value, change value)) = (m.mapValues change).entries := by
  simp only [values, OrderedMap.mapValues, List.map_map]
  refine List.map_congr_left fun pair isPair => ?_
  exact congrArg (·, change pair.2) (named.of_mem (show (pair.1, pair.2) ∈ m.entries from isPair))

/-- Values that know their names make the map again when they are written in order. -/
theorem foldl_insert_values {nameOf : α → String}
    (named : m.Forall fun key value => nameOf value = key) (change : α → β) :
    m.values.foldl (fun made value => made.insert (nameOf value) (change value))
      OrderedMap.empty = m.mapValues change := by
  rw [← ofList_entries (m.mapValues change), ← named.pairs_of_values change, ofList, List.foldl_map]

end Forall

/-! ### Chains of changes -/

/-- Changes under names, one after the other, where a missing value starts from `fresh`. -/
def perform (fresh : String → α) (m : OrderedMap α) (steps : List (String × (α → α))) :
    OrderedMap α :=
  steps.foldl (fun m step => m.upsert step.1 (fresh step.1) step.2) m

/-- A value behind changes in order. -/
def changed (changes : List (α → α)) (value : α) : α :=
  changes.foldl (fun value change => change value) value

theorem changed_append (first second : List (α → α)) (value : α) :
    changed (first ++ second) value = changed second (changed first value) :=
  List.foldl_append ..

theorem nameSet_perform (fresh : String → α) (m : OrderedMap α)
    (steps : List (String × (α → α))) :
    (m.perform fresh steps).nameSet = (steps.map Prod.fst).foldl NameSet.insert m.nameSet := by
  induction steps generalizing m with
  | nil => rfl
  | cons step rest ih =>
    rw [List.map_cons, List.foldl_cons, ← nameSet_upsert m step.1 (fresh step.1) step.2, ← ih]
    rfl

theorem perform_append (fresh : String → α) (m : OrderedMap α)
    (first second : List (String × (α → α))) :
    m.perform fresh (first ++ second) = (m.perform fresh first).perform fresh second :=
  List.foldl_append ..

theorem get?_perform (fresh : String → α) (m : OrderedMap α) (steps : List (String × (α → α)))
    (name : String) :
    (m.perform fresh steps).get? name =
      if name ∈ steps.map Prod.fst then
        some (changed (under name steps) ((m.get? name).getD (fresh name)))
      else m.get? name := by
  induction steps generalizing m with
  | nil => rfl
  | cons step rest ih =>
    obtain ⟨key, change⟩ := step
    show ((m.upsert key (fresh key) change).perform fresh rest).get? name = _
    rw [ih, get?_upsert]
    by_cases isName : key = name
    · subst isName
      have first : under key ((key, change) :: rest) = change :: under key rest := by
        simp [under]
      rw [first, if_pos rfl, if_pos (show key ∈ ((key, change) :: rest).map Prod.fst by simp)]
      split
      next => rfl
      next isLast =>
        rw [under_eq_nil_of_notMem isLast]
        rfl
    · have skipped : under name ((key, change) :: rest) = under name rest := by
        simp [under, isName]
      rw [skipped, if_neg isName]
      simp only [List.map_cons, List.mem_cons, Ne.symm isName, false_or]

/-- A value that is there goes through the changes under its name. -/
theorem get?_perform_of_eq_some {fresh : String → α} {m : OrderedMap α} {name : String} {value : α}
    (found : m.get? name = some value) (steps : List (String × (α → α))) :
    (m.perform fresh steps).get? name = some (changed (under name steps) value) := by
  rw [get?_perform, found]
  split
  next => rfl
  next isOther =>
    rw [under_eq_nil_of_notMem isOther]
    rfl

/-- Changes under one new name that start from nothing put one value behind the others. -/
theorem entries_perform_of_new {fresh : String → α} {m : OrderedMap α} {name : String}
    (isNew : name ∉ m.keys) {changes : List (α → α)} (isAny : changes ≠ []) :
    (m.perform fresh (changes.map (name, ·))).entries =
      m.entries ++ [(name, changed changes (fresh name))] := by
  have missing : m.get? name = none := (get?_eq_none_iff m name).mpr isNew
  have once : m.perform fresh (changes.map (name, ·)) =
      m.insert name (changed changes (fresh name)) := by
    refine ext_get? ?_ fun other => ?_
    · obtain ⟨first, rest, rfl⟩ := List.exists_cons_of_ne_nil isAny
      rw [nameSet_perform, nameSet_insert, List.map_cons, List.map_cons, List.foldl_cons]
      refine NameSet.foldl_insert_of_subset fun other isOther => ?_
      obtain ⟨_, _, rfl⟩ := List.mem_map.mp (List.map_map ▸ isOther)
      exact (NameSet.mem_insert ..).mpr (.inl rfl)
    · have all : under name (changes.map (name, ·)) = changes := by
        simp [under, List.filter_map, Function.comp_def]
      rw [get?_perform, get?_insert]
      by_cases isName : name = other
      · subst isName
        obtain ⟨first, rest, rfl⟩ := List.exists_cons_of_ne_nil isAny
        rw [if_pos (by simp), if_pos rfl, all, missing]
        rfl
      · have notThere : other ∉ (changes.map (name, ·)).map Prod.fst := by
          intro isThere
          obtain ⟨_, isStep, rfl⟩ := List.mem_map.mp isThere
          obtain ⟨_, _, rfl⟩ := List.mem_map.mp isStep
          exact isName rfl
        rw [if_neg notThere, if_neg isName]
  rw [once]
  exact placePair_of_notMem _ isNew

/-- Groups of changes under distinct names leave one value for each group that is not empty. -/
theorem entries_perform_groups {fresh : String → α} {items : List β} {key : β → String}
    (group : β → List (α → α)) (distinct : (items.map key).Nodup) {m : OrderedMap α}
    (areNew : ∀ item ∈ items, key item ∉ m.keys) :
    (m.perform fresh (items.flatMap fun item => (group item).map (key item, ·))).entries =
      m.entries ++ items.flatMap fun item =>
        if (group item).isEmpty then []
        else [(key item, changed (group item) (fresh (key item)))] := by
  induction items generalizing m with
  | nil => exact (List.append_nil _).symm
  | cons item rest ih =>
    rw [List.map_cons, List.nodup_cons] at distinct
    obtain ⟨isNew, areNewLater⟩ := List.forall_mem_cons.mp areNew
    rw [List.flatMap_cons, List.flatMap_cons, perform_append]
    by_cases isNone : group item = []
    · rw [isNone]
      exact ih distinct.2 areNewLater
    · have first := @entries_perform_of_new _ fresh _ _ isNew _ isNone
      rw [ih distinct.2, first, List.append_assoc, if_neg (by simpa using isNone)]
      intro other isLater isThere
      rw [keys, first, List.map_append, List.mem_append] at isThere
      rcases isThere with isOld | isKey
      · exact areNewLater other isLater isOld
      · have sameKey : key other = key item := List.mem_singleton.mp isKey
        exact distinct.1 (sameKey ▸ List.mem_map_of_mem isLater)

/-- Changes of values that are there, one after the other. -/
def adjustAll (m : OrderedMap α) (steps : List (String × (α → α))) : OrderedMap α :=
  steps.foldl (fun m step => m.adjust step.1 step.2) m

theorem nameSet_adjustAll (m : OrderedMap α) (steps : List (String × (α → α))) :
    (m.adjustAll steps).nameSet = m.nameSet := by
  induction steps generalizing m with
  | nil => rfl
  | cons step rest ih => exact (ih _).trans (nameSet_adjust ..)

theorem get?_adjustAll (m : OrderedMap α) (steps : List (String × (α → α))) (name : String) :
    (m.adjustAll steps).get? name = (m.get? name).map (changed (under name steps)) := by
  induction steps generalizing m with
  | nil => exact Option.map_id'.symm
  | cons step rest ih =>
    obtain ⟨key, change⟩ := step
    show ((m.adjust key change).adjustAll rest).get? name = _
    rw [ih, get?_adjust]
    by_cases isName : key = name
    · subst isName
      have first : under key ((key, change) :: rest) = change :: under key rest := by
        simp [under]
      rw [if_pos rfl, Option.map_map, first]
      rfl
    · simp [under, isName]

/-! ### The last value counts -/

/-- The last pair with a name gives it its value. -/
theorem get?_foldl_insert (m : OrderedMap α) (pairs : List (String × α)) (name : String) :
    (pairs.foldl (fun m pair => m.insert pair.1 pair.2) m).get? name =
      (under name pairs).getLast?.or (m.get? name) := by
  induction pairs generalizing m with
  | nil => rfl
  | cons pair rest ih =>
    obtain ⟨key, value⟩ := pair
    rw [List.foldl_cons, ih, get?_insert]
    by_cases isName : key = name
    · have first : under name ((key, value) :: rest) = value :: under name rest := by
        simp [under, isName]
      rw [first, if_pos isName, List.getLast?_cons]
      cases (under name rest).getLast? <;> rfl
    · have first : under name ((key, value) :: rest) = under name rest := by
        simp [under, isName]
      rw [first, if_neg isName]

/-- Values that know their names take the places of those that have the names before. -/
theorem Forall.get?_foldl_insert_values {m : OrderedMap α} {nameOf : α → String}
    (named : m.Forall fun key value => nameOf value = key) (change : α → β)
    (start : OrderedMap β) (name : String) :
    (m.values.foldl (fun made value => made.insert (nameOf value) (change value)) start).get? name =
      ((m.get? name).map change).or (start.get? name) := by
  have own : (under name (m.mapValues change).entries).getLast? = (m.get? name).map change := by
    have again := get?_foldl_insert OrderedMap.empty (m.mapValues change).entries name
    rw [get?_empty, Option.or_none] at again
    rw [← again, ← get?_mapValues]
    exact congrArg (·.get? name) (ofList_entries (m.mapValues change))
  rw [← own, ← get?_foldl_insert, ← named.pairs_of_values change, List.foldl_map]

/-- Pairs whose values under a name are related leave related values there, in any two orders. -/
theorem rel_get?_ofList_of_perm {relation : α → α → Prop} {pairs others : List (String × α)}
    (perm : pairs.Perm others) {name : String}
    (related : ∀ first second,
      (name, first) ∈ pairs → (name, second) ∈ pairs → relation first second) :
    Option.Rel relation ((ofList pairs).get? name) ((ofList others).get? name) := by
  have mem_under : ∀ value, value ∈ under name pairs ↔ (name, value) ∈ pairs := by
    intro value
    simp only [under, List.mem_map, List.mem_filter, beq_iff_eq]
    constructor
    · rintro ⟨pair, ⟨isPair, rfl⟩, rfl⟩
      exact isPair
    · exact fun isPair => ⟨_, ⟨isPair, rfl⟩, rfl⟩
  have sameValues : (under name pairs).Perm (under name others) := (perm.filter _).map _
  rw [ofList, ofList, get?_foldl_insert, get?_foldl_insert, get?_empty, Option.or_none,
    Option.or_none]
  cases last : (under name pairs).getLast? with
  | none =>
    rw [List.getLast?_eq_none_iff] at last
    rw [last] at sameValues
    rw [List.nil_perm.mp sameValues]
    exact .none
  | some first =>
    have isFirst := List.mem_of_getLast? last
    cases lastOther : (under name others).getLast? with
    | none =>
      rw [List.getLast?_eq_none_iff] at lastOther
      rw [lastOther] at sameValues
      exact absurd (sameValues.subset isFirst) (List.not_mem_nil)
    | some second =>
      have isSecond := sameValues.symm.subset (List.mem_of_getLast? lastOther)
      rw [mem_under] at isFirst isSecond
      exact .some (related first second isFirst isSecond)

/-- Pairs that agree on the value of every name may be written in any order. -/
theorem get?_ofList_of_perm {pairs others : List (String × α)} (perm : pairs.Perm others)
    (agree : ∀ name first second,
      (name, first) ∈ pairs → (name, second) ∈ pairs → first = second) (name : String) :
    (ofList pairs).get? name = (ofList others).get? name := by
  have same := rel_get?_ofList_of_perm perm (agree name)
  generalize (ofList pairs).get? name = first, (ofList others).get? name = second at same
  cases same with
  | some same => rw [same]
  | none => rfl

/-! ### Equality up to order -/

/-- A map equals another when each value of it has an equal one under its name, and no name of the
other is left over. -/
theorem beq_of_get? [BEq α] {m n : OrderedMap α} (sameSize : m.size = n.size)
    (sameValues : ∀ key value, m.get? key = some value →
      ∃ other, n.get? key = some other ∧ (other == value) = true) : (m == n) = true := by
  show m.agrees n = true
  rw [agrees, sameSize, beq_self_eq_true, Bool.true_and, List.all_eq_true]
  rintro ⟨key, value⟩ isPair
  obtain ⟨other, found, isSame⟩ := sameValues key value ((get?_eq_some_iff ..).mpr isPair)
  rw [found]
  exact isSame

instance [BEq α] [ReflBEq α] : ReflBEq (OrderedMap α) where
  rfl := beq_of_get? rfl fun _ value found => ⟨value, found, beq_self_eq_true value⟩

end OrderedMap

instance : ReflBEq NameSet where
  rfl {names} := by
    show names.agrees names = true
    rw [NameSet.agrees, beq_self_eq_true, Bool.true_and, List.all_eq_true]
    exact fun _ isName => List.contains_iff_mem.mpr isName

end Bindery
