/-
**Records, lists and maps are read as they were written.**

A record keeps its fields in their order of declaration and leaves some of them out, so the names
that it has are a sublist of the names that it may have. Members under other names do not count.

* `fields?_record` — the fields of a written record.
* `list?_array`, `map?_record` — lists and maps, item by item.
* `read_of_list?`, `read_of_map?` — whatever they hold was read.
* `IsShallow` — a value of texts and truth values, with few containers inside each other.
-/

import Bindery.Json.Number
import Bindery.Json.Record
import Bindery.Proofs.Json.RoundTrip
import Bindery.Proofs.OrderedMap

namespace Bindery.Json

/-! ### Lists and maps -/

theorem mapM_map_eq_some {α β γ : Type} {read : β → Option γ} {write : α → β} {result : α → γ}
    {items : List α} (each : ∀ item ∈ items, read (write item) = some (result item)) :
    (items.map write).mapM read = some (items.map result) := by
  induction items with
  | nil => rfl
  | cons item rest ih =>
    rw [List.map_cons, List.mapM_cons, each item (List.mem_cons_self ..),
      ih fun other isLater => each other (List.mem_cons_of_mem _ isLater)]
    rfl

theorem list?_array {α β : Type} {read : Json → Option β} {write : α → Json} {result : α → β}
    {items : List α} (each : ∀ item ∈ items, read (write item) = some (result item)) :
    list? read (array (items.map write)) = some (items.map result) :=
  mapM_map_eq_some each

theorem list?_texts (values : List String) :
    list? Json.text? (array (values.map text)) = some values := by
  have texts := @list?_array _ _ Json.text? text id values fun _ _ => rfl
  rwa [List.map_id] at texts

theorem members?_record (members : List (String × Json)) :
    (record members).members? = some members := by
  have each := @mapM_map_eq_some _ _ _
    (fun member : Option String × Json => member.1.map fun text => (text, member.2))
    (fun member : String × Json => (some member.1, member.2)) id members fun _ _ => rfl
  rwa [List.map_id] at each

/-- A map is read value by value. -/
theorem map?_record {α β : Type} {read : String → Json → Option β} {write : α → Json}
    {result : α → β} {m : OrderedMap α}
    (each : m.Forall fun key value => read key (write value) = some (result value)) :
    map? read (record (m.mapValues write).entries) = some (m.mapValues result) := by
  have pairs := @mapM_map_eq_some _ _ _
    (fun member : String × Json => (read member.1 member.2).map fun item => (member.1, item))
    (fun pair : String × α => (pair.1, write pair.2)) (fun pair => (pair.1, result pair.2))
    m.entries (by
      intro pair isPair
      rw [each.of_mem (show (pair.1, pair.2) ∈ m.entries from isPair)]
      rfl)
  have asPairs : map? read (record (m.mapValues write).entries) =
      (record (m.mapValues write).entries).members?.bind fun members =>
        (members.mapM fun member => (read member.1 member.2).map fun item =>
          (member.1, item)).bind fun pairs => some (OrderedMap.ofList pairs) := rfl
  rw [asPairs, members?_record, Option.bind_some, OrderedMap.mapValues, pairs, Option.bind_some]
  exact congrArg some (m.mapValues result).ofList_entries

/-! ### Where values come from -/

/-- Each result of reading items was read from one of them. -/
theorem read_of_mem_mapM {α β : Type} {read : α → Option β} {items : List α} {found : List β}
    (isFound : items.mapM read = some found) :
    ∀ value ∈ found, ∃ item ∈ items, read item = some value := by
  induction items generalizing found with
  | nil =>
    obtain rfl := Option.some.inj isFound
    simp
  | cons item rest ih =>
    simp only [List.mapM_cons, Option.bind_eq_bind, Option.bind_eq_some_iff] at isFound
    obtain ⟨value, isValue, others, areOthers, isAll⟩ := isFound
    obtain rfl := Option.some.inj isAll
    refine List.forall_mem_cons.mpr ⟨⟨item, List.mem_cons_self, isValue⟩, fun other isOther => ?_⟩
    obtain ⟨source, isIn, isRead⟩ := ih areOthers other isOther
    exact ⟨source, List.mem_cons_of_mem _ isIn, isRead⟩

theorem read_of_list? {α : Type} {read : Json → Option α} {json : Json} {found : List α}
    (isFound : list? read json = some found) : ∀ value ∈ found, ∃ item, read item = some value := by
  unfold list? at isFound
  split at isFound
  next items =>
    intro value isValue
    obtain ⟨item, _, isRead⟩ := read_of_mem_mapM isFound value isValue
    exact ⟨item, isRead⟩
  next => cases isFound

theorem read_of_map? {α : Type} {read : String → Json → Option α} {json : Json} {m : OrderedMap α}
    (isFound : map? read json = some m) :
    m.Forall fun key value => ∃ item, read key item = some value := by
  simp only [map?, Option.bind_eq_bind, Option.bind_eq_some_iff] at isFound
  obtain ⟨members, _, pairs, arePairs, isMap⟩ := isFound
  obtain rfl := Option.some.inj isMap
  refine .of_pairs fun pair isPair => ?_
  obtain ⟨⟨key, item⟩, _, isRead⟩ := read_of_mem_mapM arePairs pair isPair
  obtain ⟨value, isValue, rfl⟩ := Option.map_eq_some_iff.mp isRead
  exact ⟨item, isValue⟩

/-! ### Fields -/

/-- The fields of a record that has some of the names in their order, and members of other names. -/
theorem fields?_record_append {names : List String} (distinct : names.Nodup)
    {known others : List (String × Json)} (inOrder : (known.map Prod.fst).Sublist names)
    (areOthers : ∀ member ∈ others, member.1 ∉ names) :
    ∃ fields : Fields, (record (known ++ others)).fields? names = some fields ∧
      ∀ key, lookupPair key fields.values = lookupPair key known := by
  have onlyKnown : (known ++ others).filter (fun member => names.contains member.1) = known := by
    rw [List.filter_append, List.filter_eq_self.mpr, List.filter_eq_nil_iff.mpr, List.append_nil]
    · intro member isOther
      simpa using areOthers member isOther
    · intro member isKnown
      simpa using inOrder.subset (List.mem_map_of_mem isKnown)
  have fields : (record (known ++ others)).fields? names =
      (record (known ++ others)).members?.bind fun members =>
        let found := members.filter fun member => names.contains member.1
        if (found.map Prod.fst).Nodup then some ⟨found⟩ else none := rfl
  refine ⟨⟨known⟩, ?_, fun _ => rfl⟩
  rw [fields, members?_record, Option.bind_some]
  simp only [onlyKnown, if_pos (distinct.sublist inOrder)]

theorem fields?_record {names : List String} (distinct : names.Nodup)
    {known : List (String × Json)} (inOrder : (known.map Prod.fst).Sublist names) :
    ∃ fields : Fields, (record known).fields? names = some fields ∧
      ∀ key, lookupPair key fields.values = lookupPair key known := by
  have fields := @fields?_record_append names distinct known [] inOrder (by simp)
  rwa [List.append_nil] at fields

/-- A member that is left out on a condition has no name but its own. -/
theorem sublist_optional (isLeftOut : Bool) (name : String) (value : Json) :
    ((if isLeftOut then [] else [(name, value)]).map Prod.fst).Sublist [name] := by
  cases isLeftOut <;> simp

theorem sublist_textField (name value : String) :
    ((textField name value).map Prod.fst).Sublist [name] :=
  sublist_optional ..

theorem sublist_flagField (name : String) (value : Bool) :
    ((flagField name value).map Prod.fst).Sublist [name] := by
  cases value <;> simp [flagField]

theorem sublist_textsField (name : String) (values : List String) :
    ((textsField name values).map Prod.fst).Sublist [name] :=
  sublist_optional ..

@[simp] theorem lookupPair_optional (isLeftOut : Bool) (key name : String) (value : Json) :
    lookupPair key (if isLeftOut then [] else [(name, value)]) =
      if name = key then if isLeftOut then none else some value else none := by
  cases isLeftOut <;> simp [lookupPair]

@[simp] theorem lookupPair_textField (key name value : String) :
    lookupPair key (textField name value) =
      if name = key then if value.isEmpty then none else some (text value) else none :=
  lookupPair_optional ..

@[simp] theorem lookupPair_flagField (key name : String) (value : Bool) :
    lookupPair key (flagField name value) =
      if name = key then if value then some (bool true) else none else none := by
  cases value <;> simp [flagField, lookupPair]

@[simp] theorem lookupPair_textsField (key name : String) (values : List String) :
    lookupPair key (textsField name values) =
      if name = key then if values.isEmpty then none else some (array (values.map text))
      else none :=
  lookupPair_optional ..

namespace Fields

variable {fields : Fields} {name : String}

theorem required?_of_text {value : String}
    (given : lookupPair name fields.values = some (Json.text value)) :
    fields.required? name Json.text? = some value := by
  rw [required?, given]
  rfl

theorem text?_of_field {value : String}
    (given : lookupPair name fields.values =
      if value.isEmpty then none else some (Json.text value)) :
    fields.text? name = some value := by
  unfold text? orElse?
  split at given
  next isEmpty => rw [given, String.isEmpty_iff.mp isEmpty]
  next =>
    rw [given]
    rfl

theorem text?_of_text {value : String}
    (given : lookupPair name fields.values = some (Json.text value)) :
    fields.text? name = some value := by
  unfold text? orElse?
  rw [given]
  rfl

theorem flag?_of_field {value : Bool}
    (given : lookupPair name fields.values = if value then some (bool true) else none) :
    fields.flag? name = some value := by
  unfold flag? orElse?
  cases value <;> simp_all [bool?]

/-- A field with an array that is left out when it is empty. -/
theorem list?_of_field {α : Type} {read : Json → Option α} {values : List α} {value : Json}
    (isRead : list? read value = some values)
    (given : lookupPair name fields.values = if values.isEmpty then none else some value) :
    fields.orElse? name (list? read) [] = some values := by
  unfold orElse?
  split at given
  next isEmpty => rw [given, List.isEmpty_iff.mp isEmpty]
  next =>
    rw [given]
    exact isRead

end Fields

/-! ### Shallow values -/

/-- A value of texts and truth values with at most so many containers inside each other. -/
structure IsShallow (bound : Nat) (value : Json) : Prop where
  depth : value.depth ≤ bound
  textual : value.everywhere isTextual = true

namespace IsShallow

variable {bound : Nat}

theorem text (value : String) : IsShallow bound (Json.text value) := ⟨Nat.zero_le _, rfl⟩

theorem bool (value : Bool) : IsShallow bound (Json.bool value) := ⟨Nat.zero_le _, rfl⟩

theorem mono {value : Json} (shallow : IsShallow bound value) {higher : Nat}
    (isHigher : bound ≤ higher) : IsShallow higher value :=
  ⟨Nat.le_trans shallow.depth isHigher, shallow.textual⟩

theorem array {items : List Json} (each : ∀ item ∈ items, IsShallow bound item) :
    IsShallow (bound + 1) (Json.array items) := by
  have all : depthOfItems items ≤ bound ∧ everywhereInItems isTextual items = true := by
    induction items with
    | nil => exact ⟨Nat.zero_le _, rfl⟩
    | cons item rest ih =>
      obtain ⟨first, later⟩ := List.forall_mem_cons.mp each
      rw [depthOfItems, everywhereInItems, first.textual]
      exact ⟨Nat.max_le.mpr ⟨first.depth, (ih later).1⟩, (ih later).2⟩
  refine ⟨?_, ?_⟩
  · rw [Json.depth]
    exact Nat.succ_le_succ all.1
  · rw [everywhere, all.2]
    rfl

theorem record {members : List (String × Json)}
    (each : ∀ member ∈ members, IsShallow bound member.2) :
    IsShallow (bound + 1) (Json.record members) := by
  have all : ∀ members : List (String × Json), (∀ member ∈ members, IsShallow bound member.2) →
      depthOfMembers (members.map fun member => (some member.1, member.2)) ≤ bound ∧
        everywhereInMembers isTextual (members.map fun member => (some member.1, member.2)) =
          true := by
    intro members each
    induction members with
    | nil => exact ⟨Nat.zero_le _, rfl⟩
    | cons member rest ih =>
      obtain ⟨first, later⟩ := List.forall_mem_cons.mp each
      rw [List.map_cons, depthOfMembers, everywhereInMembers, first.textual]
      exact ⟨Nat.max_le.mpr ⟨first.depth, (ih later).1⟩, (ih later).2⟩
  obtain ⟨depth, textual⟩ := all members each
  refine ⟨?_, ?_⟩
  · rw [Json.record, Json.depth]
    exact Nat.succ_le_succ depth
  · rw [Json.record, everywhere]
    exact congrArg (true && ·) textual

theorem optional (isLeftOut : Bool) {name : String} {value : Json}
    (shallow : IsShallow bound value) :
    ∀ member ∈ (if isLeftOut then [] else [(name, value)]), IsShallow bound member.2 := by
  cases isLeftOut
  · simpa using shallow
  · simp

theorem textField (name value : String) :
    ∀ member ∈ Json.textField name value, IsShallow bound member.2 :=
  optional _ (text value)

theorem flagField (name : String) (value : Bool) :
    ∀ member ∈ Json.flagField name value, IsShallow bound member.2 := by
  cases value
  · simp [Json.flagField]
  · simpa [Json.flagField] using bool true

theorem texts (values : List String) :
    IsShallow (bound + 1) (Json.array (values.map Json.text)) :=
  array (by simpa using fun value _ => text value)

theorem textsField (name : String) (values : List String) :
    ∀ member ∈ Json.textsField name values, IsShallow (bound + 1) member.2 :=
  optional _ (texts values)

end IsShallow

mutual

/-- A property that is weaker everywhere holds everywhere. -/
theorem everywhere_imp {property weaker : Json → Bool}
    (imp : ∀ value, property value = true → weaker value = true) (value : Json)
    (holds : value.everywhere property = true) : value.everywhere weaker = true := by
  match value with
  | .null | .bool _ | .number _ | .string _ => exact imp _ holds
  | .array items =>
    rw [everywhere, Bool.and_eq_true] at holds ⊢
    exact ⟨imp _ holds.1, everywhereInItems_imp imp items holds.2⟩
  | .object members =>
    rw [everywhere, Bool.and_eq_true] at holds ⊢
    exact ⟨imp _ holds.1, everywhereInMembers_imp imp members holds.2⟩

theorem everywhereInItems_imp {property weaker : Json → Bool}
    (imp : ∀ value, property value = true → weaker value = true) (items : List Json)
    (holds : everywhereInItems property items = true) : everywhereInItems weaker items = true := by
  match items with
  | [] => rfl
  | item :: rest =>
    rw [everywhereInItems, Bool.and_eq_true] at holds ⊢
    exact ⟨everywhere_imp imp item holds.1, everywhereInItems_imp imp rest holds.2⟩

theorem everywhereInMembers_imp {property weaker : Json → Bool}
    (imp : ∀ value, property value = true → weaker value = true)
    (members : List (Option String × Json))
    (holds : everywhereInMembers property members = true) :
    everywhereInMembers weaker members = true := by
  match members with
  | [] => rfl
  | (key, value) :: rest =>
    rw [everywhereInMembers, Bool.and_eq_true, Bool.and_eq_true] at holds ⊢
    exact ⟨⟨imp _ holds.1.1, everywhere_imp imp value holds.1.2⟩,
      everywhereInMembers_imp imp rest holds.2⟩

end

end Bindery.Json
