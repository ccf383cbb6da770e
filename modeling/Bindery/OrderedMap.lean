/-
**Maps and sets of names that remember the order of arrival.**

A key keeps the place at which it first arrived: writing it again replaces the value where it
stands. Equality of values (`==`) is blind to that order; equality of the types (`=`) is not.

* `OrderedMap.insert`, `OrderedMap.adjust`, `OrderedMap.upsert` — the three ways to write.
* `OrderedMap.get?_insert` — what a write does to every look-up.
* `NameSet` — the same discipline for names without values.
-/

namespace Bindery

/-! ## The pairs of a map -/

/-- The value of the first pair with the key. -/
def lookupPair {α : Type} (key : String) : List (String × α) → Option α
  | [] => none
  | (k, a) :: rest => if k = key then some a else lookupPair key rest

/-- Writes `value` where the key stands, or behind all pairs when it is new. -/
def placePair {α : Type} (key : String) (value : α) : List (String × α) → List (String × α)
  | [] => [(key, value)]
  | (k, a) :: rest => if k = key then (k, value) :: rest else (k, a) :: placePair key value rest

theorem mem_keys_placePair {α : Type} (key name : String) (value : α) (pairs : List (String × α)) :
    name ∈ (placePair key value pairs).map Prod.fst ↔ name = key ∨ name ∈ pairs.map Prod.fst := by
  induction pairs with
  | nil => simp [placePair]
  | cons pair rest ih =>
    obtain ⟨k, a⟩ := pair
    by_cases isKey : k = key
    · simp only [placePair, isKey, if_true, List.map_cons, List.mem_cons]
      grind
    · simp only [placePair, isKey, if_false, List.map_cons, List.mem_cons, ih]
      grind

theorem nodup_keys_placePair {α : Type} (key : String) (value : α) {pairs : List (String × α)}
    (distinct : (pairs.map Prod.fst).Nodup) :
    ((placePair key value pairs).map Prod.fst).Nodup := by
  induction pairs with
  | nil => simp [placePair]
  | cons pair rest ih =>
    obtain ⟨k, a⟩ := pair
    simp only [List.map_cons, List.nodup_cons] at distinct
    by_cases isKey : k = key
    · simp only [placePair, isKey, if_true, List.map_cons, List.nodup_cons]
      exact isKey ▸ distinct
    · simp only [placePair, isKey, if_false, List.map_cons, List.nodup_cons, mem_keys_placePair]
      exact ⟨by grind, ih distinct.2⟩

theorem lookupPair_placePair {α : Type} (key name : String) (value : α)
    (pairs : List (String × α)) :
    lookupPair name (placePair key value pairs) =
      if key = name then some value else lookupPair name pairs := by
  induction pairs with
  | nil => simp [placePair, lookupPair]
  | cons pair rest ih =>
    obtain ⟨k, a⟩ := pair
    by_cases isKey : k = key
    · subst isKey
      by_cases isName : k = name <;> simp [placePair, lookupPair, isName]
    · simp only [placePair, isKey, if_false, lookupPair, ih]
      grind

/-! ## Maps -/

/-- Values under distinct names, in the order in which the names first arrived. -/
structure OrderedMap (α : Type) where
  /-- The pairs in order of arrival. -/
  entries : List (String × α)
  /-- No name has two values. -/
  distinct : (entries.map Prod.fst).Nodup

namespace OrderedMap

variable {α β : Type}

/-- The map without a pair. -/
def empty : OrderedMap α := ⟨[], List.nodup_nil⟩

instance : Inhabited (OrderedMap α) := ⟨empty⟩

instance : EmptyCollection (OrderedMap α) := ⟨empty⟩

/-- The value under a name. -/
def get? (m : OrderedMap α) (key : String) : Option α := lookupPair key m.entries

/-- Whether a name has a value. -/
def contains (m : OrderedMap α) (key : String) : Bool := (m.get? key).isSome

/-- The names in order of arrival. -/
def keys (m : OrderedMap α) : List String := m.entries.map Prod.fst

/-- The values in the order of their names. -/
def values (m : OrderedMap α) : List α := m.entries.map Prod.snd

/-- How many names have a value. -/
def size (m : OrderedMap α) : Nat := m.entries.length

/-- Whether no name has a value. -/
def isEmpty (m : OrderedMap α) : Bool := m.entries.isEmpty

/-- Writes a value: in place when the name is known, behind all others when it is new. -/
def insert (m : OrderedMap α) (key : String) (value : α) : OrderedMap α :=
  ⟨placePair key value m.entries, nodup_keys_placePair key value m.distinct⟩

/-- Changes the value under a name, if there is one. -/
def adjust (m : OrderedMap α) (key : String) (change : α → α) : OrderedMap α :=
  match m.get? key with
  | none => m
  | some value => m.insert key (change value)

/-- Changes the value under a name, starting from `fresh` when there is none. -/
def upsert (m : OrderedMap α) (key : String) (fresh : α) (change : α → α) : OrderedMap α :=
  m.insert key (change ((m.get? key).getD fresh))

/-- Writes the pairs one after the other into the empty map. -/
def ofList (pairs : List (String × α)) : OrderedMap α :=
  pairs.foldl (fun m pair => m.insert pair.1 pair.2) empty

/-- Changes every value and keeps the names. -/
def mapValues (change : α → β) (m : OrderedMap α) : OrderedMap β :=
  ⟨m.entries.map fun pair => (pair.1, change pair.2), by
    have same : ((m.entries.map fun pair => (pair.1, change pair.2)).map Prod.fst) =
        m.entries.map Prod.fst := by simp
    exact same ▸ m.distinct⟩

/-- Two maps agree when they have the same names with the same values, in whatever order. -/
def agrees [BEq α] (m n : OrderedMap α) : Bool :=
  m.size == n.size && m.entries.all fun pair => n.get? pair.1 == some pair.2

instance [BEq α] : BEq (OrderedMap α) := ⟨agrees⟩

@[simp] theorem get?_empty (name : String) : (empty : OrderedMap α).get? name = none := rfl

theorem get?_insert (m : OrderedMap α) (key name : String) (value : α) :
    (m.insert key value).get? name = if key = name then some value else m.get? name :=
  lookupPair_placePair key name value m.entries

theorem get?_adjust (m : OrderedMap α) (key name : String) (change : α → α) :
    (m.adjust key change).get? name =
      if key = name then (m.get? key).map change else m.get? name := by
  unfold adjust
  cases found : m.get? key with
  | none => by_cases isName : key = name <;> simp_all
  | some value => simp [get?_insert]

theorem get?_upsert (m : OrderedMap α) (key name : String) (fresh : α) (change : α → α) :
    (m.upsert key fresh change).get? name =
      if key = name then some (change ((m.get? key).getD fresh)) else m.get? name :=
  get?_insert ..

end OrderedMap

/-! ## Sets -/

/-- Distinct names in the order in which they first arrived. -/
structure NameSet where
  /-- The names in order of arrival. -/
  names : List String
  /-- No name stands twice. -/
  distinct : names.Nodup

namespace NameSet

/-- The set without a name. -/
def empty : NameSet := ⟨[], List.nodup_nil⟩

instance : Inhabited NameSet := ⟨empty⟩

instance : EmptyCollection NameSet := ⟨empty⟩

/-- Whether a name is in the set. -/
def contains (s : NameSet) (name : String) : Bool := s.names.contains name

/-- How many names are in the set. -/
def size (s : NameSet) : Nat := s.names.length

/-- Whether no name is in the set. -/
def isEmpty (s : NameSet) : Bool := s.names.isEmpty

/-- Adds a name behind the others, unless it is there already. -/
def insert (s : NameSet) (name : String) : NameSet :=
  if isThere : name ∈ s.names then s
  else ⟨s.names ++ [name], by
    rw [List.nodup_append]
    exact ⟨s.distinct, by simp, by
      intro other isMember new isNew same
      rw [List.mem_singleton] at isNew
      exact isThere (isNew ▸ same ▸ isMember)⟩⟩

/-- Adds the names one after the other to the empty set. -/
def ofList (names : List String) : NameSet := names.foldl insert empty

/-- Two sets agree when they hold the same names, in whatever order. -/
def agrees (s t : NameSet) : Bool := s.size == t.size && s.names.all t.contains

instance : BEq NameSet := ⟨agrees⟩

theorem mem_insert (s : NameSet) (name other : String) :
    other ∈ (s.insert name).names ↔ other = name ∨ other ∈ s.names := by
  unfold insert
  split <;> simp <;> grind

end NameSet

end Bindery
