/-
**Documents of a data cache as nested maps.**

A document keeps what the scopes of a table contribute by header, scope and name, and leaves out
scopes that contribute nothing. It is written from a nested map whose items stand in table order,
and it is read as the same map with each item read.

* `collected` — the nested map of what the scopes of a table contribute.
* `toList_collected` — its items are the contributions, scope by scope.
* `Nested.ofJson?_toJson` — a document is read item by item.
-/

import Bindery.Cache.Document
import Bindery.Proofs.Json.Records
import Bindery.Proofs.Symbols.Replay

namespace Bindery.Cache

open Json Symbols

variable {α β : Type}

/-! ### Items -/

namespace Nested

/-- The nested map with every item changed. -/
def mapItems (change : α → β) (nested : Nested α) : Nested β :=
  nested.mapValues (·.mapValues (·.mapValues change))

theorem mem_toList {nested : Nested α} {header scope name : String} {value : α}
    {scopes : OrderedMap (OrderedMap α)} {items : OrderedMap α}
    (isHeader : nested.get? header = some scopes) (isScope : scopes.get? scope = some items)
    (isItem : items.get? name = some value) : (header, scope, name, value) ∈ nested.toList := by
  rw [OrderedMap.get?_eq_some_iff] at isHeader isScope isItem
  simp only [toList, List.mem_flatMap, List.mem_map]
  exact ⟨_, isHeader, _, isScope, _, isItem, rfl⟩

theorem exists_of_mem_toList {nested : Nested α} {header scope name : String} {value : α}
    (isListed : (header, scope, name, value) ∈ nested.toList) :
    ∃ scopes items, nested.get? header = some scopes ∧ scopes.get? scope = some items ∧
      items.get? name = some value := by
  simp only [toList, List.mem_flatMap, List.mem_map] at isListed
  obtain ⟨⟨_, scopes⟩, isHeader, ⟨_, items⟩, isScope, ⟨_, _⟩, isItem, isTuple⟩ := isListed
  simp only [Prod.mk.injEq] at isTuple
  obtain ⟨rfl, rfl, rfl, rfl⟩ := isTuple
  refine ⟨scopes, items, ?_⟩
  rw [OrderedMap.get?_eq_some_iff, OrderedMap.get?_eq_some_iff, OrderedMap.get?_eq_some_iff]
  exact ⟨isHeader, isScope, isItem⟩

/-- No two items stand under the same keys. -/
theorem pairwise_toList (nested : Nested α) :
    nested.toList.Pairwise fun (header, scope, name, _) (otherHeader, otherScope, otherName, _) =>
      ¬ (header = otherHeader ∧ scope = otherScope ∧ name = otherName) := by
  have distinctKeys : ∀ {γ : Type} (m : OrderedMap γ),
      m.entries.Pairwise fun first second => first.1 ≠ second.1 :=
    fun m => List.pairwise_map.mp m.distinct
  refine List.pairwise_flatMap.mpr ⟨fun (header, scopes) _ => ?_, ?_⟩
  · refine List.pairwise_flatMap.mpr ⟨fun (scope, items) _ => ?_, ?_⟩
    · refine List.pairwise_map.mpr ((distinctKeys items).imp fun notName same => ?_)
      exact notName same.2.2
    · refine (distinctKeys scopes).imp fun notScope visited isVisited other isOther same => ?_
      obtain ⟨item, _, rfl⟩ := List.mem_map.mp isVisited
      obtain ⟨otherItem, _, rfl⟩ := List.mem_map.mp isOther
      exact notScope same.2.1
  · refine (distinctKeys nested).imp fun notHeader visited isVisited other isOther same => ?_
    simp only [List.mem_flatMap, List.mem_map] at isVisited isOther
    obtain ⟨scope, _, item, _, rfl⟩ := isVisited
    obtain ⟨otherScope, _, otherItem, _, rfl⟩ := isOther
    exact notHeader same.1

theorem toList_mapItems (change : α → β) (nested : Nested α) :
    (nested.mapItems change).toList =
      nested.toList.map fun (header, scope, name, value) =>
        (header, scope, name, change value) := by
  simp only [toList, mapItems, OrderedMap.mapValues, List.flatMap_map, List.map_flatMap,
    List.map_map]
  rfl

/-- A document is written in the form of the map. -/
theorem toJson_mapItems (write : α → Json) (nested : Nested α) :
    (nested.mapItems write).toJson =
      Json.record (nested.mapValues fun scopes => Json.record (scopes.mapValues fun items =>
        Json.record (items.mapValues write).entries).entries).entries := by
  have asMaps : ∀ nested : Nested Json, nested.toJson =
      Json.record (nested.mapValues fun scopes => Json.record (scopes.mapValues fun items =>
        Json.record items.entries).entries).entries := fun _ => rfl
  simp only [asMaps, mapItems, OrderedMap.mapValues_mapValues, Function.comp_def]

/-- A document of written items is read as the items that they are read as. -/
theorem ofJson?_toJson {read : String → Json → Option β} {write : α → Json} {result : α → β}
    {nested : Nested α}
    (each : ∀ header scope name value, (header, scope, name, value) ∈ nested.toList →
      read name (write value) = some (result value)) :
    ofJson? read (nested.mapItems write).toJson = some (nested.mapItems result) := by
  rw [toJson_mapItems]
  refine map?_record fun header scopes isHeader => ?_
  refine map?_record fun scope items isScope => ?_
  refine map?_record fun name value isItem => ?_
  exact each header scope name value (mem_toList isHeader isScope isItem)

/-- Each item of a document was read. -/
theorem read_of_ofJson? {read : String → Json → Option α} {json : Json} {nested : Nested α}
    (isFound : ofJson? read json = some nested) :
    ∀ visited ∈ nested.toList, ∃ item, read visited.2.2.1 item = some visited.2.2.2 := by
  rintro ⟨header, scope, name, value⟩ isVisited
  obtain ⟨scopes, items, isHeader, isScope, isItem⟩ := exists_of_mem_toList isVisited
  obtain ⟨_, areScopes⟩ := read_of_map? isFound header scopes isHeader
  obtain ⟨_, areItems⟩ := read_of_map? areScopes scope items isScope
  exact read_of_map? areItems name value isItem

theorem shallow_toJson {bound : Nat} {write : α → Json} {nested : Nested α}
    (each : ∀ header scope name value, (header, scope, name, value) ∈ nested.toList →
      IsShallow bound (write value)) :
    IsShallow (bound + 3) (nested.mapItems write).toJson := by
  rw [toJson_mapItems]
  have ofEntries : ∀ {γ : Type} {bound : Nat} {m : OrderedMap γ} {write : γ → Json},
      (∀ key value, m.get? key = some value → IsShallow bound (write value)) →
      IsShallow (bound + 1) (Json.record (m.mapValues write).entries) := by
    intro γ bound m write shallow
    refine .record fun member isMember => ?_
    obtain ⟨pair, isPair, rfl⟩ := List.mem_map.mp isMember
    exact shallow pair.1 pair.2 ((m.get?_eq_some_iff ..).mpr isPair)
  refine ofEntries fun header scopes isHeader => ?_
  refine ofEntries fun scope items isScope => ?_
  refine ofEntries fun name value isItem => ?_
  exact each header scope name value (mem_toList isHeader isScope isItem)

/-- Items may be changed before or behind they are put under a header and a scope. -/
theorem mapItems_put (change : α → β) (nested : Nested α) (header scope : String)
    (pairs : List (String × α)) :
    (nested.put header scope pairs).mapItems change =
      (nested.mapItems change).put header scope (pairs.map fun (name, value) =>
        (name, change value)) := by
  have ofPairs : ∀ (pairs : List (String × α)) (items : OrderedMap α),
      (pairs.foldl (fun items pair => items.insert pair.1 pair.2) items).mapValues change =
        (pairs.map fun (name, value) => (name, change value)).foldl
          (fun items pair => items.insert pair.1 pair.2) (items.mapValues change) := by
    intro pairs
    induction pairs with
    | nil => exact fun _ => rfl
    | cons pair rest ih =>
      intro items
      rw [List.foldl_cons, ih, OrderedMap.mapValues_insert]
      rfl
  unfold put mapItems
  rw [List.isEmpty_map]
  split
  next => rfl
  next =>
    refine OrderedMap.mapValues_upsert _ _ _ fun scopes => ?_
    exact OrderedMap.mapValues_upsert _ _ _ fun items => ofPairs pairs items

end Nested

/-! ### What scopes contribute -/

/-- The nested map of what each scope of a table contributes. -/
def collected (table : Table) (items : Scope → List (String × α)) : Nested α :=
  table.scopes.foldl (fun nested (header, scope) => nested.put header.name scope.name (items scope))
    .empty

/-- A document is the nested map of its items, written. -/
theorem collect_eq (table : Table) (items : Scope → List (String × α)) (write : α → Json) :
    collect table (fun scope => (items scope).map fun (name, value) => (name, write value)) =
      ((collected table items).mapItems write).toJson := by
  refine congrArg Nested.toJson ?_
  rw [collected]
  show table.scopes.foldl _ (Nested.mapItems write .empty) = _
  refine List.foldl_hom (Nested.mapItems write) fun nested entry => ?_
  exact (Nested.mapItems_put write nested entry.1.name entry.2.name (items entry.2)).symm

/-- The changes that put the contributions of the scopes of a header into a map of scopes. -/
def scopeSteps (items : Scope → List (String × α)) (header : Header) :
    List (OrderedMap (OrderedMap α) → OrderedMap (OrderedMap α)) :=
  header.scopes.values.flatMap fun scope =>
    if (items scope).isEmpty then []
    else [fun scopes => scopes.upsert scope.name .empty fun made =>
      (items scope).foldl (fun made pair => made.insert pair.1 pair.2) made]

theorem collected_eq_perform (table : Table) (items : Scope → List (String × α)) :
    collected table items = OrderedMap.empty.perform (fun _ => .empty)
      (table.headerList.flatMap fun header =>
        (scopeSteps items header).map (header.name, ·)) := by
  rw [collected, Table.scopes, List.foldl_flatMap, OrderedMap.perform, List.foldl_flatMap]
  refine List.foldl_ext _ _ _ fun nested header _ => ?_
  rw [List.foldl_map, List.foldl_map, scopeSteps, List.foldl_flatMap]
  refine List.foldl_ext _ _ _ fun nested scope _ => ?_
  by_cases isNone : (items scope).isEmpty = true <;> simp only [Nested.put, isNone] <;> rfl

/-- The scopes of a header that contribute something, with what they contribute. -/
theorem entries_changed_scopeSteps {header : Header} (sound : header.IsSound)
    (items : Scope → List (String × α)) :
    (OrderedMap.changed (scopeSteps items header) .empty).entries =
      header.scopes.values.flatMap fun scope =>
        if (items scope).isEmpty then [] else [(scope.name, OrderedMap.ofList (items scope))] := by
  have asGroups : OrderedMap.changed (scopeSteps items header) .empty =
      OrderedMap.empty.perform (fun _ => .empty) (header.scopes.values.flatMap fun scope =>
        (if (items scope).isEmpty then []
          else [fun made => (items scope).foldl (fun made pair => made.insert pair.1 pair.2)
            made]).map (scope.name, ·)) := by
    rw [OrderedMap.changed, scopeSteps, OrderedMap.perform, List.foldl_flatMap, List.foldl_flatMap]
    refine List.foldl_ext _ _ _ fun scopes scope _ => ?_
    split <;> rfl
  rw [asGroups, OrderedMap.entries_perform_groups _ sound.names_nodup (by simp [OrderedMap.keys,
    OrderedMap.empty])]
  refine (List.nil_append _).trans (List.flatMap_congr fun scope _ => ?_)
  split <;> rfl

/-- The items of the nested map of a table are what its scopes contribute, in table order. -/
theorem toList_collected {table : Table} (sound : table.IsSound)
    {items : Scope → List (String × α)}
    (distinct : ∀ scope : Scope, ((items scope).map Prod.fst).Nodup) :
    (collected table items).toList = table.scopes.flatMap fun (header, scope) =>
      (items scope).map fun (name, value) => (header.name, scope.name, name, value) := by
  rw [Nested.toList, collected_eq_perform,
    OrderedMap.entries_perform_groups _ sound.names_nodup (by simp [OrderedMap.keys,
      OrderedMap.empty])]
  show List.flatMap _ ([] ++ _) = _
  rw [List.nil_append, List.flatMap_assoc, Table.scopes, List.flatMap_assoc]
  refine List.flatMap_congr fun header isHeader => ?_
  have ofScopes := entries_changed_scopeSteps (sound.header isHeader) items
  have withoutTest : ∀ {β : Type} (listed : String × OrderedMap (OrderedMap α) → List β),
      listed (header.name, .empty) = [] →
        (if (scopeSteps items header).isEmpty then []
          else [(header.name, OrderedMap.changed (scopeSteps items header) .empty)]).flatMap
            listed = listed (header.name, OrderedMap.changed (scopeSteps items header) .empty) := by
    intro β listed ofEmpty
    split
    next isNone =>
      rw [List.isEmpty_iff.mp isNone]
      exact ofEmpty.symm
    next => exact List.flatMap_singleton ..
  rw [withoutTest _ rfl]
  dsimp only
  rw [ofScopes, List.flatMap_assoc, List.flatMap_map]
  refine List.flatMap_congr fun scope _ => ?_
  split
  next isNone => simp only [List.isEmpty_iff.mp isNone, List.flatMap_nil, List.map_nil]
  next =>
    rw [List.flatMap_singleton]
    simp only [OrderedMap.entries_ofList (distinct scope)]

end Bindery.Cache
