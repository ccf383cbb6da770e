/-
**Steps that write to slots of their own.**

A step looks at one slot of a table and writes there, or fails. Steps at distinct slots do not see
each other, so a list of them leaves in each slot what its own step makes of what was there before,
and it fails where one of them would have failed at the start.

* `Table.Writes` — an element is written to a slot, whose header and scope are created if need be.
* `foldlM_written` — what a list of steps at distinct slots leaves.
* `matches_foldlM` — two such lists with the same slots, in any two orders, on tables that are
  alike.
-/

import Bindery.Failure
import Bindery.Proofs.Symbols.Alike
import Bindery.Proofs.TwoRuns

namespace Bindery.Symbols

namespace Table

variable {table made : Table} {slot : Slot} {element : Element}

/-! ### One step -/

/-- An element is written to a slot. -/
structure Writes (slot : Slot) (element : Element) (table made : Table) : Prop where
  find? : ∀ other, made.find? other = if slot = other then some element else table.find? other
  enabled? : ∀ header, made.enabled? header =
    if slot.header = header then some ((table.enabled? header).getD true)
    else table.enabled? header
  hasScope : ∀ header key, made.hasScope header key = true ↔
    (slot.header = header ∧ slot.key = key) ∨ table.hasScope header key = true

/-- What is written twice is what is written last. -/
theorem Writes.trans {middle : Table} {other : Element}
    (first : table.Writes slot other middle) (second : middle.Writes slot element made) :
    table.Writes slot element made where
  find? := by
    intro slot'
    rw [second.find?, first.find?]
    split <;> rfl
  enabled? := by
    intro header
    rw [second.enabled?, first.enabled?]
    split <;> rfl
  hasScope := by
    intro header key
    rw [second.hasScope, first.hasScope, ← or_assoc, or_self]

/-- An addition writes to the slot of its element. -/
theorem writes_add (table : Table) (header spelling : String) (element : Element) :
    table.Writes (element.slotIn header spelling)
      (element.placed ⟨header, canonicalScope spelling⟩) (table.add header spelling element) where
  find? := table.find?_add header spelling element
  enabled? := table.enabled?_add header spelling element
  hasScope := by
    intro holder key
    have ofScope := table.scopeAt?_add header spelling element holder key
    rw [hasScope, show (table.add header spelling element).scopeAt? holder key = _ from ofScope]
    simp only [Element.slotIn]
    split
    next isScope => exact iff_of_true rfl (.inl isScope)
    next notScope => exact (or_iff_right notScope).symm

/-- An element in a slot stands in a scope of a header. -/
theorem there_of_find? (found : table.find? slot = some element) :
    (∃ enabled, table.enabled? slot.header = some enabled) ∧
      table.hasScope slot.header slot.key = true := by
  obtain ⟨scope, isScope, _⟩ := Option.bind_eq_some_iff.mp found
  obtain ⟨holder, isHolder, _⟩ := Option.bind_eq_some_iff.mp isScope
  exact ⟨⟨holder.enabled, by rw [enabled?, isHolder, Option.map_some]⟩,
    by rw [hasScope, isScope, Option.isSome_some]⟩

/-- A class that is written is found. -/
theorem Writes.class? {header spelling name : String} {self : Class}
    (writes : table.Writes ⟨header, canonicalScope spelling, .classDefinition, name⟩
      (.classDefinition self) made) : made.class? header spelling name = some self := by
  have found := writes.find? ⟨header, canonicalScope spelling, .classDefinition, name⟩
  rw [if_pos rfl, find?_class] at found
  obtain ⟨_, isClass, same⟩ := Option.map_eq_some_iff.mp found
  rw [isClass, Element.classDefinition.inj same]

/-- A class that is there is changed in its slot. -/
theorem writes_modifyClass {header spelling name : String} {self : Class}
    (isClass : table.class? header spelling name = some self) (change : Class → Class) :
    table.Writes ⟨header, canonicalScope spelling, .classDefinition, name⟩
      (.classDefinition (change self)) (table.modifyClass header spelling name change) := by
  have found : table.find? ⟨header, canonicalScope spelling, .classDefinition, name⟩ =
      some (.classDefinition self) := by
    rw [find?_class, isClass, Option.map_some]
  obtain ⟨⟨enabled, isEnabled⟩, isScope⟩ := there_of_find? found
  refine ⟨fun slot => ?_, fun holder => ?_, fun holder key => ?_⟩
  · rw [find?_modifyClass]
    split
    next isSlot =>
      subst isSlot
      rw [found]
      rfl
    next => rfl
  · rw [enabled?_modifyClass]
    split
    next isHeader =>
      subst isHeader
      rw [isEnabled]
      rfl
    next => rfl
  · have sameScopes : (table.modifyClass header spelling name change).hasScope holder key =
        table.hasScope holder key := by
      rw [hasScope, scopeAt?_modifyClass]
      split
      next => rw [Option.isSome_map, hasScope]
      next => rfl
    rw [sameScopes]
    refine ⟨.inr, ?_⟩
    rintro (⟨rfl, rfl⟩ | isThere)
    · exact isScope
    · exact isThere

end Table

/-! ### Lists of steps -/

variable {α β : Type}

/-- A step writes to a slot, or fails, as what is in the slot tells it. -/
def StepsAt (slot : Slot) (update : Option Element → Option Element)
    (step : Table → Except Failure Table) : Prop :=
  ∀ table, match update (table.find? slot) with
    | some element => ∃ made, step table = .ok made ∧ table.Writes slot element made
    | none => ∃ failure, step table = .error failure

/-- A table in which each slot of some items has been updated from what was there before. -/
structure Written (slot : α → Slot) (update : α → Option Element → Option Element)
    (items : List α) (table made : Table) : Prop where
  element : ∀ item ∈ items, made.find? (slot item) = update item (table.find? (slot item))
  elsewhere : ∀ other, (∀ item ∈ items, slot item ≠ other) → made.find? other = table.find? other
  switch : ∀ item ∈ items, made.enabled? (slot item).header =
    some ((table.enabled? (slot item).header).getD true)
  otherSwitch : ∀ header, (∀ item ∈ items, (slot item).header ≠ header) →
    made.enabled? header = table.enabled? header
  hasScope : ∀ header key, made.hasScope header key = true ↔
    (∃ item ∈ items, (slot item).header = header ∧ (slot item).key = key) ∨
      table.hasScope header key = true

section Fold

variable {slot : α → Slot} {update : α → Option Element → Option Element}

theorem Written.nil (table : Table) : Written slot update [] table table :=
  ⟨by simp, fun _ _ => rfl, by simp, fun _ _ => rfl, by simp⟩

/-- A first write goes unseen by the steps at other slots. -/
theorem Written.cons {item : α} {rest : List α} {table middle made : Table} {element : Element}
    (apart : ∀ other ∈ rest, slot item ≠ slot other)
    (isUpdate : update item (table.find? (slot item)) = some element)
    (writes : table.Writes (slot item) element middle)
    (written : Written slot update rest middle made) :
    Written slot update (item :: rest) table made where
  element := by
    refine List.forall_mem_cons.mpr ⟨?_, fun other isOther => ?_⟩
    · rw [written.elsewhere _ fun other isOther same => apart other isOther same.symm,
        writes.find?, if_pos rfl, isUpdate]
    · rw [written.element other isOther, writes.find?, if_neg (apart other isOther)]
  elsewhere := by
    intro other notWritten
    rw [List.forall_mem_cons] at notWritten
    rw [written.elsewhere other notWritten.2, writes.find?, if_neg notWritten.1]
  switch := by
    refine List.forall_mem_cons.mpr ⟨?_, fun other isOther => ?_⟩
    · by_cases again : ∃ other ∈ rest, (slot other).header = (slot item).header
      · obtain ⟨other, isOther, sameHeader⟩ := again
        have isOn := written.switch other isOther
        rw [sameHeader, writes.enabled?, if_pos rfl] at isOn
        exact isOn
      · rw [written.otherSwitch _ fun other isOther same => again ⟨other, isOther, same⟩,
          writes.enabled?, if_pos rfl]
    · rw [written.switch other isOther, writes.enabled?]
      split <;> rfl
  otherSwitch := by
    intro header notWritten
    rw [List.forall_mem_cons] at notWritten
    rw [written.otherSwitch header notWritten.2, writes.enabled?, if_neg notWritten.1]
  hasScope := by
    intro header key
    rw [written.hasScope, writes.hasScope, List.exists_mem_cons_iff, or_left_comm, or_assoc]

/-- Steps at distinct slots leave in each slot what its own step makes of what was there before.
They fail where one of them would fail at the start. -/
theorem foldlM_written {step : Table → α → Except Failure Table} {items : List α}
    (distinct : items.Pairwise fun first second => slot first ≠ slot second)
    (each : ∀ item ∈ items, StepsAt (slot item) (update item) (step · item)) (table : Table) :
    match items.foldlM step table with
    | .ok made => Written slot update items table made ∧
        ∀ item ∈ items, update item (table.find? (slot item)) ≠ none
    | .error _ => ∃ item ∈ items, update item (table.find? (slot item)) = none := by
  induction items generalizing table with
  | nil => exact ⟨.nil table, by simp⟩
  | cons item rest ih =>
    rw [List.pairwise_cons] at distinct
    rw [List.forall_mem_cons] at each
    have steps := each.1 table
    rw [List.foldlM_cons]
    cases isUpdate : update item (table.find? (slot item)) with
    | none =>
      rw [isUpdate] at steps
      obtain ⟨failure, fails⟩ := steps
      dsimp only at fails
      rw [fails]
      exact ⟨item, List.mem_cons_self, isUpdate⟩
    | some element =>
      rw [isUpdate] at steps
      obtain ⟨middle, succeeds, writes⟩ := steps
      have unseen : ∀ other ∈ rest, middle.find? (slot other) = table.find? (slot other) := by
        intro other isOther
        rw [writes.find?, if_neg (distinct.1 other isOther)]
      have onRest := ih distinct.2 each.2 middle
      dsimp only at succeeds
      rw [succeeds]
      show match rest.foldlM step middle with | .ok _ => _ | .error _ => _
      cases isResult : rest.foldlM step middle with
      | error failure =>
        rw [isResult] at onRest
        obtain ⟨other, isOther, fails⟩ := onRest
        exact ⟨other, List.mem_cons_of_mem _ isOther, unseen other isOther ▸ fails⟩
      | ok made =>
        rw [isResult] at onRest
        obtain ⟨written, succeed⟩ := onRest
        refine ⟨written.cons distinct.1 isUpdate writes, ?_⟩
        refine List.forall_mem_cons.mpr ⟨by rw [isUpdate]; exact nofun, fun other isOther => ?_⟩
        exact unseen other isOther ▸ succeed other isOther

end Fold

/-! ### Lists of steps in another order -/

section Order

variable {slot : α → Slot} {update : α → Option Element → Option Element}
  {otherSlot : β → Slot} {otherUpdate : β → Option Element → Option Element}

/-- Two updates at one slot make alike elements from alike elements, or neither makes one. -/
def UpdatesAlike (slot : Slot) (update : Option Element → Option Element) (otherSlot : Slot)
    (otherUpdate : Option Element → Option Element) : Prop :=
  slot = otherSlot ∧ ∀ found otherFound, Option.Rel Element.Alike found otherFound →
    Option.Rel Element.Alike (update found) (otherUpdate otherFound)

variable {items : List α} {others : List β} {table otherTable : Table}
  (forth : ∀ item ∈ items, ∃ other ∈ others,
    UpdatesAlike (slot item) (update item) (otherSlot other) (otherUpdate other))
  (back : ∀ other ∈ others, ∃ item ∈ items,
    UpdatesAlike (slot item) (update item) (otherSlot other) (otherUpdate other))
  (alike : table.Alike otherTable)

include forth back alike

/-- Tables that are alike stay so when the same slots are updated, in whatever order. -/
theorem alike_of_written {made otherMade : Table} (written : Written slot update items table made)
    (otherWritten : Written otherSlot otherUpdate others otherTable otherMade) :
    made.Alike otherMade where
  enabled := by
    intro header
    by_cases isWritten : ∃ item ∈ items, (slot item).header = header
    · obtain ⟨item, isItem, rfl⟩ := isWritten
      obtain ⟨other, isOther, sameSlot, _⟩ := forth item isItem
      rw [written.switch item isItem, sameSlot, otherWritten.switch other isOther, alike.enabled]
    · have notOther : ∀ other ∈ others, (otherSlot other).header ≠ header := by
        intro other isOther isHeader
        obtain ⟨item, isItem, sameSlot, _⟩ := back other isOther
        exact isWritten ⟨item, isItem, sameSlot ▸ isHeader⟩
      rw [written.otherSwitch header fun item isItem isHeader => isWritten ⟨item, isItem, isHeader⟩,
        otherWritten.otherSwitch header notOther, alike.enabled]
  scopes := by
    intro header key
    rw [Bool.eq_iff_iff, written.hasScope, otherWritten.hasScope, alike.scopes]
    refine or_congr_left ⟨?_, ?_⟩
    · rintro ⟨item, isItem, isScope⟩
      obtain ⟨other, isOther, sameSlot, _⟩ := forth item isItem
      exact ⟨other, isOther, sameSlot ▸ isScope⟩
    · rintro ⟨other, isOther, isScope⟩
      obtain ⟨item, isItem, sameSlot, _⟩ := back other isOther
      exact ⟨item, isItem, sameSlot ▸ isScope⟩
  elements := by
    intro place
    by_cases isWritten : ∃ item ∈ items, slot item = place
    · obtain ⟨item, isItem, rfl⟩ := isWritten
      obtain ⟨other, isOther, sameSlot, updateAlike⟩ := forth item isItem
      rw [written.element item isItem, sameSlot, otherWritten.element other isOther]
      exact updateAlike _ _ (alike.elements _)
    · have notOther : ∀ other ∈ others, otherSlot other ≠ place := by
        intro other isOther isPlace
        obtain ⟨item, isItem, sameSlot, _⟩ := back other isOther
        exact isWritten ⟨item, isItem, sameSlot ▸ isPlace⟩
      rw [written.elsewhere place fun item isItem isPlace => isWritten ⟨item, isItem, isPlace⟩,
        otherWritten.elsewhere place notOther]
      exact alike.elements place

/-- Steps at distinct slots may be taken in any order: both lists of them leave tables that are
alike, or both fail. -/
theorem matches_foldlM {step : Table → α → Except Failure Table}
    {otherStep : Table → β → Except Failure Table}
    (distinct : items.Pairwise fun first second => slot first ≠ slot second)
    (otherDistinct : others.Pairwise fun first second => otherSlot first ≠ otherSlot second)
    (each : ∀ item ∈ items, StepsAt (slot item) (update item) (step · item))
    (otherEach : ∀ other ∈ others, StepsAt (otherSlot other) (otherUpdate other)
      (otherStep · other)) :
    Matches Table.Alike (items.foldlM step table) (others.foldlM otherStep otherTable) := by
  have onItems := foldlM_written distinct each table
  have onOthers := foldlM_written otherDistinct otherEach otherTable
  have bothFail : ∀ item other,
      UpdatesAlike (slot item) (update item) (otherSlot other) (otherUpdate other) →
      (update item (table.find? (slot item)) = none ↔
        otherUpdate other (otherTable.find? (otherSlot other)) = none) := by
    rintro item other ⟨sameSlot, updateAlike⟩
    rw [sameSlot]
    exact eq_none_iff_of_optionRel (updateAlike _ _ (alike.elements _))
  cases isResult : items.foldlM step table with
  | error failure =>
    rw [isResult] at onItems
    obtain ⟨item, isItem, fails⟩ := onItems
    obtain ⟨other, isOther, updatesAlike⟩ := forth item isItem
    cases isOtherResult : others.foldlM otherStep otherTable with
    | error otherFailure => exact .error failure otherFailure
    | ok otherMade =>
      rw [isOtherResult] at onOthers
      exact absurd ((bothFail item other updatesAlike).mp fails) (onOthers.2 other isOther)
  | ok made =>
    rw [isResult] at onItems
    cases isOtherResult : others.foldlM otherStep otherTable with
    | error otherFailure =>
      rw [isOtherResult] at onOthers
      obtain ⟨other, isOther, fails⟩ := onOthers
      obtain ⟨item, isItem, updatesAlike⟩ := back other isOther
      exact absurd ((bothFail item other updatesAlike).mpr fails) (onItems.2 item isItem)
    | ok otherMade =>
      rw [isOtherResult] at onOthers
      exact .ok (alike_of_written forth back alike onItems.1 onOthers.1)

end Order

end Bindery.Symbols
