/-
**What the operations on tables do to look-ups.**

An element stands in a slot: a header, the key of a scope there, the kind of the element and its
name. Every operation is described by what it does to the slots and to the switches of headers; how
headers hold scopes and scopes hold six maps is not seen from here on.

* `Table.find?` — the element in a slot, with what it knows of its place.
* `Table.find?_add`, `Table.find?_modifyClass` — the one slot that an operation writes to.
* `Table.enabled?_add`, `Table.enabled?_modifyClass` — a header is on unless it is switched off.
-/

import Bindery.Proofs.Symbols.Log
import Bindery.Proofs.Symbols.Spelling

namespace Bindery.Symbols

/-! ### Scopes under their keys -/

namespace Table

/-- The scope that stands under a key in a header. -/
def scopeAt? (table : Table) (header key : String) : Option Scope :=
  (table.header? header).bind (·.scopes.get? key)

/-- An element goes into the scope under the name that is read twice. -/
theorem scopeAt?_add (table : Table) (holder spelling : String) (element : Element)
    (header key : String) :
    (table.apply (.add holder spelling element)).scopeAt? header key =
      if holder = header ∧ canonicalScope (canonicalScope spelling) = key then
        let fresh := Scope.named (canonicalScope (canonicalScope spelling))
        let place : Place := ⟨holder, canonicalScope spelling⟩
        some (((table.scopeAt? header key).getD fresh).take place element)
      else table.scopeAt? header key := by
  rw [apply, add_eq_modifyScope, scopeAt?, header?]
  show ((OrderedMap.upsert ..).get? header).bind _ = _
  rw [OrderedMap.get?_upsert]
  by_cases isHeader : holder = header
  · subst isHeader
    rw [if_pos rfl, Option.bind_some, Header.modifyScope, OrderedMap.get?_upsert]
    by_cases isKey : canonicalScope (canonicalScope spelling) = key
    · subst isKey
      rw [if_pos rfl, if_pos ⟨rfl, rfl⟩, scopeAt?, header?]
      cases table.headers.get? holder <;> rfl
    · rw [if_neg isKey, if_neg fun both => isKey both.2, scopeAt?, header?]
      cases table.headers.get? holder <;> rfl
  · rw [if_neg isHeader, if_neg fun both => isHeader both.1]
    rfl

theorem scopeAt?_setEnabled (table : Table) (name : String) (enabled : Bool) (header key : String) :
    (table.setEnabled name enabled).scopeAt? header key = table.scopeAt? header key := by
  rw [scopeAt?, header?]
  show ((OrderedMap.upsert ..).get? header).bind _ = _
  rw [OrderedMap.get?_upsert]
  by_cases isHeader : name = header
  · subst isHeader
    rw [if_pos rfl, scopeAt?, header?]
    cases table.headers.get? name <;> rfl
  · rw [if_neg isHeader]
    rfl

theorem scopeAt?_modifyClass (table : Table) (holder spelling name : String)
    (change : Class → Class) (header key : String) :
    (table.modifyClass holder spelling name change).scopeAt? header key =
      if holder = header ∧ canonicalScope spelling = key then
        (table.scopeAt? header key).map fun scope =>
          { scope with classes := scope.classes.adjust name change }
      else table.scopeAt? header key := by
  rw [scopeAt?, header?]
  show ((OrderedMap.adjust ..).get? header).bind _ = _
  rw [OrderedMap.get?_adjust]
  by_cases isHeader : holder = header
  · subst isHeader
    rw [if_pos rfl, Option.bind_map]
    by_cases isKey : canonicalScope spelling = key
    · subst isKey
      rw [if_pos ⟨rfl, rfl⟩, scopeAt?, Option.map_bind]
      refine congrArg _ (funext fun found => ?_)
      exact (OrderedMap.get?_adjust ..).trans (if_pos rfl)
    · rw [if_neg fun both => isKey both.2]
      refine congrArg _ (funext fun found => ?_)
      exact (OrderedMap.get?_adjust ..).trans (if_neg isKey)
  · rw [if_neg isHeader, if_neg fun both => isHeader both.1]
    rfl

end Table

/-! ### Elements in slots -/

/-- Where an element stands in a table. -/
structure Slot where
  header : String
  key : String
  kind : ElementKind
  name : String
deriving DecidableEq

namespace Element

/-- The element as a scope keeps it, with the place of the scope. -/
def placed (place : Place) : Element → Element
  | .constant c => .constant { c with place := some place }
  | .enumeration e => .enumeration { e with holder := .scope place }
  | .typeAlias a => .typeAlias { a with place := some place }
  | .globalVariable v => .globalVariable { v with place := some place }
  | .function f => .function { f with place := some place, className := none }
  | .classDefinition c => .classDefinition (c.attach place)

/-- The slot that an element fills when it is put into a scope. -/
def slotIn (header spelling : String) (element : Element) : Slot :=
  ⟨header, canonicalScope (canonicalScope spelling), element.kind, element.name⟩

/-- The element with a change to the class that it defines. -/
def mapClass (change : Class → Class) : Element → Element
  | .classDefinition c => .classDefinition (change c)
  | other => other

end Element

/-- The element of a kind and a name in a scope. -/
def Scope.find? (scope : Scope) (kind : ElementKind) (name : String) : Option Element :=
  match kind with
  | .constant => (scope.constants.get? name).map .constant
  | .enumeration => (scope.enumerations.get? name).map .enumeration
  | .typeAlias => (scope.aliases.get? name).map .typeAlias
  | .globalVariable => (scope.globals.get? name).map .globalVariable
  | .function => (scope.functions.get? name).map .function
  | .classDefinition => (scope.classes.get? name).map .classDefinition

namespace Scope

theorem find?_named (scope : String) (kind : ElementKind) (name : String) :
    (Scope.named scope).find? kind name = none := by
  cases kind <;> rfl

/-- Taking an element in writes it under its name among those of its kind. -/
theorem find?_take (scope : Scope) (place : Place) (element : Element) (kind : ElementKind)
    (name : String) :
    (scope.take place element).find? kind name =
      if element.kind = kind ∧ element.name = name then some (element.placed place)
      else scope.find? kind name := by
  by_cases isKind : element.kind = kind
  · subst isKind
    by_cases isName : element.name = name
    · subst isName
      rw [if_pos ⟨rfl, rfl⟩]
      cases element <;>
        exact congrArg (Option.map _) ((OrderedMap.get?_insert ..).trans (if_pos rfl))
    · rw [if_neg fun both => isName both.2]
      cases element <;>
        exact congrArg (Option.map _) ((OrderedMap.get?_insert ..).trans (if_neg isName))
  · rw [if_neg fun both => isKind both.1]
    cases element <;> cases kind <;> first | exact absurd rfl isKind | rfl

theorem find?_adjust (scope : Scope) (own : String) (change : Class → Class) (kind : ElementKind)
    (name : String) :
    ({ scope with classes := scope.classes.adjust own change } : Scope).find? kind name =
      if kind = .classDefinition ∧ own = name then
        (scope.find? kind name).map (Element.mapClass change)
      else scope.find? kind name := by
  cases kind with
  | classDefinition =>
    have adjusted := OrderedMap.get?_adjust scope.classes own name change
    by_cases isName : own = name
    · subst isName
      rw [if_pos rfl] at adjusted
      rw [if_pos ⟨rfl, rfl⟩, find?, find?, adjusted, Option.map_map, Option.map_map]
      rfl
    · rw [if_neg isName] at adjusted
      rw [if_neg fun both => isName both.2]
      exact congrArg (Option.map _) adjusted
  | _ => exact (if_neg fun both => by cases both.1).symm

end Scope

namespace Table

/-- The element in a slot. -/
def find? (table : Table) (slot : Slot) : Option Element :=
  (table.scopeAt? slot.header slot.key).bind (·.find? slot.kind slot.name)

/-- The state of a header, if it is there. -/
def enabled? (table : Table) (header : String) : Option Bool :=
  (table.header? header).map (·.enabled)

/-- A class is looked up in its slot. -/
theorem find?_class (table : Table) (header scope name : String) :
    table.find? ⟨header, canonicalScope scope, .classDefinition, name⟩ =
      (table.class? header scope name).map .classDefinition := by
  simp only [find?, scopeAt?, class?, Header.scope?, Scope.find?, Option.bind_assoc,
    Option.bind_eq_bind, Option.map_bind, Function.comp_def]

theorem isSome_class?_iff (table : Table) (header scope name : String) :
    (table.class? header scope name).isSome = true ↔
      (table.find? ⟨header, canonicalScope scope, .classDefinition, name⟩).isSome = true := by
  rw [find?_class, Option.isSome_map]

/-! ### What operations write -/

/-- An addition fills its slot. -/
theorem find?_add (table : Table) (header spelling : String) (element : Element) (slot : Slot) :
    (table.add header spelling element).find? slot =
      if element.slotIn header spelling = slot then
        some (element.placed ⟨header, canonicalScope spelling⟩)
      else table.find? slot := by
  obtain ⟨holder, key, kind, name⟩ := slot
  have isSlot_iff : element.slotIn header spelling = ⟨holder, key, kind, name⟩ ↔
      (header = holder ∧ canonicalScope (canonicalScope spelling) = key) ∧
        element.kind = kind ∧ element.name = name := by
    rw [Element.slotIn, Slot.mk.injEq, and_assoc]
  have ofScope := table.scopeAt?_add header spelling element holder key
  rw [find?, show (table.add header spelling element).scopeAt? holder key = _ from ofScope]
  by_cases isScope : header = holder ∧ canonicalScope (canonicalScope spelling) = key
  · rw [if_pos isScope, Option.bind_some, Scope.find?_take]
    by_cases isElement : element.kind = kind ∧ element.name = name
    · rw [if_pos isElement, if_pos]
      exact isSlot_iff.mpr ⟨isScope, isElement⟩
    · rw [if_neg isElement, if_neg (fun same => isElement (isSlot_iff.mp same).2), find?]
      cases table.scopeAt? holder key with
      | none => exact Scope.find?_named ..
      | some scope => rfl
  · rw [if_neg isScope, if_neg fun same => isScope (isSlot_iff.mp same).1]
    rfl

theorem find?_setEnabled (table : Table) (header : String) (enabled : Bool) (slot : Slot) :
    (table.setEnabled header enabled).find? slot = table.find? slot := by
  rw [find?, scopeAt?_setEnabled, find?]

/-- A change to a class changes what is in its slot. -/
theorem find?_modifyClass (table : Table) (header spelling name : String) (change : Class → Class)
    (slot : Slot) :
    (table.modifyClass header spelling name change).find? slot =
      if ⟨header, canonicalScope spelling, .classDefinition, name⟩ = slot then
        (table.find? slot).map (Element.mapClass change)
      else table.find? slot := by
  obtain ⟨holder, key, kind, own⟩ := slot
  rw [find?, scopeAt?_modifyClass]
  by_cases isScope : header = holder ∧ canonicalScope spelling = key
  · obtain ⟨rfl, rfl⟩ := isScope
    rw [if_pos ⟨rfl, rfl⟩, Option.bind_map, find?]
    by_cases isSlot : kind = .classDefinition ∧ name = own
    · obtain ⟨rfl, rfl⟩ := isSlot
      rw [if_pos rfl, Option.map_bind]
      refine congrArg _ (funext fun scope => ?_)
      exact (Scope.find?_adjust ..).trans (if_pos ⟨rfl, rfl⟩)
    · rw [if_neg fun same => isSlot ⟨(congrArg Slot.kind same).symm, congrArg Slot.name same⟩]
      refine congrArg _ (funext fun scope => ?_)
      exact (Scope.find?_adjust ..).trans (if_neg isSlot)
  · rw [if_neg isScope, if_neg fun same => isScope ⟨congrArg Slot.header same,
      congrArg Slot.key same⟩]
    rfl

/-! ### What operations switch -/

/-- An addition finds its header as it is, or creates it switched on. -/
theorem enabled?_add (table : Table) (header spelling : String) (element : Element)
    (name : String) :
    (table.add header spelling element).enabled? name =
      if header = name then some ((table.enabled? name).getD true) else table.enabled? name := by
  rw [add_eq_modifyScope, enabled?, header?]
  show ((OrderedMap.upsert ..).get? name).map _ = _
  rw [OrderedMap.get?_upsert]
  by_cases isHeader : header = name
  · subst isHeader
    rw [if_pos rfl, if_pos rfl, enabled?, header?]
    cases table.headers.get? header <;> rfl
  · rw [if_neg isHeader, if_neg isHeader]
    rfl

theorem enabled?_setEnabled (table : Table) (header : String) (enabled : Bool) (name : String) :
    (table.setEnabled header enabled).enabled? name =
      if header = name then some enabled else table.enabled? name := by
  rw [enabled?, header?]
  show ((OrderedMap.upsert ..).get? name).map _ = _
  rw [OrderedMap.get?_upsert]
  by_cases isHeader : header = name
  · rw [if_pos isHeader, if_pos isHeader]
    rfl
  · rw [if_neg isHeader, if_neg isHeader]
    rfl

/-- Of switches that are set one by one, one for each header, each counts. -/
theorem enabled?_foldl_setEnabled {pairs : List (String × Bool)}
    (distinct : (pairs.map Prod.fst).Nodup) (table : Table) (header : String) :
    (pairs.foldl (fun made pair => made.setEnabled pair.1 pair.2) table).enabled? header =
      (lookupPair header pairs).or (table.enabled? header) := by
  induction pairs generalizing table with
  | nil => rfl
  | cons pair rest ih =>
    obtain ⟨name, enabled⟩ := pair
    rw [List.map_cons, List.nodup_cons] at distinct
    rw [List.foldl_cons, ih distinct.2, enabled?_setEnabled, lookupPair]
    by_cases isName : name = header
    · subst isName
      have isLast : lookupPair name rest = none := (lookupPair_eq_none_iff ..).mpr distinct.1
      rw [if_pos rfl, if_pos rfl, isLast]
      rfl
    · rw [if_neg isName, if_neg isName]

theorem scopeAt?_foldl_setEnabled (pairs : List (String × Bool)) (table : Table)
    (header key : String) :
    (pairs.foldl (fun made pair => made.setEnabled pair.1 pair.2) table).scopeAt? header key =
      table.scopeAt? header key := by
  induction pairs generalizing table with
  | nil => rfl
  | cons pair rest ih => rw [List.foldl_cons, ih, scopeAt?_setEnabled]

theorem enabled?_modifyClass (table : Table) (header spelling own : String)
    (change : Class → Class) (name : String) :
    (table.modifyClass header spelling own change).enabled? name = table.enabled? name := by
  rw [enabled?, header?]
  show ((OrderedMap.adjust ..).get? name).map _ = _
  rw [OrderedMap.get?_adjust]
  by_cases isHeader : header = name
  · subst isHeader
    rw [if_pos rfl, Option.map_map]
    rfl
  · rw [if_neg isHeader]
    rfl

/-! ### What a table is filled with -/

/-- Whether a header takes part in the generated code; one that is not there would. -/
def isOn (table : Table) (header : String) : Bool := (table.enabled? header).getD true

/-- A table is filled from another one: elements of some kinds are put in, classes may be changed
where they are among these kinds, and headers are switched where this is allowed. -/
inductive Filled (switches : Prop) (kinds : ElementKind → Prop) (table : Table) : Table → Prop
  | refl : Filled switches kinds table table
  | setEnabled {made : Table} (filled : Filled switches kinds table made) (allowed : switches)
      (header : String) (enabled : Bool) :
      Filled switches kinds table (made.setEnabled header enabled)
  | add {made : Table} (filled : Filled switches kinds table made) {element : Element}
      (ofKind : kinds element.kind) (header spelling : String) :
      Filled switches kinds table (made.add header spelling element)
  | modifyClass {made : Table} (filled : Filled switches kinds table made)
      (ofKind : kinds .classDefinition) (header spelling name : String) (change : Class → Class) :
      Filled switches kinds table (made.modifyClass header spelling name change)

namespace Filled

variable {switches : Prop} {kinds : ElementKind → Prop} {table made : Table}

/-- Elements of other kinds stay as they are. -/
theorem find?_eq (filled : table.Filled switches kinds made) {slot : Slot}
    (isOther : ¬ kinds slot.kind) : made.find? slot = table.find? slot := by
  induction filled with
  | refl => rfl
  | setEnabled _ _ header enabled ih => rw [find?_setEnabled, ih]
  | @add made _ element ofKind header spelling ih =>
    rw [find?_add, if_neg fun same => isOther ?_, ih]
    exact congrArg Slot.kind same ▸ ofKind
  | modifyClass _ ofKind header spelling name change ih =>
    rw [find?_modifyClass, if_neg fun same => isOther ?_, ih]
    exact congrArg Slot.kind same ▸ ofKind

/-- Without a switch, the headers that are not there yet are created switched on. -/
theorem isOn_eq (filled : table.Filled switches kinds made) (noSwitch : ¬ switches)
    (header : String) : made.isOn header = table.isOn header := by
  induction filled with
  | refl => rfl
  | setEnabled _ allowed => exact absurd allowed noSwitch
  | add _ _ holder spelling ih =>
    rw [← ih, isOn, enabled?_add, isOn]
    split <;> rfl
  | modifyClass _ _ holder spelling name change ih => rw [← ih, isOn, enabled?_modifyClass, isOn]

end Filled

/-! ### Tables with the same elements -/

/-- Two tables hold the same elements of a kind, in every scope of every header. -/
def SameElements (kind : ElementKind) (table other : Table) : Prop :=
  ∀ header key name, table.find? ⟨header, key, kind, name⟩ = other.find? ⟨header, key, kind, name⟩

namespace SameElements

variable {kind : ElementKind} {table other : Table}

theorem refl (kind : ElementKind) (table : Table) : SameElements kind table table :=
  fun _ _ _ => rfl

theorem symm (same : SameElements kind table other) : SameElements kind other table :=
  fun header key name => (same header key name).symm

theorem trans {third : Table} (first : SameElements kind table other)
    (second : SameElements kind other third) : SameElements kind table third :=
  fun header key name => (first header key name).trans (second header key name)

theorem add (same : SameElements kind table other) (header spelling : String)
    (element : Element) :
    SameElements kind (table.add header spelling element)
      (other.add header spelling element) := by
  intro holder key name
  rw [find?_add, find?_add, same]

theorem setEnabled (same : SameElements kind table other) (header : String) (enabled : Bool) :
    SameElements kind (table.setEnabled header enabled) (other.setEnabled header enabled) := by
  intro holder key name
  rw [find?_setEnabled, find?_setEnabled, same]

theorem modifyClass (same : SameElements kind table other) (header spelling own : String)
    (change : Class → Class) :
    SameElements kind (table.modifyClass header spelling own change)
      (other.modifyClass header spelling own change) := by
  intro holder key name
  rw [find?_modifyClass, find?_modifyClass, same]

theorem isSome_class? (same : SameElements .classDefinition table other)
    (header scope name : String) :
    (table.class? header scope name).isSome = (other.class? header scope name).isSome := by
  rw [Bool.eq_iff_iff, isSome_class?_iff, isSome_class?_iff, same]

end SameElements

/-- Whatever fills a table is done by its operations. -/
theorem Filled.reached {switches : Prop} {kinds : ElementKind → Prop} {table made : Table}
    (filled : table.Filled switches kinds made) (reached : table.Reached) : made.Reached := by
  induction filled with
  | refl => exact reached
  | setEnabled _ _ header enabled ih => exact ih.apply (.enable header enabled)
  | add _ _ header spelling ih => exact ih.apply (.add header spelling _)
  | modifyClass _ _ header spelling name change ih =>
    exact ih.modifyClass header spelling name change

theorem Filled.sameElements {switches : Prop} {kinds : ElementKind → Prop} {table made : Table}
    (filled : table.Filled switches kinds made) {kind : ElementKind} (isOther : ¬ kinds kind) :
    SameElements kind table made :=
  fun _ _ _ => (filled.find?_eq isOther).symm

end Table

end Bindery.Symbols
