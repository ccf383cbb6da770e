/-
**What holds of every table that can be stored.**

A cache keeps the text and the description of a type and nothing else of it, the overloads of a
function and not its description, and no places at all. A table is storable when this says all that
there is to say about its elements.

* `Table.IsStorable` — the property, for the elements of every scope of every header.
* `Class.isSound_iff` — for a class and its methods it comes to what every addition keeps.
* `Table.IsStorable.apply`, `Table.IsStorable.modifyClass` — what the steps keep in which a table is
  filled, whatever the spelling of the names of scopes.
-/

import Bindery.Proofs.Symbols.Overloads
import Bindery.Proofs.Symbols.Places

namespace Bindery.Symbols

/-! ### Types -/

namespace TypeShape

/-- The type that is read from the text of a type, with its description. -/
def reread (type : TypeShape) : TypeShape :=
  (TypeShape.parse type.text).withDescription type.description

theorem isRead_iff (type : TypeShape) : type.IsRead ↔ type = type.reread :=
  ⟨fun read => read.reread.symm, fun again => ⟨_, _, again⟩⟩

/-- What is read again of the type of a parameter, except that a type with a base may be an array
where its text does not say so. -/
def IsStorableParameter (type : TypeShape) : Prop :=
  type = type.reread ∨ type.base ≠ "" ∧ type = { type.reread with isArray := true }

theorem isReadParameter_iff (type : TypeShape) :
    type.IsReadParameter ↔ type.IsStorableParameter := by
  constructor
  · rintro ⟨read, isRead, rfl | ⟨hasBase, rfl⟩⟩
    · exact .inl ((isRead_iff _).mp isRead)
    · have again : ({ read with isArray := true } : TypeShape).reread = read := isRead.reread
      exact .inr ⟨by simpa [isEmpty] using hasBase, by rw [again]⟩
  · rintro (again | ⟨hasBase, again⟩)
    · exact ⟨type, (isRead_iff _).mpr again, .inl rfl⟩
    · refine ⟨type.reread, ⟨_, _, rfl⟩, .inr ⟨?_, again⟩⟩
      generalize type.reread = read at again
      subst again
      simpa [isEmpty] using hasBase

/-- A type that is read may be made an array if it has a base. -/
theorem IsRead.isReadParameter {read : TypeShape} (isRead : read.IsRead) (isArray : Bool) :
    (if isArray && !read.isEmpty then { read with isArray := true } else read).IsReadParameter := by
  refine ⟨read, isRead, ?_⟩
  by_cases asArray : (isArray && !read.isEmpty) = true
  · have hasBase : read.isEmpty = false := by simp_all
    exact .inr ⟨hasBase, if_pos asArray⟩
  · exact .inl (if_neg asArray)

end TypeShape

/-! ### Functions -/

/-- An overload of a function: the names of its parameters are distinct, and its types are what is
read again of them. -/
structure Overload.IsStorable (function : String) (overload : Overload) : Prop where
  function : overload.function = function
  distinct : (overload.parameters.map Parameter.name).Nodup
  returns : overload.returns = overload.returns.reread
  parameters : ∀ parameter ∈ overload.parameters, parameter.type.IsStorableParameter

theorem Overload.isSound_iff (function : String) (overload : Overload) :
    overload.IsSound function ↔ overload.IsStorable function :=
  ⟨fun ⟨own, returns, parameters, distinct⟩ => ⟨own, distinct, (TypeShape.isRead_iff _).mp returns,
    fun parameter isIn => (TypeShape.isReadParameter_iff _).mp (parameters parameter isIn)⟩,
  fun ⟨own, distinct, returns, parameters⟩ => ⟨own, (TypeShape.isRead_iff _).mpr returns,
    fun parameter isIn => (TypeShape.isReadParameter_iff _).mpr (parameters parameter isIn),
    distinct⟩⟩

/-- The overloads of a function belong to it, and it has the first description among them that is
not empty. -/
structure Function.IsStorable (function : Function) : Prop where
  overloads : ∀ overload ∈ function.overloads, overload.IsStorable function.name
  description : function.description = firstDescription function.overloads

/-- A function is what its overloads make just when it has their description. -/
theorem Function.isSound_iff (function : Function) : function.IsSound ↔ function.IsStorable := by
  constructor
  · intro sound
    exact ⟨fun overload isIn => (Overload.isSound_iff ..).mp (sound.overloads overload isIn),
      sound.description⟩
  · intro storable
    refine ⟨fun overload isIn => (Overload.isSound_iff ..).mpr (storable.overloads overload isIn),
      ?_⟩
    rw [foldl_addOverload_of_own fun overload isIn => (storable.overloads overload isIn).function,
      detached, storable.description]

/-! ### Classes -/

namespace Class

/-- The name of a class is trimmed and declares no generic parameters, and its members stand under
their names and know it. -/
structure IsStorable (holder : Class) : Prop where
  trimmed : Text.trim holder.name.toList = holder.name.toList
  plain : '<' ∉ holder.name.toList
  fields : holder.fields.Forall fun name member =>
    member.name = name ∧ member.type = member.type.reread
  enumerations : holder.enumerations.Forall fun name enumeration =>
    enumeration.name = name ∧ enumeration.holder = .classNamed holder.name
  methods : holder.methods.Forall fun name method =>
    method.name = name ∧ method.className = some holder.name ∧ method.place = holder.place ∧
      method.IsStorable

theorem isSound_iff (holder : Class) : holder.IsSound ↔ holder.IsStorable := by
  constructor
  · intro sound
    have ownName : (named holder.name).name = holder.name := by rw [sound.plainName]
    obtain ⟨trimmed, plain⟩ := plain_of_named ownName
    exact ⟨trimmed, plain,
      sound.fields.imp fun _ _ ⟨own, read⟩ => ⟨own, (TypeShape.isRead_iff _).mp read⟩,
      sound.enumerations,
      sound.methods.imp fun _ _ ⟨own, ofClass, placed, isSound⟩ =>
        ⟨own, ofClass, placed, (Function.isSound_iff _).mp isSound⟩⟩
  · intro storable
    have plainName := named_of_plain storable.trimmed storable.plain
    rw [String.ofList_toList] at plainName
    exact ⟨plainName,
      storable.fields.imp fun _ _ ⟨own, again⟩ => ⟨own, (TypeShape.isRead_iff _).mpr again⟩,
      storable.enumerations,
      storable.methods.imp fun _ _ ⟨own, ofClass, placed, isStorable⟩ =>
        ⟨own, ofClass, placed, (Function.isSound_iff _).mpr isStorable⟩⟩

/-- A change that keeps a class sound, and its name and its place. -/
def KeepsSound (change : Class → Class) : Prop :=
  ∀ self : Class, self.IsSound →
    (change self).IsSound ∧ (change self).name = self.name ∧ (change self).place = self.place

/-- Members that can be added one by one keep a class sound together. -/
theorem keepsSound_foldl {α : Type} {items : List α} {add : Class → α → Class}
    (additions : ∀ item ∈ items, Addition (add · item)) : KeepsSound (items.foldl add) := by
  induction items with
  | nil => exact fun self sound => ⟨sound, rfl, rfl⟩
  | cons item rest ih =>
    rw [List.forall_mem_cons] at additions
    intro self sound
    obtain ⟨sameName, samePlace⟩ := additions.1.name_place self
    obtain ⟨areSound, sameNames, samePlaces⟩ := ih additions.2 _ (additions.1.isSound sound)
    exact ⟨areSound, sameNames.trans sameName, samePlaces.trans samePlace⟩

end Class

/-! ### Scopes -/

/-- A place in a header, in the scope that is kept under a key. -/
def Place.IsIn (header key : String) (place : Place) : Prop :=
  place.header = header ∧ canonicalScope place.scope = key

/-- The elements of the scope under a key stand under their names and have places there; each of
them is storable. -/
structure Scope.IsStorable (header key : String) (scope : Scope) : Prop where
  stamped : scope.IsStamped (Place.IsIn header key)
  aliases : scope.aliases.Forall fun _ element => element.type = element.type.reread
  globals : scope.globals.Forall fun _ element => element.type = element.type.reread
  functions : scope.functions.Forall fun _ function => function.IsStorable
  classes : scope.classes.Forall fun _ holder => holder.IsStorable

namespace Scope

variable {header key : String} {scope : Scope}

theorem isStorable_named (header key name : String) : (Scope.named name).IsStorable header key :=
  ⟨isStamped_named .., .empty, .empty, .empty, .empty⟩

namespace IsStorable

theorem take (storable : scope.IsStorable header key) {place : Place}
    (isIn : place.IsIn header key) {element : Element} (built : element.Built) :
    (scope.take place element).IsStorable header key := by
  have stamped := storable.stamped.take isIn element
  cases element with
  | constant c => exact { storable with stamped }
  | enumeration e => exact { storable with stamped }
  | typeAlias a =>
    have isRead := (TypeShape.isRead_iff _).mp built
    exact { storable with stamped, aliases := storable.aliases.insert isRead }
  | globalVariable v =>
    have isRead := (TypeShape.isRead_iff _).mp built
    exact { storable with stamped, globals := storable.globals.insert isRead }
  | function f =>
    have isSound := (Function.Built.isSound built).placed (some place) none
    have isStorable := (Function.isSound_iff _).mp isSound
    exact { storable with stamped, functions := storable.functions.insert isStorable }
  | classDefinition c =>
    have isStorable := (Class.isSound_iff _).mp ((Class.Built.isSound built).attach place)
    exact { storable with stamped, classes := storable.classes.insert isStorable }

theorem adjustClass (storable : scope.IsStorable header key) (name : String)
    {change : Class → Class} (keeps : Class.KeepsSound change) :
    ({ scope with classes := scope.classes.adjust name change } : Scope).IsStorable header key := by
  have placed : (scope.classes.adjust name change).Forall fun own holder =>
      (holder.name = own ∧ ∃ place, holder.place = some place ∧ place.IsIn header key) ∧
        holder.IsStorable := by
    have before : scope.classes.Forall fun own holder =>
        (holder.name = own ∧ ∃ place, holder.place = some place ∧ place.IsIn header key) ∧
          holder.IsStorable := fun own holder found =>
      have ⟨ownName, isPlaced, _⟩ := storable.stamped.classes own holder found
      ⟨⟨ownName, isPlaced⟩, storable.classes own holder found⟩
    refine before.adjust ?_
    rintro holder ⟨⟨ownName, place, isPlace, isIn⟩, isStorable⟩
    obtain ⟨isSound, sameName, samePlace⟩ := keeps holder ((Class.isSound_iff _).mpr isStorable)
    exact ⟨⟨sameName.trans ownName, place, samePlace.trans isPlace, isIn⟩,
      (Class.isSound_iff _).mp isSound⟩
  exact { storable with
    stamped := { storable.stamped with
      classes := placed.imp fun _ _ ⟨⟨ownName, isPlaced⟩, isStorable⟩ =>
        ⟨ownName, isPlaced, isStorable.methods.imp fun _ _ ⟨_, _, samePlace, _⟩ => samePlace⟩ }
    classes := placed.imp fun _ _ ⟨_, isStorable⟩ => isStorable }

end IsStorable

end Scope

/-! ### Tables -/

/-- No scope of a header is empty, and all are storable. -/
def Header.IsStorable (header : Header) : Prop :=
  header.scopes.Forall fun key scope => scope.isEmpty = false ∧ scope.IsStorable header.name key

/-- The headers of a table stand under their names, and each of them is storable. -/
def Table.IsStorable (table : Table) : Prop :=
  table.headers.Forall fun name header => header.name = name ∧ header.IsStorable

/-- An edit that puts in an element that may go into a scope. -/
def Edit.HasBuilt : Edit → Prop
  | .enable .. => True
  | .add _ _ element => element.Built

namespace Table

variable {table : Table}

theorem isStorable_empty : Table.empty.IsStorable := .empty

namespace IsStorable

theorem setEnabled (storable : table.IsStorable) (header : String) (enabled : Bool) :
    (table.setEnabled header enabled).IsStorable :=
  OrderedMap.Forall.upsert storable ⟨rfl, .empty⟩ fun _ isStorable => isStorable

theorem add (storable : table.IsStorable) (header scope : String) {element : Element}
    (built : element.Built) : (table.add header scope element).IsStorable := by
  rw [add_eq_modifyScope]
  have kept : ∀ holder : Header, holder.name = header → holder.IsStorable →
      (holder.modifyScope (canonicalScope scope)
        (Scope.take ⟨header, canonicalScope scope⟩ · element)).IsStorable := by
    rintro holder rfl isStorable
    -- The key of the scope is the scope of the place, read once more.
    have isIn : Place.IsIn holder.name (canonicalScope (canonicalScope scope))
        ⟨holder.name, canonicalScope scope⟩ := ⟨rfl, rfl⟩
    refine OrderedMap.Forall.upsert isStorable ?_ ?_
    · exact ⟨Scope.isEmpty_take .., (Scope.isStorable_named ..).take isIn built⟩
    · rintro inner ⟨_, isStorableInner⟩
      exact ⟨Scope.isEmpty_take .., isStorableInner.take isIn built⟩
  refine OrderedMap.Forall.upsert storable ⟨rfl, ?_⟩ ?_
  · exact kept { name := header } rfl .empty
  · rintro holder ⟨ownName, isStorable⟩
    exact ⟨ownName, kept holder ownName isStorable⟩

theorem apply (storable : table.IsStorable) {edit : Edit} (built : edit.HasBuilt) :
    (table.apply edit).IsStorable := by
  cases edit with
  | enable header enabled => exact storable.setEnabled header enabled
  | add header scope element => exact storable.add header scope built

theorem applyAll (storable : table.IsStorable) {edits : List Edit}
    (built : ∀ edit ∈ edits, edit.HasBuilt) : (table.applyAll edits).IsStorable := by
  induction edits generalizing table with
  | nil => exact storable
  | cons edit rest ih =>
    rw [List.forall_mem_cons] at built
    exact ih (storable.apply built.1) built.2

theorem modifyClass (storable : table.IsStorable) (header scope name : String)
    {change : Class → Class} (keeps : Class.KeepsSound change) :
    (table.modifyClass header scope name change).IsStorable := by
  refine OrderedMap.Forall.adjust storable ?_
  rintro holder ⟨ownName, isStorable⟩
  refine ⟨ownName, OrderedMap.Forall.adjust isStorable ?_⟩
  rintro inner ⟨notEmpty, isStorableInner⟩
  refine ⟨?_, isStorableInner.adjustClass name keeps⟩
  simpa only [Scope.isEmpty, OrderedMap.isEmpty_adjust] using notEmpty

end IsStorable

end Table

end Bindery.Symbols
