/-
**Elements know their places.**

A scope stamps each element that it takes in: simple elements and classes get a place, a class hands
it on to its methods, an enumeration gets a holder, and a function loses the class that it may have
belonged to. All of this holds of every element, whatever it was before.

* `Scope.IsStamped` — the elements of a scope stand under their names and have places of some kind.
* `Scope.IsStamped.take` — taking an element in keeps this.
-/

import Bindery.Proofs.Symbols.Built

namespace Bindery.Symbols

/-- The elements of a scope stand under their own names and have places of some kind; the methods of
a class have the place of the class. -/
structure Scope.IsStamped (isPlace : Place → Prop) (scope : Scope) : Prop where
  constants : scope.constants.Forall fun name constant =>
    constant.name = name ∧ ∃ place, constant.place = some place ∧ isPlace place
  enumerations : scope.enumerations.Forall fun name enumeration =>
    enumeration.name = name ∧ ∃ place, enumeration.holder = .scope place ∧ isPlace place
  aliases : scope.aliases.Forall fun name element =>
    element.name = name ∧ ∃ place, element.place = some place ∧ isPlace place
  globals : scope.globals.Forall fun name element =>
    element.name = name ∧ ∃ place, element.place = some place ∧ isPlace place
  functions : scope.functions.Forall fun name function =>
    function.name = name ∧ function.className = none ∧
      ∃ place, function.place = some place ∧ isPlace place
  classes : scope.classes.Forall fun name self =>
    self.name = name ∧ (∃ place, self.place = some place ∧ isPlace place) ∧
      self.methods.Forall fun _ method => method.place = self.place

namespace Scope

variable {isPlace : Place → Prop} {scope : Scope}

theorem isStamped_named (isPlace : Place → Prop) (name : String) :
    (Scope.named name).IsStamped isPlace :=
  ⟨.empty, .empty, .empty, .empty, .empty, .empty⟩

/-- The methods of a class that was put somewhere have its place. -/
theorem methods_attach (self : Class) (place : Place) :
    (self.attach place).methods.Forall fun _ method => method.place = some place := by
  intro name method found
  rw [Class.attach, OrderedMap.get?_mapValues, Option.map_eq_some_iff] at found
  obtain ⟨_, _, rfl⟩ := found
  rfl

namespace IsStamped

theorem take (stamped : scope.IsStamped isPlace) {place : Place} (fits : isPlace place)
    (element : Element) : (scope.take place element).IsStamped isPlace := by
  cases element with
  | constant c =>
    exact { stamped with constants := stamped.constants.insert ⟨rfl, place, rfl, fits⟩ }
  | enumeration e =>
    exact { stamped with enumerations := stamped.enumerations.insert ⟨rfl, place, rfl, fits⟩ }
  | typeAlias a => exact { stamped with aliases := stamped.aliases.insert ⟨rfl, place, rfl, fits⟩ }
  | globalVariable v =>
    exact { stamped with globals := stamped.globals.insert ⟨rfl, place, rfl, fits⟩ }
  | function f =>
    exact { stamped with functions := stamped.functions.insert ⟨rfl, rfl, place, rfl, fits⟩ }
  | classDefinition c =>
    have isOwn : (c.attach place).name = c.name ∧
        (∃ other, (c.attach place).place = some other ∧ isPlace other) ∧
        (c.attach place).methods.Forall fun _ method => method.place = (c.attach place).place :=
      ⟨rfl, ⟨place, rfl, fits⟩, methods_attach c place⟩
    exact { stamped with classes := stamped.classes.insert isOwn }

theorem foldl_take (stamped : scope.IsStamped isPlace) {place : Place} (fits : isPlace place)
    (elements : List Element) : (elements.foldl (Scope.take place) scope).IsStamped isPlace := by
  induction elements generalizing scope with
  | nil => exact stamped
  | cons element rest ih => exact ih (stamped.take fits element)

end IsStamped

end Scope

end Bindery.Symbols
