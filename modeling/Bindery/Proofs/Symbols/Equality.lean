/-
**Equality of tables, part by part.**

Derived equality compares field by field. Elements without maps and sets are equal when they are the
same; all others are equal when their maps and sets are, in whatever order.

* `Table.map_flatMap_scopes_of_beq` — what is read in the scopes of equal tables.
* `Table.classNames_perm_of_beq`, `Table.enumerationNames_perm_of_beq`,
  `Table.aliases_perm_of_beq` — the types that equal tables name.
-/

import Bindery.Proofs.EqualMaps
import Bindery.Symbols.Table

namespace Bindery.Symbols

deriving instance ReflBEq for Place, Constant, EnumerationHolder, Enumeration, TypeShape, TypedName,
  Parameter, OverloadFlags, Overload, Function, ClassVariable, Class, Scope

deriving instance LawfulBEq for Place, TypeShape, TypedName

/-! ### Elements -/

theorem Enumeration.name_of_beq {first second : Enumeration} (same : (first == second) = true) :
    first.name = second.name := by
  have parts : (first.name == second.name && _) = true := same
  exact eq_of_beq (Bool.and_eq_true_iff.mp parts).1

theorem Class.parts_of_beq {first second : Class} (same : (first == second) = true) :
    first.name = second.name ∧ (first.enumerations == second.enumerations) = true := by
  have parts : (first.name == second.name && (_ && (_ && (_ && (_ && (_ &&
    (first.enumerations == second.enumerations && _))))))) = true := same
  simp only [Bool.and_eq_true] at parts
  exact ⟨eq_of_beq parts.1, parts.2.2.2.2.2.2.1⟩

theorem Scope.parts_of_beq {first second : Scope} (same : (first == second) = true) :
    (first.enumerations == second.enumerations) = true ∧
      (first.aliases == second.aliases) = true ∧ (first.classes == second.classes) = true := by
  have parts : (_ && (_ && (first.enumerations == second.enumerations &&
    (first.aliases == second.aliases && (_ && (_ && first.classes == second.classes)))))) = true :=
    same
  simp only [Bool.and_eq_true] at parts
  exact ⟨parts.2.2.1, parts.2.2.2.1, parts.2.2.2.2.2.2⟩

theorem Header.scopes_of_beq {first second : Header} (same : (first == second) = true) :
    (first.scopes == second.scopes) = true := by
  have parts : (_ && (_ && first.scopes == second.scopes)) = true := same
  simp only [Bool.and_eq_true] at parts
  exact parts.2.2

/-! ### Types by name -/

namespace Table

variable {table other : Table} (same : (table == other) = true)

include same

/-- What is read in equal scopes is read in equal tables, in some order. -/
theorem map_flatMap_scopes_of_beq {α β : Type} (held : Scope → List α) (read : α → β)
    (each : ∀ first second : Scope, (first == second) = true →
      ((held first).map read).Perm ((held second).map read)) :
    ((table.scopes.flatMap fun (_, scope) => held scope).map read).Perm
      ((other.scopes.flatMap fun (_, scope) => held scope).map read) := by
  have byHeader : ∀ table : Table,
      (table.scopes.flatMap fun (_, scope) => held scope).map read =
        table.headers.values.flatMap fun header =>
          header.scopes.values.flatMap fun scope => (held scope).map read := by
    intro table
    simp only [scopes, headerList, List.flatMap_assoc, List.flatMap_map, List.map_flatMap]
  have sameHeaders : (table.headers == other.headers) = true := same
  rw [byHeader, byHeader]
  refine OrderedMap.flatMap_values_perm_of_beq sameHeaders fun first second isSame => ?_
  exact OrderedMap.flatMap_values_perm_of_beq (Header.scopes_of_beq isSame) each

/-- Equal tables have classes of the same names. -/
theorem classNames_perm_of_beq :
    (table.classes.map (·.name)).Perm (other.classes.map (·.name)) := by
  refine map_flatMap_scopes_of_beq same (·.classes.values) (·.name) fun first second isSame => ?_
  exact OrderedMap.map_values_perm_of_beq (Scope.parts_of_beq isSame).2.2
    fun _ _ isClass => (Class.parts_of_beq isClass).1

/-- Equal tables have enumerations of the same names. -/
theorem enumerationNames_perm_of_beq :
    (table.enumerations.map (·.name)).Perm (other.enumerations.map (·.name)) := by
  have names : ∀ first second : OrderedMap Enumeration, (first == second) = true →
      (first.values.map (·.name)).Perm (second.values.map (·.name)) := fun _ _ isSame =>
    OrderedMap.map_values_perm_of_beq isSame fun _ _ => Enumeration.name_of_beq
  refine map_flatMap_scopes_of_beq same Scope.allEnumerations (·.name)
    fun first second isSame => ?_
  obtain ⟨own, -, ofClasses⟩ := Scope.parts_of_beq isSame
  simp only [Scope.allEnumerations, List.map_append, List.map_flatMap]
  refine (names _ _ own).append (OrderedMap.flatMap_values_perm_of_beq ofClasses ?_)
  exact fun _ _ isClass => names _ _ (Class.parts_of_beq isClass).2

/-- Equal tables have aliases of the same names with the same types. -/
theorem aliases_perm_of_beq :
    (table.aliases.map fun known => (known.name, known.type)).Perm
      (other.aliases.map fun known => (known.name, known.type)) := by
  refine map_flatMap_scopes_of_beq same (·.aliases.values)
    (fun known => (known.name, known.type)) fun first second isSame => ?_
  refine OrderedMap.map_values_perm_of_beq (Scope.parts_of_beq isSame).2.1 fun _ _ isAlias => ?_
  rw [eq_of_beq isAlias]

end Table

end Bindery.Symbols
