/-
**The order in which documents name scopes.**

There is one document for each kind of element, so the scopes of a header come kind by kind: first
those with constants, then those of the others that have enumerations, and so on. The documents of
members name no scope that was not named before.

* `Header.scopesByKind` — the scopes of a header in that order.
* `Header.IsSound.values_arranged` — it is the order of the loaded header.
-/

import Bindery.Proofs.Cache.Loading

namespace Bindery.Symbols

/-- Whether a scope has an element of a kind. -/
def Scope.has (scope : Scope) (kind : ElementKind) : Bool := !(scope.elementsOf kind).isEmpty

/-- The scopes of a header, those with elements of an earlier kind first. -/
def Header.scopesByKind (header : Header) : List Scope :=
  arrange (ElementKind.all.map fun kind scope => scope.has kind) header.scopes.values

/-- A scope with elements has some of a kind. -/
theorem Scope.any_has {scope : Scope} (notEmpty : scope.isEmpty = false) :
    (ElementKind.all.map fun kind (scope : Scope) => scope.has kind).any (· scope) = true := by
  have isAny : scope.elements ≠ [] := by
    rw [Ne, elements_eq_nil_iff, notEmpty]
    simp
  obtain ⟨element, isElement⟩ := List.exists_mem_of_ne_nil _ isAny
  obtain ⟨kind, isKind, isOfKind⟩ := List.mem_flatMap.mp isElement
  rw [List.any_map, List.any_eq_true]
  refine ⟨kind, isKind, ?_⟩
  simp [has, List.ne_nil_of_mem isOfKind]

namespace Header

open Cache

/-- The pass of a kind meets the scopes that have elements of it. -/
theorem meets_kindPass (header : Header) (kind : ElementKind) :
    header.meets (kindPass kind) = fun scope => scope.has kind := by
  funext scope
  have sameEmpty : ((outline scope).elementsOf kind).isEmpty =
      (scope.elementsOf kind).isEmpty := by
    cases kind with
    | classDefinition =>
      rw [Scope.elementsOf, Scope.elementsOf, List.isEmpty_map, List.isEmpty_map]
      show (scope.classes.mapValues _).values.isEmpty = _
      rw [OrderedMap.values_mapValues, List.isEmpty_map]
    | constant | enumeration | typeAlias | globalVariable | function => rfl
  rw [meets, kindPass, List.isEmpty_map, sameEmpty, Scope.has]

variable {header : Header}

/-- A header is loaded with its scopes by kind. -/
theorem IsSound.values_arranged (sound : header.IsSound) :
    (header.arranged loadPasses).scopes.values = header.scopesByKind := by
  have met : ∀ scope ∈ header.scopes.values,
      (ElementKind.all.map fun kind (scope : Scope) => scope.has kind).any (· scope) = true := by
    intro scope isScope
    obtain ⟨name, found⟩ := (OrderedMap.mem_values ..).mp isScope
    exact Scope.any_has (sound name scope found).2.2
  have passes : (ElementKind.all.map kindPass).map header.meets =
      ElementKind.all.map fun kind scope => scope.has kind := by
    rw [List.map_map]
    exact List.map_congr_left fun kind _ => header.meets_kindPass kind
  show (header.scopes.arrange (loadPasses.map header.meets)).values = _
  rw [OrderedMap.values_arrange, loadPasses, List.map_append, passes,
    arrange_append_of_met met, scopesByKind]

end Header

end Bindery.Symbols
