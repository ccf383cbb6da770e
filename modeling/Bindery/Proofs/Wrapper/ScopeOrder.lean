/-
**Emission and the order of scopes.**

The files of a table follow the order of its scopes. Whatever that order is, the texts of the scopes
stay the same, as long as aliases of one name have one type: of several, the last one counts.

* `emit_arranged` — the files of a table whose scopes stand in another order.
* `KnownTypes.alike_arranged` — types keep their categories.
-/

import Mathlib.Data.List.Perm.Basic
import Bindery.Proofs.Symbols.Replay
import Bindery.Wrapper.Emission

namespace Bindery

open Symbols

/-! ### Tables in another order -/

namespace Symbols.Table

/-- The scopes of all headers are the same in another order. -/
theorem scopes_arranged (passes : List Pass) (table : Table) :
    ((table.arranged passes).scopes.map Prod.snd).Perm (table.scopes.map Prod.snd) := by
  have snds : ∀ table : Table, table.scopes.map Prod.snd =
      table.headerList.flatMap fun header => header.scopes.values := by
    intro table
    simp [scopes, List.map_flatMap, Function.comp_def]
  rw [snds, snds]
  show ((table.headers.mapValues (Header.arranged passes)).values.flatMap _).Perm _
  rw [OrderedMap.values_mapValues, List.flatMap_map]
  refine List.Perm.flatMap_left _ fun header _ => ?_
  show (header.scopes.arrange _).values.Perm _
  rw [OrderedMap.values_arrange]
  exact arrange_perm _ _

/-- What the scopes of a table hold is the same in another order. -/
theorem flatMap_scopes_arranged {α : Type} (passes : List Pass) (table : Table)
    (held : Scope → List α) :
    ((table.arranged passes).scopes.flatMap fun (_, scope) => held scope).Perm
      (table.scopes.flatMap fun (_, scope) => held scope) := by
  have perm := (table.scopes_arranged passes).flatMap_right held
  rwa [List.flatMap_map, List.flatMap_map] at perm

end Symbols.Table

namespace Wrapper

/-! ### Known types -/

/-- Aliases of one name have one type. -/
def HasClearAliases (table : Table) : Prop :=
  ∀ first ∈ table.aliases, ∀ second ∈ table.aliases,
    first.name = second.name → first.type = second.type

namespace KnownTypes

/-- The names of types stand for the same. -/
structure Alike (known other : KnownTypes) : Prop where
  classes : ∀ name, known.classes.contains name = other.classes.contains name
  enumerations : ∀ name, known.enumerations.contains name = other.enumerations.contains name
  aliases : ∀ name, known.aliases.get? name = other.aliases.get? name

namespace Alike

variable {known other : KnownTypes}

theorem followAlias? (alike : Alike known other) (type : TypeShape) :
    known.followAlias? type = other.followAlias? type := by
  have settled : known.isSettled type = other.isSettled type := by
    rw [isSettled, isSettled, alike.classes, alike.enumerations]
  rw [KnownTypes.followAlias?, KnownTypes.followAlias?, settled, alike.aliases]

theorem resolve (alike : Alike known other) (type : TypeShape) :
    known.resolve type = other.resolve type := by
  have within : ∀ steps type, known.resolveWithin steps type = other.resolveWithin steps type := by
    intro steps
    induction steps with
    | zero => exact fun _ => rfl
    | succ steps ih =>
      intro type
      rw [resolveWithin, resolveWithin, alike.followAlias?]
      cases other.followAlias? type with
      | none => rfl
      | some target => exact ih target
  exact within maxAliasSteps type

/-- Types have the same categories. -/
theorem categoryOf (alike : Alike known other) : known.categoryOf = other.categoryOf := by
  funext type
  have resolved : ∀ type, (known.classifyResolved type).category =
      (other.classifyResolved type).category := by
    intro type
    simp only [classifyResolved, alike.enumerations, alike.classes]
    cases primitiveKind? type with
    | some kind => rfl
    | none =>
      by_cases isEnumeration : other.enumerations.contains (lookupName type) = true
      · simp only [isEnumeration, if_true]
      · by_cases isClass : other.classes.contains (lookupName type) = true
        · simp only [isEnumeration, isClass, if_true, Bool.false_eq_true, if_false]
        · simp only [isEnumeration, isClass, Bool.false_eq_true, if_false]
  unfold KnownTypes.categoryOf classify
  rw [alike.resolve]
  by_cases isArray : type.isArray = true
  · simp only [isArray, if_true, resolved]
  · simp only [isArray, Bool.false_eq_true, if_false, resolved]

end Alike

/-- The order of scopes does not count for what types are known, if aliases are clear. -/
theorem alike_arranged (passes : List Pass) {table : Table} (clear : HasClearAliases table) :
    Alike (ofTable (table.arranged passes)) (ofTable table) where
  classes name := by
    have perm := table.flatMap_scopes_arranged passes fun scope => scope.classes.values
    exact (perm.map (·.name)).contains_eq
  enumerations name := by
    have perm := table.flatMap_scopes_arranged passes Scope.allEnumerations
    exact (perm.map (·.name)).contains_eq
  aliases name := by
    have perm := table.flatMap_scopes_arranged passes fun scope => scope.aliases.values
    refine (OrderedMap.get?_ofList_of_perm (perm.map _).symm ?_ name).symm
    intro name first second isFirst isSecond
    obtain ⟨element, isElement, sameFirst⟩ := List.mem_map.mp isFirst
    obtain ⟨other, isOther, sameSecond⟩ := List.mem_map.mp isSecond
    obtain ⟨rfl, rfl⟩ := Prod.mk.inj sameFirst
    obtain ⟨sameName, rfl⟩ := Prod.mk.inj sameSecond
    exact clear element isElement other isOther sameName.symm

end KnownTypes

/-! ### Plans -/

section Plans

variable {known other : KnownTypes}

/-- The plan of an overload only depends on the categories of its types. -/
theorem OverloadPlan.ofOverload_congr (options : PlanOptions) {isConstructor : Bool}
    {overload : Overload} (same : ∀ type ∈ plannedTypes isConstructor overload,
      known.categoryOf type = other.categoryOf type) (index : Nat) (successor : Option Nat) :
    ofOverload known options isConstructor index successor overload =
      ofOverload other options isConstructor index successor overload := by
  obtain ⟨ofParameters, ofResult⟩ := List.forall_mem_append.mp same
  have parameters : overload.parameters.mapIdx (ParameterPlan.ofParameter known options) =
      overload.parameters.mapIdx (ParameterPlan.ofParameter other options) := by
    refine List.mapIdx_eq_mapIdx_iff.mpr fun position inside => ?_
    have sameCategory := ofParameters _ (List.mem_map_of_mem (List.getElem_mem inside))
    rw [ParameterPlan.ofParameter, ParameterPlan.ofParameter, sameCategory]
  have returns : ReturnPlan.ofOverload known isConstructor overload =
      ReturnPlan.ofOverload other isConstructor overload := by
    unfold ReturnPlan.ofOverload
    by_cases noResult : (isConstructor || overload.returns.returnsNothing) = true
    · rcases Bool.or_eq_true_iff.mp noResult with isTrue | isTrue <;> simp only [isTrue, if_true]
    · rw [if_neg noResult, List.forall_mem_singleton] at ofResult
      rw [ofResult]
  rw [ofOverload, ofOverload, parameters, returns]

/-- The plan of a function only depends on the categories of its types. -/
theorem FunctionPlan.ofFunction_congr (options : PlanOptions) {function : Function}
    (same : ∀ overload ∈ function.overloads,
      ∀ type ∈ plannedTypes function.isConstructor overload,
        known.categoryOf type = other.categoryOf type) :
    FunctionPlan.ofFunction known options function =
      FunctionPlan.ofFunction other options function := by
  have overloads : overloadPlans known options function =
      overloadPlans other options function := by
    refine List.mapIdx_eq_mapIdx_iff.mpr fun index inside => ?_
    exact OverloadPlan.ofOverload_congr options (same _ (List.getElem_mem inside)) _ _
  simp only [ofFunction, overloads]

end Plans

/-! ### Fragments -/

section Fragments

variable {known other : KnownTypes} (same : known.categoryOf = other.categoryOf)

include same

/-- The fragments of a scope only depend on the categories of types. -/
theorem scopeFragments_congr (options : EmissionOptions) :
    scopeFragments known options = scopeFragments other options := by
  have functions : functionFragments known options = functionFragments other options := by
    funext part values function
    have plan : FunctionPlan.ofFunction known options.plan function =
        FunctionPlan.ofFunction other options.plan function :=
      FunctionPlan.ofFunction_congr _ fun _ _ type _ => congrFun same type
    rw [functionFragments, functionFragments, plan]
  have ofVariables : variableValues known = variableValues other := by
    funext values name type
    rw [variableValues, variableValues, same]
  have classes : classFragments known options = classFragments other options := by
    funext values self
    simp only [classFragments, classVariableValues, functions, ofVariables]
  funext outer scope
  simp only [scopeFragments, aliasValues, same, functions, ofVariables, classes]

end Fragments

/-! ### Files -/

/-- The fragments of a header's file when its scopes come in some order. -/
def fileFragmentsOf (known : KnownTypes) (options : EmissionOptions) (header : Header)
    (scopes : List Scope) : List Fragment :=
  let values := headerValues options header
  bracketed .file values
    ((scopes.filter fun scope => !scope.isEmpty).flatMap (scopeFragments known options values))

/-- The generated files when the scopes of each header come in some order. -/
def emitOrdered (templates : Templates) (options : EmissionOptions) (known : KnownTypes)
    (order : Header → List Scope) (table : Table) : List GeneratedFile :=
  table.enabledHeaders.map (fun header =>
    { path := outputPath options header.name
      contents := renderAll templates (fileFragmentsOf known options header (order header)) }) ++
    [{ path := outputPath options options.name
       contents := renderAll templates (moduleFragments options table.enabledHeaders) }]

theorem emit_eq (templates : Templates) (options : EmissionOptions) (table : Table) :
    emit templates options table =
      emitOrdered templates options (.ofTable table) (·.scopes.values) table := rfl

theorem emitOrdered_congr {known other : KnownTypes} (same : known.categoryOf = other.categoryOf)
    (templates : Templates) (options : EmissionOptions) (order : Header → List Scope)
    (table : Table) :
    emitOrdered templates options known order table =
      emitOrdered templates options other order table := by
  simp only [emitOrdered, fileFragmentsOf, scopeFragments_congr same]

theorem emitOrdered_congr_order {first second : Header → List Scope} {table : Table}
    (same : ∀ header ∈ table.enabledHeaders, first header = second header)
    (templates : Templates) (options : EmissionOptions) (known : KnownTypes) :
    emitOrdered templates options known first table =
      emitOrdered templates options known second table := by
  rw [emitOrdered, emitOrdered]
  congr 1
  refine List.map_congr_left fun header isHeader => ?_
  rw [same header isHeader]

/-- A table whose scopes stand in another order has the same files with their scopes in that
order. -/
theorem emit_arranged (passes : List Pass) (templates : Templates) (options : EmissionOptions)
    (table : Table) :
    emit templates options (table.arranged passes) =
      emitOrdered templates options (.ofTable (table.arranged passes))
        (fun header => (header.arranged passes).scopes.values) table := by
  have headers : (table.arranged passes).enabledHeaders =
      table.enabledHeaders.map (Header.arranged passes) := by
    show (table.headers.mapValues (Header.arranged passes)).values.filter _ = _
    rw [OrderedMap.values_mapValues, List.filter_map]
    rfl
  rw [emit_eq, emitOrdered, emitOrdered, headers, moduleFragments, moduleFragments, List.map_map,
    List.map_map]
  rfl

end Wrapper

end Bindery
