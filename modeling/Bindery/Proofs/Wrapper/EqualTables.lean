/-
**Equal tables classify types alike, as far as aliases are clear.**

Tables are equal when they hold the same elements, in whatever order. The classes and enumerations
of equal tables have the same names, and candidates for a suggestion are sorted. Of several aliases
with one name the last one in table order counts, however, so the order is seen through an alias
that stands for two types.

* `KnownTypes.IsClear` — no alias on the way from a type stands for two types.
* `KnownTypes.classify_of_isClear` — a type that is clear is classified alike by equal tables.
* `classification_of_beq` — so types are classified and functions planned alike.
-/

import Mathlib.Data.String.Basic
import Bindery.Proofs.Symbols.Equality
import Bindery.Proofs.Wrapper.Aliases
import Bindery.Proofs.Wrapper.ScopeOrder

namespace Bindery.Wrapper

open Symbols

namespace KnownTypes

/-! ### Clear types -/

/-- All aliases of the name stand for types that are looked up alike. -/
def HasOneTarget (table : Table) (name : String) : Prop :=
  ∀ first ∈ table.aliases, ∀ second ∈ table.aliases, first.name = name → second.name = name →
    LooksLike first.type second.type

/-- No alias on the first steps of the way from a type stands for two types. -/
def IsClearWithin (table : Table) : Nat → TypeShape → Prop
  | 0, _ => True
  | steps + 1, type =>
    (ofTable table).isSettled type = true ∨
      HasOneTarget table (lookupName type) ∧
        ∀ next ∈ (ofTable table).followAlias? type, IsClearWithin table steps next

/-- No alias on the way from a type stands for two types. -/
def IsClear (table : Table) (type : TypeShape) : Prop := IsClearWithin table maxAliasSteps type

/-- Where aliases of one name have one type, every type is clear. -/
theorem isClear_of_hasClearAliases {table : Table} (clear : HasClearAliases table)
    (type : TypeShape) : IsClear table type := by
  have oneTarget : ∀ name, HasOneTarget table name := by
    intro name first isFirst second isSecond ofFirst ofSecond
    rw [clear first isFirst second isSecond (ofFirst.trans ofSecond.symm)]
    exact ⟨rfl, rfl⟩
  have within : ∀ steps type, IsClearWithin table steps type := by
    intro steps
    induction steps with
    | zero => exact fun _ => trivial
    | succ steps ih => exact fun type => .inr ⟨oneTarget _, fun next _ => ih next⟩
  exact within maxAliasSteps type

/-! ### The last alias counts -/

/-- Of the aliases with one name the last one in table order counts. -/
theorem get?_aliases (table : Table) (name : String) :
    (ofTable table).aliases.get? name =
      ((table.aliases.filter fun known => known.name == name).getLast?).map (·.type) := by
  have types : under name (table.aliases.map fun known => (known.name, known.type)) =
      (table.aliases.filter fun known => known.name == name).map (·.type) := by
    rw [under, List.filter_map, List.map_map]
    rfl
  show (OrderedMap.ofList _).get? name = _
  rw [OrderedMap.ofList, OrderedMap.get?_foldl_insert, types, List.getLast?_map,
    OrderedMap.get?_empty, Option.or_none]

/-! ### Equal tables -/

/-- Sorted names stand in the order of code points. -/
theorem pairwise_mergeSort (names : List String) :
    (names.mergeSort fun first second => first ≤ second).Pairwise (· ≤ ·) := by
  have ordered : (names.mergeSort fun first second => first ≤ second).Pairwise
      fun first second => decide (first ≤ second) = true :=
    List.pairwise_mergeSort (fun _ _ _ => by simpa using String.le_trans)
      (fun first second => by simpa using String.le_total first second) names
  simpa using ordered

/-- Names are sorted in one way only. -/
theorem mergeSort_eq_of_perm {names others : List String} (perm : names.Perm others) :
    (names.mergeSort fun first second => first ≤ second) =
      others.mergeSort fun first second => first ≤ second := by
  refine List.Perm.eq_of_pairwise (fun _ _ _ _ => String.le_antisymm) (pairwise_mergeSort names)
    (pairwise_mergeSort others) ?_
  exact ((names.mergeSort_perm _).trans perm).trans (others.mergeSort_perm _).symm

section Equal

variable {table other : Table} (same : (table == other) = true)

include same

theorem contains_classes_of_beq (name : String) :
    (ofTable table).classes.contains name = (ofTable other).classes.contains name :=
  (Table.classNames_perm_of_beq same).contains_eq

theorem contains_enumerations_of_beq (name : String) :
    (ofTable table).enumerations.contains name = (ofTable other).enumerations.contains name :=
  (Table.enumerationNames_perm_of_beq same).contains_eq

/-- Candidates are sorted, so equal tables suggest the same. -/
theorem suggestion?_of_beq (name : String) :
    (ofTable table).suggestion? name = (ofTable other).suggestion? name := by
  have sorted : (ofTable table).classes.mergeSort (fun first second => first ≤ second) =
      (ofTable other).classes.mergeSort fun first second => first ≤ second :=
    mergeSort_eq_of_perm (Table.classNames_perm_of_beq same)
  rw [suggestion?, suggestion?, sorted]

theorem isSettled_of_beq {first second : TypeShape} (alike : LooksLike first second) :
    (ofTable table).isSettled first = (ofTable other).isSettled second := by
  rw [isSettled, isSettled, contains_classes_of_beq same, contains_enumerations_of_beq same,
    lookupName_congr alike.base, isSome_primitiveKind?_congr alike.base]

/-- The targets of clear aliases in equal tables are looked up alike. -/
theorem get?_aliases_of_beq {name : String} (oneTarget : HasOneTarget table name) :
    Option.Rel LooksLike ((ofTable table).aliases.get? name)
      ((ofTable other).aliases.get? name) := by
  refine OrderedMap.rel_get?_ofList_of_perm (Table.aliases_perm_of_beq same) ?_
  intro first second isFirst isSecond
  obtain ⟨declared, isDeclared, sameFirst⟩ := List.mem_map.mp isFirst
  obtain ⟨further, isFurther, sameSecond⟩ := List.mem_map.mp isSecond
  obtain ⟨isName, rfl⟩ := Prod.mk.inj sameFirst
  obtain ⟨isSameName, rfl⟩ := Prod.mk.inj sameSecond
  exact oneTarget declared isDeclared further isFurther isName isSameName

/-- Types that are looked up alike are followed to types that are looked up alike. -/
theorem followAlias?_of_beq {first second : TypeShape} (alike : LooksLike first second)
    (oneTarget : (ofTable table).isSettled first = true ∨ HasOneTarget table (lookupName first)) :
    Option.Rel LooksLike ((ofTable table).followAlias? first)
      ((ofTable other).followAlias? second) := by
  unfold followAlias?
  rw [← isSettled_of_beq same alike]
  cases settled : (ofTable table).isSettled first with
  | true => exact .none
  | false =>
    have isOne := oneTarget.resolve_left (settled ▸ Bool.false_ne_true)
    rw [← lookupName_congr alike.base]
    have targets := get?_aliases_of_beq same isOne
    generalize (ofTable table).aliases.get? (lookupName first) = found,
      (ofTable other).aliases.get? (lookupName first) = foundOther at targets
    cases targets with
    | none => exact .none
    | @some target further alikeTargets =>
      have pointers : (throughAlias target first).isPointer =
          (throughAlias further second).isPointer := by
        rw [isPointer_throughAlias, isPointer_throughAlias, alikeTargets.isPointer,
          alike.isPointer]
      have next : LooksLike (throughAlias target first) (throughAlias further second) :=
        ⟨alikeTargets.base, pointers⟩
      have sameEnd : (target.isEmpty || target.base == first.base) =
          (further.isEmpty || further.base == second.base) := by
        rw [TypeShape.isEmpty, TypeShape.isEmpty, alikeTargets.base, alike.base]
      simp only [sameEnd, Bool.false_eq_true, if_false]
      cases further.isEmpty || further.base == second.base with
      | true => exact .none
      | false => exact .some next

/-- Along clear aliases types stay alike. -/
theorem resolveWithin_of_beq {steps : Nat} {first second : TypeShape}
    (alike : LooksLike first second) (clear : IsClearWithin table steps first) :
    LooksLike ((ofTable table).resolveWithin steps first)
      ((ofTable other).resolveWithin steps second) := by
  induction steps generalizing first second with
  | zero => exact alike
  | succ steps ih =>
    have followed := followAlias?_of_beq same alike (clear.imp_right (·.1))
    have later : ∀ next ∈ (ofTable table).followAlias? first, IsClearWithin table steps next := by
      intro next isNext
      obtain ⟨_, unsettled, _⟩ := followAlias?_eq_some_iff.mp isNext
      exact (clear.resolve_left (unsettled ▸ Bool.false_ne_true)).2 next isNext
    rw [resolveWithin, resolveWithin]
    generalize (ofTable table).followAlias? first = next,
      (ofTable other).followAlias? second = nextOther at followed later
    cases followed with
    | none => exact alike
    | some alikeNext => exact ih alikeNext (later _ rfl)

theorem classifyResolved_of_beq {first second : TypeShape} (alike : LooksLike first second) :
    (ofTable table).classifyResolved first = (ofTable other).classifyResolved second := by
  simp only [classifyResolved, alike.primitiveKind?, lookupName_congr alike.base, alike.base,
    contains_classes_of_beq same, contains_enumerations_of_beq same, suggestion?_of_beq same]

/-- **A clear type is classified alike by equal tables.** -/
theorem classify_of_isClear {type : TypeShape} (clear : IsClear table type) :
    (ofTable table).classify type = (ofTable other).classify type := by
  have element : (ofTable table).classifyElement type = (ofTable other).classifyElement type :=
    classifyResolved_of_beq same (resolveWithin_of_beq same ⟨rfl, rfl⟩ clear)
  rw [classify_eq, classify_eq, element]

end Equal

end KnownTypes

/-! ### Plans -/

/-- All types whose categories the plan of a function needs are clear. -/
def HasClearTypes (table : Table) (function : Function) : Prop :=
  ∀ overload ∈ function.overloads, ∀ type ∈ plannedTypes function.isConstructor overload,
    KnownTypes.IsClear table type

/-- **Equal tables classify types and plan functions alike, as far as aliases are clear.** Which of
several aliases with one name counts is a matter of order: it is the last one of the table. -/
theorem classification_of_beq {table other : Table} (same : (table == other) = true) :
    (∀ type, KnownTypes.IsClear table type →
      (KnownTypes.ofTable table).classify type = (KnownTypes.ofTable other).classify type) ∧
    (∀ options function, HasClearTypes table function →
      FunctionPlan.ofFunction (.ofTable table) options function =
          FunctionPlan.ofFunction (.ofTable other) options function ∧
        unknownTypeWarnings (.ofTable table) function =
          unknownTypeWarnings (.ofTable other) function) ∧
    ∀ (table : Table) (name : String), (KnownTypes.ofTable table).aliases.get? name =
      ((table.aliases.filter fun known => known.name == name).getLast?).map (·.type) := by
  refine ⟨fun type clear => KnownTypes.classify_of_isClear same clear,
    fun options function clear => ⟨?_, ?_⟩, KnownTypes.get?_aliases⟩
  · refine FunctionPlan.ofFunction_congr options fun overload isOverload type isType => ?_
    exact congrArg Classification.category
      (KnownTypes.classify_of_isClear same (clear overload isOverload type isType))
  · refine List.filterMap_congr fun type isType => ?_
    obtain ⟨overload, isOverload, isPlanned⟩ := List.mem_flatMap.mp isType
    rw [KnownTypes.classify_of_isClear same (clear overload isOverload type isPlanned)]

/-- A table of aliases in the scopes of one header. -/
def aliasTable (aliases : List (String × String × String)) : Table :=
  aliases.foldl (fun table (scope, name, target) =>
    table.addAlias { name, type := .parse target } "units.h" scope) .empty

/-- Aliases of two names, in either order. -/
theorem classification_of_beq_units :
    let table := aliasTable [("base", "Id", "int"), ("si", "Metre", "double")]
    let other := aliasTable [("si", "Metre", "double"), ("base", "Id", "int")]
    let function : Function :=
      { name := "length", overloads := [{ returns := .parse "Metre"
                                          parameters := [⟨"id", .parse "const Id&", ""⟩] }] }
    (table == other) = true ∧ table.aliases ≠ other.aliases ∧
      (KnownTypes.ofTable table).classify (.parse "const Id&") =
        (KnownTypes.ofTable other).classify (.parse "const Id&") ∧
      (KnownTypes.ofTable table).categoryOf (.parse "const Id&") = .primitive .integer ∧
      FunctionPlan.ofFunction (.ofTable table) {} function =
        FunctionPlan.ofFunction (.ofTable other) {} function := by
  intro table other function
  have same : (table == other) = true := by decide +kernel
  have clear : HasClearAliases table := by
    show ∀ first ∈ table.aliases, ∀ second ∈ table.aliases, _ → _
    decide +kernel
  obtain ⟨classified, planned, -⟩ := classification_of_beq same
  refine ⟨same, by decide +kernel, ?_, by decide +kernel, ?_⟩
  · exact classified _ (KnownTypes.isClear_of_hasClearAliases clear _)
  · exact (planned {} function fun _ _ type _ =>
      KnownTypes.isClear_of_hasClearAliases clear type).1

/-- Of two types behind one name, the order of the table decides. -/
theorem classification_depends_on_order :
    ¬ ∀ table other : Table, (table == other) = true → ∀ type,
      (KnownTypes.ofTable table).classify type = (KnownTypes.ofTable other).classify type := by
  intro classified
  have same := classified (aliasTable [("base", "Id", "int"), ("si", "Id", "double")])
    (aliasTable [("si", "Id", "double"), ("base", "Id", "int")]) (by decide +kernel) (.parse "Id")
  exact absurd same (by decide +kernel)

end Bindery.Wrapper
