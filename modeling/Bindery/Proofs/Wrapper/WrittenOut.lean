/-
**Plans of functions whose types are aliases of pointers.**

A parameter may be declared with an alias that ends at a pointer to a class, or with that pointer
written out. Either way the parameter is an object, and its handle is needed. Null it takes for
stars that its own type shows, however, and not for stars behind an alias: unless an argument for a
parameter of the first kind is null, a call comes to the same end.

* `KnownTypes.StandsFor` — an alias of a pointer, and the pointer.
* `FunctionWritten` — a function with and without aliases of pointers.
* `ofFunction_writtenOut` — the plans of both.
-/

import Mathlib.Data.List.Forall2
import Bindery.Proofs.Wrapper.Aliases
import Bindery.Proofs.Wrapper.FirstMatch

namespace Bindery.Wrapper

open Symbols

/-! ### Aliases of pointers -/

/-- The aliases of a type end at a pointer to a class, which `written` spells. -/
structure KnownTypes.StandsFor (known : KnownTypes) (type written : TypeShape) : Prop where
  chain : ∃ steps last, steps ≤ maxAliasSteps ∧ known.AliasChain steps type last ∧
    last.base = written.base ∧ last.isPointer = true ∧ last.isArray = false
  isClass : known.classes.contains (lookupName written) = true
  isPointer : written.isPointer = true
  isPlain : written.isArray = false

/-- The type and its written form are classified alike. -/
theorem KnownTypes.StandsFor.classify {known : KnownTypes} {type written : TypeShape}
    (stands : known.StandsFor type written) : known.classify type = known.classify written := by
  obtain ⟨steps, last, inBound, chain, sameBase, isPointer, isPlain⟩ := stands.chain
  have noArray : type.isArray = false := by
    by_contra isArray
    rw [chain.isArray (Bool.not_eq_false _ |>.mp isArray)] at isPlain
    cases isPlain
  have settled : known.isSettled written = true := by
    rw [isSettled, stands.isClass, Bool.or_true, Bool.true_or]
  have stops : known.followAlias? written = none := by
    rw [followAlias?, settled, if_pos rfl]
  have alike : LooksLike last written := ⟨sameBase, isPointer.trans stands.isPointer.symm⟩
  refine (classify_eq_classify_iff ?_).mpr (noArray.trans stands.isPlain.symm)
  rw [chain.classifyElement inBound, (AliasChain.stop stops).classifyElement (Nat.zero_le _)]
  exact classifyResolved_congr sameBase alike.primitiveKind?

/-! ### Functions with pointers written out -/

section Written

variable (known : KnownTypes)

/-- A parameter, and the same one whose type may be written out. -/
structure ParameterWritten (parameter written : Parameter) : Prop where
  type : written.type = parameter.type ∨ known.StandsFor parameter.type written.type
  rest : written = { parameter with type := written.type }

/-- An overload, and the same one with some types of parameters written out. -/
structure OverloadWritten (overload written : Overload) : Prop where
  parameters : List.Forall₂ (ParameterWritten known) overload.parameters written.parameters
  rest : written = { overload with parameters := written.parameters }

/-- A function, and the same one with some types of parameters written out. -/
structure FunctionWritten (function written : Function) : Prop where
  overloads : List.Forall₂ (OverloadWritten known) function.overloads written.overloads
  rest : written = { function with overloads := written.overloads }

end Written

/-- The parameter at a position of an overload. -/
def declaredAt? (function : Function) (index position : Nat) : Option Parameter :=
  function.overloads[index]?.bind (·.parameters[position]?)

/-- The planned parameter at a position of an overload. -/
def FunctionPlan.parameterAt? (plan : FunctionPlan) (index position : Nat) :
    Option ParameterPlan :=
  plan.overloads[index]?.bind (·.parameters[position]?)

/-- Where null is given and could be taken, both types are pointers as they stand, or none is. -/
def ShowsPointers (options : PlanOptions) (function written : Function)
    (arguments : List Argument) : Prop :=
  options.nullablePointers = true → ∀ (index position : Nat) (parameter spelled : Parameter),
    declaredAt? function index position = some parameter →
    declaredAt? written index position = some spelled →
    arguments[position]? = some .null → parameter.type.isPointer = spelled.type.isPointer

/-! ### Parameters -/

namespace ParameterWritten

variable {known : KnownTypes} {parameter written : Parameter}
  (isWritten : ParameterWritten known parameter written)

include isWritten

theorem isOptional : written.isOptional = parameter.isOptional := by
  rw [isWritten.rest]
  rfl

theorem category : known.categoryOf parameter.type = known.categoryOf written.type := by
  obtain same | stands := isWritten.type
  · rw [same]
  · rw [KnownTypes.categoryOf, stands.classify, KnownTypes.categoryOf]

/-- Null is for the stars of the type as it stands. -/
theorem nullable (options : PlanOptions) (position : Nat) :
    (ParameterPlan.ofParameter known options position parameter).nullable =
      ((ParameterPlan.ofParameter known options position written).nullable &&
        parameter.type.isPointer) := by
  have pointers : parameter.type.isPointer =
      (written.type.isPointer && parameter.type.isPointer) := by
    obtain same | stands := isWritten.type
    · rw [same, Bool.and_self]
    · rw [stands.isPointer, Bool.true_and]
  simp only [ParameterPlan.ofParameter, isWritten.category]
  rw [pointers]
  ac_rfl

/-- The two parameters take the same arguments, and refuse others for the same reason. -/
theorem accepts {options : PlanOptions} {argument : Argument}
    (shown : options.nullablePointers = true → argument = .null →
      parameter.type.isPointer = written.type.isPointer) (position : Nat) :
    (ParameterPlan.ofParameter known options position parameter).accepts argument =
        (ParameterPlan.ofParameter known options position written).accepts argument ∧
      (ParameterPlan.ofParameter known options position parameter).refusal argument =
        (ParameterPlan.ofParameter known options position written).refusal argument := by
  cases argument with
  | value category =>
    simp only [ParameterPlan.accepts, ParameterPlan.refusal, ParameterPlan.ofParameter,
      isWritten.category, and_self]
  | null =>
    refine ⟨?_, rfl⟩
    simp only [ParameterPlan.accepts, ParameterPlan.requiresHandle, ParameterPlan.ofParameter,
      isWritten.category]
    cases mayTake : options.nullablePointers with
    | false => simp only [Bool.and_false]
    | true => rw [shown mayTake rfl]

end ParameterWritten

/-! ### Overloads -/

/-- Related lists are related at each place. -/
theorem rel_of_getElem? {α β : Type} {related : α → β → Prop} {firsts : List α} {seconds : List β}
    (all : List.Forall₂ related firsts seconds) {index : Nat} {first : α} {second : β}
    (isFirst : firsts[index]? = some first) (isSecond : seconds[index]? = some second) :
    related first second := by
  obtain ⟨inside, rfl⟩ := List.getElem?_eq_some_iff.mp isFirst
  obtain ⟨insideSecond, rfl⟩ := List.getElem?_eq_some_iff.mp isSecond
  exact all.get inside insideSecond

namespace OverloadPlan

/-- The first refusal depends on what each parameter says to its argument. -/
theorem firstRefusal?_congr {parameters others : List ParameterPlan} {arguments : List Argument}
    (sameLength : parameters.length = others.length)
    (same : ∀ (position : Nat) (parameter other : ParameterPlan) (argument : Argument),
      parameters[position]? = some parameter →
      others[position]? = some other → arguments[position]? = some argument →
        parameter.accepts argument = other.accepts argument ∧
          parameter.refusal argument = other.refusal argument) :
    firstRefusal? parameters arguments = firstRefusal? others arguments := by
  induction parameters generalizing others arguments with
  | nil =>
    cases others with
    | nil => rfl
    | cons => cases sameLength
  | cons parameter parameters ih =>
    cases others with
    | nil => cases sameLength
    | cons other others =>
      cases arguments with
      | nil => rfl
      | cons argument arguments =>
        obtain ⟨accepts, refusal⟩ := same 0 parameter other argument rfl rfl rfl
        rw [firstRefusal?, firstRefusal?, accepts, refusal,
          ih (Nat.succ.inj sameLength) fun position => same (position + 1)]

theorem check_congr {plan other : OverloadPlan} {arguments : List Argument}
    (required : plan.required = other.required) (total : plan.total = other.total)
    (refusal : firstRefusal? plan.parameters arguments =
      firstRefusal? other.parameters arguments) :
    plan.check arguments = other.check arguments := by
  rw [check, check, blocks, blocks, required, total, refusal]

end OverloadPlan

theorem OverloadWritten.requiredCount {known : KnownTypes} {overload written : Overload}
    (isWritten : OverloadWritten known overload written) :
    overload.requiredCount = written.requiredCount := by
  have counts : ∀ {parameters others : List Parameter},
      List.Forall₂ (ParameterWritten known) parameters others →
        (parameters.takeWhile fun parameter => !parameter.isOptional).length =
          (others.takeWhile fun parameter => !parameter.isOptional).length := by
    intro parameters others all
    induction all with
    | nil => rfl
    | @cons parameter other parameters others isWritten _ ih =>
      rw [List.takeWhile_cons, List.takeWhile_cons, isWritten.isOptional]
      cases parameter.isOptional with
      | true => rfl
      | false => exact congrArg (· + 1) ih
  exact counts isWritten.parameters

/-- An overload with written types takes the same arguments in the same block. -/
theorem OverloadWritten.check {known : KnownTypes} {options : PlanOptions}
    {overload written : Overload} (isWritten : OverloadWritten known overload written)
    {arguments : List Argument}
    (shown : options.nullablePointers = true → ∀ (position : Nat) (parameter spelled : Parameter),
      overload.parameters[position]? = some parameter →
      written.parameters[position]? = some spelled →
      arguments[position]? = some Argument.null →
        parameter.type.isPointer = spelled.type.isPointer)
    (isConstructor : Bool) (index : Nat) (successor : Option Nat) :
    (OverloadPlan.ofOverload known options isConstructor index successor overload).check arguments =
      (OverloadPlan.ofOverload known options isConstructor index successor written).check
        arguments := by
  have sameLength := isWritten.parameters.length_eq
  refine OverloadPlan.check_congr isWritten.requiredCount ?_ ?_
  · rw [total_ofOverload, total_ofOverload]
    exact sameLength
  · refine OverloadPlan.firstRefusal?_congr ?_ ?_
    · rw [OverloadPlan.ofOverload, OverloadPlan.ofOverload, List.length_mapIdx, List.length_mapIdx,
        sameLength]
    · intro position plan other argument planned plannedOther given
      rw [OverloadPlan.ofOverload, getElem?_plannedParameters] at planned plannedOther
      obtain ⟨parameter, declared, rfl⟩ := Option.map_eq_some_iff.mp planned
      obtain ⟨spelled, isSpelled, rfl⟩ := Option.map_eq_some_iff.mp plannedOther
      refine (rel_of_getElem? isWritten.parameters declared isSpelled).accepts ?_ position
      rintro mayTake rfl
      exact shown mayTake position parameter spelled declared isSpelled given

/-! ### Functions -/

namespace FunctionPlan

variable {plan other : FunctionPlan} {arguments : List Argument}

theorem dispatchFrom_of_ok {tried : List Nat} {index block : Nat}
    (inside : index < plan.overloads.length)
    (taken : (plan.overloads[index]).check arguments = .ok block) :
    plan.dispatchFrom arguments tried index inside = .ok ⟨index, block, tried ++ [index]⟩ := by
  rw [dispatchFrom]
  simp only [taken]

/-- Chains whose overloads answer alike come to the same end. -/
theorem dispatchFrom_congr (chain : plan.IsChain) (otherChain : other.IsChain)
    (sameLength : plan.overloads.length = other.overloads.length)
    (same : ∀ index (inside : index < plan.overloads.length)
      (insideOther : index < other.overloads.length),
      (plan.overloads[index]).check arguments = (other.overloads[index]).check arguments)
    {tried : List Nat} {index : Nat} (gap : Nat) (last : plan.overloads.length = index + gap + 1) :
    plan.dispatchFrom arguments tried index (by omega) =
      other.dispatchFrom arguments tried index (by omega) := by
  induction gap generalizing tried index with
  | zero =>
    have answers := same index (by omega) (by omega)
    cases outcome : (plan.overloads[index]).check arguments with
    | ok block =>
      rw [dispatchFrom_of_ok _ outcome, dispatchFrom_of_ok _ (answers ▸ outcome)]
    | error mismatch =>
      rw [dispatchFrom_last chain _ last outcome,
        dispatchFrom_last otherChain _ (sameLength ▸ last) (answers ▸ outcome)]
  | succ gap ih =>
    have answers := same index (by omega) (by omega)
    cases outcome : (plan.overloads[index]).check arguments with
    | ok block =>
      rw [dispatchFrom_of_ok _ outcome, dispatchFrom_of_ok _ (answers ▸ outcome)]
    | error mismatch =>
      rw [dispatchFrom_next chain (by omega) outcome,
        dispatchFrom_next otherChain (by omega) (answers ▸ outcome)]
      exact ih (by omega)

theorem dispatch_congr (chain : plan.IsChain) (otherChain : other.IsChain)
    (sameName : plan.name = other.name)
    (sameLength : plan.overloads.length = other.overloads.length)
    (same : ∀ index (inside : index < plan.overloads.length)
      (insideOther : index < other.overloads.length),
      (plan.overloads[index]).check arguments = (other.overloads[index]).check arguments) :
    plan.dispatch arguments = other.dispatch arguments := by
  rw [dispatch, dispatch, sameName]
  congr 1
  by_cases inside : 0 < plan.overloads.length
  · rw [dif_pos inside, dif_pos (sameLength ▸ inside)]
    exact dispatchFrom_congr chain otherChain sameLength same (plan.overloads.length - 1)
      (by omega)
  · rw [dif_neg inside, dif_neg (sameLength ▸ inside)]

theorem parameterAt?_ofFunction (known : KnownTypes) (options : PlanOptions) (function : Function)
    (index position : Nat) :
    (ofFunction known options function).parameterAt? index position =
      (declaredAt? function index position).map
        (ParameterPlan.ofParameter known options position) := by
  rw [parameterAt?, declaredAt?, show (ofFunction known options function).overloads =
    overloadPlans known options function from rfl, getElem?_overloadPlans]
  cases function.overloads[index]? with
  | none => rfl
  | some overload => exact getElem?_plannedParameters position

/-- The only overload of a function decides alone. -/
theorem dispatch_of_single {known : KnownTypes} {options : PlanOptions} {function : Function}
    {overload : Overload} (single : function.overloads = [overload]) :
    (ofFunction known options function).dispatch arguments =
      match (OverloadPlan.ofOverload known options function.isConstructor 0 none overload).check
        arguments with
      | .ok block => .ok ⟨0, block, [0]⟩
      | .error mismatch => .error ⟨function.name, [0], mismatch⟩ := by
  have lengthEq : (ofFunction known options function).overloads.length = 1 :=
    (length_overloadPlans known options function).trans (congrArg List.length single)
  have noOther : followingOverload function 0 = none := by
    rw [followingOverload, single]
    rfl
  have inside : 0 < (ofFunction known options function).overloads.length :=
    lengthEq ▸ Nat.one_pos
  have declared : function.overloads[0]? = some overload := by
    rw [single]
    rfl
  have planned := getElem_overloadPlans known options function declared inside
  rw [noOther] at planned
  rw [← planned, dispatch, dif_pos inside]
  cases outcome : ((ofFunction known options function).overloads[0]).check arguments with
  | ok block => exact congrArg (Except.mapError _) (dispatchFrom_of_ok inside outcome)
  | error mismatch =>
    exact congrArg (Except.mapError _)
      (dispatchFrom_last (isChain_ofFunction known options function) inside lengthEq outcome)

end FunctionPlan

namespace FunctionWritten

variable {known : KnownTypes} {options : PlanOptions} {function written : Function}
  (isWritten : FunctionWritten known function written)

include isWritten

theorem isConstructor : written.isConstructor = function.isConstructor := by
  rw [isWritten.rest]
  rfl

theorem followingOverload (index : Nat) :
    Wrapper.followingOverload function index = Wrapper.followingOverload written index := by
  rw [Wrapper.followingOverload, Wrapper.followingOverload, isWritten.overloads.length_eq]

theorem parameterWritten {index position : Nat} {parameter spelled : Parameter}
    (declared : declaredAt? function index position = some parameter)
    (isSpelled : declaredAt? written index position = some spelled) :
    ParameterWritten known parameter spelled := by
  obtain ⟨overload, isOverload, isParameter⟩ := Option.bind_eq_some_iff.mp declared
  obtain ⟨other, isOther, isOtherParameter⟩ := Option.bind_eq_some_iff.mp isSpelled
  have overloads := rel_of_getElem? isWritten.overloads isOverload isOther
  exact rel_of_getElem? overloads.parameters isParameter isOtherParameter

theorem dispatch {arguments : List Argument}
    (shown : ShowsPointers options function written arguments) :
    (FunctionPlan.ofFunction known options function).dispatch arguments =
      (FunctionPlan.ofFunction known options written).dispatch arguments := by
  have sameLength := isWritten.overloads.length_eq
  have planned := length_overloadPlans known options function
  have plannedWritten := length_overloadPlans known options written
  refine FunctionPlan.dispatch_congr (isChain_ofFunction known options function)
    (isChain_ofFunction known options written) ?_ (planned.trans (sameLength.trans
      plannedWritten.symm)) ?_
  · rw [isWritten.rest]
    rfl
  · intro index inside insideOther
    have declared := List.getElem?_eq_getElem (planned ▸ inside)
    have isSpelled := List.getElem?_eq_getElem (plannedWritten ▸ insideOther)
    rw [getElem_overloadPlans known options function declared inside,
      getElem_overloadPlans known options written isSpelled insideOther, isWritten.isConstructor,
      isWritten.followingOverload]
    refine (rel_of_getElem? isWritten.overloads declared isSpelled).check ?_ ..
    intro mayTake position parameter spelled isParameter isOther
    refine shown mayTake index position parameter spelled ?_ ?_
    · rw [declaredAt?, declared, Option.bind_some, isParameter]
    · rw [declaredAt?, isSpelled, Option.bind_some, isOther]

end FunctionWritten

/-- **Functions with and without aliases of pointers have plans with the same categories and
handles**, but null is taken only where a type shows its stars. Calls whose nulls are all for such
types, or for types that are no pointers at all, come to the same end. -/
theorem ofFunction_writtenOut (known : KnownTypes) (options : PlanOptions)
    {function written : Function} (isWritten : FunctionWritten known function written) :
    (∀ (index position : Nat) (parameter spelled : Parameter),
      declaredAt? function index position = some parameter →
      declaredAt? written index position = some spelled →
      ∃ plan other,
        (FunctionPlan.ofFunction known options function).parameterAt? index position = some plan ∧
        (FunctionPlan.ofFunction known options written).parameterAt? index position = some other ∧
        plan.category = other.category ∧ plan.requiresHandle = other.requiresHandle ∧
        plan.nullable = (other.nullable && parameter.type.isPointer)) ∧
      ∀ arguments, ShowsPointers options function written arguments →
        (FunctionPlan.ofFunction known options function).dispatch arguments =
          (FunctionPlan.ofFunction known options written).dispatch arguments := by
  refine ⟨?_, fun arguments shown => isWritten.dispatch shown⟩
  intro index position parameter spelled declared isSpelled
  have parameters := isWritten.parameterWritten declared isSpelled
  refine ⟨ParameterPlan.ofParameter known options position parameter,
    ParameterPlan.ofParameter known options position spelled, ?_, ?_, parameters.category, ?_,
    parameters.nullable options position⟩
  · rw [FunctionPlan.parameterAt?_ofFunction, declared, Option.map_some]
  · rw [FunctionPlan.parameterAt?_ofFunction, isSpelled, Option.map_some]
  · exact congrArg Category.isObject parameters.category

/-! ### A pointer with and without its star -/

/-- Types with an alias of a pointer. -/
def widgetTypes : KnownTypes where
  classes := ["Widget"]
  aliases := .ofList [("WidgetPtr", .parse "Widget*")]

/-- A function with one parameter of a type. -/
def showFunction (type : String) : Function where
  name := "show"
  overloads := [{ parameters := [{ name := "widget", type := .parse type }], function := "show" }]

theorem functionWritten_show :
    FunctionWritten widgetTypes (showFunction "WidgetPtr") (showFunction "Widget*") := by
  have chain : widgetTypes.AliasChain 1 (.parse "WidgetPtr")
      (KnownTypes.throughAlias (.parse "Widget*") (.parse "WidgetPtr")) :=
    .step (by decide) (.stop (by decide))
  have stands : widgetTypes.StandsFor (.parse "WidgetPtr") (.parse "Widget*") :=
    ⟨⟨1, _, by decide, chain, by decide, by decide, by decide⟩, by decide, by decide, by decide⟩
  exact ⟨.cons ⟨.cons ⟨.inr stands, rfl⟩ .nil, rfl⟩ .nil, rfl⟩

/-- Either way the parameter is an object, and a call with one comes to the same end. -/
theorem ofFunction_show :
    FunctionWritten widgetTypes (showFunction "WidgetPtr") (showFunction "Widget*") ∧
      (∃ plan other,
        (FunctionPlan.ofFunction widgetTypes {} (showFunction "WidgetPtr")).parameterAt? 0 0 =
          some plan ∧
        (FunctionPlan.ofFunction widgetTypes {} (showFunction "Widget*")).parameterAt? 0 0 =
          some other ∧
        plan.category = other.category ∧ plan.requiresHandle = other.requiresHandle ∧
        plan.nullable = (other.nullable && (TypeShape.parse "WidgetPtr").isPointer)) ∧
      (FunctionPlan.ofFunction widgetTypes {} (showFunction "WidgetPtr")).dispatch
          [.value .object] =
        (FunctionPlan.ofFunction widgetTypes {} (showFunction "Widget*")).dispatch
          [.value .object] := by
  obtain ⟨parameters, calls⟩ := ofFunction_writtenOut widgetTypes {} functionWritten_show
  refine ⟨functionWritten_show, parameters 0 0 _ _ rfl rfl, calls _ ?_⟩
  rintro - index (_ | position) parameter spelled - - given <;> cases given

/-- Null is taken by the pointer and refused by its alias. -/
theorem dispatch_show_null :
    FunctionWritten widgetTypes (showFunction "WidgetPtr") (showFunction "Widget*") ∧
      (FunctionPlan.ofFunction widgetTypes {} (showFunction "Widget*")).dispatch [.null] =
        .ok ⟨0, 0, [0]⟩ ∧
      (FunctionPlan.ofFunction widgetTypes {} (showFunction "WidgetPtr")).dispatch [.null] =
        .error ⟨"show", [0], .nullHandle 0⟩ := by
  refine ⟨functionWritten_show, ?_, ?_⟩
  · rw [FunctionPlan.dispatch_of_single rfl]
    rfl
  · rw [FunctionPlan.dispatch_of_single rfl]
    rfl

end Bindery.Wrapper
