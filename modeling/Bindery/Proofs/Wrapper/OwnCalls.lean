/-
**Every block of a plan can be called.**

A call that is made for a block has one argument for each parameter that the block binds: a value of
the planned category, or null where the parameter takes it. The overload of the block takes such a
call, since every category accepts itself. The call may still go elsewhere, for an earlier overload
may take it too, but never to a later one and never to nothing.

* `Category.accepts_self` — a category accepts itself, however deep its arrays are nested.
* `takes_callFor` — an overload takes the calls that are made for its blocks.
* `dispatch_callFor` — where such a call goes.
-/

import Mathlib.Data.Nat.Find
import Bindery.Proofs.Wrapper.FirstMatch

namespace Bindery.Wrapper

open Symbols

/-! ### Arguments of their parameters -/

namespace Category

/-- A parameter takes the values of its own category. -/
theorem accepts_self (category : Category) : category.accepts category = true := by
  induction category with
  | primitive kind => cases kind <;> rfl
  | enumeration => rfl
  | object => rfl
  | array element ih => exact ih

end Category

namespace ParameterPlan

/-- The argument of a call: null if that is asked for and taken, otherwise a value of the planned
category. -/
def ownArgument (plan : ParameterPlan) (isNull : Bool) : Argument :=
  if isNull && plan.nullable then .null else .value plan.category

/-- Only objects are planned to take null. -/
theorem requiresHandle_of_nullable {known : KnownTypes} {options : PlanOptions} {position : Nat}
    {parameter : Parameter} (nullable : (ofParameter known options position parameter).nullable) :
    (ofParameter known options position parameter).requiresHandle = true := by
  simp only [ofParameter, Bool.and_eq_true] at nullable
  exact nullable.1.1

/-- A parameter takes its own argument. -/
theorem accepts_ownArgument (known : KnownTypes) (options : PlanOptions) (position : Nat)
    (parameter : Parameter) (isNull : Bool) :
    let plan := ofParameter known options position parameter
    plan.accepts (plan.ownArgument isNull) = true := by
  intro plan
  unfold ownArgument
  split
  next isTaken =>
    obtain ⟨-, nullable⟩ := (Bool.and_eq_true ..).mp isTaken
    rw [accepts, requiresHandle_of_nullable nullable, nullable]
    rfl
  next => exact plan.category.accepts_self

end ParameterPlan

/-! ### Calls for a block -/

/-- A call with so many arguments, each made for its parameter; `isNull` says at which positions
null is asked for. -/
def OverloadPlan.callFor (plan : OverloadPlan) (count : Nat) (isNull : Nat → Bool) :
    List Argument :=
  (plan.parameters.take count).mapIdx fun position parameter =>
    parameter.ownArgument (isNull position)

section Calls

variable {known : KnownTypes} {options : PlanOptions} {function : Function} {overload : Overload}
  {isConstructor : Bool} {index count : Nat} {successor : Option Nat}

/-- A call for a block has as many arguments as the block binds. -/
theorem length_callFor (notTooMany : count ≤ overload.totalCount) (isNull : Nat → Bool) :
    ((OverloadPlan.ofOverload known options isConstructor index successor overload).callFor count
      isNull).length = count := by
  have total := total_ofOverload known options isConstructor index successor overload
  rw [OverloadPlan.callFor, List.length_mapIdx, List.length_take]
  exact Nat.min_eq_left (Nat.le_trans notTooMany (Nat.le_of_eq total.symm))

/-- An overload takes the calls for its blocks. -/
theorem takes_callFor (enough : overload.requiredCount ≤ count)
    (notTooMany : count ≤ overload.totalCount) (isNull : Nat → Bool) :
    Takes known options overload
      ((OverloadPlan.ofOverload known options isConstructor index successor overload).callFor count
        isNull) where
  enough := (length_callFor notTooMany isNull).symm ▸ enough
  notTooMany := (length_callFor notTooMany isNull).symm ▸ notTooMany
  each := by
    intro position parameter argument declared given
    simp only [OverloadPlan.callFor, OverloadPlan.ofOverload, List.getElem?_mapIdx,
      List.getElem?_take] at given
    split at given
    next =>
      rw [declared, Option.map_some, Option.map_some, Option.some.injEq] at given
      subst given
      exact ParameterPlan.accepts_ownArgument known options position parameter (isNull position)
    next => cases given

/-- A call that some overload takes goes to the first one that takes it. -/
theorem exists_dispatch_of_takes {arguments : List Argument}
    (declared : function.overloads[index]? = some overload)
    (takes : Takes known options overload arguments) :
    ∃ first ≤ index, ∃ block,
      (FunctionPlan.ofFunction known options function).dispatch arguments =
        .ok ⟨first, block, List.range (first + 1)⟩ := by
  classical
  let taken (i : Nat) : Prop :=
    ∃ other, function.overloads[i]? = some other ∧ Takes known options other arguments
  have isTaken : ∃ i, taken i := ⟨index, overload, declared, takes⟩
  obtain ⟨other, isOther, otherTakes⟩ := Nat.find_spec isTaken
  refine ⟨Nat.find isTaken, Nat.find_min' isTaken ⟨overload, declared, takes⟩, _,
    dispatch_of_takes isOther otherTakes fun earlier isEarlier before isBefore beforeTakes => ?_⟩
  exact Nat.find_min isTaken isEarlier ⟨before, isBefore, beforeTakes⟩

end Calls

/-- **Every block of a plan can be called.** A call for the block of a trial has as many arguments
as the block binds, and it is resolved to the overload of the trial or to an earlier one; it goes to
the block itself if no earlier overload takes it. -/
theorem dispatch_callFor (known : KnownTypes) (options : PlanOptions) (function : Function)
    {trial : Trial} (isTrial : trial ∈ (FunctionPlan.ofFunction known options function).trials) :
    ∃ planned,
      (FunctionPlan.ofFunction known options function).overloads[trial.overload]? = some planned ∧
      ∀ isNull : Nat → Bool,
        let call := planned.callFor trial.block.argumentCount isNull
        call.length = trial.block.argumentCount ∧
        (∃ first ≤ trial.overload, ∃ block,
          (FunctionPlan.ofFunction known options function).dispatch call =
            .ok ⟨first, block, List.range (first + 1)⟩) ∧
        ((∀ earlier < trial.overload, ∀ other, function.overloads[earlier]? = some other →
            ¬ Takes known options other call) →
          trial.block.index = trial.block.argumentCount - planned.required ∧
            (FunctionPlan.ofFunction known options function).dispatch call =
              .ok ⟨trial.overload, trial.block.index, List.range (trial.overload + 1)⟩) := by
  obtain ⟨overload, declared, enough, notTooMany, isOffset, -⟩ :=
    ((listsTrials_ofFunction known options function).lists trial).mp isTrial
  have isPlanned := getElem?_overloadPlans known options function trial.overload
  rw [declared, Option.map_some] at isPlanned
  refine ⟨_, isPlanned, fun isNull => ?_⟩
  intro call
  have isLong : call.length = trial.block.argumentCount := length_callFor notTooMany isNull
  have takes : Takes known options overload call := takes_callFor enough notTooMany isNull
  refine ⟨isLong, exists_dispatch_of_takes declared takes, fun noEarlier => ⟨isOffset, ?_⟩⟩
  rw [dispatch_of_takes declared takes noEarlier, isLong, isOffset]

/-- A function whose second overload takes a widget or null, and a number that may be left out. -/
def placeFunction : Function where
  name := "place"
  overloads :=
    [{ parameters := [{ name := "at", type := .parse "int[]" }], function := "place" },
      { parameters := [{ name := "widget", type := .parse "Widget*" },
          { name := "depth", type := .parse "int", default := "0" }], function := "place" }]

/-- The block that binds the widget alone is called with null, which no array of numbers takes. -/
theorem dispatch_callFor_place :
    let plan := FunctionPlan.ofFunction { classes := ["Widget"] } {} placeFunction
    (⟨1, ⟨0, 1⟩, none⟩ : Trial) ∈ plan.trials ∧ plan.dispatch [.null] = .ok ⟨1, 0, [0, 1]⟩ := by
  intro plan
  have isTrial : (⟨1, ⟨0, 1⟩, none⟩ : Trial) ∈ plan.trials :=
    ((listsTrials_ofFunction ..).lists _).mpr
      ⟨_, rfl, by decide, by decide, by decide, by decide⟩
  obtain ⟨planned, isPlanned, calls⟩ :=
    dispatch_callFor { classes := ["Widget"] } {} placeFunction isTrial
  have isCall : planned.callFor 1 (fun _ => true) = [.null] := by
    obtain rfl := Option.some.inj isPlanned
    decide
  obtain ⟨-, -, resolves⟩ := calls fun _ => true
  simp only [isCall] at resolves
  refine ⟨isTrial, (resolves ?_).2⟩
  intro earlier isEarlier other isOther takes
  obtain rfl : earlier = 0 := by omega
  obtain rfl := Option.some.inj isOther
  exact absurd (takes.each 0 _ .null rfl rfl) (by decide)

end Bindery.Wrapper
