/-
**Plans: how the overloads of a function are called.**

An overload has one block for each number of arguments that it accepts, from the required ones up
to all parameters; a block binds the first parameters and leaves the others to their defaults.
Overloads are tried in their order, and the last one turns a mismatch into an error.

* `FunctionPlan.ofFunction` — the plan of a function.
* `FunctionPlan.trials` — all blocks in the order in which they are tried.
* `unknownTypeWarnings` — the types of a function that nothing is known about.
-/

import Bindery.Warning
import Bindery.Wrapper.KnownTypes

namespace Bindery.Wrapper

open Symbols

/-- Whether a parameter that is a pointer to an object takes null. -/
structure PlanOptions where
  nullablePointers : Bool := true
deriving BEq, DecidableEq, Inhabited

/-! ## Parameters and results -/

/-- How the argument of a parameter is taken. -/
structure ParameterPlan where
  position : Nat
  name : String
  /-- The type as it is documented. -/
  declaration : String
  category : Category
  /-- Whether null is an argument. -/
  nullable : Bool
  default : String
deriving BEq, DecidableEq, Inhabited

namespace ParameterPlan

/-- Whether the argument is an object, whose handle is needed. -/
def requiresHandle (plan : ParameterPlan) : Bool := plan.category.isObject

/-- The plan of the parameter at a position. -/
def ofParameter (known : KnownTypes) (options : PlanOptions) (position : Nat)
    (parameter : Parameter) : ParameterPlan :=
  let category := known.categoryOf parameter.type
  { position
    name := parameter.name
    declaration := parameter.type.text
    category
    nullable := category.isObject && parameter.type.isPointer && options.nullablePointers
    default := parameter.default }

end ParameterPlan

/-- How the result of a call is given back. -/
structure ReturnPlan where
  /-- The type as it is documented. -/
  declaration : String
  category : Category
  /-- Whether the call fills the handle of a new object. -/
  isConstructor : Bool := false
deriving BEq, DecidableEq, Inhabited

/-- The plan of an overload's result. -/
def ReturnPlan.ofOverload (known : KnownTypes) (isConstructor : Bool) (overload : Overload) :
    ReturnPlan :=
  if isConstructor then { declaration := "", category := .object, isConstructor := true }
  else if overload.returns.returnsNothing then
    { declaration := overload.returns.text, category := .primitive .void }
  else
    { declaration := overload.returns.text, category := known.categoryOf overload.returns }

/-! ## Overloads -/

/-- A way to call an overload: its first parameters are bound to arguments. -/
structure Block where
  index : Nat
  argumentCount : Nat
deriving BEq, DecidableEq, Inhabited

/-- How an overload is called. -/
structure OverloadPlan where
  index : Nat
  /-- The least number of arguments. -/
  required : Nat
  parameters : List ParameterPlan
  returns : ReturnPlan
  flags : OverloadFlags
  description : String
  /-- The overload to try after a mismatch; without one a mismatch is an error. -/
  successor : Option Nat
deriving BEq, DecidableEq, Inhabited

namespace OverloadPlan

/-- The greatest number of arguments. -/
def total (plan : OverloadPlan) : Nat := plan.parameters.length

/-- Whether no overload is tried after this one. -/
def isLast (plan : OverloadPlan) : Bool := plan.successor.isNone

/-- One block for each number of arguments. -/
def blocks (plan : OverloadPlan) : List Block :=
  (List.range (plan.total + 1 - plan.required)).map fun index => ⟨index, plan.required + index⟩

/-- The plan of the overload at an index. -/
def ofOverload (known : KnownTypes) (options : PlanOptions) (isConstructor : Bool) (index : Nat)
    (successor : Option Nat) (overload : Overload) : OverloadPlan where
  index
  required := overload.requiredCount
  parameters := overload.parameters.mapIdx (ParameterPlan.ofParameter known options)
  returns := .ofOverload known isConstructor overload
  flags := overload.flags
  description := overload.description
  successor

end OverloadPlan

/-! ## Functions -/

/-- How a function is called. -/
structure FunctionPlan where
  name : String
  className : Option String
  header : String
  scope : String
  isConstructor : Bool
  overloads : List OverloadPlan
  /-- A mismatch leads on to a later overload of the plan, so that trying comes to an end. -/
  onward : ∀ (index : Nat) (overload : OverloadPlan) (next : Nat),
    overloads[index]? = some overload → overload.successor = some next →
      index < next ∧ next < overloads.length
deriving DecidableEq

/-- A block of an overload as a step of a call. -/
structure Trial where
  overload : Nat
  block : Block
  /-- The overload to try after a mismatch. -/
  successor : Option Nat
deriving BEq, DecidableEq, Inhabited

/-- The plans of the overloads of a function; each leads on to the next one. -/
def overloadPlans (known : KnownTypes) (options : PlanOptions) (function : Function) :
    List OverloadPlan :=
  function.overloads.mapIdx fun index =>
    .ofOverload known options function.isConstructor index
      (if index + 1 < function.overloads.length then some (index + 1) else none)

theorem overloadPlans_onward (known : KnownTypes) (options : PlanOptions) (function : Function)
    (index : Nat) (overload : OverloadPlan) (next : Nat)
    (found : (overloadPlans known options function)[index]? = some overload)
    (leads : overload.successor = some next) :
    index < next ∧ next < (overloadPlans known options function).length := by
  unfold overloadPlans at found ⊢
  rw [List.getElem?_mapIdx] at found
  obtain ⟨declared, -, rfl⟩ := Option.map_eq_some_iff.mp found
  simp only [OverloadPlan.ofOverload, Option.ite_none_right_eq_some, Option.some.injEq] at leads
  rw [List.length_mapIdx]
  omega

namespace FunctionPlan

/-- The plan of a function, with the place that it has. -/
def ofFunction (known : KnownTypes) (options : PlanOptions) (function : Function) :
    FunctionPlan where
  name := function.name
  className := function.className
  header := (function.place.map (·.header)).getD ""
  scope := (function.place.map (·.scope)).getD ""
  isConstructor := function.isConstructor
  overloads := overloadPlans known options function
  onward := overloadPlans_onward known options function

/-- How many blocks there are. -/
def blockCount (plan : FunctionPlan) : Nat :=
  (plan.overloads.flatMap (·.blocks)).length

/-- All blocks in the order in which they are tried. -/
def trials (plan : FunctionPlan) : List Trial :=
  plan.overloads.flatMap fun overload =>
    overload.blocks.map fun block => ⟨overload.index, block, overload.successor⟩

end FunctionPlan

/-! ## Unknown types -/

/-- The types whose categories the plan of an overload needs. -/
def plannedTypes (isConstructor : Bool) (overload : Overload) : List TypeShape :=
  overload.parameters.map (·.type) ++
    if isConstructor || overload.returns.returnsNothing then [] else [overload.returns]

/-- What a warning about a function calls it. -/
def functionContext (function : Function) : String :=
  (function.place.map (·.header)).getD "" ++ ": " ++
    (function.className.map (· ++ "::")).getD "" ++ function.name

/-- A warning for each type in a function that nothing is known about. -/
def unknownTypeWarnings (known : KnownTypes) (function : Function) : List Warning :=
  (function.overloads.flatMap (plannedTypes function.isConstructor)).filterMap fun type =>
    (known.classify type).unknown.map fun unknown =>
      .unknownType (functionContext function) unknown.name unknown.suggestion

end Bindery.Wrapper
