/-
**Calls: which overload and which block take given arguments.**

The first overload in order that accepts the number of arguments and each of them takes the call.
If there is none, the call is refused for the reason of the last overload.

* `OverloadPlan.check` — the block that takes some arguments, or the reason against them.
* `FunctionPlan.dispatch` — the block that takes a call.
-/

import Bindery.Wrapper.Plan

namespace Bindery.Wrapper

/-- An argument of a call. -/
inductive Argument where
  | value (category : Category)
  /-- The reference to no object. -/
  | null
deriving BEq, DecidableEq, Inhabited

/-- Why an overload does not take some arguments. -/
inductive Mismatch where
  | argumentCount (given required total : Nat)
  /-- An argument of a category that its parameter does not take. -/
  | argument (position : Nat) (expected : Category)
  /-- Null for a parameter that does not take it. -/
  | nullHandle (position : Nat)
deriving BEq, DecidableEq, Inhabited

/-- A mismatch in words; positions count from one there. -/
def Mismatch.message : Mismatch → String
  | argumentCount given required total =>
    toString given ++ " arguments given, " ++ toString required ++ " to " ++ toString total ++
      " accepted"
  | argument position expected =>
    "argument " ++ toString (position + 1) ++ " must be " ++ expected.name
  | nullHandle position => "argument " ++ toString (position + 1) ++ " may not be null"

/-! ## One overload -/

/-- Whether a parameter takes an argument. -/
def ParameterPlan.accepts (plan : ParameterPlan) : Argument → Bool
  | .value category => plan.category.accepts category
  | .null => plan.requiresHandle && plan.nullable

/-- The reason of a parameter against an argument. -/
def ParameterPlan.refusal (plan : ParameterPlan) : Argument → Mismatch
  | .value _ => .argument plan.position plan.category
  | .null => .nullHandle plan.position

namespace OverloadPlan

/-- The first reason of some parameters against the arguments for them. -/
def firstRefusal? : List ParameterPlan → List Argument → Option Mismatch
  | parameter :: parameters, argument :: arguments =>
    if parameter.accepts argument then firstRefusal? parameters arguments
    else some (parameter.refusal argument)
  | _, _ => none

/-- The block that takes some arguments, or the reason against them. -/
def check (plan : OverloadPlan) (arguments : List Argument) : Except Mismatch Nat :=
  match plan.blocks.find? fun block => block.argumentCount == arguments.length with
  | none => .error (.argumentCount arguments.length plan.required plan.total)
  | some block =>
    match firstRefusal? plan.parameters arguments with
    | some mismatch => .error mismatch
    | none => .ok block.index

end OverloadPlan

/-! ## All overloads -/

/-- The block that takes a call, with the overloads that were tried. -/
structure Resolution where
  overload : Nat
  block : Nat
  tried : List Nat
deriving BEq, DecidableEq, Inhabited

/-- A call that no overload takes, with the overloads that were tried and the reason of the last
one. -/
structure Refusal where
  function : String
  tried : List Nat
  mismatch : Mismatch
deriving BEq, DecidableEq, Inhabited

/-- A refusal in words. -/
def Refusal.message (refusal : Refusal) : String :=
  "no overload of `" ++ refusal.function ++ "` accepts these arguments: " ++
    refusal.mismatch.message

namespace FunctionPlan

/-- Tries the overload at an index and, as long as arguments do not match, its successors; given the
overloads tried before it. -/
def dispatchFrom (plan : FunctionPlan) (arguments : List Argument) (tried : List Nat) (index : Nat)
    (inside : index < plan.overloads.length) : Except (List Nat × Mismatch) Resolution :=
  let overload := plan.overloads[index]
  let tried := tried ++ [index]
  match overload.check arguments with
  | .ok block => .ok ⟨index, block, tried⟩
  | .error mismatch =>
    match leads : overload.successor with
    | none => .error (tried, mismatch)
    | some next =>
      have onward := plan.onward index overload next (List.getElem?_eq_getElem inside) leads
      dispatchFrom plan arguments tried next onward.2
termination_by plan.overloads.length - index

/-- The block that takes a call. -/
def dispatch (plan : FunctionPlan) (arguments : List Argument) : Except Refusal Resolution :=
  let outcome :=
    if inside : 0 < plan.overloads.length then plan.dispatchFrom arguments [] 0 inside
    else .error ([], .argumentCount arguments.length 0 0)
  outcome.mapError fun (tried, mismatch) => ⟨plan.name, tried, mismatch⟩

end FunctionPlan

end Bindery.Wrapper
