/-
**Overloads put together.**

* `Overload.addParameters_eq_ok` — an overload whose parameters were added one after the other was
  built, for the same function.
* `Function.foldl_addOverload` — a function has the overloads that were added in their order, and
  the first description among them that is not empty.
-/

import Bindery.Proofs.Symbols.Built

namespace Bindery.Symbols

/-! ### Parameters -/

namespace Overload

/-- What adding parameters makes of a built overload. -/
theorem addParameters_eq_ok {overload longer : Overload} {parameters : List Parameter}
    {policy : DuplicatePolicy} (built : overload.Built)
    (read : ∀ parameter ∈ parameters, parameter.type.IsReadParameter)
    (added : overload.addParameters parameters policy = .ok longer) :
    longer.Built ∧ longer.function = overload.function := by
  induction parameters generalizing overload with
  | nil =>
    obtain rfl := Except.ok.inj added
    exact ⟨built, rfl⟩
  | cons parameter rest ih =>
    rw [List.forall_mem_cons] at read
    rw [addParameters, List.foldlM_cons] at added
    cases isAdded : overload.addParameter parameter policy with
    | error duplicate =>
      rw [isAdded] at added
      cases added
    | ok result =>
      obtain ⟨grown, isNew⟩ := result
      rw [isAdded] at added
      have ofRest := ih (.addParameter built parameter read.1 policy isNew isAdded) read.2 added
      have sameFunction : grown.function = overload.function := by
        rcases addParameter_eq_ok isAdded with rfl | ⟨_, rfl⟩ <;> rfl
      exact ⟨ofRest.1, ofRest.2.trans sameFunction⟩

/-- A parameter that is refused is reported for the function of the overload. -/
theorem function_of_addParameters_eq_error {overload : Overload} {parameters : List Parameter}
    {policy : DuplicatePolicy} {duplicate : DuplicateParameter}
    (refused : overload.addParameters parameters policy = .error duplicate) :
    duplicate.function = overload.function := by
  induction parameters generalizing overload with
  | nil => cases refused
  | cons parameter rest ih =>
    rw [addParameters, List.foldlM_cons] at refused
    cases isAdded : overload.addParameter parameter policy with
    | error other =>
      rw [isAdded] at refused
      obtain rfl := Except.error.inj refused
      unfold addParameter at isAdded
      split at isAdded
      · cases policy with
        | ignore => cases isAdded
        | reject =>
          obtain rfl := Except.error.inj isAdded
          rfl
      · cases isAdded
    | ok result =>
      obtain ⟨grown, isNew⟩ := result
      rw [isAdded] at refused
      refine (ih refused).trans ?_
      rcases addParameter_eq_ok isAdded with rfl | ⟨_, rfl⟩ <;> rfl

end Overload

/-! ### Functions -/

/-- The first description of an overload that is not empty. -/
def firstDescription (overloads : List Overload) : String :=
  ((overloads.map Overload.description).find? (!·.isEmpty)).getD ""

namespace Function

/-- Overloads stand in the order in which they were added. -/
theorem foldl_addOverload (function : Function) (overloads : List Overload) :
    overloads.foldl addOverload function = { function with
      overloads := function.overloads ++
        overloads.map fun overload => { overload with function := function.name }
      description :=
        if function.description.isEmpty then firstDescription overloads
        else function.description } := by
  induction overloads generalizing function with
  | nil =>
    by_cases isEmpty : function.description = ""
    · simp [firstDescription, ← isEmpty]
    · simp [isEmpty]
  | cons overload rest ih =>
    rw [List.foldl_cons, ih]
    by_cases isEmpty : function.description = ""
    · by_cases isPlain : overload.description = "" <;>
        simp [addOverload, firstDescription, isEmpty, isPlain]
    · simp [addOverload, isEmpty]

/-- The function that overloads of one name make. -/
theorem foldl_addOverload_of_own {name : String} {overloads : List Overload}
    (own : ∀ overload ∈ overloads, overload.function = name) :
    overloads.foldl addOverload { name } =
      { name, overloads, description := firstDescription overloads } := by
  have unchanged : overloads.map (fun overload => { overload with function := name }) =
      overloads := by
    refine (List.map_congr_left fun overload isOverload => ?_).trans (List.map_id _)
    rw [← own overload isOverload]
    rfl
  rw [foldl_addOverload]
  simp [unchanged]

/-- A sound function has the first description of its overloads that is not empty. -/
theorem IsSound.description {function : Function} (sound : function.IsSound) :
    function.description = firstDescription function.overloads := by
  have rebuilt := sound.rebuilt
  rw [foldl_addOverload_of_own fun overload isOverload =>
    (sound.overloads overload isOverload).function] at rebuilt
  exact (congrArg Function.description rebuilt).symm

end Function

end Bindery.Symbols
