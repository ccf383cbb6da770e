/-
**Dispatch finds the first overload that takes the arguments.**

The plan of a function is a chain: each overload leads on to the next one, and only the last one
turns a mismatch into an error. Against it stand two declarative readings of the documentation:

* `ListsTrials` — the trials are the pairs of an overload and an accepted number of arguments, each
  of them once, by overload and then by number of arguments.
* `FirstMatch` — a call goes to the first overload that `Takes` the arguments; without one it is
  refused for the reason of the last overload (`Refuses`).

`dispatchFrom_reaches` and `dispatchFrom_exhausts` follow the chain from any overload on;
`listsTrials_ofFunction`, `dispatch_of_takes` and `dispatch_of_noneTakes` say the same of the plan
of a function.
-/

import Bindery.Wrapper.Dispatch

namespace Bindery.Wrapper

open Symbols

/-! ### The two readings -/

section Readings

variable (known : KnownTypes) (options : PlanOptions) (function : Function)

/-- The overload takes the arguments: it accepts their number, and each of them where it stands. -/
structure Takes (overload : Overload) (arguments : List Argument) : Prop where
  enough : overload.requiredCount ≤ arguments.length
  notTooMany : arguments.length ≤ overload.totalCount
  each : ∀ (position : Nat) (parameter : Parameter) (argument : Argument),
    overload.parameters[position]? = some parameter → arguments[position]? = some argument →
      (ParameterPlan.ofParameter known options position parameter).accepts argument = true

/-- The first argument that its parameter does not accept stands at the position. -/
structure RefusedAt (overload : Overload) (arguments : List Argument) (position : Nat)
    (parameter : Parameter) (argument : Argument) : Prop where
  declared : overload.parameters[position]? = some parameter
  given : arguments[position]? = some argument
  refused : (ParameterPlan.ofParameter known options position parameter).accepts argument = false
  first : ∀ (earlier : Nat) (other : Parameter) (before : Argument), earlier < position →
    overload.parameters[earlier]? = some other → arguments[earlier]? = some before →
      (ParameterPlan.ofParameter known options earlier other).accepts before = true

/-- The reason of an overload against the arguments: their number, or the first one refused. -/
inductive Refuses (overload : Overload) (arguments : List Argument) : Mismatch → Prop
  | count (outside : arguments.length < overload.requiredCount ∨
        overload.totalCount < arguments.length) :
      Refuses overload arguments
        (.argumentCount arguments.length overload.requiredCount overload.totalCount)
  | null (position : Nat) (parameter : Parameter)
      (enough : overload.requiredCount ≤ arguments.length)
      (notTooMany : arguments.length ≤ overload.totalCount)
      (refused : RefusedAt known options overload arguments position parameter .null) :
      Refuses overload arguments (.nullHandle position)
  | value (position : Nat) (parameter : Parameter) (category : Category)
      (enough : overload.requiredCount ≤ arguments.length)
      (notTooMany : arguments.length ≤ overload.totalCount)
      (refused : RefusedAt known options overload arguments position parameter (.value category)) :
      Refuses overload arguments (.argument position (known.categoryOf parameter.type))

/-- The overload that follows the one at an index. -/
def followingOverload (index : Nat) : Option Nat :=
  if index + 1 < function.overloads.length then some (index + 1) else none

/-- A trial of an earlier overload, or of the same one with fewer arguments. -/
def Trial.Before (first second : Trial) : Prop :=
  first.overload < second.overload ∨
    first.overload = second.overload ∧ first.block.argumentCount < second.block.argumentCount

/-- The trials are the overloads with the numbers of arguments that they accept, in order. -/
structure ListsTrials (trials : List Trial) : Prop where
  lists : ∀ trial : Trial, trial ∈ trials ↔
    ∃ overload, function.overloads[trial.overload]? = some overload ∧
      overload.requiredCount ≤ trial.block.argumentCount ∧
      trial.block.argumentCount ≤ overload.totalCount ∧
      trial.block.index = trial.block.argumentCount - overload.requiredCount ∧
      trial.successor = followingOverload function trial.overload
  ordered : trials.Pairwise Trial.Before

/-- A trial with as many arguments as there are, whose overload takes them. -/
def Trial.Succeeds (arguments : List Argument) (trial : Trial) : Prop :=
  trial.block.argumentCount = arguments.length ∧
    ∃ overload, function.overloads[trial.overload]? = some overload ∧
      Takes known options overload arguments

/-- The outcome of a call is the first trial that succeeds, or the reason of the last overload. -/
structure FirstMatch (trials : List Trial) (arguments : List Argument)
    (outcome : Except Refusal Resolution) : Prop where
  resolved : ∀ (index : Nat) (overload : Overload), function.overloads[index]? = some overload →
    Takes known options overload arguments →
    (∀ earlier < index, ∀ other, function.overloads[earlier]? = some other →
      ¬ Takes known options other arguments) →
    outcome = .ok ⟨index, arguments.length - overload.requiredCount, List.range (index + 1)⟩ ∧
      ∃ trial ∈ trials,
        trial.overload = index ∧ trial.block.index = arguments.length - overload.requiredCount ∧
        trial.Succeeds known options function arguments ∧
        ∀ other ∈ trials, other.Succeeds known options function arguments →
          other = trial ∨ trial.Before other
  refused : (∀ overload ∈ function.overloads, ¬ Takes known options overload arguments) →
    ∃ reason,
      outcome = .error ⟨function.name, List.range function.overloads.length, reason⟩ ∧
      (∀ last, function.overloads.getLast? = some last →
        Refuses known options last arguments reason) ∧
      (function.overloads = [] → reason = .argumentCount arguments.length 0 0)

end Readings

/-! ### Blocks -/

namespace OverloadPlan

/-- An overload has one block for each accepted number of arguments. -/
theorem mem_blocks (plan : OverloadPlan) (block : Block) :
    block ∈ plan.blocks ↔
      plan.required ≤ block.argumentCount ∧ block.argumentCount ≤ plan.total ∧
        block.index = block.argumentCount - plan.required := by
  obtain ⟨index, argumentCount⟩ := block
  simp only [blocks, List.mem_map, List.mem_range, Block.mk.injEq]
  constructor
  · rintro ⟨offset, inRange, rfl, rfl⟩
    omega
  · rintro ⟨enough, notTooMany, rfl⟩
    exact ⟨argumentCount - plan.required, by omega, rfl, by omega⟩

/-- The blocks of an overload stand by number of arguments. -/
theorem blocks_pairwise (plan : OverloadPlan) :
    plan.blocks.Pairwise fun first second => first.argumentCount < second.argumentCount := by
  unfold blocks
  rw [List.pairwise_map]
  exact List.pairwise_lt_range.imp fun less => Nat.add_lt_add_left less _

/-- The block for a number of arguments that the overload accepts. -/
theorem find?_blocks {plan : OverloadPlan} {count : Nat} (enough : plan.required ≤ count)
    (notTooMany : count ≤ plan.total) :
    plan.blocks.find? (fun block => block.argumentCount == count) =
      some ⟨count - plan.required, count⟩ := by
  have isBlock : (⟨count - plan.required, count⟩ : Block) ∈ plan.blocks :=
    (plan.mem_blocks _).mpr ⟨enough, notTooMany, rfl⟩
  cases found : plan.blocks.find? fun block => block.argumentCount == count with
  | none =>
    have absent := List.find?_eq_none.mp found _ isBlock
    simp at absent
  | some block =>
    have same : block.argumentCount = count := by
      have holds := List.find?_some found
      simpa using holds
    obtain ⟨-, -, isOffset⟩ := (plan.mem_blocks block).mp (List.mem_of_find?_eq_some found)
    obtain ⟨index, argumentCount⟩ := block
    simp only at same isOffset
    rw [isOffset, same]

/-- No block is there for any other number. -/
theorem find?_blocks_eq_none {plan : OverloadPlan} {count : Nat}
    (outside : count < plan.required ∨ plan.total < count) :
    plan.blocks.find? (fun block => block.argumentCount == count) = none := by
  rw [List.find?_eq_none]
  intro block member
  have inside := (plan.mem_blocks block).mp member
  simp only [beq_iff_eq]
  omega

/-! ### Parameters against arguments -/

/-- Without a first refusal every parameter accepts its argument. -/
theorem accepts_of_firstRefusal?_eq_none {parameters : List ParameterPlan}
    {arguments : List Argument} (none : firstRefusal? parameters arguments = none)
    (position : Nat) (parameter : ParameterPlan) (argument : Argument)
    (declared : parameters[position]? = some parameter)
    (given : arguments[position]? = some argument) : parameter.accepts argument = true := by
  induction parameters generalizing arguments position with
  | nil => simp at declared
  | cons first parameters ih =>
    cases arguments with
    | nil => simp at given
    | cons second arguments =>
      simp only [firstRefusal?] at none
      split at none
      · rename_i accepts
        cases position with
        | zero =>
          simp only [List.getElem?_cons_zero, Option.some.injEq] at declared given
          exact declared ▸ given ▸ accepts
        | succ position => exact ih none position declared given
      · cases none

/-- The first refusal is that of the first parameter that does not accept its argument. -/
theorem firstRefusal?_eq_some {parameters : List ParameterPlan} {arguments : List Argument}
    {mismatch : Mismatch} (found : firstRefusal? parameters arguments = some mismatch) :
    ∃ position parameter argument, parameters[position]? = some parameter ∧
      arguments[position]? = some argument ∧ parameter.accepts argument = false ∧
      mismatch = parameter.refusal argument ∧
      ∀ (earlier : Nat) (other : ParameterPlan) (before : Argument), earlier < position →
        parameters[earlier]? = some other → arguments[earlier]? = some before →
          other.accepts before = true := by
  induction parameters generalizing arguments with
  | nil => simp [firstRefusal?] at found
  | cons first parameters ih =>
    cases arguments with
    | nil => simp [firstRefusal?] at found
    | cons second arguments =>
      simp only [firstRefusal?] at found
      split at found
      · rename_i accepts
        obtain ⟨position, parameter, argument, declared, given, refused, reason, earlierAccept⟩ :=
          ih found
        refine ⟨position + 1, parameter, argument, declared, given, refused, reason, ?_⟩
        intro earlier other before less isOther isBefore
        cases earlier with
        | zero =>
          simp only [List.getElem?_cons_zero, Option.some.injEq] at isOther isBefore
          exact isOther ▸ isBefore ▸ accepts
        | succ earlier => exact earlierAccept earlier other before (by omega) isOther isBefore
      · rename_i refused
        cases found
        exact ⟨0, first, second, rfl, rfl, by simpa using refused, rfl, fun _ _ _ less => by omega⟩

end OverloadPlan

/-! ### One overload -/

section Check

variable {known : KnownTypes} {options : PlanOptions} {overload : Overload}
  {arguments : List Argument}

/-- The plan of an overload accepts as many arguments as the overload has parameters. -/
theorem total_ofOverload (known : KnownTypes) (options : PlanOptions) (isConstructor : Bool)
    (index : Nat) (successor : Option Nat) (overload : Overload) :
    (OverloadPlan.ofOverload known options isConstructor index successor overload).total =
      overload.totalCount :=
  List.length_mapIdx

/-- A planned parameter stands where the declared one does. -/
theorem getElem?_plannedParameters (position : Nat) :
    (overload.parameters.mapIdx (ParameterPlan.ofParameter known options))[position]? =
      overload.parameters[position]?.map (ParameterPlan.ofParameter known options position) :=
  List.getElem?_mapIdx ..

/-- An overload that takes the arguments gives the block for their number. -/
theorem check_ofOverload_eq_ok (takes : Takes known options overload arguments)
    (isConstructor : Bool) (index : Nat) (successor : Option Nat) :
    (OverloadPlan.ofOverload known options isConstructor index successor overload).check arguments =
      .ok (arguments.length - overload.requiredCount) := by
  unfold OverloadPlan.check
  rw [OverloadPlan.find?_blocks takes.enough ((total_ofOverload ..).symm ▸ takes.notTooMany)]
  cases refusal : OverloadPlan.firstRefusal?
      (overload.parameters.mapIdx (ParameterPlan.ofParameter known options)) arguments with
  | none =>
    simp only [OverloadPlan.ofOverload, refusal]
  | some mismatch =>
    obtain ⟨position, parameter, argument, declared, given, refused, -, -⟩ :=
      OverloadPlan.firstRefusal?_eq_some refusal
    rw [getElem?_plannedParameters] at declared
    obtain ⟨original, isOriginal, rfl⟩ := Option.map_eq_some_iff.mp declared
    rw [takes.each position original argument isOriginal given] at refused
    cases refused

/-- An overload that does not take the arguments says why. -/
theorem check_ofOverload_eq_error (takesNot : ¬ Takes known options overload arguments)
    (isConstructor : Bool) (index : Nat) (successor : Option Nat) :
    ∃ reason, (OverloadPlan.ofOverload known options isConstructor index successor overload).check
        arguments = .error reason ∧ Refuses known options overload arguments reason := by
  have totalEq := total_ofOverload known options isConstructor index successor overload
  by_cases inside : overload.requiredCount ≤ arguments.length ∧
      arguments.length ≤ overload.totalCount
  · obtain ⟨enough, notTooMany⟩ := inside
    unfold OverloadPlan.check
    rw [OverloadPlan.find?_blocks enough (totalEq ▸ notTooMany)]
    cases refusal : OverloadPlan.firstRefusal?
        (overload.parameters.mapIdx (ParameterPlan.ofParameter known options)) arguments with
    | none =>
      refine absurd ⟨enough, notTooMany, ?_⟩ takesNot
      intro position parameter argument declared given
      refine OverloadPlan.accepts_of_firstRefusal?_eq_none refusal position _ argument ?_ given
      rw [getElem?_plannedParameters, declared, Option.map_some]
    | some mismatch =>
      refine ⟨mismatch, by simp only [OverloadPlan.ofOverload, refusal], ?_⟩
      obtain ⟨position, planned, argument, declared, given, refused, reason, first⟩ :=
        OverloadPlan.firstRefusal?_eq_some refusal
      rw [getElem?_plannedParameters] at declared
      obtain ⟨parameter, isDeclared, rfl⟩ := Option.map_eq_some_iff.mp declared
      have refusedAt : RefusedAt known options overload arguments position parameter argument := by
        refine ⟨isDeclared, given, refused, ?_⟩
        intro earlier other before less isOther isBefore
        refine first earlier _ before less ?_ isBefore
        rw [getElem?_plannedParameters, isOther, Option.map_some]
      subst reason
      cases argument with
      | null => exact .null position parameter enough notTooMany refusedAt
      | value category => exact .value position parameter category enough notTooMany refusedAt
  · have outside : arguments.length < overload.requiredCount ∨
        overload.totalCount < arguments.length := by omega
    refine ⟨_, ?_, .count outside⟩
    unfold OverloadPlan.check
    rw [OverloadPlan.find?_blocks_eq_none (totalEq ▸ outside), totalEq]
    rfl

end Check

/-! ### The chain -/

section Chain

namespace FunctionPlan

variable {plan : FunctionPlan} {arguments : List Argument}

/-- Each overload leads on to the next one, and the last one to none. -/
def IsChain (plan : FunctionPlan) : Prop :=
  ∀ (index : Nat) (overload : OverloadPlan), plan.overloads[index]? = some overload →
    overload.successor = if index + 1 < plan.overloads.length then some (index + 1) else none

/-- One step along the chain: a mismatch leads on to the next overload. -/
theorem dispatchFrom_next (chain : plan.IsChain) {tried : List Nat} {index : Nat}
    {mismatch : Mismatch} (next : index + 1 < plan.overloads.length)
    (refused : (plan.overloads[index]).check arguments = .error mismatch) :
    plan.dispatchFrom arguments tried index (by omega) =
      plan.dispatchFrom arguments (tried ++ [index]) (index + 1) next := by
  have leads := chain index _ (List.getElem?_eq_getElem (by omega))
  rw [if_pos next] at leads
  rw [dispatchFrom]
  simp only [refused]
  split
  · rename_i isLast
    rw [leads] at isLast
    cases isLast
  · rename_i successor isSuccessor
    have same : successor = index + 1 := Option.some.inj (isSuccessor.symm.trans leads)
    subst same
    rfl

/-- At the end of the chain a mismatch is the outcome. -/
theorem dispatchFrom_last (chain : plan.IsChain) {tried : List Nat} {index : Nat}
    {mismatch : Mismatch} (inside : index < plan.overloads.length)
    (last : plan.overloads.length = index + 1)
    (refused : (plan.overloads[index]).check arguments = .error mismatch) :
    plan.dispatchFrom arguments tried index inside = .error (tried ++ [index], mismatch) := by
  have leads := chain index _ (List.getElem?_eq_getElem inside)
  rw [if_neg (by omega)] at leads
  rw [dispatchFrom]
  simp only [refused]
  split
  · rfl
  · rename_i successor isSuccessor
    rw [leads] at isSuccessor
    cases isSuccessor

/-- **Along refusals the chain reaches the first overload that takes the arguments.** -/
theorem dispatchFrom_reaches (chain : plan.IsChain) {block index : Nat} (gap : Nat)
    (inside : index + gap < plan.overloads.length)
    (taken : (plan.overloads[index + gap]).check arguments = .ok block)
    (refused : ∀ (between : Nat) (within : between < plan.overloads.length), index ≤ between →
      between < index + gap →
        ∃ mismatch, (plan.overloads[between]).check arguments = .error mismatch) :
    plan.dispatchFrom arguments (List.range index) index (by omega) =
      .ok ⟨index + gap, block, List.range (index + gap + 1)⟩ := by
  induction gap generalizing index with
  | zero =>
    rw [dispatchFrom]
    simp only [Nat.add_zero] at taken ⊢
    rw [taken, List.range_succ]
  | succ gap ih =>
    obtain ⟨mismatch, mismatched⟩ := refused index (by omega) (Nat.le_refl _) (by omega)
    rw [dispatchFrom_next chain (by omega) mismatched, ← List.range_succ]
    simp only [show index + (gap + 1) = index + 1 + gap by omega] at inside taken ⊢
    refine ih inside taken ?_
    intro between within after before
    exact refused between within (by omega) (by omega)

/-- **Along refusals only, the chain ends with the reason of the last overload.** -/
theorem dispatchFrom_exhausts (chain : plan.IsChain) {index : Nat} (gap : Nat)
    (last : plan.overloads.length = index + gap + 1)
    (refused : ∀ (between : Nat) (within : between < plan.overloads.length), index ≤ between →
      ∃ mismatch, (plan.overloads[between]).check arguments = .error mismatch) :
    ∃ mismatch, (plan.overloads[index + gap]).check arguments = .error mismatch ∧
      plan.dispatchFrom arguments (List.range index) index (by omega) =
        .error (List.range plan.overloads.length, mismatch) := by
  induction gap generalizing index with
  | zero =>
    obtain ⟨mismatch, mismatched⟩ := refused index (by omega) (Nat.le_refl _)
    refine ⟨mismatch, mismatched, ?_⟩
    rw [dispatchFrom_last chain (by omega) last mismatched, last, Nat.add_zero, List.range_succ]
  | succ gap ih =>
    obtain ⟨mismatch, mismatched⟩ := refused index (by omega) (Nat.le_refl _)
    rw [dispatchFrom_next chain (by omega) mismatched, ← List.range_succ]
    simp only [show index + (gap + 1) = index + 1 + gap by omega] at last ⊢
    exact ih last fun between within after => refused between within (by omega)

end FunctionPlan

end Chain

/-! ### The plan of a function -/

section Plan

variable (known : KnownTypes) (options : PlanOptions) (function : Function)

/-- The planned overload at an index is the plan of the declared one. -/
theorem getElem?_overloadPlans (index : Nat) :
    (overloadPlans known options function)[index]? =
      function.overloads[index]?.map (OverloadPlan.ofOverload known options function.isConstructor
        index (followingOverload function index)) :=
  List.getElem?_mapIdx ..

theorem length_overloadPlans :
    (overloadPlans known options function).length = function.overloads.length :=
  List.length_mapIdx

/-- The planned overload at an index inside the list. -/
theorem getElem_overloadPlans {index : Nat} {overload : Overload}
    (declared : function.overloads[index]? = some overload)
    (inside : index < (FunctionPlan.ofFunction known options function).overloads.length) :
    (FunctionPlan.ofFunction known options function).overloads[index] =
      OverloadPlan.ofOverload known options function.isConstructor index
        (followingOverload function index) overload := by
  have planned := getElem?_overloadPlans known options function index
  rw [declared, Option.map_some] at planned
  exact List.getElem_eq_iff inside |>.mpr planned

/-- A planned function is a chain. -/
theorem isChain_ofFunction : (FunctionPlan.ofFunction known options function).IsChain := by
  intro index overload found
  rw [show (FunctionPlan.ofFunction known options function).overloads =
    overloadPlans known options function from rfl] at found ⊢
  rw [getElem?_overloadPlans] at found
  obtain ⟨declared, -, rfl⟩ := Option.map_eq_some_iff.mp found
  rw [length_overloadPlans]
  rfl

/-- An overload that does not take the arguments refuses them in the plan. -/
theorem check_overloadPlans_eq_error {arguments : List Argument} {index : Nat} {overload : Overload}
    (declared : function.overloads[index]? = some overload)
    (takesNot : ¬ Takes known options overload arguments)
    (inside : index < (FunctionPlan.ofFunction known options function).overloads.length) :
    ∃ reason, ((FunctionPlan.ofFunction known options function).overloads[index]).check arguments =
        .error reason ∧ Refuses known options overload arguments reason := by
  rw [getElem_overloadPlans known options function declared inside]
  exact check_ofOverload_eq_error takesNot ..

/-- **The trials of a plan are the overloads with the numbers of arguments that they accept.** -/
theorem listsTrials_ofFunction :
    ListsTrials function (FunctionPlan.ofFunction known options function).trials := by
  refine ⟨?_, ?_⟩
  · intro trial
    obtain ⟨index, block, successor⟩ := trial
    simp only [FunctionPlan.trials, FunctionPlan.ofFunction, List.mem_flatMap, List.mem_map,
      Trial.mk.injEq]
    constructor
    · rintro ⟨planned, isPlanned, other, isBlock, rfl, rfl, rfl⟩
      obtain ⟨position, found⟩ := List.mem_iff_getElem?.mp isPlanned
      rw [getElem?_overloadPlans] at found
      obtain ⟨overload, declared, rfl⟩ := Option.map_eq_some_iff.mp found
      obtain ⟨enough, notTooMany, isOffset⟩ := (OverloadPlan.mem_blocks _ _).mp isBlock
      exact ⟨overload, declared, enough, total_ofOverload .. ▸ notTooMany, isOffset, rfl⟩
    · rintro ⟨overload, declared, enough, notTooMany, isOffset, rfl⟩
      refine ⟨OverloadPlan.ofOverload known options function.isConstructor index
        (followingOverload function index) overload, ?_, block, ?_, rfl, rfl, rfl⟩
      · refine List.mem_iff_getElem?.mpr ⟨index, ?_⟩
        rw [getElem?_overloadPlans, declared, Option.map_some]
      · exact (OverloadPlan.mem_blocks _ _).mpr
          ⟨enough, (total_ofOverload ..).symm ▸ notTooMany, isOffset⟩
  · unfold FunctionPlan.trials
    rw [List.pairwise_flatMap]
    refine ⟨?_, ?_⟩
    · intro planned _
      rw [List.pairwise_map]
      exact planned.blocks_pairwise.imp fun fewer => Or.inr ⟨rfl, fewer⟩
    · refine List.pairwise_iff_getElem.mpr ?_
      intro first second firstInside secondInside less trial isTrial other isOther
      obtain ⟨block, -, rfl⟩ := List.mem_map.mp isTrial
      obtain ⟨later, -, rfl⟩ := List.mem_map.mp isOther
      left
      simpa only [FunctionPlan.ofFunction, overloadPlans, List.getElem_mapIdx,
        OverloadPlan.ofOverload] using less

variable {known options function}

/-- An overload that takes the arguments has a trial that succeeds. -/
theorem succeeds_of_takes {trials : List Trial} (listed : ListsTrials function trials)
    {arguments : List Argument} {index : Nat} {overload : Overload}
    (declared : function.overloads[index]? = some overload)
    (takes : Takes known options overload arguments) :
    ∃ trial ∈ trials,
      trial.overload = index ∧ trial.block.index = arguments.length - overload.requiredCount ∧
      trial.Succeeds known options function arguments := by
  refine ⟨⟨index, ⟨arguments.length - overload.requiredCount, arguments.length⟩,
    followingOverload function index⟩, ?_, rfl, rfl, rfl, overload, declared, takes⟩
  exact (listed.lists _).mpr ⟨overload, declared, takes.enough, takes.notTooMany, rfl, rfl⟩

/-- Of two trials that succeed, that of the earlier overload comes first. -/
theorem eq_or_before_of_succeeds {trials : List Trial} (listed : ListsTrials function trials)
    {arguments : List Argument} {trial other : Trial} (isTrial : trial ∈ trials)
    (isOther : other ∈ trials) (succeeds : trial.Succeeds known options function arguments)
    (otherSucceeds : other.Succeeds known options function arguments)
    (noEarlier : ∀ earlier < trial.overload, ∀ declared,
      function.overloads[earlier]? = some declared → ¬ Takes known options declared arguments) :
    other = trial ∨ trial.Before other := by
  obtain ⟨sameCount, declared, isDeclared, takes⟩ := otherSucceeds
  rcases Nat.lt_trichotomy other.overload trial.overload with less | same | greater
  · exact absurd takes (noEarlier _ less declared isDeclared)
  · left
    obtain ⟨overload, found, -, -, isOffset, leads⟩ := (listed.lists trial).mp isTrial
    obtain ⟨overload', found', -, -, isOffset', leads'⟩ := (listed.lists other).mp isOther
    rw [same, found] at found'
    cases found'
    have counts : other.block.argumentCount = trial.block.argumentCount :=
      sameCount.trans succeeds.1.symm
    obtain ⟨index, ⟨offset, count⟩, successor⟩ := trial
    obtain ⟨index', ⟨offset', count'⟩, successor'⟩ := other
    simp only at same counts isOffset isOffset' leads leads'
    subst same counts isOffset isOffset' leads leads'
    rfl
  · exact Or.inr (Or.inl greater)

/-! ### Dispatch -/

/-- The overloads that do not take the arguments refuse them where they are tried. -/
theorem refused_of_takesNot {arguments : List Argument} {bound : Nat}
    (takesNot : ∀ index < bound, ∀ overload, function.overloads[index]? = some overload →
      ¬ Takes known options overload arguments) (index : Nat)
    (inside : index < (FunctionPlan.ofFunction known options function).overloads.length)
    (isBefore : index < bound) :
    ∃ reason, ((FunctionPlan.ofFunction known options function).overloads[index]).check arguments =
      .error reason := by
  have lengthEq : (FunctionPlan.ofFunction known options function).overloads.length =
      function.overloads.length := length_overloadPlans known options function
  obtain ⟨overload, declared⟩ : ∃ overload, function.overloads[index]? = some overload :=
    ⟨_, List.getElem?_eq_getElem (by omega)⟩
  obtain ⟨reason, refused, -⟩ := check_overloadPlans_eq_error known options function declared
    (takesNot index isBefore overload declared) inside
  exact ⟨reason, refused⟩

/-- A call goes to the first overload that takes the arguments. -/
theorem dispatch_of_takes {arguments : List Argument} {index : Nat} {overload : Overload}
    (declared : function.overloads[index]? = some overload)
    (takes : Takes known options overload arguments)
    (noEarlier : ∀ earlier < index, ∀ other, function.overloads[earlier]? = some other →
      ¬ Takes known options other arguments) :
    (FunctionPlan.ofFunction known options function).dispatch arguments =
      .ok ⟨index, arguments.length - overload.requiredCount, List.range (index + 1)⟩ := by
  have lengthEq : (FunctionPlan.ofFunction known options function).overloads.length =
      function.overloads.length := length_overloadPlans known options function
  have inside : index < function.overloads.length :=
    (List.getElem?_eq_some_iff.mp declared).choose
  have taken := check_ofOverload_eq_ok takes function.isConstructor index
    (followingOverload function index)
  have reached := @FunctionPlan.dispatchFrom_reaches _ arguments
    (isChain_ofFunction known options function) _ 0 index (by omega)
    (by
      simp only [Nat.zero_add]
      rw [getElem_overloadPlans known options function declared (by omega)]
      exact taken)
    (fun between within _ before => refused_of_takesNot noEarlier between within (by omega))
  unfold FunctionPlan.dispatch
  rw [dif_pos (by omega : 0 < _)]
  rw [List.range_zero] at reached
  rw [reached]
  simp only [Nat.zero_add]
  rfl

/-- A call that no overload takes is refused for the reason of the last one. -/
theorem dispatch_of_noneTakes {arguments : List Argument}
    (noneTakes : ∀ overload ∈ function.overloads, ¬ Takes known options overload arguments) :
    ∃ reason, (FunctionPlan.ofFunction known options function).dispatch arguments =
        .error ⟨function.name, List.range function.overloads.length, reason⟩ ∧
      (∀ last, function.overloads.getLast? = some last →
        Refuses known options last arguments reason) ∧
      (function.overloads = [] → reason = .argumentCount arguments.length 0 0) := by
  have lengthEq : (FunctionPlan.ofFunction known options function).overloads.length =
      function.overloads.length := length_overloadPlans known options function
  have takesNot : ∀ index < function.overloads.length, ∀ overload,
      function.overloads[index]? = some overload → ¬ Takes known options overload arguments :=
    fun _ _ overload declared => noneTakes overload (List.mem_of_getElem? declared)
  unfold FunctionPlan.dispatch
  by_cases isEmpty : function.overloads = []
  · have noOverload : ¬ 0 < (FunctionPlan.ofFunction known options function).overloads.length := by
      rw [lengthEq, isEmpty]
      exact Nat.lt_irrefl 0
    rw [dif_neg noOverload]
    refine ⟨_, ?_, ?_, fun _ => rfl⟩
    · rw [isEmpty]
      rfl
    · intro last isLast
      rw [isEmpty] at isLast
      cases isLast
  · have positive : 0 < function.overloads.length := List.length_pos_iff.mpr isEmpty
    obtain ⟨reason, lastRefused, exhausted⟩ :=
      @FunctionPlan.dispatchFrom_exhausts _ arguments (isChain_ofFunction known options function) 0
        (function.overloads.length - 1) (by omega)
        (fun between within _ => refused_of_takesNot takesNot between within (by omega))
    refine ⟨reason, ?_, ?_, fun same => absurd same isEmpty⟩
    · rw [dif_pos (by omega)]
      rw [List.range_zero] at exhausted
      rw [exhausted, lengthEq]
      rfl
    · intro last isLast
      rw [List.getLast?_eq_getElem?] at isLast
      simp only [Nat.zero_add] at lastRefused
      obtain ⟨reason', refused, refuses⟩ := check_overloadPlans_eq_error known options function
        isLast (noneTakes last (List.mem_of_getElem? isLast)) (by omega)
      rw [lastRefused] at refused
      cases refused
      exact refuses

end Plan

/-- **Dispatch is first match in the order of declaration**: the trials of the plan of a function
are its overloads with the numbers of arguments that they accept, and a call goes to the first of
them that takes the arguments or is refused for the reason of the last overload. -/
theorem dispatch_ofFunction_firstMatch (known : KnownTypes) (options : PlanOptions)
    (function : Function) (arguments : List Argument) :
    ListsTrials function (FunctionPlan.ofFunction known options function).trials ∧
      FirstMatch known options function (FunctionPlan.ofFunction known options function).trials
        arguments ((FunctionPlan.ofFunction known options function).dispatch arguments) := by
  have listed := listsTrials_ofFunction known options function
  refine ⟨listed, ?_, dispatch_of_noneTakes⟩
  intro index overload declared takes noEarlier
  refine ⟨dispatch_of_takes declared takes noEarlier, ?_⟩
  obtain ⟨trial, isTrial, rfl, isOffset, succeeds⟩ := succeeds_of_takes listed declared takes
  exact ⟨trial, isTrial, rfl, isOffset, succeeds, fun other isOther otherSucceeds =>
    eq_or_before_of_succeeds listed isTrial isOther succeeds otherSucceeds noEarlier⟩

end Bindery.Wrapper

