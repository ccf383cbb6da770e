/-
**Functions outside classes.**

An overload is gathered by the scope and the name of its function; the function stands in the header
of its first overload.

* `freeFunctions` — the function members of a walk that take effect outside classes.
* `FreeFunction.isKeptOrDropped` — what one of them contributes.
* `find?_foundFunctions` — gathering, read off the list of overloads.
-/

import Bindery.Proofs.Reference.Members
import Bindery.Proofs.Reference.Walk

namespace Bindery.Reference

open Symbols Xml

/-! ### Function members -/

/-- A function member of a namespace or a file. -/
structure FreeFunction where
  visit : Visit
  scope : String
  member : Xml.Element

namespace FreeFunction

/-- The name of the function. -/
def name (function : FreeFunction) : String := function.member.childText "name"

/-- The header in which the member stands. -/
def header (options : Options) (function : FreeFunction) : String :=
  headerOf options function.member (function.visit.header options)

/-- The contributions of the member. -/
def findings (options : Options) (function : FreeFunction) : List Finding :=
  memberFindings options function.scope (function.visit.header options) function.member

/-- A member contributes one overload, with warnings about its types, or it is left out with the one
warning that says why. -/
def IsKeptOrDropped (options : Options) (function : FreeFunction) : Prop :=
  (∃ (overload : Overload) (warnings : List Warning),
    function.findings options =
      warnings.map .warning ++ [.overload (function.header options) function.scope overload] ∧
    overload.function = function.name ∧
    ∀ warning ∈ warnings, ∃ context fragment, warning = .emptyType context fragment) ∨
  ∃ warning : Warning, function.findings options = [.warning warning] ∧
    ((∃ position, warning =
      .unnamedParameter function.name position (function.header options)) ∨
    ∃ parameter, warning =
      .duplicateParameter function.name parameter (function.header options))

end FreeFunction

/-- The function members that take effect in a compound which is no class. -/
def Visit.freeFunctions (visit : Visit) (members : List Xml.Element) : List FreeFunction :=
  match visit.scope? with
  | none => []
  | some scope => (members.filter isNamedFunction).map fun member => { visit, scope, member }

/-- The function members that take effect in namespaces and files, in the order of the walk. -/
def freeFunctions (visits : List Visit) : List FreeFunction :=
  (effects visits).flatMap fun (visit, members) => visit.freeFunctions members

theorem mem_freeFunctions {visits : List Visit} {function : FreeFunction}
    (isFree : function ∈ freeFunctions visits) :
    function.visit ∈ visits ∧ function.visit.scope? = some function.scope ∧
      isNamedFunction function.member = true := by
  obtain ⟨⟨visit, members⟩, isEffect, isOfVisit⟩ := List.mem_flatMap.mp isFree
  cases isScope : visit.scope? with
  | none => simp [Visit.freeFunctions, isScope] at isOfVisit
  | some scope =>
    simp only [Visit.freeFunctions, isScope] at isOfVisit
    obtain ⟨member, isMember, rfl⟩ := List.mem_map.mp isOfVisit
    obtain ⟨i, isVisit, _⟩ := exists_of_mem_effects isEffect
    exact ⟨List.mem_of_getElem? isVisit, isScope, (List.mem_filter.mp isMember).2⟩

/-- A function member that takes effect is kept or dropped. -/
theorem FreeFunction.isKeptOrDropped (options : Options) {visits : List Visit}
    {function : FreeFunction} (isFree : function ∈ freeFunctions visits) :
    function.IsKeptOrDropped options := by
  have isFindings := memberFindings_of_isNamedFunction options function.scope
    (function.visit.header options) (mem_freeFunctions isFree).2.2
  extract_lets header at isFindings
  cases isRead : overloadOf options function.member (function.member.childText "name") header
      false with
  | error warning =>
    rw [isRead] at isFindings
    exact .inr ⟨warning, isFindings, overloadOf_eq_error isRead⟩
  | ok read =>
    obtain ⟨overload, warnings⟩ := read
    rw [isRead] at isFindings
    obtain ⟨_, isOwn, areTypes⟩ := overloadOf_eq_ok isRead
    exact .inl ⟨overload, warnings, isFindings, isOwn, areTypes⟩

/-! ### Overloads -/

/-- An overload outside classes, where it was found. -/
structure FoundOverload where
  header : String
  scope : String
  overload : Overload

/-- A contribution as an overload. -/
def Finding.overload? : Finding → Option FoundOverload
  | .overload header scope found => some { header, scope, overload := found }
  | .element .. | .warning .. => none

/-- The overloads among contributions. -/
def foundOverloads (findings : List Finding) : List FoundOverload :=
  findings.filterMap Finding.overload?

theorem foundOverloads_eq_nil {findings : List Finding}
    (areElements : ∀ finding ∈ findings, finding.IsElement) : foundOverloads findings = [] := by
  refine List.filterMap_eq_nil_iff.mpr fun finding isFinding => ?_
  have isElement := areElements finding isFinding
  cases finding with
  | overload => exact isElement.elim
  | element => rfl
  | warning => rfl

theorem foundOverloads_members (options : Options) (visit : Visit) (scope : String)
    (members : List Xml.Element) :
    foundOverloads (members.flatMap (memberFindings options scope (visit.header options))) =
      foundOverloads (((members.filter isNamedFunction).map fun member =>
        ({ visit, scope, member } : FreeFunction)).flatMap (·.findings options)) := by
  induction members with
  | nil => rfl
  | cons member rest ih =>
    cases isFunction : isNamedFunction member with
    | false =>
      have nothing := foundOverloads_eq_nil
        (isElement_memberFindings options scope (visit.header options) isFunction)
      rw [List.filter_cons_of_neg (by simp [isFunction]), ← ih, List.flatMap_cons, foundOverloads,
        List.filterMap_append]
      exact congrArg (· ++ _) nothing
    | true =>
      rw [List.filter_cons_of_pos isFunction, List.map_cons, List.flatMap_cons, List.flatMap_cons,
        foundOverloads, foundOverloads, List.filterMap_append, List.filterMap_append]
      exact congrArg (_ ++ ·) ih

/-- The overloads among all contributions are those of the free functions. -/
theorem foundOverloads_effects (options : Options) (visits : List Visit) :
    foundOverloads ((effects visits).flatMap fun (visit, members) =>
        compoundFindings options visit.compound visit.definition members) =
      foundOverloads ((freeFunctions visits).flatMap (·.findings options)) := by
  have ofVisit : ∀ (visit : Visit) (members : List Xml.Element),
      foundOverloads (compoundFindings options visit.compound visit.definition members) =
        foundOverloads ((visit.freeFunctions members).flatMap (·.findings options)) := by
    intro visit members
    unfold compoundFindings Visit.freeFunctions Visit.scope?
    extract_lets name header
    cases visit.compound.kind with
    | scope => exact foundOverloads_members options visit name members
    | file => exact foundOverloads_members options visit rootScope members
    | classKind => exact foundOverloads_eq_nil (isElement_classFindings options _ _ _ _ _)
    | structKind => exact foundOverloads_eq_nil (isElement_classFindings options _ _ _ _ _)
  rw [freeFunctions, List.flatMap_assoc, foundOverloads, foundOverloads, List.filterMap_flatMap,
    List.filterMap_flatMap]
  exact List.flatMap_congr fun entry _ => ofVisit entry.1 entry.2

/-! ### Gathering -/

namespace FoundFunction

/-- The scope and the name of the function. -/
def key (found : FoundFunction) : String × String := (found.scope, found.function.name)

/-- Whether the function belongs to a scope and has a name. -/
def isAt (scope name : String) (found : FoundFunction) : Bool :=
  found.scope = scope ∧ found.function.name = name

end FoundFunction

namespace FoundOverload

/-- Whether the overload belongs to a scope and to a function of a name. -/
def isAt (scope name : String) (found : FoundOverload) : Bool :=
  found.scope = scope ∧ found.overload.function = name

end FoundOverload

/-- Adding an overload to functions, as `addFound` does. -/
def FoundOverload.addTo (functions : List FoundFunction) (found : FoundOverload) :
    List FoundFunction :=
  addFound found.header found.scope found.overload functions

/-- The function that overloads make in the header of the first of them. -/
def gathered (scope name : String) : List FoundOverload → Option FoundFunction
  | [] => none
  | first :: rest => some {
      header := first.header, scope
      function := ((first :: rest).map FoundOverload.overload).foldl Function.addOverload { name } }

theorem foundFunctions_eq (findings : List Finding) :
    foundFunctions findings = (foundOverloads findings).foldl FoundOverload.addTo [] := by
  rw [foundFunctions, foundOverloads, List.foldl_filterMap]
  refine congrFun (congrFun (congrArg _ ?_) _) _
  funext functions finding
  cases finding <;> rfl

/-- Adding an overload changes the function of its scope and name, or makes it. -/
theorem find?_addTo (functions : List FoundFunction) (found : FoundOverload)
    (scope name : String) :
    (found.addTo functions).find? (·.isAt scope name) =
      if found.isAt scope name then
        some (match functions.find? (·.isAt scope name) with
          | none =>
            { header := found.header, scope
              function := ({ name } : Function).addOverload found.overload }
          | some function =>
            { function with function := function.function.addOverload found.overload })
      else functions.find? (·.isAt scope name) := by
  induction functions with
  | nil =>
    by_cases isHere : found.scope = scope ∧ found.overload.function = name
    · obtain ⟨rfl, rfl⟩ := isHere
      simp [FoundOverload.addTo, addFound, FoundOverload.isAt, FoundFunction.isAt,
        Function.addOverload]
    · simp [FoundOverload.addTo, addFound, FoundOverload.isAt, FoundFunction.isAt,
        Function.addOverload, isHere]
  | cons first rest ih =>
    rw [FoundOverload.addTo, addFound]
    split
    next same =>
      obtain ⟨sameScope, sameName⟩ := same
      by_cases isHere : found.scope = scope ∧ found.overload.function = name
      · simp [FoundOverload.isAt, FoundFunction.isAt, Function.addOverload, isHere, sameScope,
          sameName]
      · simp [FoundOverload.isAt, FoundFunction.isAt, Function.addOverload, isHere, sameScope,
          sameName]
    next other =>
      by_cases isFirst : first.scope = scope ∧ first.function.name = name
      · have notHere : ¬ (found.scope = scope ∧ found.overload.function = name) := by
          rintro ⟨rfl, rfl⟩
          exact other isFirst
        simp [FoundOverload.isAt, FoundFunction.isAt, isFirst, notHere]
      · have notFirst : first.isAt scope name = false := decide_eq_false isFirst
        rw [List.find?_cons_of_neg (by simp [notFirst]),
          List.find?_cons_of_neg (by simp [notFirst])]
        exact ih

theorem map_key_addTo (functions : List FoundFunction) (found : FoundOverload) :
    (found.addTo functions).map FoundFunction.key =
      if (found.scope, found.overload.function) ∈ functions.map FoundFunction.key then
        functions.map FoundFunction.key
      else functions.map FoundFunction.key ++ [(found.scope, found.overload.function)] := by
  induction functions with
  | nil => rfl
  | cons first rest ih =>
    rw [FoundOverload.addTo, addFound, List.map_cons]
    split
    next same =>
      have isFirst : (found.scope, found.overload.function) = first.key :=
        Prod.ext same.1.symm same.2.symm
      rw [if_pos (isFirst ▸ List.mem_cons_self)]
      rfl
    next other =>
      have notFirst : (found.scope, found.overload.function) ≠ first.key := by
        intro isFirst
        exact other ⟨(congrArg Prod.fst isFirst).symm, (congrArg Prod.snd isFirst).symm⟩
      rw [List.map_cons, ← FoundOverload.addTo, ih]
      by_cases isThere : (found.scope, found.overload.function) ∈ rest.map FoundFunction.key
      · rw [if_pos isThere, if_pos (List.mem_cons_of_mem _ isThere)]
      · rw [if_neg isThere, if_neg (by simp [notFirst, isThere]), List.cons_append]

/-- No two of the functions have the same scope and name. -/
theorem nodup_foundFunctions (findings : List Finding) :
    ((foundFunctions findings).map FoundFunction.key).Nodup := by
  rw [foundFunctions_eq]
  induction foundOverloads findings using List.reverseRecOn with
  | nil => exact List.nodup_nil
  | append_singleton overloads found ih =>
    rw [List.foldl_append, List.foldl_cons, List.foldl_nil, map_key_addTo]
    split
    · exact ih
    next isNew =>
      refine List.nodup_append.mpr ⟨ih, by simp, ?_⟩
      rintro key isKey other isOther rfl
      exact isNew (List.mem_singleton.mp isOther ▸ isKey)

/-- A function is gathered from the overloads of its scope and name. -/
theorem find?_foundFunctions (findings : List Finding) (scope name : String) :
    (foundFunctions findings).find? (·.isAt scope name) =
      gathered scope name ((foundOverloads findings).filter (·.isAt scope name)) := by
  rw [foundFunctions_eq]
  induction foundOverloads findings using List.reverseRecOn with
  | nil => rfl
  | append_singleton overloads found ih =>
    rw [List.foldl_append, List.foldl_cons, List.foldl_nil, find?_addTo, ih, List.filter_append]
    by_cases isHere : found.isAt scope name
    · rw [if_pos isHere, List.filter_cons_of_pos isHere, List.filter_nil]
      cases overloads.filter (·.isAt scope name) with
      | nil => rfl
      | cons first rest => simp [gathered, List.foldl_append]
    · rw [if_neg isHere, List.filter_cons_of_neg isHere, List.filter_nil, List.append_nil]

end Bindery.Reference
