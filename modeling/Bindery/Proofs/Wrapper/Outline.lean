/-
**The outline of a generated file: every element of a header, once and in table order.**

A visit is what a fragment shows: its template, and the texts that tell which element it is about.
The outline of a header lists the visits of its file from the elements alone, without a plan and
without inherited values.

* `scopeOutline`, `classOutline`, `functionOutline` — the visits of an element, with those of
  everything in it between its two ends.
* `blockOutline` — a block binds the required parameters and as many more as its index says.
* `visits_fileFragments` — the file of a header shows the outline of the header, and nothing else.
-/

import Bindery.Proofs.OrderedMap
import Bindery.Proofs.Wrapper.FirstMatch
import Bindery.Wrapper.Emission

namespace Bindery.Wrapper

open Symbols

/-! ### What a fragment shows -/

/-- A template, and the texts that tell what it is about. -/
abbrev Visit := String × List String

/-- The keys that tell which section is opened or closed. -/
def Section.keys : Section → List String
  | module => ["name", "version"]
  | file => ["header"]
  | scope => ["header", "namespace"]
  | enumeration => ["header", "namespace", "enumeration"]
  | classEnumeration => ["header", "namespace", "class", "enumeration"]
  | classDefinition => ["header", "namespace", "class"]
  | function => ["header", "namespace", "function"]
  | method => ["header", "namespace", "class", "function"]
  | overload => ["header", "namespace", "function", "overload_index", "required", "total"]
  | block =>
    ["header", "namespace", "function", "overload_index", "block_index", "argument_count",
      "call_arguments"]

/-- The keys that tell what a fragment is about. -/
def FragmentKind.keys : FragmentKind → List String
  | opening part | closing part => part.keys
  | moduleHeader => ["header", "output"]
  | constant => ["header", "namespace", "constant", "value"]
  | option part => part.keys ++ ["option_index", "option"]
  | typeAlias => ["header", "namespace", "alias", "type"]
  | globalVariable => ["header", "namespace", "variable", "type"]
  | classVariable => ["header", "namespace", "class", "variable", "type"]
  | parameter _ =>
    ["header", "namespace", "function", "overload_index", "block_index", "parameter_position",
      "parameter", "parameter_type"]
  | call | result _ => ["header", "namespace", "function", "overload_index", "block_index"]
  | nextOverload | refusal =>
    ["header", "namespace", "function", "overload_index", "next_overload"]

/-- What a fragment shows, as its provider sees it. -/
def Fragment.visit (fragment : Fragment) : Visit :=
  (fragment.kind.name, fragment.kind.keys.map fragment.values.textOf)

/-- What fragments show, one behind the other. -/
def visits (fragments : List Fragment) : List Visit := fragments.map (·.visit)

/-- Visits between the two ends of a section, which tell the same. -/
def within (word : String) (told : List String) (inner : List Visit) : List Visit :=
  (word ++ "_begin", told) :: inner ++ [(word ++ "_end", told)]

/-! ### Outlines -/

section Outlines

variable (known : KnownTypes)

/-- The template that takes a parameter of a type. -/
def parameterTemplate (type : TypeShape) : String := "parameter_" ++ (known.categoryOf type).suffix

/-- The template that gives the result of an overload back. -/
def resultTemplate (isConstructor : Bool) (overload : Overload) : String :=
  if isConstructor then "return_constructor"
  else if overload.returns.returnsNothing || (known.categoryOf overload.returns).isVoid then
    "return_void"
  else "return_" ++ (known.categoryOf overload.returns).suffix

/-- The parameters that a block binds: the required ones and as many more as its index says. -/
def boundParameters (overload : Overload) (index : Nat) : List Parameter :=
  overload.parameters.take (overload.requiredCount + index)

/-- The visits of a block: its parameters in order, the call and the result. -/
def blockOutline (isConstructor : Bool) (path : List String) (overload : Overload)
    (index : Nat) : List Visit :=
  let here := path ++ [toString index]
  within "block"
    (here ++ [toString (overload.requiredCount + index),
      commaList ((boundParameters overload index).map (·.name))])
    ((boundParameters overload index).mapIdx (fun position parameter =>
        (parameterTemplate known parameter.type,
          here ++ [toString position, parameter.name, parameter.type.text])) ++
      [("call", here), (resultTemplate known isConstructor overload, here)])

/-- The visits of an overload: one block for each number of arguments from the required ones up to
all, then the way on. -/
def overloadOutline (isConstructor : Bool) (count : Nat) (path : List String) (index : Nat)
    (overload : Overload) : List Visit :=
  let here := path ++ [toString index]
  within "overload" (here ++ [toString overload.requiredCount, toString overload.totalCount])
    ((List.range (overload.totalCount - overload.requiredCount + 1)).flatMap
        (blockOutline known isConstructor here overload) ++
      [if index + 1 < count then ("overload_next", here ++ [toString (index + 1)])
        else ("overload_error", here ++ [""])])

/-- The visits of a function in its holder; what is inside tells only the scope. -/
def functionOutline (word : String) (holder path : List String) (function : Function) :
    List Visit :=
  within word (holder ++ [function.name])
    (function.overloads.mapIdx (overloadOutline known function.isConstructor
      function.overloads.length (path ++ [function.name]))).flatten

/-- The visits of an enumeration: its options in order. -/
def enumerationOutline (word : String) (holder : List String) (enumeration : Enumeration) :
    List Visit :=
  let here := holder ++ [enumeration.name]
  within word here
    (enumeration.options.names.mapIdx fun position option =>
      (word ++ "_option", here ++ [toString position, option]))

/-- The visits of a class: its variables, enumerations and methods. -/
def classOutline (path : List String) (self : Symbols.Class) : List Visit :=
  let here := path ++ [self.name]
  within "class" here
    (self.fields.values.map (fun member =>
        ("class_variable", here ++ [member.name, member.type.text])) ++
      self.enumerations.values.flatMap (enumerationOutline "class_enumeration" here) ++
      self.methods.values.flatMap (functionOutline known "method" here path))

/-- The visits of a scope: its elements kind by kind. -/
def scopeOutline (header : String) (scope : Scope) : List Visit :=
  let here := [header, scope.name]
  within "namespace" here
    (scope.constants.values.map (fun element =>
        ("constant", here ++ [element.name, element.value])) ++
      scope.enumerations.values.flatMap (enumerationOutline "enumeration" here) ++
      scope.aliases.values.map (fun element =>
        ("type_alias", here ++ [element.name, element.type.text])) ++
      scope.globals.values.map (fun element =>
        ("variable", here ++ [element.name, element.type.text])) ++
      scope.functions.values.flatMap (functionOutline known "function" here here) ++
      scope.classes.values.flatMap (classOutline known here))

/-- The visits of a header: its scopes that are not empty. -/
def headerOutline (header : Header) : List Visit :=
  within "file" [header.name]
    ((header.scopes.values.filter fun scope => !scope.isEmpty).flatMap
      (scopeOutline known header.name))

/-- The visits of the module: a line for each header. -/
def moduleOutline (options : EmissionOptions) (headers : List Header) : List Visit :=
  within "module" [options.name, options.version]
    (headers.map fun header =>
      ("module_header", [header.name, outputPath options header.name]))

end Outlines

/-! ### Positions -/

section Positions

variable {α β γ : Type}

theorem take_mapIdx (items : List α) (change : Nat → α → β) (count : Nat) :
    (items.mapIdx change).take count = (items.take count).mapIdx change := by
  refine List.ext_getElem? fun position => ?_
  simp only [List.getElem?_take, List.getElem?_mapIdx]
  split <;> rfl

theorem map_mapIdx (items : List α) (change : Nat → α → β) (further : β → γ) :
    (items.mapIdx change).map further =
      items.mapIdx fun position item => further (change position item) := by
  refine List.ext_getElem? fun position => ?_
  rw [List.getElem?_map, List.getElem?_mapIdx, List.getElem?_mapIdx, Option.map_map]
  rfl

theorem mapIdx_of_anywhere (items : List α) (change : α → β) :
    (items.mapIdx fun _ item => change item) = items.map change := by
  refine List.ext_getElem? fun position => ?_
  rw [List.getElem?_map, List.getElem?_mapIdx]

end Positions

/-! ### Values -/

/-- The text of a key among others that were just written. -/
theorem Values.textOf_set (values : Values) (pairs : List (String × String)) (key : String) :
    (values.set pairs).textOf key = (under key pairs).getLast?.getD (values.textOf key) := by
  rw [textOf, set, OrderedMap.get?_foldl_insert]
  cases (under key pairs).getLast? <;> rfl

/-! ### Fragments -/

theorem visits_append (first second : List Fragment) :
    visits (first ++ second) = visits first ++ visits second :=
  List.map_append

theorem visits_map {α : Type} {items : List α} {fragment : α → Fragment} {shown : α → Visit}
    (each : ∀ item, (fragment item).visit = shown item) :
    visits (items.map fragment) = items.map shown := by
  rw [visits, List.map_map]
  exact List.map_congr_left fun item _ => each item

theorem visits_flatMap {α : Type} (items : List α) (fragments : α → List Fragment) :
    visits (items.flatMap fragments) = items.flatMap fun item => visits (fragments item) :=
  List.map_flatMap

theorem visits_bracketed (part : Section) (values : Values) (inner : List Fragment) :
    visits (bracketed part values inner) =
      within part.word (part.keys.map values.textOf) (visits inner) := by
  simp [visits, bracketed, within, Fragment.visit, FragmentKind.name, FragmentKind.keys]

section Functions

variable (known : KnownTypes) (options : PlanOptions)

theorem fragmentName_ofOverload (isConstructor : Bool) (overload : Overload) :
    (ReturnPlan.ofOverload known isConstructor overload).fragmentName =
      resultTemplate known isConstructor overload := by
  unfold ReturnPlan.ofOverload resultTemplate ReturnPlan.fragmentName
  cases isConstructor with
  | true => rfl
  | false => cases overload.returns.returnsNothing <;> rfl

/-- A planned block binds the parameters that it should. -/
theorem take_plannedParameters (overload : Overload) (index : Nat) :
    (overload.parameters.mapIdx (ParameterPlan.ofParameter known options)).take
        (overload.requiredCount + index) =
      (boundParameters overload index).mapIdx (ParameterPlan.ofParameter known options) :=
  take_mapIdx ..

/-- A parameter shows its place, its name and its type. -/
theorem visit_parameter {outer : Values} {path : List String}
    (told : ["header", "namespace", "function", "overload_index", "block_index"].map
      outer.textOf = path) (plan : ParameterPlan) :
    Fragment.visit ⟨.parameter plan, parameterValues outer plan⟩ =
      (plan.fragmentName, path ++ [toString plan.position, plan.name, plan.declaration]) := by
  subst told
  refine Prod.ext rfl ?_
  cases isCategory : plan.category <;>
    simp [Fragment.visit, FragmentKind.keys, parameterValues, isCategory, Values.textOf_set, under]

/-- A block shows its outline. -/
theorem visits_blockFragments {outer : Values} {path : List String}
    (told : ["header", "namespace", "function", "overload_index"].map outer.textOf = path)
    (isConstructor : Bool) (place : Nat) (successor : Option Nat) (overload : Overload)
    (index : Nat) :
    visits (blockFragments outer (.ofOverload known options isConstructor place successor overload)
      ⟨index, overload.requiredCount + index⟩) =
        blockOutline known isConstructor path overload index := by
  let bound := (boundParameters overload index).mapIdx (ParameterPlan.ofParameter known options)
  let values := blockValues outer ⟨index, overload.requiredCount + index⟩ bound
  have names : bound.map (·.name) = (boundParameters overload index).map (·.name) :=
    (map_mapIdx ..).trans (mapIdx_of_anywhere ..)
  have here : ["header", "namespace", "function", "overload_index", "block_index"].map
      values.textOf = path ++ [toString index] := by
    subst told
    simp [values, blockValues, Values.textOf_set, under]
  have ends : Section.block.keys.map values.textOf = path ++ [toString index] ++
      [toString (overload.requiredCount + index),
        commaList ((boundParameters overload index).map (·.name))] := by
    subst told
    simp [Section.keys, values, blockValues, Values.textOf_set, under, names]
  have parameters : visits (bound.map fun plan => ⟨.parameter plan, parameterValues values plan⟩) =
      (boundParameters overload index).mapIdx fun position parameter =>
        (parameterTemplate known parameter.type,
          path ++ [toString index] ++
            [toString position, parameter.name, parameter.type.text]) := by
    rw [visits, List.map_map, map_mapIdx]
    simp only [Function.comp_def, visit_parameter here]
    rfl
  have call : visits [⟨.call, values⟩, ⟨.result (.ofOverload known isConstructor overload),
      values⟩] = [("call", path ++ [toString index]),
        (resultTemplate known isConstructor overload, path ++ [toString index])] := by
    rw [← here, ← fragmentName_ofOverload]
    rfl
  unfold blockFragments
  simp only [OverloadPlan.ofOverload, take_plannedParameters]
  rw [visits_bracketed, visits_append, ends, parameters, call]
  rfl

/-- What overload values tell behind a path. -/
theorem told_overloadValues {outer : Values} {path : List String}
    (told : ["header", "namespace", "function"].map outer.textOf = path)
    (className : Option String) (plan : OverloadPlan) :
    ["header", "namespace", "function", "overload_index"].map
        (overloadValues outer className plan).textOf = path ++ [toString plan.index] ∧
      Section.overload.keys.map (overloadValues outer className plan).textOf =
        path ++ [toString plan.index] ++ [toString plan.required, toString plan.total] ∧
      FragmentKind.refusal.keys.map (overloadValues outer className plan).textOf =
        path ++ [toString plan.index] ++ [(plan.successor.map toString).getD ""] := by
  subst told
  cases className <;>
    simp [Section.keys, FragmentKind.keys, overloadValues, Values.textOf_set, under]

/-- The way on from an overload: to the next one, or to an error. -/
theorem visit_onward {plan : OverloadPlan} {values : Values} {here : List String}
    (told : FragmentKind.refusal.keys.map values.textOf =
      here ++ [(plan.successor.map toString).getD ""]) :
    Fragment.visit ⟨if plan.isLast then .refusal else .nextOverload, values⟩ =
      match plan.successor with
      | some next => ("overload_next", here ++ [toString next])
      | none => ("overload_error", here ++ [""]) := by
  unfold OverloadPlan.isLast
  cases isNext : plan.successor with
  | none =>
    rw [isNext] at told
    exact Prod.ext rfl told
  | some next =>
    rw [isNext] at told
    exact Prod.ext rfl told

/-- The blocks of an overload show one outline for each number of arguments. -/
theorem visits_blocks {outer : Values} {path : List String}
    (told : ["header", "namespace", "function", "overload_index"].map outer.textOf = path)
    (isConstructor : Bool) (place : Nat) (successor : Option Nat) (overload : Overload) :
    let plan := OverloadPlan.ofOverload known options isConstructor place successor overload
    visits (plan.blocks.flatMap (blockFragments outer plan)) =
      (List.range (overload.totalCount - overload.requiredCount + 1)).flatMap
        (blockOutline known isConstructor path overload) := by
  intro plan
  have count : plan.total + 1 - plan.required =
      overload.totalCount - overload.requiredCount + 1 := by
    have enough := overload.requiredCount_le_totalCount
    rw [total_ofOverload]
    show overload.totalCount + 1 - overload.requiredCount = _
    omega
  have each : ∀ index, visits (blockFragments outer plan ⟨index, plan.required + index⟩) =
      blockOutline known isConstructor path overload index :=
    visits_blockFragments known options told isConstructor place successor overload
  rw [visits_flatMap, OverloadPlan.blocks, List.flatMap_map, count]
  simp only [each]

/-- An overload shows its outline. -/
theorem visits_overloadFragments {outer : Values} {path : List String}
    (told : ["header", "namespace", "function"].map outer.textOf = path)
    (className : Option String) (isConstructor : Bool) (count index : Nat) (overload : Overload) :
    visits (overloadFragments outer className (.ofOverload known options isConstructor index
      (if index + 1 < count then some (index + 1) else none) overload)) =
        overloadOutline known isConstructor count path index overload := by
  obtain ⟨here, ends, onward⟩ := told_overloadValues told className
    (.ofOverload known options isConstructor index
      (if index + 1 < count then some (index + 1) else none) overload)
  have close := visit_onward onward
  unfold overloadFragments overloadOutline
  rw [visits_bracketed, visits_append, ends, visits_blocks known options here, total_ofOverload]
  simp only [visits, List.map_cons, List.map_nil, close]
  by_cases isFollowed : index + 1 < count <;>
    simp only [OverloadPlan.ofOverload, isFollowed] <;> rfl

end Functions

section Elements

variable (known : KnownTypes) (options : EmissionOptions)

/-- A function shows its outline, under whatever holder its own ends tell. -/
theorem visits_functionFragments {part : Section} {outer : Values} {holder path : List String}
    (told : ["header", "namespace"].map outer.textOf = path)
    (ends : ∀ plan description,
      part.keys.map (functionValues outer plan description).textOf = holder ++ [plan.name])
    (function : Function) :
    visits (functionFragments known options part outer function) =
      functionOutline known part.word holder path function := by
  let plan := FunctionPlan.ofFunction known options.plan function
  let values := functionValues outer plan function.description
  have here : ["header", "namespace", "function"].map values.textOf =
      path ++ [function.name] := by
    subst told
    simp [values, functionValues, Values.textOf_set, under, plan, FunctionPlan.ofFunction]
  have each : visits (plan.overloads.flatMap (overloadFragments values plan.className)) =
      (function.overloads.mapIdx (overloadOutline known function.isConstructor
        function.overloads.length (path ++ [function.name]))).flatten := by
    show visits ((overloadPlans known options.plan function).flatMap _) = _
    rw [visits_flatMap, List.flatMap_def, overloadPlans, map_mapIdx]
    simp only [visits_overloadFragments known options.plan here]
  show visits (bracketed part values
    (plan.overloads.flatMap (overloadFragments values plan.className))) = _
  rw [visits_bracketed, ends, each]
  rfl

/-- An enumeration shows its outline. -/
theorem visits_enumerationFragments {part : Section} {outer : Values} {holder : List String}
    (ends : ∀ enumeration,
      part.keys.map (enumerationValues outer enumeration).textOf = holder ++ [enumeration.name])
    (apart : ∀ key ∈ part.keys, key ≠ "option" ∧ key ≠ "option_index")
    (enumeration : Enumeration) :
    visits (enumerationFragments part outer enumeration) =
      enumerationOutline part.word holder enumeration := by
  let values := enumerationValues outer enumeration
  have each : ∀ position option, Fragment.visit
      ⟨.option part, optionValues values position option⟩ =
        (part.word ++ "_option",
          holder ++ [enumeration.name] ++ [toString position, option]) := by
    intro position option
    have same : part.keys.map (optionValues values position option).textOf =
        holder ++ [enumeration.name] := by
      rw [← ends enumeration]
      refine List.map_congr_left fun key isKey => ?_
      obtain ⟨notOption, notIndex⟩ := apart key isKey
      simp [optionValues, Values.textOf_set, under, notOption.symm, notIndex.symm, values]
    rw [Fragment.visit, FragmentKind.keys, List.map_append, same]
    simp [optionValues, Values.textOf_set, under, FragmentKind.name]
  unfold enumerationFragments
  rw [visits_bracketed, ends, visits, map_mapIdx]
  simp only [each, values]
  rfl

/-- A class shows its outline. -/
theorem visits_classFragments {outer : Values} {path : List String}
    (told : ["header", "namespace"].map outer.textOf = path) (self : Symbols.Class) :
    visits (classFragments known options outer self) = classOutline known path self := by
  subst told
  let values := classValues outer self
  have ends : Section.classDefinition.keys.map values.textOf =
      ["header", "namespace"].map outer.textOf ++ [self.name] := by
    simp [Section.keys, values, classValues, Values.textOf_set, under]
  have here : ["header", "namespace"].map values.textOf =
      ["header", "namespace"].map outer.textOf := by
    simp [values, classValues, Values.textOf_set, under]
  have members : visits (self.fields.values.map fun member =>
      ⟨.classVariable, classVariableValues known values member⟩) =
        self.fields.values.map fun member => ("class_variable",
          ["header", "namespace"].map outer.textOf ++ [self.name] ++
            [member.name, member.type.text]) := by
    refine visits_map fun member => Prod.ext rfl ?_
    rw [← ends]
    simp [Fragment.visit, FragmentKind.keys, Section.keys, classVariableValues, variableValues,
      Values.textOf_set, under]
  have enumerations : ∀ enumeration,
      visits (enumerationFragments .classEnumeration values enumeration) =
        enumerationOutline "class_enumeration"
          (["header", "namespace"].map outer.textOf ++ [self.name]) enumeration := by
    refine visits_enumerationFragments (fun enumeration => ?_) (by decide)
    rw [← ends]
    simp [Section.keys, enumerationValues, Values.textOf_set, under]
  have methods : ∀ function,
      visits (functionFragments known options .method values function) =
        functionOutline known "method" (["header", "namespace"].map outer.textOf ++ [self.name])
          (["header", "namespace"].map outer.textOf) function := by
    refine visits_functionFragments known options here fun plan description => ?_
    rw [← ends]
    simp [Section.keys, functionValues, Values.textOf_set, under]
  unfold classFragments
  rw [visits_bracketed, ends, visits_append, visits_append, members, visits_flatMap, visits_flatMap]
  simp only [enumerations, methods, values]
  rfl

/-- A scope shows its outline. -/
theorem visits_scopeFragments {outer : Values} {header : String}
    (told : outer.textOf "header" = header) (scope : Scope) :
    visits (scopeFragments known options outer scope) = scopeOutline known header scope := by
  let values := scopeValues outer scope
  have here : ["header", "namespace"].map values.textOf = [header, scope.name] := by
    simp [values, scopeValues, Values.textOf_set, under, told]
  have constants : visits (scope.constants.values.map fun element =>
      ⟨.constant, constantValues values element⟩) = scope.constants.values.map fun element =>
        ("constant", [header, scope.name] ++ [element.name, element.value]) := by
    refine visits_map fun element => Prod.ext rfl ?_
    rw [← here]
    simp [Fragment.visit, FragmentKind.keys, constantValues, Values.textOf_set, under]
  have enumerations : ∀ enumeration,
      visits (enumerationFragments .enumeration values enumeration) =
        enumerationOutline "enumeration" [header, scope.name] enumeration := by
    refine visits_enumerationFragments (fun enumeration => ?_) (by decide)
    rw [← here]
    simp [Section.keys, enumerationValues, Values.textOf_set, under]
  have aliases : visits (scope.aliases.values.map fun element =>
      ⟨.typeAlias, aliasValues known values element⟩) = scope.aliases.values.map fun element =>
        ("type_alias", [header, scope.name] ++ [element.name, element.type.text]) := by
    refine visits_map fun element => Prod.ext rfl ?_
    rw [← here]
    simp [Fragment.visit, FragmentKind.keys, aliasValues, Values.textOf_set, under]
  have globals : visits (scope.globals.values.map fun element =>
      ⟨.globalVariable, variableValues known values element.name element.type⟩) =
        scope.globals.values.map fun element =>
          ("variable", [header, scope.name] ++ [element.name, element.type.text]) := by
    refine visits_map fun element => Prod.ext rfl ?_
    rw [← here]
    simp [Fragment.visit, FragmentKind.keys, variableValues, Values.textOf_set, under]
  have functions : ∀ function,
      visits (functionFragments known options .function values function) =
        functionOutline known "function" [header, scope.name] [header, scope.name] function := by
    refine visits_functionFragments known options here fun plan description => ?_
    rw [← here]
    simp [Section.keys, functionValues, Values.textOf_set, under]
  unfold scopeFragments
  rw [visits_bracketed, visits_append, visits_append, visits_append, visits_append, visits_append,
    constants, aliases, globals, visits_flatMap, visits_flatMap, visits_flatMap]
  simp only [enumerations, functions, visits_classFragments known options here, values]
  rw [show Section.scope.keys = ["header", "namespace"] from rfl, here]
  rfl

end Elements

/-! ### Files -/

section Files

variable (options : EmissionOptions)

theorem textOf_headerValues (header : Header) :
    (headerValues options header).textOf "header" = header.name := by
  simp [headerValues, Values.textOf_set, under]

/-- **The file of a header shows every element of the header once, in table order.** -/
theorem visits_fileFragments (known : KnownTypes) (header : Header) :
    visits (fileFragments known options header) = headerOutline known header := by
  have told := textOf_headerValues options header
  unfold fileFragments headerOutline
  rw [visits_bracketed, visits_flatMap]
  simp only [visits_scopeFragments known options told]
  rw [show Section.file.keys.map (headerValues options header).textOf = [header.name] from
    congrArg (fun name => [name]) told]
  rfl

/-- The module shows a line for each header. -/
theorem visits_moduleFragments (headers : List Header) :
    visits (moduleFragments options headers) = moduleOutline options headers := by
  have line : ∀ header, Fragment.visit ⟨.moduleHeader, (headerValues options header).set
      [("output", outputPath options header.name)]⟩ =
        ("module_header", [header.name, outputPath options header.name]) := by
    intro header
    refine Prod.ext rfl ?_
    simp [Fragment.visit, FragmentKind.keys, Values.textOf_set, under, textOf_headerValues]
  unfold moduleFragments moduleOutline
  rw [visits_bracketed, visits_map line]
  refine congrArg (fun told => within _ told _) ?_
  simp [Section.keys, baseValues, Values.textOf_set, under]

end Files

end Bindery.Wrapper
