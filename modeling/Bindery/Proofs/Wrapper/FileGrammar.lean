/-
**Generated files are well bracketed and complete.**

The templates of a file come in a fixed order, which is a regular language: each section stands
between its two ends, and what is inside follows the grammar of the section. The outlines of all
headers lie in that language, so the files do.

* `fileGrammar`, `moduleGrammar` — the sequences of templates of a header's file and of the module.
* `templatesOf_headerOutline` — the outline of a header follows the grammar.
* `emitBy_complete` — each enabled header has one file, which follows the grammar and shows every
  element of the header once and in order; the module lists the files.
-/

import Mathlib.Computability.Language
import Bindery.Proofs.Wrapper.Outline

namespace Bindery.Wrapper

open Symbols
open scoped Computability

/-! ### The grammar -/

/-- One of some templates. -/
def oneOf (names : List String) : Language String := {word | ∃ name ∈ names, word = [name]}

/-- Templates between the two ends of a section. -/
def between (word : String) (inner : Language String) : Language String :=
  oneOf [word ++ "_begin"] * inner * oneOf [word ++ "_end"]

/-- The words for categories in the names of templates. -/
def categoryWords : List String := ["primitive", "enumeration", "object", "array"]

/-- The templates that take parameters. -/
def parameterTemplates : List String := categoryWords.map ("parameter_" ++ ·)

/-- The templates that give results back. -/
def resultTemplates : List String :=
  ["return_constructor", "return_void"] ++ categoryWords.map ("return_" ++ ·)

/-- A block takes its parameters, makes the call and gives the result back. -/
def blockGrammar : Language String :=
  between "block" ((oneOf parameterTemplates)∗ * oneOf ["call"] * oneOf resultTemplates)

/-- An overload has blocks and then a way on. -/
def overloadGrammar : Language String :=
  between "overload" (blockGrammar∗ * oneOf ["overload_next", "overload_error"])

/-- A function or a method has overloads. -/
def functionGrammar (word : String) : Language String := between word overloadGrammar∗

/-- An enumeration has options. -/
def enumerationGrammar (word : String) : Language String :=
  between word (oneOf [word ++ "_option"])∗

/-- A class has variables, then enumerations, then methods. -/
def classGrammar : Language String :=
  between "class" ((oneOf ["class_variable"])∗ * (enumerationGrammar "class_enumeration")∗ *
    (functionGrammar "method")∗)

/-- A scope has its elements kind by kind. -/
def scopeGrammar : Language String :=
  between "namespace" ((oneOf ["constant"])∗ * (enumerationGrammar "enumeration")∗ *
    (oneOf ["type_alias"])∗ * (oneOf ["variable"])∗ * (functionGrammar "function")∗ *
    classGrammar∗)

/-- The file of a header has scopes. -/
def fileGrammar : Language String := between "file" scopeGrammar∗

/-- The module has a line for each file. -/
def moduleGrammar : Language String := between "module" (oneOf ["module_header"])∗

/-! ### Outlines follow the grammar -/

/-- The templates of visits. -/
def templatesOf (shown : List Visit) : List String := shown.map Prod.fst

theorem templatesOf_append (first second : List Visit) :
    templatesOf (first ++ second) = templatesOf first ++ templatesOf second :=
  List.map_append

theorem templatesOf_within {word : String} {told : List String} {inner : List Visit}
    {grammar : Language String} (inside : templatesOf inner ∈ grammar) :
    templatesOf (within word told inner) ∈ between word grammar := by
  have opens : [word ++ "_begin"] ∈ oneOf [word ++ "_begin"] := ⟨_, List.mem_singleton_self _, rfl⟩
  have closes : [word ++ "_end"] ∈ oneOf [word ++ "_end"] := ⟨_, List.mem_singleton_self _, rfl⟩
  have parts : templatesOf (within word told inner) =
      [word ++ "_begin"] ++ templatesOf inner ++ [word ++ "_end"] := by
    simp [templatesOf, within]
  rw [parts]
  exact Language.append_mem_mul (Language.append_mem_mul opens inside) closes

/-- What every item of a list follows, the list follows again and again. -/
theorem templatesOf_flatten {parts : List (List Visit)} {grammar : Language String}
    (each : ∀ part ∈ parts, templatesOf part ∈ grammar) : templatesOf parts.flatten ∈ grammar∗ := by
  rw [templatesOf, List.map_flatten]
  refine Language.join_mem_kstar fun word isWord => ?_
  obtain ⟨part, isPart, rfl⟩ := List.mem_map.mp isWord
  exact each part isPart

theorem templatesOf_flatMap {α : Type} {items : List α} {shown : α → List Visit}
    {grammar : Language String} (each : ∀ item, templatesOf (shown item) ∈ grammar) :
    templatesOf (items.flatMap shown) ∈ grammar∗ := by
  refine templatesOf_flatten fun part isPart => ?_
  obtain ⟨item, _, rfl⟩ := List.mem_map.mp isPart
  exact each item

/-- Single visits with one of some templates each. -/
theorem templatesOf_singles {shown : List Visit} {templates : List String}
    (each : ∀ visit ∈ shown, visit.1 ∈ templates) : templatesOf shown ∈ (oneOf templates)∗ := by
  have parts : templatesOf (shown.map fun visit => [visit]).flatten ∈ (oneOf templates)∗ := by
    refine templatesOf_flatten fun part isPart => ?_
    obtain ⟨visit, isVisit, rfl⟩ := List.mem_map.mp isPart
    exact ⟨visit.1, each visit isVisit, rfl⟩
  rwa [← List.flatMap_def, List.flatMap_singleton'] at parts

theorem templatesOf_map {α : Type} (items : List α) (template : String) (told : α → List String) :
    templatesOf (items.map fun item => (template, told item)) ∈ (oneOf [template])∗ := by
  refine templatesOf_singles fun visit isVisit => ?_
  obtain ⟨item, _, rfl⟩ := List.mem_map.mp isVisit
  exact List.mem_singleton_self template

theorem suffix_mem_categoryWords (category : Category) : category.suffix ∈ categoryWords := by
  cases category <;> simp [Category.suffix, categoryWords]

section Outlines

variable (known : KnownTypes)

theorem resultTemplate_mem (isConstructor : Bool) (overload : Overload) :
    resultTemplate known isConstructor overload ∈ resultTemplates := by
  have ofCategory : "return_" ++ (known.categoryOf overload.returns).suffix ∈
      categoryWords.map ("return_" ++ ·) :=
    List.mem_map_of_mem (suffix_mem_categoryWords _)
  unfold resultTemplate resultTemplates
  split
  next => exact List.mem_append_left _ (by decide)
  next =>
    split
    next => exact List.mem_append_left _ (by decide)
    next => exact List.mem_append_right _ ofCategory

theorem templatesOf_blockOutline (isConstructor : Bool) (path : List String) (overload : Overload)
    (index : Nat) :
    templatesOf (blockOutline known isConstructor path overload index) ∈ blockGrammar := by
  have parameters : templatesOf ((boundParameters overload index).mapIdx fun position parameter =>
      (parameterTemplate known parameter.type,
        path ++ [toString index] ++ [toString position, parameter.name, parameter.type.text])) ∈
      (oneOf parameterTemplates)∗ := by
    refine templatesOf_singles fun visit isVisit => ?_
    obtain ⟨position, inside, rfl⟩ := List.mem_mapIdx.mp isVisit
    exact List.mem_map_of_mem (suffix_mem_categoryWords _)
  have call : ["call"] ++ [resultTemplate known isConstructor overload] ∈
      oneOf ["call"] * oneOf resultTemplates :=
    Language.append_mem_mul ⟨_, List.mem_singleton_self _, rfl⟩
      ⟨_, resultTemplate_mem known isConstructor overload, rfl⟩
  refine templatesOf_within ?_
  rw [templatesOf_append, mul_assoc]
  exact Language.append_mem_mul parameters call

theorem templatesOf_overloadOutline (isConstructor : Bool) (count : Nat) (path : List String)
    (index : Nat) (overload : Overload) :
    templatesOf (overloadOutline known isConstructor count path index overload) ∈
      overloadGrammar := by
  refine templatesOf_within ?_
  rw [templatesOf_append]
  refine Language.append_mem_mul
    (templatesOf_flatMap fun block => templatesOf_blockOutline known _ _ overload block) ?_
  split
  next => exact ⟨"overload_next", by decide, rfl⟩
  next => exact ⟨"overload_error", by decide, rfl⟩

theorem templatesOf_functionOutline (word : String) (holder path : List String)
    (function : Function) :
    templatesOf (functionOutline known word holder path function) ∈ functionGrammar word := by
  refine templatesOf_within (templatesOf_flatten fun part isPart => ?_)
  obtain ⟨index, inside, rfl⟩ := List.mem_mapIdx.mp isPart
  exact templatesOf_overloadOutline known _ _ _ _ _

theorem templatesOf_enumerationOutline (word : String) (holder : List String)
    (enumeration : Enumeration) :
    templatesOf (enumerationOutline word holder enumeration) ∈ enumerationGrammar word := by
  refine templatesOf_within (templatesOf_singles fun visit isVisit => ?_)
  obtain ⟨index, inside, rfl⟩ := List.mem_mapIdx.mp isVisit
  exact List.mem_singleton_self _

theorem templatesOf_classOutline (path : List String) (self : Symbols.Class) :
    templatesOf (classOutline known path self) ∈ classGrammar := by
  refine templatesOf_within ?_
  rw [templatesOf_append, templatesOf_append]
  refine Language.append_mem_mul (Language.append_mem_mul ?fields ?enumerations) ?methods
  case fields => exact templatesOf_map _ _ _
  case enumerations => exact templatesOf_flatMap fun _ => templatesOf_enumerationOutline _ _ _
  case methods => exact templatesOf_flatMap fun _ => templatesOf_functionOutline known _ _ _ _

theorem templatesOf_scopeOutline (header : String) (scope : Scope) :
    templatesOf (scopeOutline known header scope) ∈ scopeGrammar := by
  refine templatesOf_within ?_
  simp only [templatesOf_append]
  refine Language.append_mem_mul (Language.append_mem_mul (Language.append_mem_mul
    (Language.append_mem_mul (Language.append_mem_mul ?constants ?enumerations) ?aliases)
    ?globals) ?functions) ?classes
  case constants | aliases | globals => exact templatesOf_map _ _ _
  case enumerations => exact templatesOf_flatMap fun _ => templatesOf_enumerationOutline _ _ _
  case functions => exact templatesOf_flatMap fun _ => templatesOf_functionOutline known _ _ _ _
  case classes => exact templatesOf_flatMap fun _ => templatesOf_classOutline known _ _

/-- The outline of a header follows the grammar. -/
theorem templatesOf_headerOutline (header : Header) :
    templatesOf (headerOutline known header) ∈ fileGrammar :=
  templatesOf_within (templatesOf_flatMap fun _ => templatesOf_scopeOutline known _ _)

theorem templatesOf_moduleOutline (options : EmissionOptions) (headers : List Header) :
    templatesOf (moduleOutline options headers) ∈ moduleGrammar :=
  templatesOf_within (templatesOf_map _ _ _)

end Outlines

/-! ### Generated files -/

/-- The templates of fragments are those of what they show. -/
theorem templatesOf_visits (fragments : List Fragment) :
    templatesOf (visits fragments) = fragments.map (·.kind.name) := by
  simp [templatesOf, visits, Fragment.visit]

/-- **Generated files are well bracketed and complete.** Whoever writes the fragments, each enabled
header has one file, in table order, and the module stands behind them. A file puts fragments
together whose templates follow the grammar and which show the outline of the header: each element
of it once, in table order, with one block for each number of arguments. No block binds more
parameters than there are. -/
theorem emitBy_complete (options : EmissionOptions) (table : Table) :
    ∃ (file : Header → List Fragment) (module : List Fragment),
      (∀ provider : Provider, emitBy provider options table =
        (table.headerList.filter (·.enabled)).map (fun header =>
          { path := outputPath options header.name
            contents := String.join ((file header).map (·.renderBy provider)) }) ++
        [{ path := outputPath options options.name
           contents := String.join (module.map (·.renderBy provider)) }]) ∧
      (∀ header ∈ table.headerList.filter (·.enabled),
        (file header).map (·.kind.name) ∈ fileGrammar ∧
          visits (file header) = headerOutline (.ofTable table) header) ∧
      module.map (·.kind.name) ∈ moduleGrammar ∧
      visits module = moduleOutline options (table.headerList.filter (·.enabled)) ∧
      ∀ function : Function,
        ∀ overload ∈ (FunctionPlan.ofFunction (.ofTable table) options.plan function).overloads,
          ∀ block ∈ overload.blocks, block.argumentCount ≤ overload.parameters.length := by
  refine ⟨fileFragments (.ofTable table) options, moduleFragments options table.enabledHeaders,
    fun provider => rfl, fun header _ => ⟨?_, ?_⟩, ?_, ?_, ?_⟩
  · rw [← templatesOf_visits, visits_fileFragments]
    exact templatesOf_headerOutline _ header
  · exact visits_fileFragments options _ header
  · rw [← templatesOf_visits, visits_moduleFragments]
    exact templatesOf_moduleOutline options _
  · exact visits_moduleFragments options _
  · intro function overload _ block isBlock
    exact ((overload.mem_blocks block).mp isBlock).2.1

end Bindery.Wrapper
