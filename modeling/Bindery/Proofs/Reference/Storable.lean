/-
**What documentation builds.**

* `built_foundFunctions` — a function that is gathered from overloads was built from them.
* `isStorable_extract` — the table of every folder that is read.
-/

import Bindery.Proofs.Reference.Extraction
import Bindery.Proofs.Returns
import Bindery.Proofs.Symbols.Storable

namespace Bindery.Reference

open Symbols

/-- Adding a built overload keeps functions built. -/
theorem built_addTo {functions : List FoundFunction}
    (built : ∀ found ∈ functions, found.function.Built) {added : FoundOverload}
    (builtOverload : added.overload.Built) :
    ∀ found ∈ added.addTo functions, found.function.Built := by
  unfold FoundOverload.addTo
  induction functions with
  | nil =>
    intro found isFound
    obtain rfl := List.mem_singleton.mp isFound
    exact .addOverload (.fresh _) builtOverload
  | cons first rest ih =>
    rw [List.forall_mem_cons] at built
    unfold addFound
    split
    next => exact List.forall_mem_cons.mpr ⟨.addOverload built.1 builtOverload, built.2⟩
    next => exact List.forall_mem_cons.mpr ⟨built.1, ih built.2⟩

theorem built_foundFunctions {findings : List Finding}
    (builtOverloads : ∀ found ∈ foundOverloads findings, found.overload.Built) :
    ∀ found ∈ foundFunctions findings, found.function.Built := by
  have kept : ∀ (overloads : List FoundOverload) {functions : List FoundFunction},
      (∀ found ∈ overloads, found.overload.Built) →
      (∀ found ∈ functions, found.function.Built) →
      ∀ found ∈ overloads.foldl FoundOverload.addTo functions, found.function.Built := by
    intro overloads
    induction overloads with
    | nil => exact fun _ built => built
    | cons added rest ih =>
      intro functions builtOverloads built
      rw [List.forall_mem_cons] at builtOverloads
      exact ih builtOverloads.2 (built_addTo built builtOverloads.1)
  rw [foundFunctions_eq]
  exact kept _ builtOverloads (by simp)

theorem Finding.IsElement.built {header scope : String} {element : Element}
    (isElement : (Finding.element header scope element).IsElement) : element.Built := by
  cases element with
  | function => exact isElement.elim
  | _ => exact isElement

/-- Everything that an extraction adds to a table was built. -/
theorem hasBuilt_edits {options : Options} {folder : String} {tree : FileTree}
    {extraction : Extraction} (succeeds : extract options folder tree = .ok extraction) :
    ∀ edit ∈ extraction.edits, edit.HasBuilt := by
  have areFound := findings_cases succeeds
  have builtOverloads : ∀ found ∈ foundOverloads extraction.findings, found.overload.Built := by
    intro found isFound
    obtain ⟨finding, isFinding, isOverload⟩ := List.mem_filterMap.mp isFound
    rcases areFound finding isFinding with isElement | ⟨_, _, _, rfl, built⟩
    · cases finding with
      | overload => exact isElement.elim
      | element => cases isOverload
      | warning => cases isOverload
    · exact Option.some.inj isOverload ▸ built
  intro edit isEdit
  rw [Extraction.edits_eq, List.mem_append] at isEdit
  rcases isEdit with isElement | isFunction
  · obtain ⟨finding, isFinding, isAddition⟩ := List.mem_filterMap.mp isElement
    rcases areFound finding isFinding with isElement | ⟨_, _, _, rfl, _⟩
    · cases finding with
      | overload => cases isAddition
      | element => exact Option.some.inj isAddition ▸ isElement.built
      | warning => cases isAddition
    · cases isAddition
  · obtain ⟨found, isFound, rfl⟩ := List.mem_map.mp isFunction
    exact built_foundFunctions builtOverloads found isFound

/-- The table that documentation fills is storable. -/
theorem isStorable_extract (options : Options) (folder : String) (tree : FileTree) :
    Returns (fun extraction => (Table.empty.applyAll extraction.edits).IsStorable)
      (extract options folder tree) :=
  fun _ succeeds => Table.isStorable_empty.applyAll (hasBuilt_edits succeeds)

end Bindery.Reference
