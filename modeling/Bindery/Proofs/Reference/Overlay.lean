/-
**Extraction overlays the table that it goes into.**

Elements enter the table as they are found, functions outside classes are gathered and enter last,
and a class enters as a whole. What is in the table before plays no part in any of this, so that the
result is told by the table and by the extraction into nothing.

* `extractInto` — the documentation in a folder brought into a table.
* `extractInto_overlays` — the overlay of the extraction into nothing, with every switch kept.
-/

import Bindery.Proofs.Reference.Extraction
import Bindery.Proofs.Symbols.Overlay

namespace Bindery.Reference

open Symbols

/-- Reads the documentation in a folder and brings what it amounts to into a table. -/
def extractInto (options : Options) (folder : String) (tree : FileTree) (table : Table) :
    Except Failure Table :=
  (extract options folder tree).map fun extraction => table.applyAll extraction.edits

/-- An extraction adds elements and switches no header. -/
theorem Extraction.switches_eq_nil (extraction : Extraction) (header : String) :
    extraction.edits.filterMap (Edit.switch? header) = [] := by
  refine List.filterMap_eq_nil_iff.mpr fun edit isEdit => ?_
  rw [edits, List.mem_append, List.mem_filterMap, List.mem_map] at isEdit
  rcases isEdit with ⟨finding, _, isElement⟩ | ⟨found, _, rfl⟩
  · cases finding with
    | element holder scope element =>
      obtain rfl := Option.some.inj isElement
      rfl
    | overload | warning => cases isElement
  · rfl

/-- Extraction into a table leaves the overlay of the extraction into nothing on it. Headers that
are there keep their switches. A second extraction changes nothing, not even an order. -/
theorem extractInto_overlays {options : Options} {folder : String} {tree : FileTree}
    {fresh : Table} (succeeds : extractInto options folder tree .empty = .ok fresh)
    (table : Table) :
    ∃ made, extractInto options folder tree table = .ok made ∧
      Table.IsOverlay table fresh made ∧
      (∀ header, made.enabled? header = (table.enabled? header).or (fresh.enabled? header)) ∧
      extractInto options folder tree made = .ok made := by
  unfold extractInto at succeeds ⊢
  cases isExtraction : extract options folder tree with
  | error failure =>
    rw [isExtraction] at succeeds
    cases succeeds
  | ok extraction =>
    rw [isExtraction] at succeeds
    obtain rfl := Except.ok.inj succeeds
    refine ⟨_, rfl, table.isOverlay_applyAll extraction.edits, fun header => ?_, ?_⟩
    · rw [Table.enabled?_applyAll, extraction.switches_eq_nil, List.getLast?_nil, Option.none_or]
    · exact congrArg Except.ok (table.applyAll_applyAll extraction.edits)

/-- A table with another function of the name that is found, in a header that is switched off. -/
def overlaidTable : Table := Table.empty.applyAll [
  .add "m" "m" (.function { name := "f", description := "an older function" }),
  .add "m" "m" (.constant { name := "LIMIT", value := "4" }),
  .enable "m" false]

theorem extractInto_overlays_sample : ∃ fresh made,
    extractInto {} "xml" (folderOf sampleIndex sampleDocument) .empty = .ok fresh ∧
      extractInto {} "xml" (folderOf sampleIndex sampleDocument) overlaidTable = .ok made ∧
      Table.IsOverlay overlaidTable fresh made ∧ made.enabled? "m" = some false := by
  obtain ⟨extraction, isExtraction⟩ := exists_extract_sample
  have succeeds : extractInto {} "xml" (folderOf sampleIndex sampleDocument) .empty =
      .ok (Table.empty.applyAll extraction.edits) := by
    rw [extractInto, isExtraction]
    rfl
  obtain ⟨made, isMade, overlays, switches, _⟩ := extractInto_overlays succeeds overlaidTable
  have isOff : overlaidTable.enabled? "m" = some false := by decide +kernel
  refine ⟨_, made, succeeds, isMade, overlays, ?_⟩
  rw [switches, isOff, Option.some_or]

end Bindery.Reference
