/-
**The tables that are loaded.**

A table is read from documentation, from the documents of a data cache or from a definition script.
The three go about it in different ways and have this in common: each element is built from its
parts before it goes into the table, and each member before it goes into its class.

* `Table.Loaded` — what a loader returns.
* `Table.Loaded.isStorable` — it is storable, whatever was read.
-/

import Bindery.Proofs.Cache.Storable
import Bindery.Proofs.Reference.Storable
import Bindery.Proofs.Wrapper.CacheFormats

namespace Bindery.Symbols.Table

open Cache Reference

/-- The tables that a loader returns. -/
inductive Loaded : Table → Prop
  /-- An empty table that is filled from the documentation in a folder. -/
  | documentation {options : Options} {folder : String} {tree : FileTree} {extraction : Extraction}
      (succeeds : extract options folder tree = .ok extraction) :
      Loaded (Table.empty.applyAll extraction.edits)
  /-- A table that a cache holds, be it data or source. -/
  | cache {format : Format} {policy : DuplicatePolicy} {folder : String} {tree : FileTree}
      {table : Table} (succeeds : load format policy folder tree = .ok table) : Loaded table

/-- Every loader yields a storable table. -/
theorem Loaded.isStorable {table : Table} (loaded : table.Loaded) : table.IsStorable := by
  cases loaded with
  | documentation succeeds => exact isStorable_extract _ _ _ _ succeeds
  | cache succeeds => exact isStorable_load _ _ _ _ _ succeeds

/-- A folder where two documents list a function, and a table of two scopes in both kinds of
cache. -/
theorem Loaded.isStorable_samples :
    (∃ extraction, extract {} "xml" (folderOf sampleIndex sampleDocument) = .ok extraction ∧
      (Table.empty.applyAll extraction.edits).IsStorable) ∧
    (∃ saved loaded, save .data sample "cache" {} = .ok () saved ∧
      load .data .ignore "cache" saved = .ok loaded ∧ (loaded == sample) = true ∧
      loaded.IsStorable) ∧
    ∃ saved, save .source sample "cache" {} = .ok () saved ∧
      load .source .ignore "cache" saved = .ok sample ∧ sample.IsStorable := by
  have sound := built_sample.isSound
  have plain : HasPlainMethodNames sample := by decide +kernel
  obtain ⟨extraction, succeeds⟩ := exists_extract_sample
  obtain ⟨savedData, savesData, loadsData⟩ := Wrapper.load_of_restores (restores_data sound plain)
  obtain ⟨savedSource, savesSource, loadsSource⟩ := Wrapper.load_of_restores (restores_source sound)
  exact ⟨⟨extraction, succeeds, (Loaded.documentation succeeds).isStorable⟩,
    ⟨savedData, _, savesData, loadsData, sample.arranged_beq _,
      (Loaded.cache loadsData).isStorable⟩,
    savedSource, savesSource, loadsSource, (Loaded.cache loadsSource).isStorable⟩

end Bindery.Symbols.Table
