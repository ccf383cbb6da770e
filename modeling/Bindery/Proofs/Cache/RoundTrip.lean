/-
**A table that is saved is loaded again.**

Saving succeeds wherever a folder can be made and no folder stands in the place of a file of the
cache. All files are written anew each time, so what the folder held before is never read.

* `Table.arranged_beq` — the order of scopes does not count for equality.
* `save_eq_ok_iff` — where saving succeeds.
* `restores_data`, `restores_source` — what is loaded from each format.
-/

import Bindery.Proofs.Cache.Loading
import Bindery.Proofs.Files.Writing
import Bindery.Proofs.Script.RoundTrip
import Bindery.Proofs.Symbols.Equality

namespace Bindery

/-! ### Equality up to order -/

namespace Symbols

/-- The order of its scopes does not count for a header. -/
theorem Header.arranged_beq (passes : List Pass) (header : Header) :
    (header == header.arranged passes) = true := by
  have scopes : (header.scopes == (header.arranged passes).scopes) = true := by
    refine OrderedMap.beq_of_get? ?_ fun key scope found => ⟨scope, ?_, beq_self_eq_true scope⟩
    · exact (arrange_perm _ header.scopes.entries).length_eq.symm
    · exact (OrderedMap.get?_arrange _ header.scopes key).trans found
  show (header.name == header.name && (header.enabled == header.enabled &&
    header.scopes == (header.arranged passes).scopes)) = true
  rw [beq_self_eq_true, beq_self_eq_true, scopes]
  rfl

/-- The order of the scopes in its headers does not count for a table. -/
theorem Table.arranged_beq (passes : List Pass) (table : Table) :
    (table.arranged passes == table) = true := by
  show (table.headers.mapValues (Header.arranged passes) == table.headers) = true
  refine OrderedMap.beq_of_get? ?_ fun key header found => ?_
  · exact List.length_map ..
  · rw [OrderedMap.get?_mapValues] at found
    obtain ⟨own, isOwn, rfl⟩ := Option.map_eq_some_iff.mp found
    exact ⟨own, isOwn, own.arranged_beq passes⟩

end Symbols

namespace Cache

open Symbols

/-! ### The files of a cache -/

/-- The names of the files of a cache. -/
def fileNames : Format → List String
  | .data => ["includes.json", "constants.json", "enumerations.json", "type_definitions.json",
      "variables.json", "functions.json", "classes.json", "class_enumerations.json",
      "class_variables.json"]
  | .source => [scriptFile]

theorem map_fst_files (format : Format) (table : Table) :
    (files format table).map Prod.fst = fileNames format := by
  cases format <;> rfl

theorem nodup_fileNames (format : Format) : (fileNames format).Nodup := by
  cases format <;> decide

theorem plain_fileNames (format : Format) : ∀ name ∈ fileNames format, Path.IsPlain name := by
  cases format <;> decide

theorem short_fileNames (format : Format) :
    ∀ name ∈ fileNames format, FileTree.isName name = true := by
  cases format <;> decide

/-- The files of a cache by path. -/
def filesIn (folder : String) (format : Format) (table : Table) : List (String × String) :=
  (files format table).map fun file => (Path.join folder file.1, file.2)

theorem mem_filesIn {format : Format} {table : Table} {file : String × String}
    (isFile : file ∈ files format table) (folder : String) :
    (Path.join folder file.1, file.2) ∈ filesIn folder format table :=
  List.mem_map.mpr ⟨file, isFile, rfl⟩

/-- Nothing is in the way of a cache in a folder: the paths of its files are not too long, and no
folder stands in the place of one. -/
def HasRoom (format : Format) (tree : FileTree) (folder : String) : Prop :=
  ∀ name ∈ fileNames format, FileTree.isPath (Path.join folder name) = true ∧
    tree.isFolder (Path.join folder name) = false

instance (format : Format) (tree : FileTree) (folder : String) :
    Decidable (HasRoom format tree folder) :=
  inferInstanceAs (Decidable (∀ name ∈ fileNames format,
    FileTree.isPath (Path.join folder name) = true ∧
      tree.isFolder (Path.join folder name) = false))

theorem canWrite_filesIn_iff {tree : FileTree} {folder : String}
    (isFolder : tree.isFolder folder = true) (format : Format) (table : Table) :
    (∀ file ∈ filesIn folder format table, tree.CanWrite file.1) ↔
      HasRoom format tree folder := by
  have eachName : (∀ file ∈ filesIn folder format table, tree.CanWrite file.1) ↔
      ∀ name ∈ fileNames format, tree.CanWrite (Path.join folder name) := by
    rw [filesIn, List.forall_mem_map, ← map_fst_files format table, List.forall_mem_map]
  rw [eachName, HasRoom]
  refine forall₂_congr fun name isName => ?_
  exact FileTree.canWrite_join_iff (plain_fileNames format name isName)
    (short_fileNames format name isName) isFolder

/-- The files of a cache that can be written stand at different locations. -/
theorem distinct_filesIn {tree : FileTree} {folder : String} {format : Format} {table : Table}
    (writable : ∀ file ∈ filesIn folder format table, tree.CanWrite file.1) :
    ((filesIn folder format table).map fun file => tree.locate? file.1).Nodup := by
  have areThere : ∀ name ∈ fileNames format,
      (tree.locate? (Path.join folder name)).isSome = true := by
    intro name isName
    rw [← map_fst_files format table] at isName
    obtain ⟨file, isFile, rfl⟩ := List.mem_map.mp isName
    obtain ⟨location, isThere, _⟩ := writable _ (mem_filesIn isFile folder)
    exact Option.isSome_of_eq_some isThere
  have byName := FileTree.distinct_join (plain_fileNames format) (nodup_fileNames format) areThere
  rw [← map_fst_files format table, List.map_map] at byName
  rw [filesIn, List.map_map]
  exact byName

/-! ### Saving -/

/-- Saving makes the folder and writes the files. -/
theorem save_eq {tree prepared : FileTree} {folder : String}
    (makes : tree.makeFolders folder = (prepared, true)) (format : Format) (table : Table) :
    save format table folder tree =
      ((filesIn folder format table).forM fun (path, text) => Disk.writeText path text)
        prepared := by
  have makesFolder : Disk.makeFolders folder .createCacheFolder tree = .ok () prepared := by
    rw [Disk.makeFolders, makes]
  have sameWrites : ((files format table).forM fun (name, text) =>
      Disk.writeText (Path.join folder name) text) =
        (filesIn folder format table).forM fun (path, text) => Disk.writeText path text := by
    rw [filesIn, List.forM_eq_forM, List.forM_map]
  show EStateM.bind (Disk.makeFolders folder .createCacheFolder) _ tree = _
  rw [EStateM.bind, makesFolder, ← sameWrites]

/-- A cache that was saved was written behind its folder. -/
theorem save_cases {format : Format} {table : Table} {folder : String} {tree saved : FileTree}
    (saves : save format table folder tree = .ok () saved) :
    ∃ prepared, tree.makeFolders folder = (prepared, true) ∧
      ((filesIn folder format table).forM fun (path, text) => Disk.writeText path text) prepared =
        .ok () saved := by
  rcases makes : tree.makeFolders folder with ⟨prepared, isMade⟩
  cases isMade with
  | false =>
    have fails : EStateM.bind (Disk.makeFolders folder .createCacheFolder) _ tree = _ := saves
    rw [EStateM.bind, Disk.makeFolders, makes] at fails
    cases fails
  | true => exact ⟨prepared, rfl, (save_eq makes format table).symm.trans saves⟩

/-- Where nothing is in the way, all files are written. -/
theorem save_of_hasRoom {format : Format} {tree prepared : FileTree} {folder : String}
    (named : folder ≠ "") (makes : tree.makeFolders folder = (prepared, true))
    (hasRoom : HasRoom format prepared folder) (table : Table) :
    ∃ saved, save format table folder tree = .ok () saved ∧ saved.isFolder folder = true ∧
      HoldsFiles saved folder (files format table) := by
  have isFolder := FileTree.isFolder_makeFolders named makes
  have writable := (canWrite_filesIn_iff isFolder format table).mpr hasRoom
  obtain ⟨saved, writes, same, areRead, _⟩ :=
    FileTree.forM_writeText writable (distinct_filesIn writable)
  refine ⟨saved, (save_eq makes format table).trans writes, same.isFolder isFolder, ?_⟩
  intro file isFile
  have isRead := areRead _ (mem_filesIn isFile folder)
  exact isRead

/-- Saving succeeds exactly where the folder can be made and nothing is in the way. -/
theorem save_eq_ok_iff {folder : String} (named : folder ≠ "") (format : Format) (table : Table)
    (tree : FileTree) :
    (∃ saved, save format table folder tree = .ok () saved) ↔
      ∃ prepared, tree.makeFolders folder = (prepared, true) ∧ HasRoom format prepared folder := by
  constructor
  · rintro ⟨saved, saves⟩
    obtain ⟨prepared, makes, writes⟩ := save_cases saves
    refine ⟨prepared, makes, ?_⟩
    rw [← canWrite_filesIn_iff (FileTree.isFolder_makeFolders named makes) format table]
    exact FileTree.canWrite_of_forM_writeText writes
  · rintro ⟨prepared, makes, hasRoom⟩
    obtain ⟨saved, saves, _⟩ := save_of_hasRoom named makes hasRoom table
    exact ⟨saved, saves⟩

/-! ### Loading what was saved -/

/-- Wherever a cache of a table can be saved, another table is loaded from it, whatever the folder
held before. -/
def Restores (format : Format) (table loaded : Table) : Prop :=
  ∀ (folder : String) (tree prepared : FileTree), folder ≠ "" →
    tree.makeFolders folder = (prepared, true) → HasRoom format prepared folder →
      ∃ saved, save format table folder tree = .ok () saved ∧
        ∀ policy, load format policy folder saved = .ok loaded

/-- Documents give a table back with the scopes of each header in the order in which they name
them. -/
theorem restores_data {table : Table} (sound : table.IsSound) (plain : HasPlainMethodNames table) :
    Restores .data table (table.arranged loadPasses) := by
  intro folder tree prepared named makes hasRoom
  obtain ⟨saved, saves, isFolder, holds⟩ := save_of_hasRoom named makes hasRoom table
  exact ⟨saved, saves, load_of_holdsFiles sound plain isFolder holds⟩

/-- A script gives a table back as it was. -/
theorem restores_source {table : Table} (sound : table.IsSound) :
    Restores .source table table := by
  intro folder tree prepared named makes hasRoom
  obtain ⟨saved, saves, isFolder, holds⟩ := save_of_hasRoom named makes hasRoom table
  refine ⟨saved, saves, fun policy => ?_⟩
  have found : saved.text? (Path.join folder scriptFile) = some (Script.write table) :=
    holds (scriptFile, Script.write table) (List.mem_singleton.mpr rfl)
  rw [load, if_pos isFolder]
  simp only [loadScript, FileTree.hasNode_of_text? found, if_true, FileTree.textOrFail, found,
    bind, Except.bind, Script.read_write_of_isSound sound policy]
  rfl

/-- A table that is saved as documents is loaded again: the loaded table is the same wherever it was
saved, and it equals the saved one up to the order of its scopes. -/
theorem load_save_of_built {table : Table} (built : table.Built)
    (plain : HasPlainMethodNames table) :
    ∃ loaded, (loaded == table) = true ∧ Restores .data table loaded :=
  ⟨table.arranged loadPasses, table.arranged_beq loadPasses, restores_data built.isSound plain⟩

/-- A folder with a document of another table and one that is not a text. -/
def usedFolder : FileTree where
  entries := [(["cache"], .folder), (["constants.json", "cache"], .file (.text "stale")),
    (["functions.json", "cache"], .file (.raw [255]))]

/-- What stood in the folder is replaced. -/
theorem load_save_sample :
    Table.sample.Built ∧ HasPlainMethodNames Table.sample ∧ ∃ loaded saved,
      (loaded == Table.sample) = true ∧ save .data Table.sample "cache" usedFolder = .ok () saved ∧
        load .data .reject "cache" saved = .ok loaded := by
  have plain : HasPlainMethodNames Table.sample := by decide +kernel
  obtain ⟨loaded, isEqual, restores⟩ := load_save_of_built Table.built_sample plain
  obtain ⟨saved, saves, loads⟩ := restores "cache" usedFolder usedFolder (by decide) rfl (by decide)
  exact ⟨Table.built_sample, plain, loaded, saved, isEqual, saves, loads .reject⟩

/-- A folder in which another folder has the name of a document. -/
def occupiedFolder : FileTree where
  entries := [(["cache"], .folder), (["constants.json", "cache"], .folder)]

/-- A folder that has the name of a document is not replaced. -/
theorem not_save_occupiedFolder :
    Table.empty.Built ∧ HasPlainMethodNames Table.empty ∧
      ¬ ∃ saved, save .data Table.empty "cache" occupiedFolder = .ok () saved := by
  refine ⟨.empty, by decide, ?_⟩
  rw [save_eq_ok_iff (by decide)]
  rintro ⟨prepared, makes, hasRoom⟩
  obtain rfl : prepared = occupiedFolder := congrArg Prod.fst makes.symm
  exact absurd hasRoom (by decide)

end Cache

end Bindery
