/-
**Extraction into a cache that is there already.**

The documentation replaces everything in the cache but the switches: headers that were off there
stay off. Nothing is written before the documentation and the earlier cache were read. Once a cache
was written, the command can be given again, and then it writes the same files, if the cache can be
loaded.

* `Table.switchedAs` — a table with the switches of an earlier one.
* `keepDisabled_eq` — what is saved has these.
* `extract_keepsSwitches` — the whole command, the first time and every other time.
-/

import Bindery.Command.Run
import Bindery.Proofs.Cache.Reloading
import Bindery.Proofs.Cache.Storable
import Bindery.Proofs.Reference.Overlay
import Bindery.Proofs.Reference.Storable

namespace Bindery

open Symbols

/-! ### Switches -/

namespace Symbols.Table

/-- The table with each header on or off as it is in an earlier table. -/
def switchedAs (table earlier : Table) : Table :=
  { table with
    headers := table.headers.mapValues fun header =>
      { header with enabled := earlier.isOn header.name } }

/-- Edits that switch nothing leave no header off. -/
theorem enabled_of_applyAll {edits : List Edit}
    (noSwitch : ∀ header, edits.filterMap (Edit.switch? header) = []) {header : String}
    {holder : Header} (isHeader : (Table.empty.applyAll edits).header? header = some holder) :
    holder.enabled = true := by
  have isOn : ∀ edits : List Edit, edits.filterMap (Edit.switch? header) = [] →
      (Table.empty.applyAll edits).isOn header = true := by
    intro edits
    induction edits using List.reverseRecOn with
    | nil => exact fun _ => rfl
    | append_singleton edits last ih =>
      intro noSwitch
      rw [List.filterMap_append, List.append_eq_nil_iff] at noSwitch
      have notLast : last.switch? header = none :=
        List.filterMap_eq_nil_iff.mp noSwitch.2 last (List.mem_singleton.mpr rfl)
      have before := ih noSwitch.1
      rw [isOn] at before ⊢
      rw [applyAll_concat, enabled?_apply, notLast, Option.none_or]
      split
      next => simpa using before
      next => exact before
  have ofHeader := isOn edits (noSwitch header)
  rwa [Table.isOn, enabled?, isHeader] at ofHeader

/-- The names of the headers that are off. -/
def disabledNames (table : Table) : List String :=
  (table.headerList.filter (!·.enabled)).map Header.name

theorem mem_disabledNames {table : Table}
    (named : table.headers.Forall fun name header => header.name = name) {name : String} :
    name ∈ table.disabledNames ↔ table.isOn name = false := by
  simp only [disabledNames, List.mem_map, List.mem_filter, isOn, enabled?]
  constructor
  · rintro ⟨header, ⟨isHeader, isOff⟩, rfl⟩
    rw [header?, named.get?_nameOf isHeader]
    simpa using isOff
  · intro isOff
    cases isHeader : table.header? name with
    | none => simp [isHeader] at isOff
    | some header =>
      have isValue := (OrderedMap.mem_values ..).mpr ⟨name, isHeader⟩
      exact ⟨header, ⟨isValue, by simpa [isHeader] using isOff⟩, named name header isHeader⟩

/-- A table with a header off, if it has the header. -/
def switchOff (table : Table) (name : String) : Table :=
  if (table.header? name).isSome then table.setEnabled name false else table

theorem nameSet_switchOff (table : Table) (name : String) :
    (table.switchOff name).headers.nameSet = table.headers.nameSet := by
  unfold switchOff
  split
  next isThere =>
    obtain ⟨header, isHeader⟩ := Option.isSome_iff_exists.mp isThere
    have isKey : name ∈ table.headers.keys := (OrderedMap.mem_keys ..).mpr ⟨header, isHeader⟩
    exact (table.nameSet_apply (.enable name false)).trans (NameSet.insert_of_mem isKey)
  next => rfl

theorem header?_switchOff (table : Table) (name other : String) :
    (table.switchOff name).header? other = (table.header? other).map fun header =>
      if name = other then { header with enabled := false } else header := by
  have same : (table.header? other).map id = table.header? other := Option.map_id' ..
  unfold switchOff
  split
  next isThere =>
    refine (table.header?_apply (.enable name false) other).trans ?_
    show (if name = other then _ else _) = _
    split
    next isName =>
      obtain ⟨header, isHeader⟩ := Option.isSome_iff_exists.mp isThere
      rw [← isName, isHeader]
      rfl
    next => exact same.symm
  next notThere =>
    split
    next isName =>
      rw [← isName, Option.not_isSome_iff_eq_none.mp notThere]
      rfl
    next => exact same.symm

/-- Headers that are switched off, one after the other, are off. -/
theorem foldl_switchOff (names : List String) (table : Table) :
    (names.foldl switchOff table).headers.nameSet = table.headers.nameSet ∧
      ∀ name, (names.foldl switchOff table).header? name = (table.header? name).map fun header =>
        if name ∈ names then { header with enabled := false } else header := by
  induction names generalizing table with
  | nil => exact ⟨rfl, fun name => by simp⟩
  | cons first rest ih =>
    obtain ⟨sameNames, look⟩ := ih (table.switchOff first)
    refine ⟨sameNames.trans (table.nameSet_switchOff first), fun name => ?_⟩
    rw [List.foldl_cons, look, header?_switchOff, Option.map_map]
    refine congrArg (Option.map · _) (funext fun header => ?_)
    by_cases isFirst : first = name
    · subst isFirst
      simp
    · have notFirst : name ≠ first := Ne.symm isFirst
      simp [isFirst, notFirst]

/-- Switches are not stored in scopes. -/
theorem IsStorable.switchedAs {table : Table} (storable : table.IsStorable) (earlier : Table) :
    (table.switchedAs earlier).IsStorable :=
  OrderedMap.Forall.mapValues storable fun _ _ isStorable => isStorable

theorem scopes_switchedAs (table earlier : Table) :
    (table.switchedAs earlier).scopes = table.scopes.map fun (header, scope) =>
      ({ header with enabled := earlier.isOn header.name }, scope) := by
  simp only [scopes, headerList, switchedAs, OrderedMap.values_mapValues, List.map_flatMap,
    List.flatMap_map, List.map_map]
  rfl

/-- Once a table has taken over switches, it takes over the same from what has its switches. -/
theorem switchedAs_of_keepsSwitches {table earlier loaded : Table}
    (named : table.headers.Forall fun name header => header.name = name)
    (keeps : Cache.KeepsSwitches (table.switchedAs earlier) loaded) :
    table.switchedAs loaded = table.switchedAs earlier := by
  refine congrArg Table.mk (OrderedMap.mapValues_congr fun name header isHeader => ?_)
  obtain rfl := named name header isHeader
  have isSwitched : (table.switchedAs earlier).header? header.name =
      some { header with enabled := earlier.isOn header.name } := by
    refine (OrderedMap.get?_mapValues ..).trans ?_
    rw [isHeader, Option.map_some]
  rw [keeps header.name _ isSwitched]

end Symbols.Table

/-! ### Reading the documentation again -/

namespace Reference

/-- What documents end in. -/
def documentEnding : List Char := ".xml".toList

/-- The documents of a folder are there in another tree too. -/
structure KeepsDocuments (tree other : FileTree) (folder : String) : Prop where
  isFolder : tree.isFolder folder = true → other.isFolder folder = true
  texts : ∀ path text, documentEnding <:+ path.toList → tree.text? path = some text →
    other.text? path = some text

theorem suffix_join {ending : List Char} {name : String} (ends : ending <:+ name.toList)
    (folder : String) : ending <:+ (Path.join folder name).toList := by
  unfold Path.join
  split
  next => exact ends
  next =>
    split
    next => exact String.toList_append ▸ ends.trans (List.suffix_append ..)
    next => exact String.toList_append ▸ ends.trans (List.suffix_append ..)

section Documents

variable {tree other : FileTree} {folder : String}

theorem isFile_of_textOrFail {path text : String} (isText : tree.textOrFail path = .ok text) :
    tree.isFile path = true := by
  unfold FileTree.textOrFail FileTree.text? at isText
  unfold FileTree.isFile
  cases isContent : tree.content? path with
  | none => simp [isContent] at isText
  | some content => rfl

theorem KeepsDocuments.textOrFail (keeps : KeepsDocuments tree other folder) {name : String}
    (ends : documentEnding <:+ name.toList) :
    Returns (fun text => other.textOrFail (Path.join folder name) = .ok text)
      (tree.textOrFail (Path.join folder name)) := by
  intro text isText
  unfold FileTree.textOrFail at isText ⊢
  split at isText
  next found isFound =>
    rw [keeps.texts _ found (suffix_join ends folder) isFound]
    exact isText
  next => cases isText

theorem KeepsDocuments.readDefinition (keeps : KeepsDocuments tree other folder)
    (compound : Compound) :
    Returns (fun definition => readDefinition folder other compound = .ok definition)
      (readDefinition folder tree compound) := by
  have ends : documentEnding <:+ compound.documentName.toList :=
    String.toList_append ▸ List.suffix_append ..
  refine .bind (keeps.textOrFail ends) fun text isText definition isDefinition => ?_
  rw [Reference.readDefinition, isText]
  exact isDefinition

theorem KeepsDocuments.findingsFrom (keeps : KeepsDocuments tree other folder) (options : Options)
    (seen : List String) (compounds : List Compound) :
    Returns (fun findings => findingsFrom options folder other seen compounds = .ok findings)
      (findingsFrom options folder tree seen compounds) := by
  induction compounds generalizing seen with
  | nil => exact .ok rfl
  | cons compound rest ih =>
    unfold Reference.findingsFrom
    refine .bind (keeps.readDefinition compound) fun definition isDefinition => ?_
    rw [isDefinition]
    refine .bind (ih _) fun findings areFindings => .ok ?_
    show (Reference.findingsFrom options folder other _ rest >>= _) = _
    rw [areFindings]
    rfl

theorem KeepsDocuments.readIndex (keeps : KeepsDocuments tree other folder) :
    Returns (fun compounds => readIndex folder other = .ok compounds) (readIndex folder tree) := by
  have ends : documentEnding <:+ "index.xml".toList := by decide
  intro compounds areCompounds
  unfold Reference.readIndex at areCompounds ⊢
  by_cases isFolder : tree.isFolder folder = true
  · by_cases isFile : tree.isFile (Path.join folder "index.xml") = true
    · simp only [isFolder, isFile, Bool.not_true, Bool.false_eq_true, if_false] at areCompounds
      cases isText : tree.textOrFail (Path.join folder "index.xml") with
      | error failure =>
        rw [isText] at areCompounds
        cases areCompounds
      | ok text =>
        have isTextThere := keeps.textOrFail ends text isText
        rw [isText] at areCompounds
        simp only [keeps.isFolder isFolder, isFile_of_textOrFail isTextThere, isTextThere,
          Bool.not_true, Bool.false_eq_true, if_false]
        exact areCompounds
    · simp only [isFolder, isFile, Bool.not_true, Bool.not_false, Bool.false_eq_true, if_false,
        if_true] at areCompounds
      cases areCompounds
  · simp only [isFolder, Bool.not_false, if_true] at areCompounds
    cases areCompounds

/-- An extraction that succeeded succeeds with the same result wherever the documents are. -/
theorem KeepsDocuments.extract (keeps : KeepsDocuments tree other folder) (options : Options) :
    Returns (fun extraction => extract options folder other = .ok extraction)
      (extract options folder tree) := by
  refine .bind keeps.readIndex fun compounds areCompounds => ?_
  refine .bind (keeps.findingsFrom options [] _) fun findings areFindings => .ok ?_
  rw [Reference.extract, areCompounds]
  show (Reference.findingsFrom options folder other [] _ >>= _) = _
  rw [areFindings]
  rfl

end Documents

end Reference

/-! ### The command -/

namespace Command

/-- Of a new table in which everything is on, what is saved has the switches of the earlier one. -/
theorem keepDisabled_eq {earlier table : Table}
    (namedEarlier : earlier.headers.Forall fun name header => header.name = name)
    (named : table.headers.Forall fun name header => header.name = name)
    (allOn : ∀ header holder, table.header? header = some holder → holder.enabled = true) :
    keepDisabled earlier table = table.switchedAs earlier := by
  have asNames : keepDisabled earlier table =
      earlier.disabledNames.foldl Table.switchOff table := by
    rw [Table.disabledNames, List.foldl_map]
    rfl
  obtain ⟨sameNames, look⟩ := Table.foldl_switchOff earlier.disabledNames table
  have sameMaps : (earlier.disabledNames.foldl Table.switchOff table).headers =
      (table.switchedAs earlier).headers := by
    refine OrderedMap.ext_get? (sameNames.trans (OrderedMap.nameSet_mapValues ..).symm)
      fun name => ?_
    rw [Table.switchedAs, OrderedMap.get?_mapValues]
    refine (look name).trans ?_
    cases isHeader : table.header? name with
    | none =>
      rw [show table.headers.get? name = none from isHeader]
      rfl
    | some holder =>
      obtain rfl := named name holder isHeader
      rw [show table.headers.get? holder.name = some holder from isHeader, Option.map_some,
        Option.map_some]
      by_cases isDisabled : holder.name ∈ earlier.disabledNames
      · rw [if_pos isDisabled, (Table.mem_disabledNames namedEarlier).mp isDisabled]
      · have isOn : earlier.isOn holder.name = true := by
          rwa [Table.mem_disabledNames namedEarlier, Bool.not_eq_false] at isDisabled
        rw [if_neg isDisabled, isOn, ← allOn holder.name holder isHeader]
  rw [asNames]
  exact congrArg Table.mk sameMaps

/-- Saving a cache takes no documentation away. -/
theorem keepsDocuments_of_save {format : Cache.Format} {table : Table} {cache : String}
    {tree saved : FileTree} (saves : Cache.save format table cache tree = .ok () saved)
    (documentation : String) : Reference.KeepsDocuments tree saved documentation := by
  have otherwise : ∀ name ∈ Cache.fileNames format,
      ¬ Reference.documentEnding <:+ name.toList := by
    cases format <;> decide
  obtain ⟨prepared, makes, same, -⟩ := Cache.save_leaves saves
  have kept := (FileTree.extends_makeFolders makes).keepsFolders
  refine ⟨fun isFolder => same.isFolder ?_, fun path text ends isText => ?_⟩
  · obtain ⟨location, isThere, isFolder⟩ := (FileTree.isFolder_iff ..).mp isFolder
    exact (FileTree.isFolder_iff ..).mpr
      ⟨location, kept.locate? isThere, kept.isFolderAt _ isFolder⟩
  · exact Cache.text?_of_save saves (by decide) (by decide) ends otherwise isText

variable {project : Project} {documentation cache : String} {format : Cache.Format}
  {tree : FileTree} {extraction : Reference.Extraction} {earlier : Table}

theorem isStorable_earlierTable {policy : DuplicatePolicy} :
    Returns Table.IsStorable (earlierTable format policy cache tree) := by
  unfold earlierTable
  split
  next => exact Cache.isStorable_load format policy cache tree
  next => exact .ok Table.isStorable_empty

/-- What is told of an extraction. -/
def extractReport (extraction : Reference.Extraction) (table : Table) (cache : String)
    (format : Cache.Format) : Report where
  lines := ["extracted " ++ toString table.headers.size ++ " headers from " ++
    toString extraction.compounds ++ " compounds into " ++ cache ++ " (" ++ format.name ++ ")"]
  warnings := extraction.warnings

/-- Without documentation that can be read, nothing changes. -/
theorem extract_of_unread {failure : Failure}
    (fails : Reference.extract project.reading documentation tree = .error failure) :
    extract project documentation cache format tree =
      .error (.extracting documentation failure) tree := by
  unfold extract
  simp only [bind, EStateM.bind, Disk.reading, fails, Except.mapError]

/-- With an earlier cache that cannot be loaded, nothing changes. -/
theorem extract_of_unloaded {failure : Failure}
    (isExtraction : Reference.extract project.reading documentation tree = .ok extraction)
    (fails : earlierTable format project.duplicateParameters cache tree = .error failure) :
    extract project documentation cache format tree = .error failure tree := by
  unfold extract
  simp only [bind, EStateM.bind, Disk.reading, isExtraction, Except.mapError, fails]

/-- Behind the documentation and the earlier cache, the command is one save. -/
theorem extract_of_ok
    (isExtraction : Reference.extract project.reading documentation tree = .ok extraction)
    (isEarlier : earlierTable format project.duplicateParameters cache tree = .ok earlier) :
    let table := (Table.empty.applyAll extraction.edits).switchedAs earlier
    extract project documentation cache format tree =
      match Cache.save format table cache tree with
      | .ok () saved => .ok (extractReport extraction table cache format) saved
      | .error failure changed => .error failure changed := by
  have isTable : keepDisabled earlier (Table.empty.applyAll extraction.edits) =
      (Table.empty.applyAll extraction.edits).switchedAs earlier :=
    keepDisabled_eq (isStorable_earlierTable earlier isEarlier).named
      (Reference.isStorable_extract _ _ _ extraction isExtraction).named
      fun _ _ isHeader => Table.enabled_of_applyAll extraction.switches_eq_nil isHeader
  unfold extract
  simp only [bind, EStateM.bind, Disk.reading, isExtraction, Except.mapError, isEarlier, isTable]
  cases Cache.save format _ cache tree <;> rfl

/-- Whether documents can be loaded does not depend on switches. -/
theorem isLoadable_switchedAs {table : Table} (plain : Cache.HasPlainMethodNames table)
    (settled : Cache.HasSettledMembers table) (earlier : Table) :
    Cache.HasPlainMethodNames (table.switchedAs earlier) ∧
      Cache.HasSettledMembers (table.switchedAs earlier) := by
  have sameClasses : (table.switchedAs earlier).classes = table.classes := by
    rw [Table.classes, Table.scopes_switchedAs, List.flatMap_map]
    rfl
  refine ⟨fun self isClass => plain self (sameClasses ▸ isClass), fun entry isEntry => ?_⟩
  rw [Table.scopes_switchedAs] at isEntry
  obtain ⟨own, isOwn, rfl⟩ := List.mem_map.mp isEntry
  exact settled own isOwn

/-- Where the cache of a table was saved, an earlier table with the same switches is loaded, if
there is a folder at all. -/
theorem exists_earlierTable_again {table earlier : Table} {saved : FileTree}
    {policy : DuplicatePolicy} (storable : table.IsStorable)
    (isEarlier : earlierTable format policy cache tree = .ok earlier)
    (saves : Cache.save format (table.switchedAs earlier) cache tree = .ok () saved)
    (loadable : format = .data →
      Cache.HasPlainMethodNames table ∧ Cache.HasSettledMembers table) :
    ∃ again, earlierTable format policy cache saved = .ok again ∧
      table.switchedAs again = table.switchedAs earlier := by
  by_cases isNamed : cache = ""
  · -- the empty path names no folder, so both times there is no earlier table
    have noFolder : ∀ tree : FileTree, earlierTable format policy cache tree = .ok .empty := by
      intro tree
      rw [isNamed]
      rfl
    exact ⟨earlier, (noFolder saved).trans ((noFolder tree).symm.trans isEarlier), rfl⟩
  · obtain ⟨_, _, _, holds, -⟩ := Cache.save_leaves saves
    have isFolder := Cache.isFolder_of_save isNamed saves
    obtain ⟨loaded, loads, keeps⟩ := Cache.exists_load_of_holdsFiles (storable.switchedAs earlier)
      (fun isData => isLoadable_switchedAs (loadable isData).1 (loadable isData).2 earlier)
      isFolder holds policy
    exact ⟨loaded, (if_pos isFolder).trans loads,
      Table.switchedAs_of_keepsSwitches storable.named keeps⟩

/-- Extraction into a cache. If the documentation or the earlier cache cannot be read, nothing
changes. Otherwise the cache of a new table is saved, in which the headers are off that are off in
the earlier one. Once it was saved, the same command saves the same files again and tells the same,
always if the cache is a script, and if it is made of documents, where methods have plain names and
classes with members stand where they are found. -/
theorem extract_keepsSwitches (project : Project) (documentation cache : String)
    (format : Cache.Format) (tree : FileTree) :
    (∀ failure, Reference.extract project.reading documentation tree = .error failure →
      extract project documentation cache format tree =
        .error (.extracting documentation failure) tree) ∧
    (∀ extraction failure,
      Reference.extract project.reading documentation tree = .ok extraction →
      earlierTable format project.duplicateParameters cache tree = .error failure →
      extract project documentation cache format tree = .error failure tree) ∧
    ∀ report saved, extract project documentation cache format tree = .ok report saved →
      ∃ extraction earlier,
        Reference.extract project.reading documentation tree = .ok extraction ∧
        earlierTable format project.duplicateParameters cache tree = .ok earlier ∧
        let table := Table.empty.applyAll extraction.edits
        Cache.save format (table.switchedAs earlier) cache tree = .ok () saved ∧
        ((format = .data → Cache.HasPlainMethodNames table ∧ Cache.HasSettledMembers table) →
          extract project documentation cache format saved = .ok report saved) := by
  refine ⟨fun _ => extract_of_unread, fun _ _ => extract_of_unloaded,
    fun report saved succeeds => ?_⟩
  cases isExtraction : Reference.extract project.reading documentation tree with
  | error failure =>
    rw [extract_of_unread isExtraction] at succeeds
    cases succeeds
  | ok extraction =>
    cases isEarlier : earlierTable format project.duplicateParameters cache tree with
    | error failure =>
      rw [extract_of_unloaded isExtraction isEarlier] at succeeds
      cases succeeds
    | ok earlier =>
      rw [extract_of_ok isExtraction isEarlier] at succeeds
      cases saves : Cache.save format
          ((Table.empty.applyAll extraction.edits).switchedAs earlier) cache tree with
      | error failure changed =>
        simp only [saves] at succeeds
        cases succeeds
      | ok _ changed =>
        simp only [saves] at succeeds
        injection succeeds with isReport isSaved
        subst isSaved
        refine ⟨extraction, earlier, rfl, rfl, saves, fun loadable => ?_⟩
        have storable := Reference.isStorable_extract _ _ _ extraction isExtraction
        obtain ⟨again, isAgain, sameTable⟩ :=
          exists_earlierTable_again storable isEarlier saves loadable
        have isExtractionAgain := (keepsDocuments_of_save saves documentation).extract _ extraction
          isExtraction
        rw [extract_of_ok isExtractionAgain isAgain, sameTable, Cache.save_again saves, ← isReport]

/-! ### One class -/

/-- An index with one class. -/
def widgetIndex (scope : String) : String :=
  "<doxygenindex><compound refid='w' kind='class'><name>" ++ scope ++
    "::Widget</name></compound></doxygenindex>"

/-- The document of a class with one variable. -/
def widgetDocument : String :=
  "<d><compounddef><sectiondef><memberdef kind='variable'><name>width</name></memberdef>" ++
    "</sectiondef><location file='ui.h'/></compounddef></d>"

/-- Documentation of a class, and a cache in which its header is off. -/
def widgetTree (scope : String) : FileTree where
  entries := [
    (["xml"], .folder),
    (["index.xml", "xml"], .file (.text (widgetIndex scope))),
    (["w.xml", "xml"], .file (.text widgetDocument)),
    (["cache"], .folder),
    (["includes.json", "cache"], .file (.text "\x7b\"ui.h\": false\x7d"))]

/-- Whether the class is read and the tables of the documentation and of the cache pass a check. -/
def passes (scope : String) (check : Table → Table → Bool) : Bool :=
  match Reference.extract ({} : Project).reading "xml" (widgetTree scope),
    earlierTable .data .ignore "cache" (widgetTree scope) with
  | .ok extraction, .ok earlier => check (Table.empty.applyAll extraction.edits) earlier
  | _, _ => false

/-- Where the class is read, its cache is saved. -/
theorem exists_of_passes {scope : String} {check : Table → Table → Bool}
    (isPassed : passes scope check = true) : ∃ extraction earlier report saved,
      Reference.extract ({} : Project).reading "xml" (widgetTree scope) = .ok extraction ∧
      earlierTable .data .ignore "cache" (widgetTree scope) = .ok earlier ∧
      let table := Table.empty.applyAll extraction.edits
      check table earlier = true ∧
      Cache.save .data (table.switchedAs earlier) "cache" (widgetTree scope) = .ok () saved ∧
      extract {} "xml" "cache" .data (widgetTree scope) = .ok report saved := by
  unfold passes at isPassed
  split at isPassed
  next extraction earlier isExtraction isEarlier =>
    have isMade : (widgetTree scope).makeFolders "cache" = (widgetTree scope, true) := rfl
    have hasRoom : Cache.HasRoom .data (widgetTree scope) "cache" := of_decide_eq_true rfl
    obtain ⟨saved, saves, -⟩ := Cache.save_of_hasRoom (by decide) isMade hasRoom
      ((Table.empty.applyAll extraction.edits).switchedAs earlier)
    have runs := @extract_of_ok {} "xml" "cache" .data _ _ _ isExtraction isEarlier
    simp only [saves] at runs
    exact ⟨extraction, earlier, _, saved, isExtraction, isEarlier, isPassed, saves, runs⟩
  next => cases isPassed

/-- In a scope with a usual name, the command can be given again. -/
theorem extract_keepsSwitches_widget : ∃ report saved,
    extract {} "xml" "cache" .data (widgetTree "ui") = .ok report saved ∧
      extract {} "xml" "cache" .data saved = .ok report saved := by
  have isPassed : passes "ui" (fun table _ => decide (Cache.HasPlainMethodNames table) &&
      decide (Cache.HasSettledMembers table)) = true := by decide +kernel
  obtain ⟨extraction, _, report, saved, isExtraction, _, isLoadable, -, runs⟩ :=
    exists_of_passes isPassed
  obtain ⟨same, _, isSame, -, -, runsAgain⟩ :=
    (extract_keepsSwitches {} "xml" "cache" .data (widgetTree "ui")).2.2 report saved runs
  obtain rfl := Except.ok.inj (isExtraction.symm.trans isSame)
  rw [Bool.and_eq_true, decide_eq_true_eq, decide_eq_true_eq] at isLoadable
  exact ⟨report, saved, runs, runsAgain fun _ => isLoadable⟩

/-- The name of a scope that loses marks each time it is read. -/
def markedScope : String := "::::::::::ui"

/-- The command cannot always be given again: the variables of a class are saved under a name of its
scope under which the class is not found. -/
theorem not_extract_again : ¬ ∀ (project : Project) (documentation cache : String)
    (format : Cache.Format) (tree saved : FileTree) (report : Report),
    (∀ extraction, Reference.extract project.reading documentation tree = .ok extraction →
      Cache.HasPlainMethodNames (Table.empty.applyAll extraction.edits)) →
    extract project documentation cache format tree = .ok report saved →
      ∃ again, extract project documentation cache format saved = .ok again saved := by
  intro always
  have isPassed : passes markedScope (fun table earlier =>
      decide (Cache.HasPlainMethodNames table) &&
        (Cache.replayDocuments .ignore "cache" (table.switchedAs earlier)).toOption.isNone) =
      true := by decide +kernel
  obtain ⟨extraction, earlier, report, saved, isExtraction, -, isRefused, saves, runs⟩ :=
    exists_of_passes isPassed
  rw [Bool.and_eq_true, decide_eq_true_eq] at isRefused
  obtain ⟨isPlain, isRefused⟩ := isRefused
  have isPlainThere : ∀ other,
      Reference.extract ({} : Project).reading "xml" (widgetTree markedScope) = .ok other →
        Cache.HasPlainMethodNames (Table.empty.applyAll other.edits) := by
    intro other isOther
    rwa [← Except.ok.inj (isExtraction.symm.trans isOther)]
  obtain ⟨again, runsAgain⟩ := always {} "xml" "cache" .data _ saved report isPlainThere runs
  -- the second time, what was saved is loaded first
  obtain ⟨_, _, _, holds, -⟩ := Cache.save_leaves saves
  have isFolder := Cache.isFolder_of_save (by decide) saves
  have loads : earlierTable .data .ignore "cache" saved = Cache.replayDocuments .ignore "cache"
      ((Table.empty.applyAll extraction.edits).switchedAs earlier) :=
    (if_pos isFolder).trans (Cache.load_data_of_holdsFiles isFolder holds .ignore)
  cases isError : Cache.replayDocuments .ignore "cache"
      ((Table.empty.applyAll extraction.edits).switchedAs earlier) with
  | ok table =>
    rw [isError] at isRefused
    cases isRefused
  | error failure =>
    have isExtractionAgain := (keepsDocuments_of_save saves "xml").extract _ extraction isExtraction
    rw [extract_of_unloaded isExtractionAgain (loads.trans isError)] at runsAgain
    cases runsAgain

end Command

end Bindery
