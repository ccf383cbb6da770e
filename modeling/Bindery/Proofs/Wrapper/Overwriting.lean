/-
**Generated files written over older ones.**

A file stays as it was written until another one is written in its place. So when no two files lead
to one place, all of them can be read in the end, and of files that differ from them in the text of
one, that one is written and no other.

* `LeadApart` — no two files lead to one place.
* `isThere_of_writeEach` — files that were written can be read.
* `writeFiles_over` — files that differ from those that were written in one text.
-/

import Bindery.Proofs.Wrapper.Written

namespace Bindery.FileTree

/-- A text is still read where the file and the folders in front of it are still there. -/
theorem text?_of_kept {tree next : FileTree} (kept : KeepsFolders tree next) {path text : String}
    (isText : tree.text? path = some text)
    (stays : ∀ location, tree.locate? path = some location → ∀ content,
      tree.at? location = some (.file content) → next.at? location = some (.file content)) :
    next.text? path = some text := by
  obtain ⟨location, isThere, isFile, isClosed⟩ := text?_eq_some_iff.mp isText
  exact text?_eq_some_iff.mpr
    ⟨location, kept.locate? isThere, stays location isThere _ isFile, isClosed⟩

/-! ### Trees in which files were written -/

/-- Folders came in and files were written at some locations; all other files are the same. -/
structure WrittenAt (written : Location → Prop) (tree next : FileTree) : Prop where
  isProper : next.IsProper
  kept : KeepsFolders tree next
  elsewhere : ∀ location, ¬ written location → ∀ content,
    next.at? location = some (.file content) ↔ tree.at? location = some (.file content)

namespace WrittenAt

variable {written : Location → Prop} {tree next last : FileTree}

theorem refl (proper : tree.IsProper) : WrittenAt written tree tree :=
  ⟨proper, .refl tree, fun _ _ _ => .rfl⟩

theorem mono (changed : WrittenAt written tree next) {more : Location → Prop}
    (isMore : ∀ location, written location → more location) : WrittenAt more tree next :=
  ⟨changed.isProper, changed.kept, fun location isOther =>
    changed.elsewhere location fun isWritten => isOther (isMore location isWritten)⟩

theorem trans (first : WrittenAt written tree next) (second : WrittenAt written next last) :
    WrittenAt written tree last :=
  ⟨second.isProper, first.kept.trans second.kept, fun location isOther content =>
    (second.elsewhere location isOther content).trans (first.elsewhere location isOther content)⟩

/-- Making folders writes no file. -/
theorem of_makeFolders (proper : tree.IsProper) {folder : String} {isMade : Bool}
    (makes : tree.makeFolders folder = (next, isMade)) : WrittenAt written tree next :=
  ⟨proper.makeFolders makes, (extends_makeFolders makes).keepsFolders,
    fun _ _ _ => files_makeFolders makes⟩

/-- Writing a file writes it where its path leads. -/
theorem of_writeFile? (proper : tree.IsProper) {path : String} {content : Content}
    (writes : tree.writeFile? path content = some next) :
    WrittenAt (fun location => next.locate? path = some location) tree next := by
  obtain ⟨location, isThere, -, isFree, rfl⟩ := writeFile?_eq_some_iff.mp writes
  obtain ⟨-, -, name, here, -, -, rfl, isFolder⟩ := proper.name_of_locate? isThere isFree
  have notRoot : name :: here ≠ [] := List.cons_ne_nil _ _
  have kept : KeepsFolders tree (tree.set (name :: here) (.file content)) := by
    refine ⟨rfl, fun other isOther => ?_⟩
    rw [isFolderAt_iff, at?_set notRoot]
    split
    next isHere =>
      rw [isHere, isOther] at isFree
      cases isFree
    next => exact (isFolderAt_iff ..).mp isOther
  refine ⟨proper.set isFolder fun isOld => ?_, kept, fun other notHere _ => ?_⟩
  · rw [isFree] at isOld
    cases isOld
  · rw [at?_set notRoot, if_neg]
    rintro rfl
    exact notHere (kept.locate? isThere)

end WrittenAt

end Bindery.FileTree

namespace Bindery.Wrapper

open FileTree

variable {folder : String}

/-! ### What writing leaves -/

/-- Making the folders in front of a path writes no file. -/
theorem writtenAt_makeParent {path : String} {tree ready : FileTree} (proper : tree.IsProper)
    {value : Unit} (makes : makeParent path tree = .ok value ready) (written : Location → Prop) :
    WrittenAt written tree ready := by
  unfold makeParent at makes
  cases isParent : Path.parent? path with
  | some parent =>
    rw [isParent] at makes
    exact .of_makeFolders proper (Disk.makeFolders_eq_ok.mp makes)
  | none =>
    rw [isParent] at makes
    cases makes
    exact .refl proper

/-- A generated file is written where its path leads, and nowhere else. -/
theorem writtenAt_writeFile {file : GeneratedFile} {tree next : FileTree}
    (proper : tree.IsProper) {outcome : WriteOutcome}
    (writes : writeFile folder file tree = .ok outcome next) :
    WrittenAt (fun location => next.locate? (Path.join folder file.path) = some location)
      tree next := by
  by_cases isText : tree.text? (Path.join folder file.path) = some file.contents
  · rw [writeFile_of_text? isText] at writes
    cases writes
    exact .refl proper
  · rw [writeFile_of_other isText] at writes
    obtain ⟨_, ready, isReady, writesText⟩ := Disk.bind_eq_ok.mp writes
    obtain ⟨_, changed, isWritten, returns⟩ := Disk.bind_eq_ok.mp writesText
    cases returns
    have made := writtenAt_makeParent proper isReady
    exact (made _).trans
      (.of_writeFile? (made fun _ => False).isProper (Disk.writeText_eq_ok.mp isWritten))

/-- Generated files are written where their paths lead, and nowhere else. -/
theorem writtenAt_writeEach {files : List GeneratedFile} {report last : WriteReport}
    {tree saved : FileTree} (proper : tree.IsProper)
    (writes : writeEach folder files report tree = .ok last saved) :
    WrittenAt (fun location => ∃ file ∈ files,
      saved.locate? (Path.join folder file.path) = some location) tree saved := by
  induction files generalizing report tree with
  | nil =>
    cases writes
    exact .refl proper
  | cons file rest ih =>
    obtain ⟨outcome, next, writesFirst, writesRest⟩ := writeEach_cons.mp writes
    have first := writtenAt_writeFile proper writesFirst
    have others := ih first.isProper writesRest
    refine (first.mono fun location isHere => ?_).trans (others.mono fun location => ?_)
    · exact ⟨file, List.mem_cons_self .., others.kept.locate? isHere⟩
    · rintro ⟨other, isOther, isHere⟩
      exact ⟨other, List.mem_cons_of_mem _ isOther, isHere⟩

/-- No two generated files lead to one place. -/
def LeadApart (folder : String) (tree : FileTree) (files : List GeneratedFile) : Prop :=
  (files.map fun file => tree.locate? (Path.join folder file.path)).Nodup

/-- Files that lead to places of their own can be read when all of them are written. -/
theorem isThere_of_writeEach {files : List GeneratedFile} {report last : WriteReport}
    {tree saved : FileTree} (proper : tree.IsProper)
    (writes : writeEach folder files report tree = .ok last saved)
    (apart : LeadApart folder saved files) : ∀ file ∈ files, IsThere folder saved file := by
  induction files generalizing report tree with
  | nil => simp
  | cons file rest ih =>
    obtain ⟨outcome, next, writesFirst, writesRest⟩ := writeEach_cons.mp writes
    have first := writtenAt_writeFile proper writesFirst
    have others := writtenAt_writeEach first.isProper writesRest
    obtain ⟨isNew, apartRest⟩ := List.nodup_cons.mp apart
    refine List.forall_mem_cons.mpr ⟨?_, ih first.isProper writesRest apartRest⟩
    have isRead := text?_of_writeFile writesFirst
    refine text?_of_kept others.kept isRead fun location isHere content => ?_
    refine (others.elsewhere location ?_ content).mpr
    rintro ⟨other, isOther, isThere⟩
    have same := isThere.trans (others.kept.locate? isHere).symm
    exact isNew (List.mem_map.mpr ⟨other, isOther, same⟩)

/-- The paths of files that were written lead somewhere. -/
theorem exists_locate?_of_writeEach {files : List GeneratedFile} {report last : WriteReport}
    {tree saved : FileTree} (proper : tree.IsProper)
    (writes : writeEach folder files report tree = .ok last saved) :
    ∀ file ∈ files, ∃ location, saved.locate? (Path.join folder file.path) = some location := by
  induction files generalizing report tree with
  | nil => simp
  | cons file rest ih =>
    obtain ⟨outcome, next, writesFirst, writesRest⟩ := writeEach_cons.mp writes
    have first := writtenAt_writeFile proper writesFirst
    have others := writtenAt_writeEach first.isProper writesRest
    obtain ⟨location, isHere, -⟩ := text?_eq_some_iff.mp (text?_of_writeFile writesFirst)
    exact List.forall_mem_cons.mpr
      ⟨⟨location, others.kept.locate? isHere⟩, ih first.isProper writesRest⟩

theorem nodup_of_writeFiles {files : List GeneratedFile} {report : WriteReport}
    {tree saved : FileTree} (writes : writeFiles folder files tree = .ok report saved) :
    (files.map fun file => Path.components file.path).Nodup := by
  by_contra notDistinct
  obtain ⟨file, -, fails⟩ := @writeFiles_of_repeated folder _ notDistinct tree
  cases writes.symm.trans fails

/-- Files that were written lead to places of their own if their paths are names. -/
theorem leadApart_of_writeFiles {files : List GeneratedFile} {report : WriteReport}
    {tree saved : FileTree} (proper : tree.IsProper)
    (writes : writeFiles folder files tree = .ok report saved)
    (ordinary : ∀ file ∈ files, Path.IsOrdinary file.path) : LeadApart folder saved files := by
  have distinct := nodup_of_writeFiles writes
  rw [writeFiles_of_nodup distinct] at writes
  have areThere := exists_locate?_of_writeEach proper writes
  refine List.Nodup.map_on (fun first isFirst second isSecond same => ?_) (.of_map _ distinct)
  obtain ⟨location, isThere⟩ := areThere first isFirst
  obtain ⟨-, base, leads, isBelow, -⟩ := locate?_join_of_ordinary (ordinary first isFirst) isThere
  obtain ⟨-, other, leadsToo, isBelowToo, -⟩ :=
    locate?_join_of_ordinary (ordinary second isSecond) (same ▸ isThere)
  obtain rfl := Option.some.inj (leads.symm.trans leadsToo)
  have sameNames := below_inj (isBelow.symm.trans isBelowToo)
  refine List.inj_on_of_nodup_map distinct isFirst isSecond ?_
  rw [(ordinary first isFirst).components_eq_map, (ordinary second isSecond).components_eq_map,
    sameNames]

/-! ### One text that has changed -/

theorem writeEach_append {files others : List GeneratedFile} {report last : WriteReport}
    {tree saved : FileTree} :
    writeEach folder (files ++ others) report tree = .ok last saved ↔
      ∃ middle next, writeEach folder files report tree = .ok middle next ∧
        writeEach folder others middle next = .ok last saved := by
  rw [writeEach, List.foldlM_append, Disk.bind_eq_ok]
  rfl

/-- A generated file that can be read is written anew in its place, if its text is another one. -/
theorem writeFile_over {file changed : GeneratedFile} {tree : FileTree} (proper : tree.IsProper)
    (isThere : IsThere folder tree file) (samePath : changed.path = file.path) :
    ∃ location, tree.locate? (Path.join folder file.path) = some location ∧
      writeFile folder changed tree =
        .ok (if changed.contents = file.contents then .unchanged else .written)
          (tree.set location (.file (.text changed.contents))) := by
  obtain ⟨location, leads, isFile, isClosed⟩ := text?_eq_some_iff.mp isThere
  refine ⟨location, leads, ?_⟩
  split
  next same =>
    have notRoot : location ≠ [] := by
      rintro rfl
      cases isFile
    rw [same, set_of_at? notRoot isFile]
    exact writeFile_of_text? (by rw [samePath, same]; exact isThere)
  next isOther =>
    obtain ⟨parent, isParent, makes⟩ := proper.makeFolders_parent isThere
    have noFolder : tree.isFolderAt location = false := by
      rw [isFolderAt, isFile]
      rfl
    have notSame : tree.text? (Path.join folder changed.path) ≠ some changed.contents := by
      rw [samePath, isThere]
      exact fun same => isOther (Option.some.inj same).symm
    rw [writeFile_of_other notSame, samePath]
    refine Disk.bind_eq_ok.mpr ⟨(), tree, ?_, Disk.bind_eq_ok.mpr ⟨(), _, ?_, rfl⟩⟩
    · rw [makeParent, isParent]
      exact Disk.makeFolders_eq_ok.mpr makes
    · exact Disk.writeText_eq_ok.mpr
        (writeFile?_eq_some_iff.mpr ⟨location, leads, isClosed, noFolder, rfl⟩)

/-- What becomes of files that are there but for one, whose text may be another one. -/
def reportOver (before behind : List GeneratedFile) (path : String) (isSame : Bool) :
    WriteReport where
  written := if isSame then [] else [path]
  unchanged := before.map GeneratedFile.path ++ (if isSame then [path] else []) ++
    behind.map GeneratedFile.path

/-- Of files that are there but for the text of one, that one is written and no other. -/
theorem writeEach_over {before behind : List GeneratedFile} {file changed : GeneratedFile}
    {tree : FileTree} (proper : tree.IsProper)
    (areThere : ∀ other ∈ before ++ file :: behind, IsThere folder tree other)
    (apart : LeadApart folder tree (before ++ file :: behind))
    (samePath : changed.path = file.path) :
    ∃ location, tree.locate? (Path.join folder file.path) = some location ∧
      writeEach folder (before ++ changed :: behind) {} tree =
        .ok (reportOver before behind file.path (changed.contents = file.contents))
          (tree.set location (.file (.text changed.contents))) := by
  rw [List.forall_mem_append, List.forall_mem_cons] at areThere
  obtain ⟨areBefore, isThere, areBehind⟩ := areThere
  obtain ⟨location, leads, writes⟩ := writeFile_over proper isThere samePath
  obtain ⟨-, keptThem, onlyThere⟩ := writtenAt_writeFile proper writes
  have areStill : ∀ other ∈ behind,
      IsThere folder (tree.set location (.file (.text changed.contents))) other := by
    intro other isOther
    refine text?_of_kept keptThem (areBehind other isOther) fun place isPlace content => ?_
    refine (onlyThere place ?_ content).mpr
    rw [samePath, keptThem.locate? leads, ← isPlace, ← leads]
    intro same
    rw [LeadApart, List.map_append, List.map_cons, List.nodup_append] at apart
    exact (List.nodup_cons.mp apart.2.1).1 (List.mem_map.mpr ⟨other, isOther, same.symm⟩)
  refine ⟨location, leads, writeEach_append.mpr ⟨_, tree, writeEach_of_isThere areBefore {},
    writeEach_cons.mpr ⟨_, _, writes, (writeEach_of_isThere areStill _).trans ?_⟩⟩⟩
  by_cases isSame : changed.contents = file.contents <;>
    simp [WriteReport.append, WriteReport.add, reportOver, isSame, samePath]

/-- Of files that differ from those that were written in the text of one, that one is written and
no other. -/
theorem writeFiles_over {before behind : List GeneratedFile} {file changed : GeneratedFile}
    {report : WriteReport} {tree saved : FileTree} (proper : tree.IsProper)
    (writes : writeFiles folder (before ++ file :: behind) tree = .ok report saved)
    (apart : LeadApart folder saved (before ++ file :: behind))
    (samePath : changed.path = file.path) :
    ∃ location, saved.locate? (Path.join folder file.path) = some location ∧
      writeFiles folder (before ++ changed :: behind) saved =
        .ok (reportOver before behind file.path (changed.contents = file.contents))
          (saved.set location (.file (.text changed.contents))) := by
  have distinct := nodup_of_writeFiles writes
  rw [writeFiles_of_nodup distinct] at writes
  have savedProper := (writtenAt_writeEach proper writes).isProper
  have sameDistinct :
      ((before ++ changed :: behind).map fun file => Path.components file.path).Nodup := by
    simpa [samePath] using distinct
  rw [writeFiles_of_nodup sameDistinct]
  exact writeEach_over savedProper (isThere_of_writeEach proper writes apart) apart samePath

end Bindery.Wrapper
