/-
**Generated files, written and written again.**

Two files of one path are refused before anything is touched. All other files are written one after
the other, and none of them changes where another one stands or what it says, so that what becomes
of each was settled before the first one.

* `writeFile_step` — what one file leaves for the others.
* `takes_of_writeEach` — only paths that the file system takes are written.
* `writeFiles_isExact` — what is written, what is left alone, and that a second time nothing is.
-/

import Bindery.Proofs.Files.Folders
import Bindery.Wrapper.Output

namespace Bindery.Disk

/-! ### Programs that end well -/

theorem get_bind {β : Type} (next : FileTree → Disk β) (tree : FileTree) :
    ((get : Disk FileTree) >>= next) tree = next tree tree := rfl

theorem bind_eq_ok {α β : Type} {first : Disk α} {next : α → Disk β} {tree saved : FileTree}
    {result : β} : (first >>= next) tree = .ok result saved ↔
      ∃ value after, first tree = .ok value after ∧ next value after = .ok result saved := by
  show EStateM.bind first next tree = _ ↔ _
  rw [EStateM.bind]
  cases first tree with
  | ok value after => simp
  | error failure after => simp

theorem writeText_eq_ok {path text : String} {tree saved : FileTree} {value : Unit} :
    Disk.writeText path text tree = .ok value saved ↔
      tree.writeFile? path (.text text) = some saved := by
  rw [Disk.writeText]
  cases tree.writeFile? path (.text text) <;> simp

theorem makeFolders_eq_ok {path : String} {action : FileAction} {tree made : FileTree}
    {value : Unit} :
    Disk.makeFolders path action tree = .ok value made ↔ tree.makeFolders path = (made, true) := by
  rw [Disk.makeFolders]
  split
  next isMade => simp [isMade]
  next isMade => simp [isMade]

end Bindery.Disk

namespace Bindery.Wrapper

open FileTree

deriving instance ReflBEq, LawfulBEq for Component, Content

/-! ### Paths that repeat -/

theorem repeatedPath?_eq_none_iff {taken : List (List Component)} {files : List GeneratedFile} :
    repeatedPath? taken files = none ↔
      (files.map fun file => Path.components file.path).Nodup ∧
        ∀ file ∈ files, Path.components file.path ∉ taken := by
  induction files generalizing taken with
  | nil => simp [repeatedPath?]
  | cons file rest ih =>
    rw [repeatedPath?]
    simp only [List.map_cons, List.nodup_cons, List.forall_mem_cons, List.mem_map]
    by_cases isTaken : Path.components file.path ∈ taken
    · simp [isTaken]
    · rw [if_neg (by simpa using isTaken), ih]
      simp only [List.mem_cons, not_or]
      grind

theorem mem_of_repeatedPath? {taken : List (List Component)} {files : List GeneratedFile}
    {file : GeneratedFile} (repeated : repeatedPath? taken files = some file) : file ∈ files := by
  induction files generalizing taken with
  | nil => cases repeated
  | cons first rest ih =>
    rw [repeatedPath?] at repeated
    split at repeated
    next => exact Option.some.inj repeated ▸ List.mem_cons_self ..
    next => exact List.mem_cons_of_mem _ (ih repeated)

/-! ### One file -/

section OneFile

variable {folder : String} {file : GeneratedFile} {tree : FileTree}

theorem content?_eq_some_text_iff {path text : String} :
    tree.content? path = some (.text text) ↔ tree.text? path = some text := by
  rw [text?]
  rcases tree.content? path with _ | _ | _ <;> simp

/-- A file that is there with the same text is left alone. -/
theorem writeFile_of_text? (isText : tree.text? (Path.join folder file.path) = some file.contents) :
    writeFile folder file tree = .ok .unchanged tree := by
  have isSame : (tree.content? (Path.join folder file.path) == some (.text file.contents)) = true :=
    beq_iff_eq.mpr (content?_eq_some_text_iff.mpr isText)
  show ((get : Disk FileTree) >>= _) tree = _
  rw [Disk.get_bind, if_pos isSame]
  rfl

/-- Makes the folders in front of a path, if it has a part in front. -/
def makeParent (path : String) : Disk Unit :=
  match Path.parent? path with
  | some parent => Disk.makeFolders parent .createOutputFolder
  | none => pure ()

/-- Every other file is written once there are the folders in front of it. -/
theorem writeFile_of_other
    (isOther : tree.text? (Path.join folder file.path) ≠ some file.contents) :
    writeFile folder file tree = (do
      makeParent (Path.join folder file.path)
      Disk.writeText (Path.join folder file.path) file.contents
      return .written : Disk WriteOutcome) tree := by
  have notSame : (tree.content? (Path.join folder file.path) == some (.text file.contents)) =
      false := by
    rw [← Bool.not_eq_true, beq_iff_eq, content?_eq_some_text_iff]
    exact isOther
  show ((get : Disk FileTree) >>= _) tree = _
  rw [Disk.get_bind, if_neg (Bool.eq_false_iff.mp notSame), makeParent]
  cases Path.parent? (Path.join folder file.path) <;> rfl

/-- A file that was written, or left alone, can be read. -/
theorem text?_of_writeFile {saved : FileTree} {outcome : WriteOutcome}
    (writes : writeFile folder file tree = .ok outcome saved) :
    saved.text? (Path.join folder file.path) = some file.contents := by
  by_cases isText : tree.text? (Path.join folder file.path) = some file.contents
  · rw [writeFile_of_text? isText] at writes
    cases writes
    exact isText
  · rw [writeFile_of_other isText] at writes
    obtain ⟨_, ready, -, writesText⟩ := Disk.bind_eq_ok.mp writes
    obtain ⟨_, changed, isWritten, returns⟩ := Disk.bind_eq_ok.mp writesText
    cases returns
    exact text?_of_writeFile? (Disk.writeText_eq_ok.mp isWritten)

/-- A path of names that can be read is one that the file system takes. -/
theorem takes_of_text? {path text : String} (ordinary : Path.IsOrdinary path)
    (isText : tree.text? (Path.join folder path) = some text) : TakesPath folder path := by
  obtain ⟨location, isThere, -, noFolder⟩ := text?_eq_some_iff.mp isText
  obtain ⟨accepted, base, -, -, areNames⟩ := locate?_join_of_ordinary ordinary isThere
  exact ⟨accepted, areNames, noFolder⟩

end OneFile

/-! ### One file among others -/

/-- There is room for generated files below a location: their folder is there or can be made, and
then nothing is in their way. -/
structure HasRoom (folder : String) (base : Location) (tree : FileTree)
    (files : List GeneratedFile) : Prop where
  isProper : tree.IsProper
  room : ∃ made, OutputFolder tree made folder base ∧
    ∀ file ∈ files, made.IsClear base (Path.names file.path)

/-- No generated file stands in a folder that another one should be. -/
def StandApart (files : List GeneratedFile) : Prop :=
  ∀ first ∈ files, ∀ second ∈ files,
    Path.names first.path <+: Path.names second.path →
      Path.names first.path = Path.names second.path

namespace HasRoom

variable {folder : String} {base : Location} {tree : FileTree} {file : GeneratedFile}
  {files : List GeneratedFile}

/-- The path of a generated file is not empty. -/
theorem names_ne_nil (room : HasRoom folder base tree files) (isFile : file ∈ files) :
    Path.names file.path ≠ [] := by
  obtain ⟨-, made, output, clear⟩ := room
  intro isNil
  have noFolder := (clear file isFile).noFolder
  rw [isNil] at noFolder
  exact absurd output.isFolder (Bool.eq_false_iff.mp noFolder)

/-- What is read at the path of a generated file is what stands at its location. -/
theorem text?_iff (room : HasRoom folder base tree files) (isFile : file ∈ files)
    (ordinary : Path.IsOrdinary file.path) (takes : TakesPath folder file.path) {text : String} :
    tree.text? (Path.join folder file.path) = some text ↔
      tree.at? (below base (Path.names file.path)) = some (.file (.text text)) := by
  have named := room.names_ne_nil isFile
  obtain ⟨proper, made, output, -⟩ := room
  exact output.text?_iff proper ordinary named takes

end HasRoom

/-- Writing a generated file puts its text at its location and changes no other file, and there is
still room for the others. -/
theorem writeFile_step {folder : String} {base : Location} {tree : FileTree} {file : GeneratedFile}
    {files : List GeneratedFile} (room : HasRoom folder base tree files) (isFile : file ∈ files)
    (ordinary : Path.IsOrdinary file.path) (takes : TakesPath folder file.path)
    (apart : StandApart files) :
    ∃ next, writeFile folder file tree =
        .ok (if tree.text? (Path.join folder file.path) = some file.contents then .unchanged
          else .written) next ∧
      HasRoom folder base next files ∧
      ∀ location content, next.at? location = some (.file content) ↔
        if below base (Path.names file.path) = location then content = .text file.contents
        else tree.at? location = some (.file content) := by
  have named := room.names_ne_nil isFile
  by_cases isText : tree.text? (Path.join folder file.path) = some file.contents
  · refine ⟨tree, by rw [if_pos isText, writeFile_of_text? isText], room, ?_⟩
    intro location content
    split
    next isHere =>
      rw [← isHere, (room.text?_iff isFile ordinary takes).mp isText]
      simp [eq_comm]
    next => rfl
  · obtain ⟨proper, made, output, clear⟩ := room
    obtain ⟨parent, ready, next, isParent, makes, isWritten, nextProper, nextOutput, sameFiles,
      onlyThese⟩ := output.writes proper ordinary named takes (clear file isFile) file.contents
    refine ⟨next, ?_, ⟨nextProper, next, nextOutput, fun other isOther => ⟨?_, ?_⟩⟩, sameFiles⟩
    · rw [if_neg isText, writeFile_of_other isText]
      refine Disk.bind_eq_ok.mpr ⟨(), ready, ?_, Disk.bind_eq_ok.mpr
        ⟨(), next, Disk.writeText_eq_ok.mpr isWritten, rfl⟩⟩
      rw [makeParent, isParent]
      exact Disk.makeFolders_eq_ok.mpr makes
    · intro outer isOuter isInner content isThere
      rw [sameFiles] at isThere
      split at isThere
      next isHere =>
        -- the new file would be a folder in front of the other one
        obtain rfl := below_inj isHere
        exact isInner (apart file isFile other isOther isOuter)
      next =>
        exact (clear other isOther).noFile outer isOuter isInner content
          (output.extends_made.at? _ _ isThere)
    · rw [← Bool.not_eq_true]
      intro isFolder
      rcases onlyThese _ isFolder with isOld | ⟨outer, isOuter, isInner, same⟩
      · exact absurd isOld (Bool.eq_false_iff.mp (clear other isOther).noFolder)
      · -- the other file would be a folder in front of the new one
        obtain rfl := below_inj same
        exact isInner (apart other isOther file isFile isOuter)

/-! ### All files -/

/-- Whether a generated file is there with the same text. -/
def IsThere (folder : String) (tree : FileTree) (file : GeneratedFile) : Prop :=
  tree.text? (Path.join folder file.path) = some file.contents

instance (folder : String) (tree : FileTree) : DecidablePred (IsThere folder tree) :=
  fun _ => inferInstanceAs (Decidable (_ = _))

/-- What becomes of generated files: those that are there are left alone, the others are written. -/
def expectedReport (folder : String) (tree : FileTree) (files : List GeneratedFile) :
    WriteReport where
  written := (files.filter fun file => ¬ IsThere folder tree file).map GeneratedFile.path
  unchanged := (files.filter fun file => IsThere folder tree file).map GeneratedFile.path

theorem expectedReport_congr {folder : String} {tree other : FileTree} {files : List GeneratedFile}
    (same : ∀ file ∈ files, IsThere folder tree file ↔ IsThere folder other file) :
    expectedReport folder tree files = expectedReport folder other files := by
  have written : (files.filter fun file => ¬ IsThere folder tree file) =
      files.filter fun file => ¬ IsThere folder other file :=
    List.filter_congr fun file isFile => by simp only [same file isFile]
  have unchanged : (files.filter fun file => IsThere folder tree file) =
      files.filter fun file => IsThere folder other file :=
    List.filter_congr fun file isFile => by simp only [same file isFile]
  rw [expectedReport, written, unchanged, expectedReport]

/-- One report behind another. -/
def WriteReport.append (report other : WriteReport) : WriteReport where
  written := report.written ++ other.written
  unchanged := report.unchanged ++ other.unchanged

/-- Writes files one after the other. -/
def writeEach (folder : String) (files : List GeneratedFile) (report : WriteReport) :
    Disk WriteReport :=
  files.foldlM (fun report file => do return report.add file.path (← writeFile folder file)) report

theorem writeEach_cons {folder : String} {file : GeneratedFile} {files : List GeneratedFile}
    {report last : WriteReport} {tree saved : FileTree} :
    writeEach folder (file :: files) report tree = .ok last saved ↔
      ∃ outcome next, writeFile folder file tree = .ok outcome next ∧
        writeEach folder files (report.add file.path outcome) next = .ok last saved := by
  rw [writeEach, List.foldlM_cons, bind_assoc, Disk.bind_eq_ok]
  rfl

/-- The files of a tree are those of an older one but for the generated ones. -/
def AreWritten (base : Location) (files : List GeneratedFile) (tree saved : FileTree) : Prop :=
  ∀ location content, saved.at? location = some (.file content) ↔
    (∃ file ∈ files, below base (Path.names file.path) = location ∧
      content = .text file.contents) ∨
    (∀ file ∈ files, below base (Path.names file.path) ≠ location) ∧
      tree.at? location = some (.file content)

/-- One file is written, and then others elsewhere. -/
theorem AreWritten.cons {base : Location} {file : GeneratedFile} {rest : List GeneratedFile}
    {tree next saved : FileTree}
    (elsewhere : ∀ other ∈ rest,
      below base (Path.names file.path) ≠ below base (Path.names other.path))
    (first : ∀ location content, next.at? location = some (.file content) ↔
      if below base (Path.names file.path) = location then content = .text file.contents
      else tree.at? location = some (.file content))
    (others : AreWritten base rest next saved) : AreWritten base (file :: rest) tree saved := by
  intro location content
  rw [others, first]
  simp only [List.exists_mem_cons_iff, List.forall_mem_cons]
  by_cases isHere : below base (Path.names file.path) = location
  · subst isHere
    have notLater : ∀ other ∈ rest,
        below base (Path.names other.path) ≠ below base (Path.names file.path) :=
      fun other isOther => (elsewhere other isOther).symm
    have noneLater : ¬ ∃ other ∈ rest,
        below base (Path.names other.path) = below base (Path.names file.path) ∧
          content = .text other.contents :=
      fun ⟨other, isOther, same, _⟩ => notLater other isOther same
    simpa [noneLater] using fun _ => notLater
  · simp [isHere]

/-- Distinct files are written, each as it was found at first. -/
theorem writeEach_of_room {folder : String} {base : Location} {all files : List GeneratedFile}
    (within : ∀ file ∈ files, file ∈ all)
    (ordinary : ∀ file ∈ all, Path.IsOrdinary file.path)
    (takes : ∀ file ∈ all, TakesPath folder file.path) (apart : StandApart all)
    (distinct : (files.map fun file => Path.names file.path).Nodup) {tree : FileTree}
    (room : HasRoom folder base tree all) (report : WriteReport) :
    ∃ saved, writeEach folder files report tree =
        .ok (report.append (expectedReport folder tree files)) saved ∧
      HasRoom folder base saved all ∧ AreWritten base files tree saved := by
  induction files generalizing tree report with
  | nil =>
    refine ⟨tree, ?_, room, by simp [AreWritten]⟩
    rw [WriteReport.append]
    simp [expectedReport, writeEach]
    rfl
  | cons file rest ih =>
    obtain ⟨isFile, areFiles⟩ := List.forall_mem_cons.mp within
    obtain ⟨isNew, distinctRest⟩ := List.nodup_cons.mp distinct
    obtain ⟨next, writes, nextRoom, sameFiles⟩ :=
      writeFile_step room isFile (ordinary file isFile) (takes file isFile) apart
    have elsewhere : ∀ other ∈ rest,
        below base (Path.names file.path) ≠ below base (Path.names other.path) := by
      intro other isOther same
      exact isNew (List.mem_map.mpr ⟨other, isOther, (below_inj same).symm⟩)
    -- what stands at the other paths is what stood there before
    have sameTexts : ∀ other ∈ rest, IsThere folder next other ↔ IsThere folder tree other := by
      intro other isOther
      have isAll := areFiles other isOther
      rw [IsThere, IsThere, nextRoom.text?_iff isAll (ordinary _ isAll) (takes _ isAll),
        room.text?_iff isAll (ordinary _ isAll) (takes _ isAll), sameFiles,
        if_neg (elsewhere other isOther)]
    obtain ⟨saved, writesRest, savedRoom, savedFiles⟩ := ih areFiles distinctRest nextRoom
      (report.add file.path (if IsThere folder tree file then .unchanged else .written))
    refine ⟨saved, writeEach_cons.mpr ⟨_, next, writes, writesRest.trans ?_⟩, savedRoom,
      savedFiles.cons elsewhere sameFiles⟩
    rw [expectedReport_congr sameTexts]
    by_cases isThere : IsThere folder tree file <;>
      simp [WriteReport.append, WriteReport.add, expectedReport, isThere]

/-- Files that are there are all left alone. -/
theorem writeEach_of_isThere {folder : String} {files : List GeneratedFile} {tree : FileTree}
    (areThere : ∀ file ∈ files, IsThere folder tree file) (report : WriteReport) :
    writeEach folder files report tree =
      .ok (report.append { unchanged := files.map GeneratedFile.path }) tree := by
  induction files generalizing report with
  | nil => simp [writeEach, WriteReport.append]; rfl
  | cons file rest ih =>
    obtain ⟨isFirst, areLater⟩ := List.forall_mem_cons.mp areThere
    refine writeEach_cons.mpr ⟨_, tree, writeFile_of_text? isFirst, (ih areLater _).trans ?_⟩
    simp [WriteReport.append, WriteReport.add]

/-- Only paths that the file system takes are written. -/
theorem takes_of_writeEach {folder : String} {files : List GeneratedFile}
    (ordinary : ∀ file ∈ files, Path.IsOrdinary file.path) {report last : WriteReport}
    {tree saved : FileTree} (writes : writeEach folder files report tree = .ok last saved) :
    ∀ file ∈ files, TakesPath folder file.path := by
  induction files generalizing report tree with
  | nil => simp
  | cons file rest ih =>
    rw [List.forall_mem_cons] at ordinary ⊢
    obtain ⟨outcome, next, writesFirst, writesRest⟩ := writeEach_cons.mp writes
    exact ⟨takes_of_text? ordinary.1 (text?_of_writeFile writesFirst), ih ordinary.2 writesRest⟩

theorem writeFiles_of_nodup {folder : String} {files : List GeneratedFile}
    (distinct : (files.map fun file => Path.components file.path).Nodup) :
    writeFiles folder files = writeEach folder files {} := by
  have noneRepeats : repeatedPath? [] files = none :=
    repeatedPath?_eq_none_iff.mpr ⟨distinct, by simp⟩
  rw [writeFiles, noneRepeats]
  rfl

/-- Files of one path are refused before anything is written. -/
theorem writeFiles_of_repeated {folder : String} {files : List GeneratedFile}
    (notDistinct : ¬ (files.map fun file => Path.components file.path).Nodup) (tree : FileTree) :
    ∃ file ∈ files, writeFiles folder files tree =
      .error (.pathCollision (Path.join folder file.path)) tree := by
  cases repeated : repeatedPath? [] files with
  | none => exact absurd (repeatedPath?_eq_none_iff.mp repeated).1 notDistinct
  | some file =>
    refine ⟨file, mem_of_repeatedPath? repeated, ?_⟩
    rw [writeFiles, repeated]
    rfl

/-- **Writing generated files does what it should and no more, and only once.** Of files whose
paths are names and leave room for each other, two of one path are refused and nothing changes.
Otherwise, if the file system takes their paths, each file then has its text, no other file changes,
the report tells those that were there from the others, and a second time all are left alone. If
there is a path that the file system does not take, writing fails. -/
theorem writeFiles_isExact {folder : String} {base : Location} {tree : FileTree}
    {files : List GeneratedFile} (ordinary : ∀ file ∈ files, Path.IsOrdinary file.path)
    (apart : StandApart files) (room : HasRoom folder base tree files) :
    (¬ (files.map fun file => Path.components file.path).Nodup →
      ∃ file ∈ files, writeFiles folder files tree =
        .error (.pathCollision (Path.join folder file.path)) tree) ∧
    ((files.map fun file => Path.components file.path).Nodup →
      (∀ file ∈ files, TakesPath folder file.path) →
      ∃ saved, writeFiles folder files tree = .ok (expectedReport folder tree files) saved ∧
        (∀ file ∈ files, saved.text? (Path.join folder file.path) = some file.contents) ∧
        (∀ location content,
          (∀ file ∈ files, location ≠ below base (Path.names file.path)) →
          (saved.at? location = some (.file content) ↔
            tree.at? location = some (.file content))) ∧
        writeFiles folder files saved =
          .ok { written := [], unchanged := files.map GeneratedFile.path } saved) ∧
    ((files.map fun file => Path.components file.path).Nodup →
      (∃ file ∈ files, ¬ TakesPath folder file.path) →
      ∃ failure after, writeFiles folder files tree = .error failure after) := by
  refine ⟨fun notDistinct => writeFiles_of_repeated notDistinct tree,
    fun distinct takes => ?_, fun distinct isRefused => ?_⟩
  · have distinctNames : (files.map fun file => Path.names file.path).Nodup := by
      refine List.Nodup.of_map (List.map Component.name) ?_
      rw [List.map_map]
      exact List.map_congr_left (fun file isFile => (ordinary file isFile).components_eq_map) ▸
        distinct
    obtain ⟨saved, writes, savedRoom, savedFiles⟩ :=
      writeEach_of_room (fun _ isFile => isFile) ordinary takes apart distinctNames room {}
    have areThere : ∀ file ∈ files, IsThere folder saved file := fun file isFile =>
      (savedRoom.text?_iff isFile (ordinary file isFile) (takes file isFile)).mpr
        ((savedFiles ..).mpr (.inl ⟨file, isFile, rfl, rfl⟩))
    rw [writeFiles_of_nodup distinct]
    refine ⟨saved, writes, areThere, fun location content isOther => ?_,
      writeEach_of_isThere areThere {}⟩
    rw [savedFiles]
    constructor
    · rintro (⟨file, isFile, isHere, -⟩ | ⟨-, isSame⟩)
      · exact absurd isHere.symm (isOther file isFile)
      · exact isSame
    · exact fun isSame => .inr ⟨fun file isFile same => isOther file isFile same.symm, isSame⟩
  · rw [writeFiles_of_nodup distinct]
    cases writes : writeEach folder files {} tree with
    | error failure after => exact ⟨failure, after, rfl⟩
    | ok report saved =>
      obtain ⟨file, isFile, isRefused⟩ := isRefused
      exact absurd (takes_of_writeEach ordinary writes file isFile) isRefused

/-! ### Paths that fail, and paths that do not -/

/-- A file whose name has 256 bytes. -/
def longFile : GeneratedFile where
  path := String.ofList (List.replicate 256 'a')
  contents := "x"

/-- A file whose path ends in a slash. -/
def closedFile : GeneratedFile where
  path := "a.cpp/"
  contents := "x"

/-- An empty tree has room for a file of one name in a new folder. -/
theorem hasRoom_of_one {file : GeneratedFile} {name : String}
    (isOne : Path.names file.path = [name]) : HasRoom "out" ["out"] {} [file] := by
  refine ⟨.of_entries (by simp), ({} : FileTree).set ["out"] .folder, ⟨rfl, rfl, rfl, .inr rfl⟩, ?_⟩
  rw [List.forall_mem_singleton, isOne]
  refine ⟨fun outer isOuter isInner content => ?_, ?_⟩
  · rcases List.prefix_cons_iff.mp isOuter with rfl | ⟨rest, rfl, isRest⟩
    · rw [at?_set (by simp)]
      simp [below]
    · exact absurd (by rw [List.prefix_nil.mp isRest]) isInner
  · rw [← Bool.not_eq_true, isFolderAt_iff, at?_set (by simp)]
    simp [below, at?]

/-- A file of one name is not written although an empty tree has room for it. -/
def FailsWithRoom (file : GeneratedFile) : Prop :=
  Path.IsOrdinary file.path ∧ StandApart [file] ∧ HasRoom "out" ["out"] {} [file] ∧
    ∀ report saved, writeFiles "out" [file] {} ≠ .ok report saved

theorem failsWithRoom_of_not_takes {file : GeneratedFile} {name : String}
    (ordinary : Path.IsOrdinary file.path) (isOne : Path.names file.path = [name])
    (isRefused : ¬ TakesPath "out" file.path) : FailsWithRoom file := by
  refine ⟨ordinary, by simp [StandApart], hasRoom_of_one isOne, fun report saved writes => ?_⟩
  rw [@writeFiles_of_nodup _ [file] (List.nodup_singleton _)] at writes
  exact isRefused (takes_of_writeEach (by simpa using ordinary) writes file
    (List.mem_singleton_self _))

theorem isPlain_longFile : Path.IsPlain longFile.path := by
  have areLetters : longFile.path.toList = List.replicate 256 'a' := String.toList_ofList
  refine ⟨?_, ?_⟩
  · rw [areLetters]
    exact fun isSlash => absurd (List.eq_of_mem_replicate isSlash) (by decide)
  · rw [areLetters]
    rfl

/-- Names may be too long, and a slash at the end asks for a folder. -/
theorem long_names_and_closed_paths_fail : FailsWithRoom longFile ∧ FailsWithRoom closedFile := by
  constructor
  · have isOne : Path.names longFile.path = [longFile.path] := by
      rw [Path.names, isPlain_longFile.components_eq]
      rfl
    refine failsWithRoom_of_not_takes isPlain_longFile.isOrdinary isOne fun takes => ?_
    have isShort := takes.areNames longFile.path (isOne ▸ List.mem_singleton_self _)
    exact absurd isShort (by decide +kernel)
  · refine failsWithRoom_of_not_takes (by decide +kernel) rfl fun takes => ?_
    exact absurd takes.noFolder (by decide +kernel)

/-- An output folder with a generated file and another one. -/
def olderOutput : FileTree where
  entries := [(["out"], .folder), (["a.cpp", "out"], .file (.text "A")),
    (["notes", "out"], .file (.text "keep"))]

/-- The same generated file, and one in a folder that is not there. -/
def newerFiles : List GeneratedFile := [⟨"a.cpp", "A"⟩, ⟨"ui/b.cpp", "B"⟩]

theorem hasRoom_newerFiles : HasRoom "out" ["out"] olderOutput newerFiles := by
  refine ⟨.of_entries (by decide +kernel), olderOutput, ⟨rfl, rfl, by decide +kernel, .inl rfl⟩, ?_⟩
  exact fun file isFile => .of_inits ((by decide +kernel : ∀ file ∈ newerFiles,
    ∀ outer ∈ (Path.names file.path).inits, outer ≠ Path.names file.path →
      olderOutput.at? (below ["out"] outer) = some .folder ∨
        olderOutput.at? (below ["out"] outer) = none) file isFile)
    ((by decide +kernel : ∀ file ∈ newerFiles,
      olderOutput.isFolderAt (below ["out"] (Path.names file.path)) = false) file isFile)

/-- The file that is there is left alone, the other one is written, and a second time neither is. -/
theorem second_output_is_left_alone :
    ∃ saved, writeFiles "out" newerFiles olderOutput =
        .ok { written := ["ui/b.cpp"], unchanged := ["a.cpp"] } saved ∧
      saved.text? "out/ui/b.cpp" = some "B" ∧
      saved.at? ["notes", "out"] = some (.file (.text "keep")) ∧
      writeFiles "out" newerFiles saved =
        .ok { written := [], unchanged := ["a.cpp", "ui/b.cpp"] } saved := by
  have ordinary : ∀ file ∈ newerFiles, Path.IsOrdinary file.path := by decide +kernel
  have apart : StandApart newerFiles := by
    unfold StandApart
    decide +kernel
  obtain ⟨-, ofDistinct, -⟩ := writeFiles_isExact ordinary apart hasRoom_newerFiles
  obtain ⟨saved, writes, areRead, others, again⟩ :=
    ofDistinct (by decide +kernel) (by decide +kernel)
  have isReport : expectedReport "out" olderOutput newerFiles =
      { written := ["ui/b.cpp"], unchanged := ["a.cpp"] } := by decide +kernel
  rw [isReport] at writes
  refine ⟨saved, writes, areRead ⟨"ui/b.cpp", "B"⟩ (by simp [newerFiles]), ?_, again⟩
  exact (others _ _ (by decide +kernel)).mpr (by rfl)

end Bindery.Wrapper
