/-
**Making folders and writing files.**

A file never stands in the place of a folder, so writing files moves no path: what was writable
stays writable, and what was written is read until it is written again.

* `FileTree.CanWrite` — a file can be written at a path.
* `FileTree.SameFolders`, `FileTree.KeepsFolders` — folders stand at the same locations, or more
  of them.
* `FileTree.forM_writeText` — files at distinct locations are written and can be read.
* `FileTree.isFolder_makeFolders` — a folder that was created is there.
-/

import Mathlib.Data.List.Nodup
import Bindery.Files.Disk
import Bindery.Proofs.Files.Path

namespace Bindery.FileTree

/-! ### Nodes -/

/-- A folder stands at a location when that is what stands there. -/
theorem isFolderAt_iff (tree : FileTree) (location : Location) :
    tree.isFolderAt location = true ↔ tree.at? location = some .folder := by
  unfold isFolderAt
  rcases tree.at? location with _ | _ | content
  · exact ⟨nofun, nofun⟩
  · exact ⟨fun _ => rfl, fun _ => rfl⟩
  · exact ⟨nofun, nofun⟩

/-- A path names a folder when it leads to one. -/
theorem isFolder_iff (tree : FileTree) (path : String) :
    tree.isFolder path = true ↔
      ∃ location, tree.locate? path = some location ∧ tree.isFolderAt location = true := by
  unfold isFolder node? isFolderAt
  cases tree.locate? path with
  | none => simp
  | some location =>
    rcases isThere : tree.at? location with _ | _ | content
    · simp [isThere]
    · have isFolder : (some Node.folder == some Node.folder) = true := rfl
      have noFile : (Node.folder != Node.folder) = false := rfl
      simp [isThere, isFolder, noFile]
    · have noFolder : (Node.file content == Node.folder) = false := rfl
      by_cases asks : Path.asksForFolder path = true <;> simp [isThere, asks, bne, noFolder]

theorem find?_placeAt (location other : Location) (node : Node) (entries : List (Location × Node)) :
    (placeAt location node entries).find? (·.1 == other) =
      if location = other then some (location, node) else entries.find? (·.1 == other) := by
  induction entries with
  | nil => by_cases isOther : location = other <;> simp [placeAt, isOther]
  | cons entry rest ih =>
    obtain ⟨place, old⟩ := entry
    by_cases isPlace : place = location
    · by_cases isOther : location = other <;> simp [placeAt, isPlace, isOther]
    · rw [placeAt, if_neg isPlace]
      by_cases isOther : place = other
      · have notThere : location ≠ other := fun same => isPlace (isOther.trans same.symm)
        simp [isOther, notThere]
      · simp [isOther, ih]

/-- Putting a node somewhere changes what stands there, unless it is the root. -/
theorem at?_set {location : Location} (notRoot : location ≠ []) (tree : FileTree) (node : Node)
    (other : Location) :
    (tree.set location node).at? other =
      if location = other then some node else tree.at? other := by
  unfold at? set
  cases other with
  | nil => simp [notRoot]
  | cons name rest =>
    simp only [List.isEmpty_cons, Bool.false_eq_true, if_false, find?_placeAt]
    by_cases isHere : location = name :: rest <;> simp [isHere]

/-- Folders stand at the same locations, and relative paths start at the same one. -/
structure SameFolders (tree other : FileTree) : Prop where
  working : tree.working = other.working
  isFolderAt : tree.isFolderAt = other.isFolderAt

namespace SameFolders

variable {tree other third : FileTree}

theorem refl (tree : FileTree) : SameFolders tree tree := ⟨rfl, rfl⟩

theorem symm (same : SameFolders tree other) : SameFolders other tree :=
  ⟨same.working.symm, same.isFolderAt.symm⟩

theorem trans (first : SameFolders tree other) (second : SameFolders other third) :
    SameFolders tree third :=
  ⟨first.working.trans second.working, first.isFolderAt.trans second.isFolderAt⟩

theorem enter (same : SameFolders tree other) : tree.enter = other.enter := by
  funext here part
  cases part <;> simp only [FileTree.enter, same.isFolderAt]

/-- Paths lead to the same locations. -/
theorem locate? (same : SameFolders tree other) (path : String) :
    tree.locate? path = other.locate? path := by
  rw [FileTree.locate?, FileTree.locate?, same.enter, same.working]

end SameFolders

/-- Where a folder stands, one stands in another tree, where there may be more. -/
structure KeepsFolders (tree other : FileTree) : Prop where
  working : other.working = tree.working
  isFolderAt : ∀ location, tree.isFolderAt location = true → other.isFolderAt location = true

namespace KeepsFolders

variable {tree other third : FileTree}

theorem refl (tree : FileTree) : KeepsFolders tree tree := ⟨rfl, fun _ isFolder => isFolder⟩

theorem trans (first : KeepsFolders tree other) (second : KeepsFolders other third) :
    KeepsFolders tree third :=
  ⟨second.working.trans first.working,
    fun location isFolder => second.isFolderAt _ (first.isFolderAt location isFolder)⟩

/-- A part leads to the same location when folders are added. -/
theorem enter (kept : KeepsFolders tree other) {here location : Location} {part : Component}
    (enters : tree.enter here part = some location) :
    other.enter here part = some location := by
  by_cases isFolder : tree.isFolderAt here = true
  · cases part <;> simpa only [FileTree.enter, isFolder, kept.isFolderAt _ isFolder] using enters
  · cases part <;> simp_all [FileTree.enter]

theorem foldlM_enter (kept : KeepsFolders tree other) {here location : Location}
    {parts : List Component} (leads : parts.foldlM tree.enter here = some location) :
    parts.foldlM other.enter here = some location := by
  induction parts generalizing here with
  | nil => exact leads
  | cons part rest ih =>
    rw [List.foldlM_cons] at leads ⊢
    obtain ⟨next, enters, leadsOn⟩ := Option.bind_eq_some_iff.mp leads
    rw [kept.enter enters]
    exact ih leadsOn

/-- A path that leads somewhere leads there when folders are added. -/
theorem locate? (kept : KeepsFolders tree other) {path : String} {location : Location}
    (isThere : tree.locate? path = some location) : other.locate? path = some location := by
  unfold FileTree.locate? at isThere ⊢
  split at isThere
  next => cases isThere
  next isPath =>
    rw [if_neg isPath, kept.working]
    exact kept.foldlM_enter isThere

end KeepsFolders

theorem SameFolders.keepsFolders {tree other : FileTree} (same : SameFolders tree other) :
    KeepsFolders tree other :=
  ⟨same.working.symm, fun _ isFolder => same.isFolderAt ▸ isFolder⟩

/-- A file with a text is there. -/
theorem hasNode_of_text? {tree : FileTree} {path text : String}
    (found : tree.text? path = some text) : tree.hasNode path = true := by
  unfold text? content? at found
  cases isNode : tree.node? path with
  | none => simp [isNode] at found
  | some node => simp [hasNode, isNode]

/-! ### Writing files -/

/-- A file can be written at a path: its folder is there, and no folder stands in its place. -/
def CanWrite (tree : FileTree) (path : String) : Prop :=
  ∃ location, tree.locate? path = some location ∧ Path.asksForFolder path = false ∧
    tree.isFolderAt location = false

theorem SameFolders.canWrite {tree other : FileTree} (same : SameFolders tree other)
    {path : String} (writable : other.CanWrite path) : tree.CanWrite path := by
  obtain ⟨location, isThere, noFolder, isFree⟩ := writable
  exact ⟨location, (same.locate? path).trans isThere, noFolder, same.isFolderAt ▸ isFree⟩

/-- Where a file is written. -/
theorem writeFile?_eq_some_iff {tree next : FileTree} {path : String} {content : Content} :
    tree.writeFile? path content = some next ↔ ∃ location, tree.locate? path = some location ∧
      Path.asksForFolder path = false ∧ tree.isFolderAt location = false ∧
        tree.set location (.file content) = next := by
  unfold writeFile?
  cases tree.locate? path with
  | none => simp
  | some location =>
    cases asks : Path.asksForFolder path <;> cases isFolder : tree.isFolderAt location <;>
      simp [isFolder]

/-- A file can be written exactly where writing succeeds. -/
theorem isSome_writeFile?_iff (tree : FileTree) (path : String) (content : Content) :
    (tree.writeFile? path content).isSome = true ↔ tree.CanWrite path := by
  rw [Option.isSome_iff_exists]
  constructor
  · rintro ⟨next, writes⟩
    obtain ⟨location, isThere, noFolder, isFree, -⟩ := writeFile?_eq_some_iff.mp writes
    exact ⟨location, isThere, noFolder, isFree⟩
  · rintro ⟨location, isThere, noFolder, isFree⟩
    exact ⟨_, writeFile?_eq_some_iff.mpr ⟨location, isThere, noFolder, isFree, rfl⟩⟩

/-- What writing a text leaves: the text at its path, everything else as it was. -/
theorem writeFile?_of_canWrite {tree : FileTree} {path : String} (writable : tree.CanWrite path)
    (text : String) :
    ∃ changed, tree.writeFile? path (.text text) = some changed ∧ changed.text? path = some text ∧
      SameFolders changed tree ∧ ∀ other, tree.locate? other ≠ tree.locate? path →
        changed.text? other = tree.text? other := by
  obtain ⟨location, isThere, noFolder, isFree⟩ := writable
  have notRoot : location ≠ [] := by
    rintro rfl
    cases isFree
  have same : SameFolders (tree.set location (.file (.text text))) tree := by
    refine ⟨rfl, funext fun other => ?_⟩
    rw [isFolderAt, at?_set notRoot]
    split
    next isHere => exact (isHere ▸ isFree).symm
    next => rfl
  have isNode : (tree.set location (.file (.text text))).node? path =
      some (.file (.text text)) := by
    rw [node?, same.locate?, isThere]
    simp [at?_set notRoot, noFolder]
  refine ⟨tree.set location (.file (.text text)), ?_, ?_, same, fun other isOther => ?_⟩
  · simp [writeFile?, isThere, noFolder, isFree]
  · simp [text?, content?, isNode]
  · have sameNode : (tree.set location (.file (.text text))).node? other = tree.node? other := by
      rw [node?, node?, same.locate?]
      cases elsewhere : tree.locate? other with
      | none => rfl
      | some place =>
        have notHere : location ≠ place := by
          rintro rfl
          exact isOther (elsewhere.trans isThere.symm)
        simp [at?_set notRoot, notHere]
    rw [text?, text?, content?, content?, sameNode]

/-- A text that was written can be read. -/
theorem text?_of_writeFile? {tree next : FileTree} {path text : String}
    (writes : tree.writeFile? path (.text text) = some next) : next.text? path = some text := by
  have writable : tree.CanWrite path := by
    rw [← isSome_writeFile?_iff tree path (.text text), writes]
    rfl
  obtain ⟨again, writesAgain, isRead, -⟩ := writeFile?_of_canWrite writable text
  obtain rfl := Option.some.inj (writes.symm.trans writesAgain)
  exact isRead

/-- Texts at distinct locations that can be written are written and can be read. -/
theorem forM_writeText {files : List (String × String)} {tree : FileTree}
    (writable : ∀ file ∈ files, tree.CanWrite file.1)
    (distinct : (files.map fun file => tree.locate? file.1).Nodup) :
    ∃ saved, (files.forM fun (path, text) => Disk.writeText path text) tree = .ok () saved ∧
      SameFolders saved tree ∧ (∀ file ∈ files, saved.text? file.1 = some file.2) ∧
      ∀ other, (∀ file ∈ files, tree.locate? other ≠ tree.locate? file.1) →
        saved.text? other = tree.text? other := by
  induction files generalizing tree with
  | nil => exact ⟨tree, rfl, .refl tree, by simp, fun _ _ => rfl⟩
  | cons file rest ih =>
    obtain ⟨path, text⟩ := file
    obtain ⟨isFree, areFree⟩ := List.forall_mem_cons.mp writable
    obtain ⟨changed, isWritten, isRead, same, elsewhere⟩ := writeFile?_of_canWrite isFree text
    rw [List.map_cons, List.nodup_cons] at distinct
    obtain ⟨saved, runs, sameSaved, areRead, kept⟩ := @ih changed
      (fun file isLater => same.canWrite (areFree file isLater))
      (by simpa only [same.locate?] using distinct.2)
    have writes : Disk.writeText path text tree = .ok () changed := by
      rw [Disk.writeText, isWritten]
    have notFirst : ∀ file ∈ rest, tree.locate? path ≠ tree.locate? file.1 :=
      fun file isLater same => distinct.1 (same ▸ List.mem_map_of_mem isLater)
    refine ⟨saved, ?_, sameSaved.trans same, ?_, ?_⟩
    · show EStateM.bind (Disk.writeText path text) _ tree = _
      rw [EStateM.bind, writes]
      exact runs
    · rw [List.forall_mem_cons]
      refine ⟨?_, areRead⟩
      rw [kept path (by simpa only [same.locate?] using notFirst), isRead]
    · intro other isOther
      obtain ⟨notHere, notLater⟩ := List.forall_mem_cons.mp isOther
      rw [kept other (by simpa only [same.locate?] using notLater), elsewhere other notHere]

/-- Only texts that can be written are written. -/
theorem canWrite_of_forM_writeText {files : List (String × String)} {tree saved : FileTree}
    (runs : (files.forM fun (path, text) => Disk.writeText path text) tree = .ok () saved) :
    ∀ file ∈ files, tree.CanWrite file.1 := by
  induction files generalizing tree with
  | nil => simp
  | cons file rest ih =>
    obtain ⟨path, text⟩ := file
    have runsBoth : EStateM.bind (Disk.writeText path text)
        (fun _ => rest.forM fun (path, text) => Disk.writeText path text) tree =
          .ok () saved := runs
    rw [EStateM.bind, Disk.writeText] at runsBoth
    cases isWritten : tree.writeFile? path (.text text) with
    | none => simp [isWritten] at runsBoth
    | some changed =>
      rw [isWritten] at runsBoth
      have isFree : tree.CanWrite path := by
        rw [← isSome_writeFile?_iff tree path (.text text), isWritten]
        rfl
      obtain ⟨again, writesAgain, _, same, _⟩ := writeFile?_of_canWrite isFree text
      obtain rfl : changed = again := Option.some.inj (isWritten.symm.trans writesAgain)
      rw [List.forall_mem_cons]
      exact ⟨isFree, fun file isLater => same.symm.canWrite (ih runsBoth file isLater)⟩

/-! ### Files of a folder -/

/-- A path whose last part is a name leads to something of that name. -/
theorem locate?_of_components {tree : FileTree} {path name : String} {before : List Component}
    (areParts : Path.components path = before ++ [.name name]) {location : Location}
    (isThere : tree.locate? path = some location) : ∃ here, location = name :: here := by
  unfold locate? at isThere
  split at isThere
  next => cases isThere
  next =>
    rw [areParts, List.foldlM_append] at isThere
    obtain ⟨here, _, isLast⟩ := Option.bind_eq_some_iff.mp isThere
    refine ⟨here, ?_⟩
    simp only [List.foldlM_cons, List.foldlM_nil, enter] at isLast
    split at isLast
    next => exact (Option.some.inj isLast).symm
    next => cases isLast

/-- A file of a folder stands behind the location of the folder. -/
theorem locate?_join {tree : FileTree} {folder name : String} (plain : Path.IsPlain name)
    {location : Location} (isThere : tree.locate? (Path.join folder name) = some location) :
    ∃ here, location = name :: here :=
  locate?_of_components (Path.components_join folder plain) isThere

/-- Files of different names in a folder stand at different locations. -/
theorem distinct_join {tree : FileTree} {folder : String} {names : List String}
    (plain : ∀ name ∈ names, Path.IsPlain name) (distinct : names.Nodup)
    (areThere : ∀ name ∈ names, (tree.locate? (Path.join folder name)).isSome = true) :
    (names.map fun name => tree.locate? (Path.join folder name)).Nodup := by
  refine distinct.map_on fun first isFirst second isSecond same => ?_
  obtain ⟨location, found⟩ := Option.isSome_iff_exists.mp (areThere first isFirst)
  obtain ⟨here, isHere⟩ := locate?_join (plain first isFirst) found
  obtain ⟨there, isThere⟩ := locate?_join (plain second isSecond) (same ▸ found)
  exact List.head_eq_of_cons_eq (isHere.symm.trans isThere)

/-- A file with a plain name can be written in a folder unless its path is too long or a folder
stands there. -/
theorem canWrite_join_iff {tree : FileTree} {folder name : String} (plain : Path.IsPlain name)
    (short : isName name = true) (isFolder : tree.isFolder folder = true) :
    tree.CanWrite (Path.join folder name) ↔ isPath (Path.join folder name) = true ∧
      tree.isFolder (Path.join folder name) = false := by
  constructor
  · rintro ⟨location, isThere, _, isFree⟩
    constructor
    · by_contra noPath
      rw [locate?, if_pos (by simp [noPath])] at isThere
      cases isThere
    · rw [Bool.eq_false_iff, Ne, isFolder_iff]
      rintro ⟨other, isOther, holds⟩
      obtain rfl : location = other := Option.some.inj (isThere.symm.trans isOther)
      exact Bool.eq_false_iff.mp isFree holds
  · rintro ⟨isPath, isFree⟩
    obtain ⟨here, isHere, holds⟩ := (isFolder_iff tree folder).mp isFolder
    have isThere : tree.locate? (Path.join folder name) = some (name :: here) := by
      unfold locate? at isHere ⊢
      split at isHere
      next => cases isHere
      next =>
        have named : Path.join folder name ≠ "" := by
          intro isEmpty
          have noComponents := Path.components_join folder plain
          rw [isEmpty] at noComponents
          simp [show Path.components "" = [] from by decide] at noComponents
        rw [if_neg (by simp [named, isPath]), Path.components_join folder plain,
          List.foldlM_append, isHere]
        simp [enter, holds, short]
    refine ⟨name :: here, isThere, Path.asksForFolder_join folder plain, ?_⟩
    rw [Bool.eq_false_iff]
    intro isNode
    exact Bool.eq_false_iff.mp isFree ((isFolder_iff tree _).mpr ⟨_, isThere, isNode⟩)

/-! ### Making folders -/

/-- What stands in a tree stands in another one, where there may be more. -/
structure Extends (tree other : FileTree) : Prop where
  working : other.working = tree.working
  at? : ∀ location node, tree.at? location = some node → other.at? location = some node

namespace Extends

variable {tree other third : FileTree}

theorem refl (tree : FileTree) : Extends tree tree := ⟨rfl, fun _ _ isThere => isThere⟩

theorem trans (first : Extends tree other) (second : Extends other third) : Extends tree third :=
  ⟨second.working.trans first.working,
    fun location node isThere => second.at? location node (first.at? location node isThere)⟩

theorem keepsFolders (grown : Extends tree other) : KeepsFolders tree other :=
  ⟨grown.working, fun location isFolder =>
    (isFolderAt_iff ..).mpr (grown.at? location _ ((isFolderAt_iff ..).mp isFolder))⟩

theorem set {location : Location} (isFree : tree.at? location = none) (node : Node) :
    Extends tree (tree.set location node) := by
  have notRoot : location ≠ [] := by
    rintro rfl
    cases isFree
  refine ⟨rfl, fun other found isThere => ?_⟩
  rw [at?_set notRoot]
  split
  next isHere => exact absurd (isHere ▸ isThere) (by simp [isFree])
  next => exact isThere

end Extends

/-- Making folders takes nothing away, wherever it stops. -/
theorem extends_makeFoldersFrom {tree made : FileTree} {here : Location} {parts : List Component}
    {isMade : Bool} (makes : tree.makeFoldersFrom here parts = (made, isMade)) :
    Extends tree made := by
  induction parts generalizing tree here with
  | nil =>
    obtain ⟨rfl, -⟩ := Prod.mk.inj makes
    exact .refl tree
  | cons part rest ih =>
    rw [makeFoldersFrom] at makes
    split at makes
    next =>
      obtain ⟨rfl, -⟩ := Prod.mk.inj makes
      exact .refl tree
    next next _ =>
      split at makes
      next => exact ih makes
      next =>
        obtain ⟨rfl, -⟩ := Prod.mk.inj makes
        exact .refl tree
      next isFree => exact (Extends.set isFree .folder).trans (ih makes)

/-- The first of the folders that are made is there, and the others are made from it on. -/
theorem makeFoldersFrom_cons {tree made : FileTree} {here : Location} {part : Component}
    {rest : List Component} (makes : tree.makeFoldersFrom here (part :: rest) = (made, true)) :
    ∃ (next : Location) (after : FileTree), made.enter here part = some next ∧
      after.makeFoldersFrom next rest = (made, true) ∧ made.isFolderAt next = true := by
  have grown := extends_makeFoldersFrom makes
  rw [makeFoldersFrom] at makes
  cases enters : tree.enter here part with
  | none => simp [enters] at makes
  | some next =>
    have ofRest : ∀ after : FileTree, after.at? next = some .folder →
        after.makeFoldersFrom next rest = (made, true) → made.isFolderAt next = true :=
      fun after isFolder makesRest =>
        (extends_makeFoldersFrom makesRest).keepsFolders.isFolderAt _
          ((isFolderAt_iff ..).mpr isFolder)
    refine ⟨next, ?_⟩
    cases there : tree.at? next with
    | none =>
      have makesRest : (tree.set next .folder).makeFoldersFrom next rest = (made, true) := by
        simpa [enters, there] using makes
      have notRoot : next ≠ [] := by
        rintro rfl
        cases there
      have isFolder : (tree.set next .folder).at? next = some .folder := by
        rw [at?_set notRoot, if_pos rfl]
      exact ⟨_, grown.keepsFolders.enter enters, makesRest, ofRest _ isFolder makesRest⟩
    | some node =>
      cases node with
      | file content => simp [enters, there] at makes
      | folder =>
        have makesRest : tree.makeFoldersFrom next rest = (made, true) := by
          simpa [enters, there] using makes
        exact ⟨tree, grown.keepsFolders.enter enters, makesRest, ofRest tree there makesRest⟩

/-- Folders that are made lead to a folder. -/
theorem makeFoldersFrom_eq_true {tree made : FileTree} {here : Location} {parts : List Component}
    (makes : tree.makeFoldersFrom here parts = (made, true)) :
    ∃ location, parts.foldlM made.enter here = some location ∧
      (made.isFolderAt here = true ∨ parts ≠ [] → made.isFolderAt location = true) := by
  induction parts generalizing tree here with
  | nil => exact ⟨here, rfl, by simp⟩
  | cons part rest ih =>
    obtain ⟨next, after, enters, makesRest, isNext⟩ := makeFoldersFrom_cons makes
    obtain ⟨location, leads, isFolder⟩ := ih makesRest
    refine ⟨location, ?_, fun _ => isFolder (.inl isNext)⟩
    rw [List.foldlM_cons, enters]
    exact leads

/-- A folder that was created is there. -/
theorem isFolder_makeFolders {tree made : FileTree} {folder : String} (named : folder ≠ "")
    (makes : tree.makeFolders folder = (made, true)) : made.isFolder folder = true := by
  unfold makeFolders at makes
  split at makes
  next isPath =>
    have sameWorking := (extends_makeFoldersFrom makes).working
    obtain ⟨location, leads, isFolder⟩ := makeFoldersFrom_eq_true makes
    have isThere : made.locate? folder = some location := by
      rw [locate?, sameWorking, if_neg (by simp [isPath, named]), leads]
    exact (isFolder_iff made folder).mpr
      ⟨location, isThere, isFolder (.inr (Path.components_ne_nil named))⟩
  next => cases makes

theorem SameFolders.isFolder {tree other : FileTree} (same : SameFolders tree other)
    {path : String} (isFolder : other.isFolder path = true) : tree.isFolder path = true := by
  rw [isFolder_iff] at isFolder ⊢
  rwa [same.locate? path, same.isFolderAt]

end Bindery.FileTree
