/-
**Work on files that is done over again.**

Folders that were made are there, and a file that is written with the text that it holds stays as it
is. So work that was done once can be done again and then changes nothing. What else stands in the
tree, the work does not touch.

* `FileTree.makeFolders_again`, `FileTree.forM_writeText_again` — the second time.
* `FileTree.Extends.text?` — making folders changes no file.
* `FileTree.locate?_ne_of_ending` — a file whose name has an extension is none of other files.
-/

import Bindery.Proofs.Files.Writing

namespace Bindery.FileTree

/-! ### Texts -/

/-- A text is read at the location of a file that holds it. -/
theorem text?_eq_some_iff {tree : FileTree} {path text : String} :
    tree.text? path = some text ↔ ∃ location, tree.locate? path = some location ∧
      tree.at? location = some (.file (.text text)) ∧ Path.asksForFolder path = false := by
  have isFile (content : Content) : (Node.file content != Node.folder) = true := rfl
  unfold text? content? node?
  cases tree.locate? path with
  | none => simp
  | some location =>
    cases found : tree.at? location with
    | none => simp [found]
    | some node =>
      by_cases asks : Path.asksForFolder path = true
      · cases node <;> simp [found, asks, isFile]
      · rcases node with _ | (_ | _) <;> simp [found, asks]

/-- Where more stands in a tree, the files are the same. -/
theorem Extends.text? {tree other : FileTree} (grown : Extends tree other) {path text : String}
    (isText : tree.text? path = some text) : other.text? path = some text := by
  obtain ⟨location, isThere, isFile, noFolder⟩ := text?_eq_some_iff.mp isText
  exact text?_eq_some_iff.mpr
    ⟨location, grown.keepsFolders.locate? isThere, grown.at? _ _ isFile, noFolder⟩

/-! ### The second time -/

theorem placeAt_of_find? {location : Location} {entry : Location × Node}
    {entries : List (Location × Node)} (found : entries.find? (·.1 == location) = some entry) :
    placeAt location entry.2 entries = entries := by
  induction entries with
  | nil => cases found
  | cons first rest ih =>
    obtain ⟨place, old⟩ := first
    rw [placeAt]
    by_cases isPlace : place = location
    · rw [List.find?_cons_of_pos (by simpa using isPlace)] at found
      obtain rfl := Option.some.inj found
      rw [if_pos isPlace, isPlace]
    · rw [List.find?_cons_of_neg (by simpa using isPlace)] at found
      rw [if_neg isPlace, ih found]

/-- Putting what stands somewhere there changes nothing. -/
theorem set_of_at? {tree : FileTree} {location : Location} {node : Node} (notRoot : location ≠ [])
    (isThere : tree.at? location = some node) : tree.set location node = tree := by
  unfold at? at isThere
  rw [if_neg (by simpa using notRoot)] at isThere
  obtain ⟨entry, found, rfl⟩ := Option.map_eq_some_iff.mp isThere
  rw [set, placeAt_of_find? found]

/-- A file that is written with the text that it holds stays as it is. -/
theorem writeFile?_of_text? {tree : FileTree} {path text : String}
    (isText : tree.text? path = some text) : tree.writeFile? path (.text text) = some tree := by
  obtain ⟨location, isThere, isFile, noFolder⟩ := text?_eq_some_iff.mp isText
  have notRoot : location ≠ [] := by
    rintro rfl
    cases isFile
  have isFree : tree.isFolderAt location = false := by
    rw [isFolderAt, isFile]
    rfl
  simp [writeFile?, isThere, noFolder, isFree, set_of_at? notRoot isFile]

/-- Files that are written with the texts that they hold stay as they are. -/
theorem forM_writeText_again {files : List (String × String)} {tree : FileTree}
    (areTexts : ∀ file ∈ files, tree.text? file.1 = some file.2) :
    (files.forM fun (path, text) => Disk.writeText path text) tree = .ok () tree := by
  induction files with
  | nil => rfl
  | cons file rest ih =>
    obtain ⟨path, text⟩ := file
    rw [List.forall_mem_cons] at areTexts
    have writes : Disk.writeText path text tree = .ok () tree := by
      rw [Disk.writeText, writeFile?_of_text? areTexts.1]
    show EStateM.bind (Disk.writeText path text) _ tree = _
    rw [EStateM.bind, writes]
    exact ih areTexts.2

theorem makeFoldersFrom_again {tree made other : FileTree} {here : Location}
    {parts : List Component} (makes : tree.makeFoldersFrom here parts = (made, true))
    (kept : KeepsFolders made other) : other.makeFoldersFrom here parts = (other, true) := by
  induction parts generalizing tree here with
  | nil => rfl
  | cons part rest ih =>
    obtain ⟨next, after, enters, makesRest, isNext⟩ := makeFoldersFrom_cons makes
    have isThere : other.at? next = some .folder :=
      (isFolderAt_iff ..).mp (kept.isFolderAt _ isNext)
    rw [makeFoldersFrom, kept.enter enters]
    simp only [isThere]
    exact ih makesRest

/-- Folders that were made are there, whatever else has come since. -/
theorem makeFolders_again {tree made other : FileTree} {folder : String}
    (makes : tree.makeFolders folder = (made, true)) (kept : KeepsFolders made other) :
    other.makeFolders folder = (other, true) := by
  unfold makeFolders at makes ⊢
  split at makes
  next isPath =>
    rw [if_pos isPath, kept.working, (extends_makeFoldersFrom makes).working]
    exact makeFoldersFrom_again makes kept
  next => cases makes

theorem extends_makeFolders {tree made : FileTree} {folder : String} {isMade : Bool}
    (makes : tree.makeFolders folder = (made, isMade)) : Extends tree made := by
  unfold makeFolders at makes
  split at makes
  next => exact extends_makeFoldersFrom makes
  next =>
    obtain ⟨rfl, -⟩ := Prod.mk.inj makes
    exact .refl tree

/-! ### Other files -/

/-- A file whose path has an extension is no file of a folder whose name does not have it. -/
theorem locate?_ne_of_ending {tree : FileTree} {path folder name : String} {ending : List Char}
    (noSlash : '/' ∉ ending) (long : 2 < ending.length) (ends : ending <:+ path.toList)
    (plain : Path.IsPlain name) (hasOther : ¬ ending <:+ name.toList) {location : Location}
    (isThere : tree.locate? path = some location) :
    tree.locate? path ≠ tree.locate? (Path.join folder name) := by
  intro same
  obtain ⟨before, own, areParts, ownEnds⟩ := Path.components_of_ending noSlash long ends
  obtain ⟨here, rfl⟩ := locate?_of_components areParts isThere
  obtain ⟨there, isSame⟩ := locate?_join plain (same ▸ isThere)
  exact hasOther (List.head_eq_of_cons_eq isSame ▸ ownEnds)

end Bindery.FileTree
