/-
**The documents of a data cache in their folder.**

A cache is loaded document by document. A document that is not there changes nothing; one that is
there is a text, the text is a JSON value, and the value changes the table, or loading fails.

* `documentsOf` — the documents that hold the elements of a kind.
* `loadDocument_cases`, `loadDocument_of_absent`, `loadDocument_of_text` — how a document is loaded.
-/

import Bindery.Cache.Store
import Bindery.Proofs.Files.Writing
import Bindery.Proofs.Symbols.Replay

namespace Bindery.Cache

open Symbols

/-! ### Names -/

/-- The document that switches headers. -/
def headersDocument : String := "includes.json"

/-- The documents that hold the elements of a kind. -/
def documentsOf : ElementKind → List String
  | .constant => ["constants.json"]
  | .enumeration => ["enumerations.json"]
  | .typeAlias => ["type_definitions.json"]
  | .globalVariable => ["variables.json"]
  | .function => ["functions.json"]
  | .classDefinition => ["classes.json", "class_enumerations.json", "class_variables.json"]

/-- The names of all documents of a cache, in the order in which they are loaded. -/
def documentNames : List String := headersDocument :: ElementKind.all.flatMap documentsOf

/-- Two caches agree on a document: it has the same content in both, or is in neither. -/
def SameDocument (tree : FileTree) (folder : String) (other : FileTree) (otherFolder : String)
    (name : String) : Prop :=
  tree.node? (Path.join folder name) = other.node? (Path.join otherFolder name)

/-! ### One document -/

variable {tree : FileTree} {folder name : String} {replay : Replay} {table made : Table}

theorem loadDocument_of_absent (isAbsent : tree.node? (Path.join folder name) = none) :
    loadDocument tree folder table (name, replay) = .ok table := by
  have hasNone : tree.hasNode (Path.join folder name) = false := by
    rw [FileTree.hasNode, isAbsent, Option.isSome_none]
  rw [loadDocument, hasNone]
  rfl

/-- A document with a value of the right form changes the table. -/
theorem loadDocument_of_text {text : String} {json : Json} {change : Table → Except Failure Table}
    (isText : tree.text? (Path.join folder name) = some text)
    (isJson : Json.parse? text = some json)
    (isChange : replay json = some change) :
    loadDocument tree folder table (name, replay) = change table := by
  simp only [loadDocument, FileTree.hasNode_of_text? isText, if_true, FileTree.textOrFail, isText,
    bind, Except.bind, isJson, isChange]

/-- A document with a value of another form cannot be loaded. -/
theorem loadDocument_of_unread {text : String} {json : Json}
    (isText : tree.text? (Path.join folder name) = some text)
    (isJson : Json.parse? text = some json)
    (isUnread : replay json = none) :
    ∃ failure, loadDocument tree folder table (name, replay) = .error failure := by
  refine ⟨.malformed (Path.join folder name) "the value does not have the form of the document", ?_⟩
  simp only [loadDocument, FileTree.hasNode_of_text? isText, if_true, FileTree.textOrFail, isText,
    bind, Except.bind, isJson, isUnread]
  rfl

/-- A document that was loaded is not there, or changed the table. -/
theorem loadDocument_cases (loads : loadDocument tree folder table (name, replay) = .ok made) :
    (tree.node? (Path.join folder name) = none ∧ made = table) ∨
      ∃ text json change, tree.text? (Path.join folder name) = some text ∧
        Json.parse? text = some json ∧ replay json = some change ∧ change table = .ok made := by
  cases isNode : tree.node? (Path.join folder name) with
  | none =>
    rw [loadDocument_of_absent isNode] at loads
    exact .inl ⟨rfl, (Except.ok.inj loads).symm⟩
  | some node =>
    refine .inr ?_
    have isThere : tree.hasNode (Path.join folder name) = true := by
      rw [FileTree.hasNode, isNode, Option.isSome_some]
    simp only [loadDocument, isThere, if_true, FileTree.textOrFail] at loads
    split at loads
    next text isText =>
      simp only [bind, Except.bind] at loads
      split at loads
      next => cases loads
      next json isJson =>
        split at loads
        next => cases loads
        next change isChange => exact ⟨text, json, change, isText, isJson, isChange, loads⟩
    next => cases loads

/-- Documents are read in folders only. -/
theorem load_data_eq_ok {policy : DuplicatePolicy}
    (loads : load .data policy folder tree = .ok made) :
    (replays policy folder).foldlM (loadDocument tree folder) .empty = .ok made := by
  unfold load at loads
  split at loads
  next => exact loads
  next => cases loads

end Bindery.Cache
