/-
**The order of keys in a data cache.**

A cache says the same in whatever order the members of its objects stand, from the list of headers
to the fields of the records. The tables that are loaded have their headers and elements in another
order then, and are equal.

* `ReorderedDocument` — what two caches have under the name of a document.
* `load_reordered` — reordered caches hold equal tables, or neither can be loaded.
-/

import Bindery.Proofs.Cache.ReorderedDocuments
import Bindery.Proofs.Cache.Separation
import Bindery.Proofs.Cache.Storable
import Bindery.Proofs.Json.RoundTrip

namespace Bindery.Cache

open Json Symbols

/-! ### One document -/

/-- A document of two caches that is in neither of them, or that differs in the order of members
only. -/
def ReorderedDocument (tree : FileTree) (folder : String) (other : FileTree) (otherFolder : String)
    (document : String) : Prop :=
  (tree.node? (Path.join folder document) = none ∧
      other.node? (Path.join otherFolder document) = none) ∨
    ∃ text otherText json otherJson,
      tree.text? (Path.join folder document) = some text ∧
        other.text? (Path.join otherFolder document) = some otherText ∧
        Json.parse? text = some json ∧ Json.parse? otherText = some otherJson ∧
        Reordered json otherJson ∧ HasPlainKeys document json

section Caches

variable {policy : DuplicatePolicy} {tree other : FileTree} {folder otherFolder document : String}

/-- Documents that were written from reordered values. -/
theorem ReorderedDocument.of_written {json otherJson : Json}
    (isText : tree.text? (Path.join folder document) = some json.document)
    (isOtherText : other.text? (Path.join otherFolder document) = some otherJson.document)
    (textual : json.everywhere isTextual = true)
    (otherTextual : otherJson.everywhere isTextual = true)
    (same : Reordered json otherJson) (plain : HasPlainKeys document json) :
    ReorderedDocument tree folder other otherFolder document :=
  .inr ⟨_, _, json, otherJson, isText, isOtherText, parse?_document textual,
    parse?_document otherTextual, same, plain⟩

theorem matches_loadDocument {first second : Replay} (orderless : first.IsOrderless document second)
    (reordered : ReorderedDocument tree folder other otherFolder document)
    {table otherTable : Table} (alike : table.Alike otherTable) :
    Matches Table.Alike (loadDocument tree folder table (document, first))
      (loadDocument other otherFolder otherTable (document, second)) := by
  rcases reordered with ⟨isAbsent, isOtherAbsent⟩ |
    ⟨text, otherText, json, otherJson, isText, isOtherText, isJson, isOtherJson, same, plain⟩
  · rw [loadDocument_of_absent isAbsent, loadDocument_of_absent isOtherAbsent]
    exact .ok alike
  · have changes := orderless json otherJson same plain
    generalize isChange : first json = change, isOtherChange : second otherJson = otherChange
      at changes
    cases changes with
    | none =>
      obtain ⟨failure, fails⟩ := loadDocument_of_unread isText isJson isChange
      obtain ⟨otherFailure, failsToo⟩ :=
        loadDocument_of_unread isOtherText isOtherJson isOtherChange
      rw [fails, failsToo]
      exact .error failure otherFailure
    | some changes =>
      rw [loadDocument_of_text isText isJson isChange,
        loadDocument_of_text isOtherText isOtherJson isOtherChange]
      exact changes table otherTable alike

/-! ### Caches -/

/-- The names of a table that was loaded agree with its keys. -/
theorem isNamed_load (policy : DuplicatePolicy) (folder : String) (tree : FileTree) :
    Returns Table.IsNamed (load .data policy folder tree) := by
  intro table loads
  have storable := isStorable_load .data policy folder tree table loads
  have reached : table.Reached := by
    refine Returns.foldlM (.empty : Table.empty.Reached) (fun entry isEntry made reached => ?_)
      table (load_data_eq_ok loads)
    intro next loadsNext
    have fills := (isApart_of_mem isEntry).fills entry.2 (by simp)
    exact (filled_loadDocument fills made next loadsNext).reached reached
  exact fun name header found =>
    ⟨(storable name header found).1, reached.readsKeys name header found⟩

/-- The order of keys in a data cache does not count. Of two caches whose documents differ in the
order of members only, either none can be loaded, or both can, and the tables are equal. -/
theorem load_reordered (policy : DuplicatePolicy)
    (sameFolder : tree.isFolder folder = other.isFolder otherFolder)
    (reordered : ∀ document ∈ documentNames,
      ReorderedDocument tree folder other otherFolder document) :
    (∃ failure otherFailure, load .data policy folder tree = .error failure ∧
      load .data policy otherFolder other = .error otherFailure) ∨
    ∃ table otherTable, load .data policy folder tree = .ok table ∧
      load .data policy otherFolder other = .ok otherTable ∧ (table == otherTable) = true := by
  have isMatch : Matches Table.Alike (load .data policy folder tree)
      (load .data policy otherFolder other) := by
    rw [load, load, ← sameFolder]
    split
    next =>
      refine .foldlM ⟨fun _ => rfl, fun _ _ => rfl, fun _ => .none⟩ ?_
      have areDocuments : ∀ entry ∈ replays policy folder, entry.1 ∈ documentNames :=
        fun entry isEntry => List.mem_map_of_mem isEntry
      refine ((List.forall₂_and_left ..).mpr ⟨areDocuments, isOrderless_replays ..⟩).imp ?_
      rintro ⟨document, first⟩ ⟨_, second⟩ ⟨isDocument, rfl, orderless⟩ table otherTable alike
      exact matches_loadDocument orderless (reordered document isDocument) alike
    next => exact .error _ _
  rcases isMatch.cases with fail | ⟨table, otherTable, loads, loadsOther, alike⟩
  · exact .inl fail
  · have named := isNamed_load policy folder tree table loads
    have otherNamed := isNamed_load policy otherFolder other otherTable loadsOther
    exact .inr ⟨table, otherTable, loads, loadsOther, Table.beq_of_alike alike named otherNamed⟩

end Caches

/-! ### Two orders of one cache -/

/-- A document under one header and in one scope, the members of whose value are put in an order. -/
def orderedDocument (name : String) (order : List (String × Json) → List (String × Json))
    (members : List (String × Json)) : Json :=
  sampleDocument name (record (order members))

/-- Two members in one or in the other order. -/
theorem reordered_orderedDocument (name : String) {first second : String × Json}
    (distinct : first.1 ≠ second.1) (ofFirst : Reordered first.2 first.2)
    (ofSecond : Reordered second.2 second.2) :
    Reordered (orderedDocument name id [first, second])
      (orderedDocument name List.reverse [first, second]) := by
  have single : ∀ key {value other : Json}, Reordered value other →
      Reordered (record [(key, value)]) (record [(key, other)]) := fun key _ _ same =>
    reordered_record (by simp) (.refl _) (.cons ⟨rfl, same⟩ .nil)
  have swapped : Reordered (record [first, second]) (record [second, first]) :=
    reordered_record (by simpa using distinct) (.swap ..)
      (.cons ⟨rfl, ofSecond⟩ (.cons ⟨rfl, ofFirst⟩ .nil))
  exact single "a.h" (single "m" (single name swapped))

/-- The fields of a constant. -/
def sampleFields : List (String × Json) := [("value", .text "1"), ("description", .text "most")]

/-- The methods of a class. -/
def sampleMethods : List (String × Json) := [("get", .array []), ("put", .array [])]

/-- A cache with fields and methods in an order. -/
def orderedTree (order : List (String × Json) → List (String × Json)) : FileTree :=
  folderOfDocuments "cache"
    [("constants.json", orderedDocument "LIMIT" order sampleFields),
      ("classes.json", orderedDocument "Item" order sampleMethods)]

theorem load_reordered_sample :
    ∃ table otherTable, load .data .reject "cache" (orderedTree id) = .ok table ∧
      load .data .reject "cache" (orderedTree List.reverse) = .ok otherTable ∧
      (table == otherTable) = true := by
  let Reorders (document : String) : Prop :=
    ReorderedDocument (orderedTree id) "cache" (orderedTree List.reverse) "cache" document
  have constants : Reorders "constants.json" := by
    have same : Reordered (orderedDocument "LIMIT" id sampleFields)
        (orderedDocument "LIMIT" List.reverse sampleFields) :=
      reordered_orderedDocument "LIMIT" (by decide) (.string _) (.string _)
    exact .of_written rfl rfl (by decide) (by decide) same ⟨by decide, by decide⟩
  have classes : Reorders "classes.json" := by
    have noOverload : Reordered (.array []) (.array []) := .array rfl fun _ => nofun
    have same : Reordered (orderedDocument "Item" id sampleMethods)
        (orderedDocument "Item" List.reverse sampleMethods) :=
      reordered_orderedDocument "Item" (by decide) noOverload noOverload
    exact .of_written rfl rfl (by decide) (by decide) same ⟨by decide, by decide⟩
  have reordered : ∀ document ∈ documentNames, Reorders document := by
    have cases : ∀ document ∈ documentNames,
        document = "constants.json" ∨ document = "classes.json" ∨
          (orderedTree id).node? (Path.join "cache" document) = none ∧
            (orderedTree List.reverse).node? (Path.join "cache" document) = none := by
      decide +kernel
    intro document isDocument
    rcases cases document isDocument with rfl | rfl | areAbsent
    · exact constants
    · exact classes
    · exact .inl areAbsent
  have isOk : (load .data .reject "cache" (orderedTree id)).toOption.isSome = true := by
    decide +kernel
  rcases load_reordered .reject (by decide +kernel) reordered with ⟨_, _, fails, _⟩ | succeed
  · rw [fails] at isOk
    cases isOk
  · exact succeed

end Bindery.Cache
