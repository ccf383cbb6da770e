/-
**Definition caches in a folder.**

A table is kept in one of two formats: nine JSON documents, or one definition script. Either format
gives back what it was given. A file that is not there contributes nothing.

* `save`, `load` — a table to and from a folder.
-/

import Bindery.Cache.Document
import Bindery.Files.Disk
import Bindery.Json.Read
import Bindery.Json.Write
import Bindery.Script.Read
import Bindery.Script.Write

namespace Bindery.Cache

open Symbols

/-- How a table is kept. -/
inductive Format where
  /-- JSON documents. -/
  | data
  /-- A definition script. -/
  | source
deriving BEq, DecidableEq, Inhabited

namespace Format

/-- The word for a format. -/
def name : Format → String
  | .data => "data"
  | .source => "source"

/-- The format of a word. -/
def ofName? (word : String) : Option Format := [data, source].find? fun format => format.name = word

end Format

/-- The name of the file that holds a definition script. -/
def scriptFile : String := "definitions.wgs"

/-! ## Saving -/

/-- The files of a cache with their texts, in the order in which they are written. -/
def files (format : Format) (table : Table) : List (String × String) :=
  match format with
  | .data => (documents table).map fun (name, json) => (name, json.document)
  | .source => [(scriptFile, Script.write table)]

/-- Writes the cache of a table into a folder, which is created when it is not there. -/
def save (format : Format) (table : Table) (folder : String) : Disk Unit := do
  Disk.makeFolders folder .createCacheFolder
  (files format table).forM fun (name, text) => Disk.writeText (Path.join folder name) text

/-! ## Loading -/

/-- Lets the document of a file change the table, if the file is there. -/
def loadDocument (tree : FileTree) (folder : String) (table : Table) (entry : String × Replay) :
    Except Failure Table := do
  let path := Path.join folder entry.1
  if tree.hasNode path then
    let text ← tree.textOrFail path
    match Json.parse? text with
    | none => throw (.malformed path "the text is not a JSON value")
    | some json =>
      match entry.2 json with
      | none => throw (.malformed path "the value does not have the form of the document")
      | some change => change table
  else return table

/-- The table of a script file, if the file is there. -/
def loadScript (tree : FileTree) (policy : DuplicatePolicy) (folder : String) :
    Except Failure Table := do
  let path := Path.join folder scriptFile
  if tree.hasNode path then
    let text ← tree.textOrFail path
    (Script.read text policy).mapError fun error => .malformed path error.summary
  else return .empty

/-- The table that the cache in a folder holds. -/
def load (format : Format) (policy : DuplicatePolicy) (folder : String) (tree : FileTree) :
    Except Failure Table :=
  if tree.isFolder folder then
    match format with
    | .data => (replays policy folder).foldlM (loadDocument tree folder) .empty
    | .source => loadScript tree policy folder
  else .error (.missingFolder folder)

end Bindery.Cache
