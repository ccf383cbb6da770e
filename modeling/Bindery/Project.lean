/-
**The settings of a project.**

Every setting has a default, so a project needs no file for them. A file is a JSON record; what is
not in it keeps its default.

* `Project.load` — the settings in a file.
* `Project.discover` — the settings in the file of a folder, if there is one.
-/

import Bindery.Cache.Store
import Bindery.Reference.Finding
import Bindery.Wrapper.Emission

namespace Bindery

open Symbols

/-- The settings of a project. -/
structure Project where
  /-- The name of the generated module. -/
  name : String := "extension"
  version : String := "0.1.0"
  /-- The folder in front of documented paths that is no part of header names. -/
  headersRoot : String := ""
  cacheFormat : Cache.Format := .data
  /-- The extension of generated files. -/
  outputExtension : String := "cpp"
  templates : Option String := none
  duplicateParameters : DuplicatePolicy := .ignore
  /-- Whether parameters that are pointers to objects take null. -/
  nullablePointers : Bool := true
deriving BEq, DecidableEq, Inhabited

namespace Project

/-! ## Uses -/

/-- How the project's documentation is read. -/
def reading (project : Project) : Reference.Options where
  headersRoot := project.headersRoot
  policy := project.duplicateParameters

/-- What is generated for the project. -/
def emission (project : Project) : Wrapper.EmissionOptions where
  name := project.name
  version := project.version
  extension := project.outputExtension
  plan := ⟨project.nullablePointers⟩

/-! ## Reading -/

/-- The fields of the record in their order. -/
def fieldNames : List String :=
  ["name", "version", "headers_root", "cache_format", "output_extension", "templates",
    "duplicate_parameters", "nullable_object_pointers"]

/-- The word for a choice: a string, or an object with the word as its only key and null as the
value. -/
def choiceWord? : Json → Option String
  | .string word => word
  | .object [(word, .null)] => word
  | _ => none

/-- The policy of a word. -/
def policyOfWord? : String → Option DuplicatePolicy
  | "ignore" => some .ignore
  | "reject" => some .reject
  | _ => none

/-- A text or null. -/
def optionalText? : Json → Option (Option String)
  | .null => some none
  | value => value.text?.map some

/-- The settings in a JSON value. -/
def ofJson? (value : Json) : Option Project := do
  let fields ← value.fields? fieldNames
  let standard : Project := {}
  return {
    name := ← fields.orElse? "name" Json.text? standard.name
    version := ← fields.orElse? "version" Json.text? standard.version
    headersRoot := ← fields.orElse? "headers_root" Json.text? standard.headersRoot
    cacheFormat := ← fields.orElse? "cache_format"
      (fun format => (choiceWord? format).bind Cache.Format.ofName?) standard.cacheFormat
    outputExtension := ← fields.orElse? "output_extension" Json.text? standard.outputExtension
    templates := ← fields.orElse? "templates" optionalText? standard.templates
    duplicateParameters := ← fields.orElse? "duplicate_parameters"
      (fun policy => (choiceWord? policy).bind policyOfWord?) standard.duplicateParameters
    nullablePointers := ← fields.orElse? "nullable_object_pointers" Json.bool?
      standard.nullablePointers }

/-! ## Files -/

/-- The settings in a file, whose extension tells its form. -/
def load (path : String) (tree : FileTree) : Except Failure Project :=
  match tree.text? path with
  | none => .error (.failedTo .readConfiguration path)
  | some text =>
    if Path.extension? path = some "json" then
      match (Json.parse? text).bind ofJson? with
      | some project => .ok project
      | none => .error (.failedTo .parseConfiguration path)
    else .error (.unsupportedConfiguration path)

/-- The name of the file with the settings of a folder. -/
def fileName : String := "wrapgen.json"

/-- The settings in the file of a folder; the defaults when there is none. -/
def discover (folder : String) (tree : FileTree) : Except Failure Project :=
  let path := Path.join folder fileName
  if tree.isFile path then load path tree else .ok {}

/-- The settings with another headers root, if one is given. -/
def withHeadersRoot (project : Project) : Option String → Project
  | some headersRoot => { project with headersRoot }
  | none => project

end Project

end Bindery
