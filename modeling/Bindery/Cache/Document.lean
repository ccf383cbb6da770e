/-
**The nine documents of a data cache.**

Each document holds one kind of content by header, scope and name. Saving collects the documents of
a table; loading replays them on an empty one, document by document.

* `documents` — the documents of a table with their file names.
* `replays` — what the content of each document does to a table.
-/

import Bindery.Cache.Record
import Bindery.Failure
import Bindery.Files.Path
import Bindery.Symbols.Table

namespace Bindery.Cache

open Symbols

/-- Values by header, scope and name. -/
abbrev Nested (α : Type) := OrderedMap (OrderedMap (OrderedMap α))

namespace Nested

/-- Writes values under a header and a scope; without values nothing is written. -/
def put {α : Type} (nested : Nested α) (header scope : String) (pairs : List (String × α)) :
    Nested α :=
  if pairs.isEmpty then nested
  else nested.upsert header .empty fun scopes =>
    scopes.upsert scope .empty fun items =>
      pairs.foldl (fun items pair => items.insert pair.1 pair.2) items

/-- All values in order, with header, scope and name. -/
def toList {α : Type} (nested : Nested α) : List (String × String × String × α) :=
  nested.entries.flatMap fun (header, scopes) =>
    scopes.entries.flatMap fun (scope, items) =>
      items.entries.map fun (name, item) => (header, scope, name, item)

/-- The JSON value of a nested map. -/
def toJson (nested : Nested Json) : Json :=
  Json.record (nested.entries.map fun (header, scopes) =>
    (header, Json.record (scopes.entries.map fun (scope, items) =>
      (scope, Json.record items.entries))))

/-- The nested map of a JSON value, each value of it read with its name. -/
def ofJson? {α : Type} (read : String → Json → Option α) : Json → Option (Nested α) :=
  Json.map? fun _ => Json.map? fun _ => Json.map? read

end Nested

/-! ## Saving -/

/-- The document of what each scope of a table contributes. -/
def collect (table : Table) (contribution : Scope → List (String × Json)) : Json :=
  Nested.toJson <| table.scopes.foldl (fun nested (header, scope) =>
    Nested.put nested header.name scope.name (contribution scope)) .empty

/-- Records by name. -/
def records {α : Type} (record : α → Json) (items : OrderedMap α) : List (String × Json) :=
  items.entries.map fun (name, item) => (name, record item)

/-- The members of the classes that have any, as records by class name. -/
def memberRecords {α : Type} (record : α → Json) (members : Symbols.Class → OrderedMap α)
    (scope : Scope) : List (String × Json) :=
  scope.classes.entries.filterMap fun (name, self) =>
    if (members self).isEmpty then none
    else some (name, Json.record (records record (members self)))

/-- The documents of a table with their file names, in the order in which they are written. -/
def documents (table : Table) : List (String × Json) :=
  [("includes.json",
      Json.record (table.headerList.map fun header => (header.name, .bool header.enabled))),
    ("constants.json", collect table fun scope => records constantRecord scope.constants),
    ("enumerations.json", collect table fun scope => records enumerationRecord scope.enumerations),
    ("type_definitions.json",
      collect table fun scope => records (typedRecord ·.type) scope.aliases),
    ("variables.json", collect table fun scope => records (typedRecord ·.type) scope.globals),
    ("functions.json", collect table fun scope => records functionRecord scope.functions),
    ("classes.json", collect table fun scope => records classRecord scope.classes),
    ("class_enumerations.json",
      collect table (memberRecords enumerationRecord Class.enumerations)),
    ("class_variables.json", collect table (memberRecords classVariableRecord Class.fields))]

/-! ## Loading -/

/-- What the value of a document does to a table; a value without the form that the document should
have does nothing. -/
abbrev Replay := Json → Option (Table → Except Failure Table)

/-- Lets every value of a nested map change the table in turn. -/
def replayNested {α : Type} (visit : Table → String → String → String → α → Except Failure Table)
    (nested : Nested α) (table : Table) : Except Failure Table :=
  (Nested.toList nested).foldlM (fun table (header, scope, name, item) =>
    visit table header scope name item) table

/-- The document that switches headers. -/
def replayHeaders : Replay := fun json =>
  (Json.map? (fun _ => Json.bool?) json).map fun headers table =>
    .ok (headers.entries.foldl (fun table (header, enabled) => table.setEnabled header enabled)
      table)

/-- A document of elements. -/
def replayElements {α : Type} (read : String → Json → Option α)
    (add : Table → α → String → String → Table) : Replay := fun json =>
  (Nested.ofJson? read json).map
    (replayNested fun table header scope _ element => .ok (add table element header scope))

/-- A document of elements that are built from drafts, which may repeat a parameter. -/
def replayDrafts {α β : Type} (path : String) (read : Json → Option α)
    (build : String → α → Except DuplicateParameter β)
    (add : Table → β → String → String → Table) : Replay := fun json =>
  (Nested.ofJson? (fun _ => read) json).map
    (replayNested fun table header scope name draft =>
      match build name draft with
      | .ok element => .ok (add table element header scope)
      | .error duplicate => .error (.inDocument path (.duplicateParameter duplicate)))

/-- Changes the class of a key, which is created when it is not there. A key may declare a class of
another name; then there is none to change. -/
def changeClass (table : Table) (header scope key : String)
    (change : Symbols.Class → Symbols.Class) : Except Failure Table :=
  let table := if (table.class? header scope key).isSome then table
    else table.addClass (Class.named key) header scope
  if (table.class? header scope key).isSome then .ok (table.modifyClass header scope key change)
  else .error (.unattachedClass key header)

/-- A document of members by class. -/
def replayMembers {α : Type} (read : String → Json → Option α)
    (add : Symbols.Class → α → Symbols.Class) : Replay := fun json =>
  (Nested.ofJson? (fun _ => Json.map? read) json).map
    (replayNested fun table header scope key members =>
      changeClass table header scope key fun self => members.values.foldl add self)

/-- The documents of a cache in a folder, in the order in which they are loaded. -/
def replays (policy : DuplicatePolicy) (folder : String) : List (String × Replay) :=
  [("includes.json", replayHeaders),
    ("constants.json", replayElements constant? Table.addConstant),
    ("enumerations.json", replayElements enumeration? Table.addEnumeration),
    ("type_definitions.json", replayElements typed? Table.addAlias),
    ("variables.json", replayElements typed? Table.addVariable),
    ("functions.json",
      replayDrafts (Path.join folder "functions.json") overloads? (buildFunction policy)
        Table.addFunction),
    ("classes.json",
      replayDrafts (Path.join folder "classes.json") class? (buildClass policy) Table.addClass),
    ("class_enumerations.json", replayMembers enumeration? Class.addEnumeration),
    ("class_variables.json", replayMembers classVariable? Class.addVariable)]

end Bindery.Cache
