/-
**The symbol table: headers, their scopes and every element in them.**

An element enters the table through one of the `add` operations. They create the header and the
scope on first use and stamp the element with its place. An element with a known name replaces the
one that has it.

* `Table.addConstant`, …, `Table.addClass` — the six ways in.
* `Table.modifyClass` — a change to a class that is in the table.
* `Table.counts` — how many elements of each kind there are.
-/

import Bindery.Symbols.Scope

namespace Bindery.Symbols

/-- Everything known about the described library. -/
structure Table where
  headers : OrderedMap Header := .empty
deriving BEq, Inhabited

namespace Table

/-- The table without headers. -/
def empty : Table := {}

/-! ## Reading -/

/-- The header of a name. -/
def header? (table : Table) (name : String) : Option Header := table.headers.get? name

/-- The headers in table order. -/
def headerList (table : Table) : List Header := table.headers.values

/-- The headers that take part in the generated code. -/
def enabledHeaders (table : Table) : List Header := table.headerList.filter (·.enabled)

/-- Every scope with its header, in table order. -/
def scopes (table : Table) : List (Header × Scope) :=
  table.headerList.flatMap fun header => header.scopes.values.map fun scope => (header, scope)

/-- The classes of all scopes. -/
def classes (table : Table) : List Class := table.scopes.flatMap fun (_, s) => s.classes.values

/-- The enumerations of all scopes; in each, its own stand before those of its classes. -/
def enumerations (table : Table) : List Enumeration :=
  table.scopes.flatMap fun (_, s) => s.allEnumerations

/-- The type aliases of all scopes. -/
def aliases (table : Table) : List TypedName := table.scopes.flatMap fun (_, s) => s.aliases.values

/-- The functions of all scopes, without methods. -/
def functions (table : Table) : List Function :=
  table.scopes.flatMap fun (_, s) => s.functions.values

/-- The first class of the name, in whatever header. -/
def findClass? (table : Table) (name : String) : Option Class :=
  table.classes.find? (·.name == name)

/-- The class of the name in a header's scope. -/
def class? (table : Table) (header scope name : String) : Option Class := do
  let header ← table.header? header
  let scope ← header.scope? scope
  scope.classes.get? name

/-! ## Writing -/

/-- Changes a header, which is created when it is not there. -/
def modifyHeader (table : Table) (name : String) (change : Header → Header) : Table :=
  { table with headers := table.headers.upsert name { name } change }

/-- Creates a header unless it is there. -/
def ensureHeader (table : Table) (name : String) : Table := table.modifyHeader name id

/-- Switches a header on or off. -/
def setEnabled (table : Table) (name : String) (enabled : Bool) : Table :=
  table.modifyHeader name fun header => { header with enabled }

/-- Changes a scope given the place that its elements get. -/
def modifyScope (table : Table) (header scope : String) (change : Place → Scope → Scope) : Table :=
  let canonical := canonicalScope scope
  table.modifyHeader header fun holder =>
    holder.modifyScope canonical (change ⟨header, canonical⟩)

/-- Puts a constant into a scope. -/
def addConstant (table : Table) (constant : Constant) (header scope : String) : Table :=
  table.modifyScope header scope fun place s =>
    { s with constants := s.constants.insert constant.name { constant with place := some place } }

/-- Puts an enumeration into a scope. -/
def addEnumeration (table : Table) (enumeration : Enumeration) (header scope : String) : Table :=
  table.modifyScope header scope fun place s =>
    { s with
      enumerations := s.enumerations.insert enumeration.name
        { enumeration with holder := .scope place } }

/-- Puts a type alias into a scope. -/
def addAlias (table : Table) (newAlias : TypedName) (header scope : String) : Table :=
  table.modifyScope header scope fun place s =>
    { s with aliases := s.aliases.insert newAlias.name { newAlias with place := some place } }

/-- Puts a variable into a scope. -/
def addVariable (table : Table) (newVariable : TypedName) (header scope : String) : Table :=
  table.modifyScope header scope fun place s =>
    { s with
      globals := s.globals.insert newVariable.name { newVariable with place := some place } }

/-- Puts a function into a scope; it belongs to no class there. -/
def addFunction (table : Table) (function : Function) (header scope : String) : Table :=
  table.modifyScope header scope fun place s =>
    { s with
      functions := s.functions.insert function.name
        { function with place := some place, className := none } }

/-- Puts a class into a scope; its methods get its place. -/
def addClass (table : Table) (newClass : Class) (header scope : String) : Table :=
  table.modifyScope header scope fun place s =>
    { s with classes := s.classes.insert newClass.name (newClass.attach place) }

/-- Changes a class that is in the table; without it the table stays as it is. -/
def modifyClass (table : Table) (header scope name : String) (change : Class → Class) : Table :=
  { table with
    headers := table.headers.adjust header fun holder =>
      { holder with
        scopes := holder.scopes.adjust (canonicalScope scope) fun s =>
          { s with classes := s.classes.adjust name change } } }

end Table

/-! ## Counting -/

/-- How many elements of each kind there are. -/
structure Counts where
  constants : Nat := 0
  enumerations : Nat := 0
  aliases : Nat := 0
  globals : Nat := 0
  functions : Nat := 0
  classes : Nat := 0
  methods : Nat := 0
deriving BEq, DecidableEq, Inhabited

namespace Counts

/-- The counts of two disjoint parts together. -/
def add (a b : Counts) : Counts where
  constants := a.constants + b.constants
  enumerations := a.enumerations + b.enumerations
  aliases := a.aliases + b.aliases
  globals := a.globals + b.globals
  functions := a.functions + b.functions
  classes := a.classes + b.classes
  methods := a.methods + b.methods

instance : Add Counts := ⟨add⟩

/-- The counts in the order in which they are shown. -/
def toList (counts : Counts) : List Nat :=
  [counts.constants, counts.enumerations, counts.aliases, counts.globals, counts.functions,
    counts.classes, counts.methods]

end Counts

/-- The counts of a scope; enumerations of classes count among the enumerations. -/
def Scope.counts (scope : Scope) : Counts where
  constants := scope.constants.size
  enumerations := scope.allEnumerations.length
  aliases := scope.aliases.size
  globals := scope.globals.size
  functions := scope.functions.size
  classes := scope.classes.size
  methods := (scope.classes.values.flatMap fun member => member.methods.values).length

/-- The counts of all scopes of a header. -/
def Header.counts (header : Header) : Counts :=
  header.scopes.values.foldl (fun counts scope => counts + scope.counts) {}

/-- The counts of all headers. -/
def Table.counts (table : Table) : Counts :=
  table.headerList.foldl (fun counts header => counts + header.counts) {}

end Bindery.Symbols
