/-
**Scopes and the headers that hold them.**

A scope is a namespace of the described library. The scope without a name is written `\`; the empty
name and `::` are other spellings of it.

* `canonicalScope` — the one spelling of a scope's name.
* `Header.modifyScope` — changes a scope, which is there from its first use on.
-/

import Bindery.Symbols.Class

namespace Bindery.Symbols

/-! ## Names of scopes -/

/-- The name of the scope without a name. -/
def rootScope : String := "\\"

/-- The spelling under which a scope is kept: blanks at the ends and one leading `::` do not
count, and every spelling of the root scope becomes `\`. -/
def canonicalScope (name : String) : String :=
  let trimmed := Text.trim name.toList
  let bare := (Text.dropStart? "::".toList trimmed).getD trimmed
  if bare.isEmpty then rootScope else String.ofList bare

/-! ## Scopes -/

/-- The elements of one namespace in one header. -/
structure Scope where
  name : String
  constants : OrderedMap Constant := .empty
  enumerations : OrderedMap Enumeration := .empty
  aliases : OrderedMap TypedName := .empty
  globals : OrderedMap TypedName := .empty
  functions : OrderedMap Function := .empty
  classes : OrderedMap Class := .empty
deriving BEq, Inhabited

namespace Scope

/-- The scope without elements under the canonical spelling of a name. -/
def named (name : String) : Scope := { name := canonicalScope name }

/-- Whether this is the root scope. -/
def isRoot (scope : Scope) : Bool := scope.name == rootScope

/-- Whether a class of the scope holds an enumeration. -/
def hasClassEnumerations (scope : Scope) : Bool :=
  scope.classes.values.any fun member => !member.enumerations.isEmpty

/-- Whether a class of the scope holds a variable. -/
def hasClassVariables (scope : Scope) : Bool :=
  scope.classes.values.any fun member => !member.fields.isEmpty

/-- Whether the scope holds no element. -/
def isEmpty (scope : Scope) : Bool :=
  scope.constants.isEmpty && scope.enumerations.isEmpty && scope.aliases.isEmpty &&
    scope.globals.isEmpty && scope.functions.isEmpty && scope.classes.isEmpty

/-- The enumerations of the scope, its own before those of its classes. -/
def allEnumerations (scope : Scope) : List Enumeration :=
  scope.enumerations.values ++ scope.classes.values.flatMap fun member => member.enumerations.values

end Scope

/-! ## Headers -/

/-- One header file of the described library. A disabled header keeps its elements and takes no
part in the generated code. -/
structure Header where
  name : String
  enabled : Bool := true
  scopes : OrderedMap Scope := .empty
deriving BEq, Inhabited

namespace Header

/-- The scope under any spelling of its name. -/
def scope? (header : Header) (name : String) : Option Scope :=
  header.scopes.get? (canonicalScope name)

/-- Changes a scope, which is created when it is not there. -/
def modifyScope (header : Header) (name : String) (change : Scope → Scope) : Header :=
  let canonical := canonicalScope name
  { header with scopes := header.scopes.upsert canonical (Scope.named canonical) change }

/-- Creates a scope unless it is there. -/
def ensureScope (header : Header) (name : String) : Header := header.modifyScope name id

/-- Whether some scope of the header has a property. -/
def anyScope (header : Header) (property : Scope → Bool) : Bool :=
  header.scopes.values.any property

end Header

end Bindery.Symbols
