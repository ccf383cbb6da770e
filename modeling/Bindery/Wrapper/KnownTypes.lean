/-
**The types of a table, and the categories of the types that declarations spell.**

A name is looked up without its scopes and its template arguments. An alias stands for its target:
the stars of a use add to those of the target, and `const`, `&` and `[]` count on either side.

* `KnownTypes.ofTable` — the classes, enumerations and aliases of a table.
* `KnownTypes.resolve` — a type with its aliases followed.
* `KnownTypes.classify` — the category of a type; a type that nothing is known about counts as a
  primitive, with the name of a class that its own name may be a misspelling of.
-/

import Bindery.Symbols.Table
import Bindery.Text.Similar
import Bindery.Wrapper.Category

namespace Bindery.Wrapper

open Symbols

/-! ## Primitive types -/

/-- The bases of whole numbers. -/
def integerBases : List String :=
  ["int", "short", "long", "long long", "short int", "long int", "long long int", "signed",
    "signed char", "size_t", "ssize_t", "ptrdiff_t", "intptr_t", "uintptr_t"]

/-- The bases of whole numbers of a fixed width, which may stand in the scope `std`. -/
def fixedWidthBases : List String :=
  ["int8_t", "int16_t", "int32_t", "int64_t", "uint8_t", "uint16_t", "uint32_t", "uint64_t"]

/-- The bases of numbers with a fraction. -/
def floatBases : List String := ["float", "double", "long double"]

/-- The bases of characters; a pointer to one is a string. -/
def characterBases : List String := ["char", "wchar_t", "char16_t", "char32_t"]

/-- The bases of strings. -/
def stringBases : List String := ["std::string", "std::wstring", "string", "wstring"]

/-- Whether a base is a whole number of a fixed width. -/
def isFixedWidth (base : String) : Bool :=
  fixedWidthBases.contains base || (fixedWidthBases.map ("std::" ++ ·)).contains base

/-- The kind of a type whose base is primitive. -/
def primitiveKind? (type : TypeShape) : Option PrimitiveKind :=
  if type.base = "void" then some (if type.isPointer then .unknown else .void)
  else if type.base = "bool" then some .bool
  else if characterBases.contains type.base then
    some (if type.isPointer then .string else .character)
  else if stringBases.contains type.base then some .string
  else if floatBases.contains type.base then some .float
  else if integerBases.contains type.base || isFixedWidth type.base then some .integer
  else none

/-! ## Look-up -/

/-- A name without template arguments. -/
def withoutArguments (name : List Char) : List Char :=
  if name.contains '<' then Text.trimEnd (name.takeWhile (· ≠ '<')) else name

/-- The name under which a type is looked up. -/
def lookupName (type : TypeShape) : String :=
  String.ofList (withoutArguments (unqualifiedName type.base.toList))

/-- The types of a table by name. -/
structure KnownTypes where
  classes : List String := []
  enumerations : List String := []
  aliases : OrderedMap TypeShape := .empty

namespace KnownTypes

/-- The types of a table; of aliases with one name the last one counts. -/
def ofTable (table : Table) : KnownTypes where
  classes := table.classes.map (·.name)
  enumerations := table.enumerations.map (·.name)
  aliases := .ofList (table.aliases.map fun known => (known.name, known.type))

/-- The class that a name may be a misspelling of; of equally near ones the first in the order of
code points. -/
def suggestion? (known : KnownTypes) (name : String) : Option String :=
  Text.closestName name (known.classes.mergeSort fun a b => a ≤ b)

/-! ## Aliases -/

/-- How many aliases are followed in a row. -/
def maxAliasSteps : Nat := 8

/-- A target seen through a use of its alias. -/
def throughAlias (target use : TypeShape) : TypeShape :=
  { target with
    pointerDepth := target.pointerDepth + use.pointerDepth
    isReference := target.isReference || use.isReference
    isConst := target.isConst || use.isConst
    isArray := target.isArray || use.isArray }

/-- Whether the category of a type is known without a look at the aliases. -/
def isSettled (known : KnownTypes) (type : TypeShape) : Bool :=
  (primitiveKind? type).isSome || known.classes.contains (lookupName type) ||
    known.enumerations.contains (lookupName type)

/-- The type that an alias stands for. A target without a base, or with the alias itself for its
base, is none. -/
def followAlias? (known : KnownTypes) (type : TypeShape) : Option TypeShape :=
  if known.isSettled type then none
  else match known.aliases.get? (lookupName type) with
    | some target =>
      if target.isEmpty || target.base == type.base then none else some (throughAlias target type)
    | none => none

/-- The type behind at most so many aliases. -/
def resolveWithin (known : KnownTypes) : Nat → TypeShape → TypeShape
  | 0, type => type
  | steps + 1, type =>
    match known.followAlias? type with
    | some target => known.resolveWithin steps target
    | none => type

/-- The type behind all aliases, as far as they are followed. -/
def resolve (known : KnownTypes) (type : TypeShape) : TypeShape :=
  known.resolveWithin maxAliasSteps type

end KnownTypes

/-! ## Categories -/

/-- A base that nothing is known about. -/
structure UnknownName where
  name : String
  suggestion : Option String
deriving BEq, DecidableEq, Inhabited

/-- The category of a type, with its base when nothing is known about it. -/
structure Classification where
  category : Category
  unknown : Option UnknownName := none
deriving BEq, DecidableEq, Inhabited

namespace KnownTypes

/-- The category of a type whose aliases are followed. -/
def classifyResolved (known : KnownTypes) (type : TypeShape) : Classification :=
  let name := lookupName type
  match primitiveKind? type with
  | some kind => { category := .primitive kind }
  | none =>
    if known.enumerations.contains name then { category := .enumeration }
    else if known.classes.contains name then { category := .object }
    else { category := .primitive .unknown
           unknown := some ⟨type.base, known.suggestion? name⟩ }

/-- The category of a type. Whether it is an array is for its own spelling to say. -/
def classify (known : KnownTypes) (type : TypeShape) : Classification :=
  let element := known.classifyResolved (known.resolve { type with isArray := false })
  if type.isArray then { element with category := .array element.category } else element

/-- The category alone. -/
def categoryOf (known : KnownTypes) (type : TypeShape) : Category := (known.classify type).category

end KnownTypes

end Bindery.Wrapper
