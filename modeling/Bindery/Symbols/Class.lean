/-
**Classes and what they hold.**

A class name with a `<...>` suffix declares generic parameters. A class hands its name to the
enumerations and methods that it takes in, and its place to the methods.

* `Class.named` — the class that a name declares.
* `splitGenerics` — commas separate generic parameters, except inside brackets.
-/

import Bindery.Symbols.Function

namespace Bindery.Symbols

/-! ## Members -/

/-- A variable of a class. -/
structure ClassVariable where
  name : String
  type : TypeShape
  isStatic : Bool := false
  isMutable : Bool := false
  isProtected : Bool := false
  isPublic : Bool := true
deriving BEq, DecidableEq, Inhabited

/-- A class or struct. -/
structure Class where
  name : String
  generics : List String := []
  isStruct : Bool := false
  isForward : Bool := false
  parents : NameSet := .empty
  fields : OrderedMap ClassVariable := .empty
  enumerations : OrderedMap Enumeration := .empty
  methods : OrderedMap Function := .empty
  description : String := ""
  place : Option Place := none
deriving BEq, Inhabited

/-! ## Names with generic parameters -/

/-- The depth of brackets behind a character. -/
def bracketDepth (depth : Nat) (c : Char) : Nat :=
  if c = '<' ∨ c = '(' ∨ c = '[' then depth + 1
  else if c = '>' ∨ c = ')' ∨ c = ']' then depth - 1
  else depth

/-- The pieces between the commas outside brackets, where `piece` is what is read so far of the
piece at the front. -/
def commaPieces (depth : Nat) (piece : List Char) : List Char → List (List Char)
  | [] => [piece]
  | c :: cs =>
    if c = ',' ∧ depth = 0 then piece :: commaPieces 0 [] cs
    else commaPieces (bracketDepth depth c) (piece ++ [c]) cs

/-- The generic parameters of a list without its outer brackets; empty ones do not count. -/
def splitGenerics (inner : List Char) : List String :=
  ((commaPieces 0 [] inner).map Text.trim).filterMap fun piece =>
    if piece.isEmpty then none else some (String.ofList piece)

/-- A text without the `>` at its end. -/
def dropClosing (cs : List Char) : List Char :=
  if cs.getLast? = some '>' then cs.dropLast else cs

namespace Class

/-- The class that a name declares: what stands behind the first `<` are generic parameters. -/
def named (name : String) : Class :=
  let raw := Text.trim name.toList
  let plain := raw.takeWhile (· ≠ '<')
  match raw.drop plain.length with
  | [] => { name := String.ofList raw }
  | _ :: suffix =>
    { name := String.ofList (Text.trim plain)
      generics := splitGenerics (dropClosing (Text.trimEnd suffix)) }

/-! ## Taking members in -/

/-- Adds a parent behind the others; a known one stays where it is. -/
def addParent (self : Class) (parent : String) : Class :=
  { self with parents := self.parents.insert parent }

/-- Puts a variable in under its name. -/
def addVariable (self : Class) (newVariable : ClassVariable) : Class :=
  { self with fields := self.fields.insert newVariable.name newVariable }

/-- Puts an enumeration in under its name; the class becomes its holder. -/
def addEnumeration (self : Class) (enumeration : Enumeration) : Class :=
  { self with
    enumerations := self.enumerations.insert enumeration.name
      { enumeration with holder := .classNamed self.name } }

/-- Puts a method in under its name; it gets the name and the place of the class. -/
def addMethod (self : Class) (method : Function) : Class :=
  { self with
    methods := self.methods.insert method.name
      { method with className := some self.name, place := self.place } }

/-- Gives the class and its methods a place. -/
def attach (self : Class) (place : Place) : Class :=
  { self with
    place := some place
    methods := self.methods.mapValues fun method => { method with place := some place } }

/-- Whether a method bears the name of the class. -/
def hasConstructor (self : Class) : Bool := self.methods.contains self.name

end Class

end Bindery.Symbols
