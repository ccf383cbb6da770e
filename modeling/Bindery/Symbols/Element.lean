/-
**The simple elements of a symbol table.**

Constants, enumerations, type aliases and variables, and the place of an element: the header and
the scope that hold it. A detached element has no place.
-/

import Bindery.OrderedMap
import Bindery.Symbols.TypeShape

namespace Bindery.Symbols

/-- The header and the scope that hold an element. -/
structure Place where
  header : String
  scope : String
deriving BEq, DecidableEq, Inhabited

/-- A constant with the text of its value. -/
structure Constant where
  name : String
  value : String
  description : String := ""
  place : Option Place := none
deriving BEq, DecidableEq, Inhabited

/-- Who holds an enumeration. -/
inductive EnumerationHolder where
  | detached
  | scope (place : Place)
  | classNamed (name : String)
deriving BEq, DecidableEq, Inhabited

/-- An enumeration; its options keep their order and have no values. -/
structure Enumeration where
  name : String
  options : NameSet := .empty
  description : String := ""
  holder : EnumerationHolder := .detached
deriving BEq, Inhabited

/-- The name of the class that holds the enumeration. -/
def Enumeration.className (enumeration : Enumeration) : Option String :=
  match enumeration.holder with
  | .classNamed name => some name
  | _ => none

/-- A name with a type: a type alias or a variable. The type carries the description. -/
structure TypedName where
  name : String
  type : TypeShape
  place : Option Place := none
deriving BEq, DecidableEq, Inhabited

end Bindery.Symbols
