/-
**Categories: how a value passes between a host program and native code.**

A value is a primitive of some kind, an option of an enumeration, an object behind a handle, or an
array of values of one category.

* `Category.name` — the written form of a category.
* `Category.accepts` — which values a parameter takes.
-/

namespace Bindery.Wrapper

/-- The kinds of primitive values. -/
inductive PrimitiveKind where
  | void
  | bool
  | integer
  | float
  | character
  | string
  /-- A value of a type that nothing is known about. -/
  | unknown
deriving BEq, DecidableEq, Inhabited

namespace PrimitiveKind

/-- The word for a kind. -/
def name : PrimitiveKind → String
  | void => "void"
  | bool => "bool"
  | integer => "integer"
  | float => "float"
  | character => "character"
  | string => "string"
  | unknown => "unknown"

/-- Whether values of the kind are numbers. -/
def isNumeric : PrimitiveKind → Bool
  | integer | float => true
  | _ => false

end PrimitiveKind

/-- How a value passes. -/
inductive Category where
  | primitive (kind : PrimitiveKind)
  | enumeration
  | object
  | array (element : Category)
deriving BEq, DecidableEq, Inhabited

namespace Category

/-- The written form. -/
def name : Category → String
  | primitive kind => "primitive:" ++ kind.name
  | enumeration => "enumeration"
  | object => "object"
  | array element => "array<" ++ element.name ++ ">"

/-- The word for a category in the names of fragments. -/
def suffix : Category → String
  | primitive _ => "primitive"
  | enumeration => "enumeration"
  | object => "object"
  | array _ => "array"

/-- Whether values are objects behind handles. -/
def isObject : Category → Bool
  | object => true
  | _ => false

/-- Whether there is no value. -/
def isVoid : Category → Bool
  | primitive .void => true
  | _ => false

/-- Whether a parameter of the first category takes a value of the second. Numbers pass for each
other and integers for options; a parameter of unknown kind takes every primitive. -/
def accepts : Category → Category → Bool
  | primitive .unknown, primitive _ => true
  | primitive expected, primitive given =>
    expected == given || (expected.isNumeric && given.isNumeric)
  | enumeration, enumeration => true
  | enumeration, primitive .integer => true
  | object, object => true
  | array expected, array given => expected.accepts given
  | _, _ => false

end Category

end Bindery.Wrapper
