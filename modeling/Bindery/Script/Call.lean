/-
**Calls: the statements of a definition script.**

A call has a name, arguments and, when it is not closed by a semicolon, a block of further calls.
An argument is a value with or without a name in front of it.
-/

import Bindery.Diagnostic

namespace Bindery.Script

/-- The value of an argument. -/
inductive Value where
  | text (value : String)
  | truth (value : Bool)
  | list (items : List String)
deriving BEq, DecidableEq, Inhabited

/-- The class of a value. -/
def Value.kind : Value → String
  | .text _ => "string"
  | .truth _ => "boolean"
  | .list _ => "list"

/-- An argument of a call; its span begins with the name if there is one. -/
structure Argument where
  name : Option String
  value : Value
  span : Span
deriving BEq, DecidableEq, Inhabited

/-- A call; its span runs from its first token to its last one. -/
inductive Call where
  | mk (name : String) (nameSpan : Span) (arguments : List Argument) (body : Option (List Call))
    (span : Span)
deriving Inhabited

namespace Call

/-- The name of the statement. -/
def name : Call → String
  | mk name _ _ _ _ => name

/-- Where the name stands. -/
def nameSpan : Call → Span
  | mk _ nameSpan _ _ _ => nameSpan

/-- The arguments in order. -/
def arguments : Call → List Argument
  | mk _ _ arguments _ _ => arguments

/-- The calls of the block, if there is a block. -/
def body : Call → Option (List Call)
  | mk _ _ _ body _ => body

/-- Where the call stands. -/
def span : Call → Span
  | mk _ _ _ _ span => span

end Call

end Bindery.Script
