/-
**Flaws of the input that stop nothing.**

The element that a warning is about is left out or taken with less than it should have.
-/

namespace Bindery

/-- What is wrong with an element, and where it stands. -/
inductive Warning where
  /-- A macro without a value, left out. -/
  | macroWithoutValue (name header : String)
  /-- A macro with a reserved name, left out. -/
  | reservedName (name header : String)
  /-- A parameter without a name; its function is left out. -/
  | unnamedParameter (function : String) (position : Nat) (header : String)
  /-- A parameter name that stands twice where that is refused; its function is left out. -/
  | duplicateParameter (function parameter header : String)
  /-- A type without a base. -/
  | emptyType (context fragment : String)
  /-- A type that nothing is known about; it counts as a primitive one. -/
  | unknownType (context type : String) (suggestion : Option String)
deriving BEq, DecidableEq, Inhabited

namespace Warning

/-- The name of the kind of a warning. -/
def kind : Warning → String
  | macroWithoutValue .. => "MacroWithoutValue"
  | reservedName .. => "ReservedName"
  | unnamedParameter .. => "UnnamedParameter"
  | duplicateParameter .. => "DuplicateParameter"
  | emptyType .. => "EmptyType"
  | unknownType .. => "UnknownType"

/-- A warning in words. -/
def message : Warning → String
  | macroWithoutValue name header => header ++ ": macro `" ++ name ++ "` has no value, skipped"
  | reservedName name header => header ++ ": reserved name `" ++ name ++ "`, skipped"
  | unnamedParameter function position header =>
    header ++ ": parameter " ++ toString position ++ " of `" ++ function ++
      "` has no name, member dropped"
  | duplicateParameter function parameter header =>
    header ++ ": parameter `" ++ parameter ++ "` repeats in `" ++ function ++ "`, member dropped"
  | emptyType context fragment => context ++ ": could not parse type `" ++ fragment ++ "`"
  | unknownType context type suggestion =>
    context ++ ": unknown type `" ++ type ++ "` treated as primitive" ++
      match suggestion with
      | some name => " (did you mean `" ++ name ++ "`?)"
      | none => ""

end Warning

end Bindery
