/-
**Functions, their overloads and the parameters of an overload.**

The order of parameters is the order of arguments in a call and never changes. The first parameter
with a default value opens the optional tail of an overload.

* `Overload.addParameter` — adds a parameter, with a policy for a name that is taken.
* `Overload.requiredCount` — how many arguments a call has to give.
* `Function.addOverload` — the description of a function is its first overload's that has one.
-/

import Bindery.Symbols.Element

namespace Bindery.Symbols

/-! ## Parameters -/

/-- What happens to a parameter whose name is taken. -/
inductive DuplicatePolicy where
  /-- The parameter is dropped. -/
  | ignore
  /-- The parameter is an error. -/
  | reject
deriving BEq, DecidableEq, Inhabited

/-- A parameter name that stands twice in an overload of a function. -/
structure DuplicateParameter where
  function : String
  parameter : String
deriving BEq, DecidableEq, Inhabited

/-- The wording of a duplicate parameter. -/
def DuplicateParameter.message (duplicate : DuplicateParameter) : String :=
  "parameter `" ++ duplicate.parameter ++ "` is declared twice in an overload of `" ++
    duplicate.function ++ "`"

/-- A parameter; an empty default value makes its argument required. -/
structure Parameter where
  name : String
  type : TypeShape
  default : String := ""
deriving BEq, DecidableEq, Inhabited

/-- Whether the parameter has a default value. -/
def Parameter.isOptional (parameter : Parameter) : Bool := !parameter.default.isEmpty

/-! ## Overloads -/

/-- The properties that an overload may have. -/
structure OverloadFlags where
  isStatic : Bool := false
  isConst : Bool := false
  isVirtual : Bool := false
  isPureVirtual : Bool := false
  isProtected : Bool := false
  isDeprecated : Bool := false
deriving BEq, DecidableEq, Inhabited

/-- The names of the flags that are set. -/
def OverloadFlags.names (flags : OverloadFlags) : List String :=
  [(flags.isStatic, "static"), (flags.isConst, "const"), (flags.isVirtual, "virtual"),
    (flags.isPureVirtual, "pure_virtual"), (flags.isProtected, "protected"),
    (flags.isDeprecated, "deprecated")].filterMap fun (isSet, name) =>
      if isSet then some name else none

/-- One signature of a function. -/
structure Overload where
  returns : TypeShape := {}
  parameters : List Parameter := []
  flags : OverloadFlags := {}
  description : String := ""
  /-- The name of the function that holds the overload. -/
  function : String := ""
deriving BEq, DecidableEq, Inhabited

namespace Overload

/-- Whether a parameter has the name. -/
def hasParameter (overload : Overload) (name : String) : Bool :=
  overload.parameters.any (·.name == name)

/-- Adds a parameter behind the others and says whether it was added; a parameter whose name is
taken is dropped or refused. -/
def addParameter (overload : Overload) (parameter : Parameter) (policy : DuplicatePolicy) :
    Except DuplicateParameter (Overload × Bool) :=
  if overload.hasParameter parameter.name then
    match policy with
    | .ignore => .ok (overload, false)
    | .reject => .error ⟨overload.function, parameter.name⟩
  else .ok ({ overload with parameters := overload.parameters ++ [parameter] }, true)

/-- Adds parameters one after the other. -/
def addParameters (overload : Overload) (parameters : List Parameter)
    (policy : DuplicatePolicy) : Except DuplicateParameter Overload :=
  parameters.foldlM (fun overload parameter => (overload.addParameter parameter policy).map (·.1))
    overload

/-- How many parameters stand before the first one with a default value. -/
def requiredCount (overload : Overload) : Nat :=
  (overload.parameters.takeWhile fun parameter => !parameter.isOptional).length

/-- How many parameters there are. -/
def totalCount (overload : Overload) : Nat := overload.parameters.length

theorem requiredCount_le_totalCount (overload : Overload) :
    overload.requiredCount ≤ overload.totalCount :=
  (List.takeWhile_sublist _).length_le

end Overload

/-! ## Functions -/

/-- A function or a method with its overloads. -/
structure Function where
  name : String
  overloads : List Overload := []
  description : String := ""
  place : Option Place := none
  /-- The name of the class that a method belongs to. -/
  className : Option String := none
deriving BEq, DecidableEq, Inhabited

namespace Function

/-- Adds an overload behind the others and takes over its description if there is none yet. -/
def addOverload (function : Function) (overload : Overload) : Function :=
  { function with
    description :=
      if function.description.isEmpty then overload.description else function.description
    overloads := function.overloads ++ [{ overload with function := function.name }] }

/-- Whether the function belongs to a class. -/
def isMethod (function : Function) : Bool := function.className.isSome

/-- Whether the function bears the name of its class. -/
def isConstructor (function : Function) : Bool := function.className == some function.name

end Function

end Bindery.Symbols
