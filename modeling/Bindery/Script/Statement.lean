/-
**From the calls of a script to edits of the symbol table.**

Each statement has its place, its named arguments and its unnamed ones. A call that breaks these
rules is an error about the call, its name or one of its arguments.

* `Statement.edit` — the edit that a call at top level stands for.
* `edits` — the edits of a whole script, up to the first error.
* `StatementError.message` — the wording of each error.
-/

import Bindery.Script.Call
import Bindery.Symbols.Edit

namespace Bindery.Script

open Symbols

/-! ## Errors -/

/-- Where a statement may stand. -/
inductive Context where
  | topLevel
  | function
  | overload
  | classBody
deriving BEq, DecidableEq

/-- The wording of a context. -/
def Context.phrase : Context → String
  | .topLevel => "at top level"
  | .function => "inside a function"
  | .overload => "inside an overload"
  | .classBody => "inside a class"

/-- What is wrong with a call. -/
inductive StatementFault where
  | unknownStatement (statement : String) (context : Context)
  | unknownArgument (statement argument : String) (allowed : List String)
  | blockNotAllowed (statement : String)
  | missingArgument (statement what : String)
  | wrongKind (what expected found : String)
  | duplicateParameter (duplicate : DuplicateParameter)
deriving BEq, DecidableEq

/-- What is wrong with a call, and the part of the script that shows it. -/
structure StatementError where
  fault : StatementFault
  span : Span
deriving BEq, DecidableEq

namespace StatementError

/-- The wording of an error. -/
def message (error : StatementError) : String :=
  match error.fault with
  | .unknownStatement statement context =>
    "unknown statement `" ++ statement ++ "` " ++ context.phrase
  | .unknownArgument statement argument _ =>
    "`" ++ statement ++ "` does not take an argument named `" ++ argument ++ "`"
  | .blockNotAllowed statement => "`" ++ statement ++ "` does not take a block"
  | .missingArgument statement what =>
    "`" ++ statement ++ "` is missing its " ++ what ++ " argument"
  | .wrongKind what expected found =>
    "`" ++ what ++ "` expects a " ++ expected ++ ", found a " ++ found
  | .duplicateParameter duplicate => duplicate.message

/-- The remedy that an error suggests. -/
def help (error : StatementError) : Option String :=
  match error.fault with
  | .unknownArgument statement _ [] => some ("`" ++ statement ++ "` takes no named arguments")
  | .unknownArgument statement _ allowed =>
    some ("`" ++ statement ++ "` accepts " ++ ", ".intercalate allowed)
  | _ => none

/-- An error as a message about the source text. -/
def diagnostic (error : StatementError) (source : String) : Diagnostic :=
  { source, span := error.span, message := error.message, help := error.help }

end StatementError

/-- A value read from calls, or what is wrong with them. -/
abbrev Reading (α : Type) := Except StatementError α

/-! ## Arguments -/

namespace Call

/-- Refuses the first argument whose name is not allowed. -/
def checkNames (call : Call) (allowed : List String) : Reading Unit :=
  let isUnknown := fun (argument : Argument) => match argument.name with
    | some name => !allowed.contains name
    | none => false
  match call.arguments.find? isUnknown with
  | some argument =>
    .error ⟨.unknownArgument call.name (argument.name.getD "") allowed, argument.span⟩
  | none => .ok ()

/-- Refuses a block. -/
def checkLeaf (call : Call) : Reading Unit :=
  match call.body with
  | some _ => .error ⟨.blockNotAllowed call.name, call.span⟩
  | none => .ok ()

/-- The calls of the block; a missing block is an empty one. -/
def block (call : Call) : List Call := call.body.getD []

/-- The text of an argument that has to be one. -/
def textOf (what : String) (argument : Argument) : Reading String :=
  match argument.value with
  | .text value => .ok value
  | other => .error ⟨.wrongKind what "string" other.kind, argument.span⟩

/-- The text of the unnamed argument at an index. -/
def unnamed (call : Call) (index : Nat) (what : String) : Reading String :=
  match (call.arguments.filter (·.name.isNone))[index]? with
  | some argument => textOf what argument
  | none => .error ⟨.missingArgument call.name what, call.span⟩

/-- The first argument of the name. -/
def named? (call : Call) (name : String) : Option Argument :=
  call.arguments.find? fun argument => argument.name == some name

/-- The text of a named argument; it is empty when the argument is missing. -/
def text (call : Call) (name : String) : Reading String :=
  match call.named? name with
  | some argument => textOf name argument
  | none => .ok ""

/-- The truth value of a named argument. -/
def truth (call : Call) (name : String) (missing : Bool) : Reading Bool :=
  match call.named? name with
  | none => .ok missing
  | some argument =>
    match argument.value with
    | .truth value => .ok value
    | other => .error ⟨.wrongKind name "boolean" other.kind, argument.span⟩

/-- The truth value of a named argument; it is false when the argument is missing. -/
def flag (call : Call) (name : String) : Reading Bool := call.truth name false

/-- The items of a named argument; there are none when the argument is missing. -/
def list (call : Call) (name : String) : Reading (List String) :=
  match call.named? name with
  | none => .ok []
  | some argument =>
    match argument.value with
    | .list items => .ok items
    | other => .error ⟨.wrongKind name "list" other.kind, argument.span⟩

/-- The type that the arguments `type` and `description` give. -/
def describedType (call : Call) : Reading TypeShape := do
  let type ← call.text "type"
  return (TypeShape.parse type).withDescription (← call.text "description")

/-- The error that a statement is not known where it stands. -/
def unknownIn (call : Call) (context : Context) : StatementError :=
  ⟨.unknownStatement call.name context, call.nameSpan⟩

end Call

/-! ## Statements -/

namespace Statement

/-- The enumeration that a call describes under a name. -/
def enumeration (name : String) (call : Call) : Reading Enumeration := do
  let options ← call.list "options"
  return { name, options := .ofList options, description := ← call.text "description" }

/-- Adds the parameter that a call in the block of an overload describes. -/
def parameter (policy : DuplicatePolicy) (overload : Overload) (call : Call) :
    Reading Overload := do
  unless call.name = "parameter" do throw (call.unknownIn .overload)
  call.checkNames ["type", "array", "value", "description"]
  call.checkLeaf
  let type ← call.describedType
  let isArray ← call.flag "array"
  let type := if isArray && !type.isEmpty then { type with isArray := true } else type
  let name ← call.unnamed 0 "name"
  let default ← call.text "value"
  match overload.addParameter { name, type, default } policy with
  | .ok (overload, _) => return overload
  | .error duplicate => throw ⟨.duplicateParameter duplicate, call.span⟩

/-- The named arguments of an overload. -/
def overloadArguments : List String :=
  ["return", "return_description", "description", "static", "const", "virtual", "pure_virtual",
    "protected", "deprecated"]

/-- Adds the overload that a call in the block of a function describes. -/
def overload (policy : DuplicatePolicy) (function : Function) (call : Call) :
    Reading Function := do
  unless call.name = "overload" do throw (call.unknownIn .function)
  call.checkNames overloadArguments
  let returns := TypeShape.parse (← call.text "return")
  let returns := returns.withDescription (← call.text "return_description")
  let description ← call.text "description"
  let flags : OverloadFlags :=
    { isStatic := ← call.flag "static"
      isConst := ← call.flag "const"
      isVirtual := ← call.flag "virtual"
      isPureVirtual := ← call.flag "pure_virtual"
      isProtected := ← call.flag "protected"
      isDeprecated := ← call.flag "deprecated" }
  let fresh : Overload := { returns, description, flags, function := function.name }
  return function.addOverload (← call.block.foldlM (parameter policy) fresh)

/-- The function that a name and the calls of a block describe. -/
def function (policy : DuplicatePolicy) (name : String) (block : List Call) : Reading Function :=
  block.foldlM (overload policy) { name }

/-- The variable that a call in the block of a class describes; it is public only if it says so. -/
def classVariable (call : Call) : Reading ClassVariable := do
  call.checkNames ["type", "static", "mutable", "protected", "public", "description"]
  call.checkLeaf
  let name ← call.unnamed 0 "name"
  let type ← call.describedType
  return {
    name, type
    isStatic := ← call.flag "static"
    isMutable := ← call.flag "mutable"
    isProtected := ← call.flag "protected"
    isPublic := ← call.flag "public" }

/-- Adds the member that a call in the block of a class describes. -/
def member (policy : DuplicatePolicy) (self : Symbols.Class) (call : Call) :
    Reading Symbols.Class := do
  match call.name with
  | "variable" => return self.addVariable (← classVariable call)
  | "enumeration" =>
    call.checkNames ["options", "description"]
    call.checkLeaf
    let name ← call.unnamed 0 "name"
    return self.addEnumeration (← enumeration name call)
  | "method" =>
    call.checkNames []
    let name ← call.unnamed 0 "name"
    return self.addMethod (← function policy name call.block)
  | _ => throw (call.unknownIn .classBody)

/-- The class that a name and a call describe. -/
def classDefinition (policy : DuplicatePolicy) (name : String) (call : Call) :
    Reading Symbols.Class := do
  let description ← call.text "description"
  let isStruct ← call.flag "struct"
  let isForward ← call.flag "forward"
  let generics ← call.list "generics"
  let parents ← call.list "parents"
  let plain := Class.named name
  let bare : Symbols.Class :=
    { plain with
      description, isStruct, isForward
      generics := if generics.isEmpty then plain.generics else generics }
  call.block.foldlM (member policy) (parents.foldl Class.addParent bare)

/-- The element with the name `name` that a call at top level describes. -/
def element (policy : DuplicatePolicy) (call : Call) (name : String) : Reading Element := do
  match call.name with
  | "constant" =>
    let value ← call.text "value"
    return .constant { name, value, description := ← call.text "description" }
  | "enumeration" => return .enumeration (← enumeration name call)
  | "type_alias" => return .typeAlias { name, type := ← call.describedType }
  | "variable" => return .globalVariable { name, type := ← call.describedType }
  | "function" => return .function (← function policy name call.block)
  | _ => return .classDefinition (← classDefinition policy name call)

/-- The named arguments of the statements that put an element into a scope, and whether the
statement may have a block. -/
def elementForm? : String → Option (List String × Bool)
  | "constant" => some (["value", "description"], false)
  | "enumeration" => some (["options", "description"], false)
  | "type_alias" | "variable" => some (["type", "description"], false)
  | "function" => some ([], true)
  | "class" => some (["struct", "forward", "parents", "generics", "description"], true)
  | _ => none

/-- The edit that a call at top level stands for. -/
def edit (policy : DuplicatePolicy) (call : Call) : Reading Edit := do
  if call.name = "include" then
    call.checkNames ["enabled"]
    call.checkLeaf
    let header ← call.unnamed 0 "header"
    return .enable header (← call.truth "enabled" true)
  else match elementForm? call.name with
    | none => throw (call.unknownIn .topLevel)
    | some (allowed, mayHaveBlock) =>
      call.checkNames allowed
      unless mayHaveBlock do call.checkLeaf
      let header ← call.unnamed 0 "header"
      let scope ← call.unnamed 1 "namespace"
      let name ← call.unnamed 2 "name"
      return .add header scope (← element policy call name)

end Statement

/-- The edits that the calls of a script stand for. -/
def edits (policy : DuplicatePolicy) (calls : List Call) : Reading (List Edit) :=
  calls.mapM (Statement.edit policy)

/-- The table that the calls of a script describe. -/
def buildTable (policy : DuplicatePolicy) (calls : List Call) : Reading Table := do
  return Table.empty.applyAll (← edits policy calls)

end Bindery.Script
