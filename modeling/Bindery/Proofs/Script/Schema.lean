/-
**The schema of the statements.**

Which statements may stand where, what each of them takes and what its block may hold, as one
table. A script is measured against it call by call, in the order of the text: a call comes before
the calls of its block.

* `schema?` — the table: the schema of a statement in a context.
* `visits` — all calls of a script, each with the context that it stands in.
* `Visit.IsSound` — what the table asks of one call.
* `Visit.Violates` — the ways in which a call may break it, each with the error that tells of it.
-/

import Bindery.Script.Statement

namespace Bindery.Script

open Symbols

/-! ### The table -/

/-- What a named argument has to be. -/
inductive Kind where
  | text
  | truth
  | list
deriving DecidableEq

/-- The kind of a value. -/
def Kind.of : Value → Kind
  | .text _ => .text
  | .truth _ => .truth
  | .list _ => .list

/-- The word for values of the kind. -/
def Kind.word : Kind → String
  | .text => "string"
  | .truth => "boolean"
  | .list => "list"

theorem Kind.word_of (value : Value) : (Kind.of value).word = value.kind := by
  cases value <;> rfl

/-- What a statement takes. -/
structure Schema where
  /-- What the unnamed arguments that have to be there stand for; each of them is a text. -/
  unnamed : List String
  /-- The named arguments that may be there. -/
  named : List (String × Kind)
  /-- The context of the calls in the block, for a statement that may have one. -/
  block : Option Context := none

/-- The names that arguments may have. -/
def Schema.names (schema : Schema) : List String := schema.named.map (·.1)

/-- The unnamed arguments of a statement that puts an element into a scope. -/
def placeOfElement : List String := ["header", "namespace", "name"]

namespace Schema

def inclusion : Schema where
  unnamed := ["header"]
  named := [("enabled", .truth)]

def constant : Schema where
  unnamed := placeOfElement
  named := [("value", .text), ("description", .text)]

def enumeration (unnamed : List String) : Schema where
  unnamed
  named := [("options", .list), ("description", .text)]

/-- An alias or a variable at top level. -/
def typedName : Schema where
  unnamed := placeOfElement
  named := [("type", .text), ("description", .text)]

/-- A function or a method. -/
def function (unnamed : List String) : Schema where
  unnamed
  named := []
  block := some .function

def overload : Schema where
  unnamed := []
  named := [("return", .text), ("return_description", .text), ("description", .text),
    ("static", .truth), ("const", .truth), ("virtual", .truth), ("pure_virtual", .truth),
    ("protected", .truth), ("deprecated", .truth)]
  block := some .overload

def parameter : Schema where
  unnamed := ["name"]
  named := [("type", .text), ("array", .truth), ("value", .text), ("description", .text)]

def classDefinition : Schema where
  unnamed := placeOfElement
  named := [("struct", .truth), ("forward", .truth), ("parents", .list), ("generics", .list),
    ("description", .text)]
  block := some .classBody

def classVariable : Schema where
  unnamed := ["name"]
  named := [("type", .text), ("static", .truth), ("mutable", .truth), ("protected", .truth),
    ("public", .truth), ("description", .text)]

end Schema

/-- The schema of a statement in a context; a statement without one may not stand there. -/
def schema? : Context → String → Option Schema
  | .topLevel, "include" => some .inclusion
  | .topLevel, "constant" => some .constant
  | .topLevel, "enumeration" => some (.enumeration placeOfElement)
  | .topLevel, "type_alias" => some .typedName
  | .topLevel, "variable" => some .typedName
  | .topLevel, "function" => some (.function placeOfElement)
  | .topLevel, "class" => some .classDefinition
  | .function, "overload" => some .overload
  | .overload, "parameter" => some .parameter
  | .classBody, "variable" => some .classVariable
  | .classBody, "enumeration" => some (.enumeration ["name"])
  | .classBody, "method" => some (.function ["name"])
  | _, _ => none

/-- The statements of the schema are the program's own statements, with the same named arguments. -/
theorem elementForm?_eq {name : String} (isOther : name ≠ "include") :
    Statement.elementForm? name =
      (schema? .topLevel name).map fun schema => (schema.names, schema.block.isSome) := by
  unfold schema?
  split <;> simp_all [Statement.elementForm?] <;> decide

theorem unnamed_of_schema?_topLevel {name : String} {schema : Schema} (isOther : name ≠ "include")
    (isSchema : schema? .topLevel name = some schema) : schema.unnamed = placeOfElement := by
  unfold schema? at isSchema
  split at isSchema <;> simp_all
  all_goals subst isSchema; rfl

theorem schema?_function (name : String) :
    schema? .function name = if name = "overload" then some .overload else none := by
  unfold schema?
  split <;> simp_all

theorem schema?_classBody_eq_none {name : String} (noVariable : name ≠ "variable")
    (noEnumeration : name ≠ "enumeration") (noMethod : name ≠ "method") :
    schema? .classBody name = none := by
  unfold schema?
  split <;> simp_all

theorem schema?_overload (name : String) :
    schema? .overload name = if name = "parameter" then some .parameter else none := by
  unfold schema?
  split <;> simp_all

/-! ### The calls of a script -/

/-- A call of a script and where it stands. -/
structure Visit where
  /-- There is none in the block of a statement that may not have one. -/
  context : Option Context
  /-- The calls in front of it in the same block. -/
  earlier : List Call
  call : Call

namespace Visit

/-- The schema that the call is measured against. -/
def schema? (visit : Visit) : Option Schema :=
  visit.context.bind fun context => Script.schema? context visit.call.name

/-- The context of the calls in the block of the call. -/
def blockContext (visit : Visit) : Option Context := visit.schema?.bind (·.block)

end Visit

mutual

/-- A call and behind it the calls inside it, in the order of the text. -/
def Call.visits (context : Option Context) (earlier : List Call) : Call → List Visit
  | .mk name nameSpan arguments body span =>
    let visit : Visit := ⟨context, earlier, .mk name nameSpan arguments body span⟩
    visit :: bodyVisits visit.blockContext body

/-- The calls of a block, if there is a block. -/
def bodyVisits (context : Option Context) : Option (List Call) → List Visit
  | none => []
  | some calls => visitsBehind context [] calls

/-- The calls of the rest of a block, behind the calls in front of it. -/
def visitsBehind (context : Option Context) (earlier : List Call) : List Call → List Visit
  | [] => []
  | call :: rest => call.visits context earlier ++ visitsBehind context (earlier ++ [call]) rest

end

/-- All calls of a script in the order of the text. -/
def visits (calls : List Call) : List Visit := visitsBehind (some .topLevel) [] calls

theorem bodyVisits_body (context : Option Context) (call : Call) :
    bodyVisits context call.body = visitsBehind context [] call.block := by
  unfold Call.block
  cases call.body <;> simp [bodyVisits, visitsBehind]

namespace Visit

/-- The call and all calls inside it. -/
def all (visit : Visit) : List Visit :=
  visit :: visitsBehind visit.blockContext [] visit.call.block

theorem schema?_of_context {visit : Visit} {context : Context}
    (stands : visit.context = some context) :
    visit.schema? = Script.schema? context visit.call.name := by
  rw [schema?, stands, Option.bind_some]

theorem schema?_of_name {visit : Visit} {context : Context} {name : String}
    (stands : visit.context = some context) (isName : visit.call.name = name) :
    visit.schema? = Script.schema? context name := by
  rw [schema?_of_context stands, isName]

theorem blockContext_of_schema? {visit : Visit} {schema : Schema}
    (isSchema : visit.schema? = some schema) : visit.blockContext = schema.block := by
  rw [blockContext, isSchema, Option.bind_some]

/-- Without a block there is nothing behind the call. -/
theorem all_of_body {visit : Visit} (isLeaf : visit.call.body = none) : visit.all = [visit] := by
  rw [all, ← bodyVisits_body, isLeaf, bodyVisits]

end Visit

theorem Call.visits_eq_all (context : Option Context) (earlier : List Call) (call : Call) :
    call.visits context earlier = Visit.all ⟨context, earlier, call⟩ := by
  rw [Visit.all, ← bodyVisits_body]
  cases call
  rw [visits]
  rfl

/-! ### What the table asks of a call -/

namespace Call

/-- The unnamed argument at an index. -/
def unnamed? (call : Call) (index : Nat) : Option Argument :=
  (call.arguments.filter (·.name.isNone))[index]?

/-- The text of the unnamed argument at an index, if it is one. -/
def unnamedText? (call : Call) (index : Nat) : Option String :=
  match call.unnamed? index with
  | some { value := .text text, .. } => some text
  | _ => none

/-- The name of the parameter that a call in the block of an overload describes. -/
def parameterName? (call : Call) : Option String := call.unnamedText? 0

/-- The first argument of the name, if there is one, has a value of the kind. -/
def HasKind (call : Call) (name : String) (kind : Kind) : Prop :=
  ∀ argument, call.named? name = some argument → Kind.of argument.value = kind

/-- The parts of the script that an error about the call may show. -/
def places (call : Call) : List Span :=
  call.span :: call.nameSpan :: call.arguments.map (·.span)

end Call

/-- The call gives what the statement takes, and nothing else. -/
structure Schema.Fits (schema : Schema) (call : Call) : Prop where
  names : ∀ argument ∈ call.arguments, ∀ name ∈ argument.name, name ∈ schema.names
  kinds : ∀ expected ∈ schema.named, call.HasKind expected.1 expected.2
  unnamed : ∀ index < schema.unnamed.length, ∃ text, call.unnamedText? index = some text
  block : schema.block = none → call.body = none

namespace Visit

variable (policy : DuplicatePolicy) (visit : Visit)

/-- The statement may stand where it stands, the call fits its schema, and it does not describe a
parameter a second time where that is refused. -/
structure IsSound : Prop where
  fits : ∃ schema, visit.schema? = some schema ∧ schema.Fits visit.call
  isNew : policy = .reject → visit.context = some .overload →
    ∀ name, visit.call.parameterName? = some name →
      ∀ other ∈ visit.earlier, other.parameterName? ≠ some name

theorem context_ne_of_context {visit : Visit} {context other : Context}
    (stands : visit.context = some context) (isOther : context ≠ other) :
    visit.context ≠ some other := fun standsThere =>
  isOther (Option.some.inj (stands.symm.trans standsThere))

theorem IsSound.of_fits {policy : DuplicatePolicy} {visit : Visit} {schema : Schema}
    (isSchema : visit.schema? = some schema) (fits : schema.Fits visit.call)
    (standsElsewhere : visit.context ≠ some .overload) : visit.IsSound policy :=
  ⟨⟨schema, isSchema, fits⟩, fun _ stands => absurd stands standsElsewhere⟩

/-- What is wrong with the call, as an error tells it. -/
inductive Violates : StatementError → Prop
  | statement {context : Context} (stands : visit.context = some context)
      (isUnknown : visit.schema? = none) :
      Violates ⟨.unknownStatement visit.call.name context, visit.call.nameSpan⟩
  | argument {schema : Schema} (isSchema : visit.schema? = some schema) {argument : Argument}
      (isArgument : argument ∈ visit.call.arguments) {name : String}
      (isName : argument.name = some name) (isUnknown : name ∉ schema.names) :
      Violates ⟨.unknownArgument visit.call.name name schema.names, argument.span⟩
  | block {schema : Schema} (isSchema : visit.schema? = some schema)
      (isLeaf : schema.block = none) (hasBlock : visit.call.body ≠ none) :
      Violates ⟨.blockNotAllowed visit.call.name, visit.call.span⟩
  | missing {schema : Schema} (isSchema : visit.schema? = some schema) {index : Nat}
      {what : String} (isAsked : schema.unnamed[index]? = some what)
      (isMissing : visit.call.unnamed? index = none) :
      Violates ⟨.missingArgument visit.call.name what, visit.call.span⟩
  | unnamed {schema : Schema} (isSchema : visit.schema? = some schema) {index : Nat}
      {what : String} (isAsked : schema.unnamed[index]? = some what) {argument : Argument}
      (isArgument : visit.call.unnamed? index = some argument)
      (isOther : Kind.of argument.value ≠ .text) :
      Violates ⟨.wrongKind what Kind.text.word (Kind.of argument.value).word, argument.span⟩
  | named {schema : Schema} (isSchema : visit.schema? = some schema) {name : String} {kind : Kind}
      (isAsked : (name, kind) ∈ schema.named) {argument : Argument}
      (isArgument : visit.call.named? name = some argument)
      (isOther : Kind.of argument.value ≠ kind) :
      Violates ⟨.wrongKind name kind.word (Kind.of argument.value).word, argument.span⟩
  | parameter (rejects : policy = .reject) (stands : visit.context = some .overload)
      {name : String} (isName : visit.call.parameterName? = some name) {other : Call}
      (isEarlier : other ∈ visit.earlier) (isTaken : other.parameterName? = some name)
      (function : String) :
      Violates ⟨.duplicateParameter ⟨function, name⟩, visit.call.span⟩

end Visit

theorem Call.unnamedText?_eq_some {call : Call} {index : Nat} {argument : Argument} {text : String}
    (isArgument : call.unnamed? index = some argument) (isText : argument.value = .text text) :
    call.unnamedText? index = some text := by
  obtain ⟨_, _, _⟩ := argument
  cases isText
  rw [unnamedText?, isArgument]

theorem Call.unnamedText?_eq_none {call : Call} {index : Nat}
    (isOther : ∀ argument, call.unnamed? index = some argument → Kind.of argument.value ≠ .text) :
    call.unnamedText? index = none := by
  unfold unnamedText?
  split
  next found => exact absurd rfl (isOther _ found)
  next => rfl

theorem Call.mem_arguments_of_unnamed? {call : Call} {index : Nat} {argument : Argument}
    (isArgument : call.unnamed? index = some argument) : argument ∈ call.arguments :=
  (List.mem_filter.mp (List.mem_of_getElem? isArgument)).1

theorem Call.mem_arguments_of_named? {call : Call} {name : String} {argument : Argument}
    (isArgument : call.named? name = some argument) : argument ∈ call.arguments :=
  List.mem_of_find?_eq_some isArgument

namespace Visit.Violates

variable {policy : DuplicatePolicy} {visit : Visit} {error : StatementError}

/-- Each way is one: a call that breaks the table in it is not sound. -/
theorem not_isSound (violates : visit.Violates policy error) : ¬ visit.IsSound policy := by
  rintro ⟨⟨found, isFound, fits⟩, isNew⟩
  -- All rules but the last one are about the schema that the call fits.
  have same : ∀ {schema : Schema}, visit.schema? = some schema → schema = found :=
    fun isSchema => Option.some.inj (isSchema.symm.trans isFound)
  have notAsked : ∀ {index : Nat} {what : String}, found.unnamed[index]? = some what →
      ¬ ∀ argument, visit.call.unnamed? index = some argument → Kind.of argument.value ≠ .text := by
    intro index what isAsked isOther
    obtain ⟨inside, -⟩ := List.getElem?_eq_some_iff.mp isAsked
    obtain ⟨text, isText⟩ := fits.unnamed index inside
    rw [Call.unnamedText?_eq_none isOther] at isText
    cases isText
  cases violates with
  | statement _ isUnknown => exact absurd isFound (by rw [isUnknown]; nofun)
  | argument isSchema isArgument isName isUnknown =>
    obtain rfl := same isSchema
    exact isUnknown (fits.names _ isArgument _ isName)
  | block isSchema isLeaf hasBlock =>
    obtain rfl := same isSchema
    exact hasBlock (fits.block isLeaf)
  | missing isSchema isAsked isMissing =>
    obtain rfl := same isSchema
    exact notAsked isAsked fun argument isArgument => by
      rw [isMissing] at isArgument
      cases isArgument
  | unnamed isSchema isAsked isArgument isOther =>
    obtain rfl := same isSchema
    exact notAsked isAsked fun other found => by
      rwa [← Option.some.inj (isArgument.symm.trans found)]
  | named isSchema isAsked isArgument isOther =>
    obtain rfl := same isSchema
    exact isOther (fits.kinds _ isAsked _ isArgument)
  | parameter rejects stands isName isEarlier isTaken =>
    exact isNew rejects stands _ isName _ isEarlier isTaken

/-- The error shows the call, its name or one of its arguments. -/
theorem span_mem_places (violates : visit.Violates policy error) :
    error.span ∈ visit.call.places := by
  have ofArgument : ∀ {argument : Argument}, argument ∈ visit.call.arguments →
      argument.span ∈ visit.call.places :=
    fun isArgument => .tail _ (.tail _ (List.mem_map_of_mem isArgument))
  cases violates with
  | statement => exact .tail _ (.head _)
  | argument _ isArgument => exact ofArgument isArgument
  | block | missing | parameter => exact .head _
  | unnamed _ _ isArgument => exact ofArgument (Call.mem_arguments_of_unnamed? isArgument)
  | named _ _ isArgument => exact ofArgument (Call.mem_arguments_of_named? isArgument)

end Visit.Violates

end Bindery.Script
