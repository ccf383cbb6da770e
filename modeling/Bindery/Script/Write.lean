/-
**From a symbol table to a definition script.**

A script names every header first and then goes through the scopes in table order: constants,
enumerations, type aliases, variables, functions, classes. What is empty or not set is left out.

* `tablePhrases` — the statements of a table.
* `write` — the text of its script.
-/

import Bindery.Script.Phrase
import Bindery.Symbols.Table

namespace Bindery.Script

open Symbols

/-! ## The statements of an element -/

/-- The named arguments that give a type. -/
def typeArguments (type : TypeShape) : List (String × Value) :=
  textArgument "type" type.text ++ textArgument "description" type.description

/-- The named arguments of an enumeration. -/
def enumerationArguments (enumeration : Enumeration) : List (String × Value) :=
  listArgument "options" enumeration.options.names ++
    textArgument "description" enumeration.description

/-- The statement of a parameter. -/
def parameterPhrase (parameter : Parameter) : Phrase :=
  .mk "parameter" [parameter.name]
    (textArgument "type" parameter.type.text ++
      flagArgument "array" parameter.type.isArray ++
      textArgument "value" parameter.default ++
      textArgument "description" parameter.type.description) []

/-- The statement of an overload. -/
def overloadPhrase (overload : Overload) : Phrase :=
  .mk "overload" []
    (textArgument "return" overload.returns.text ++
      textArgument "return_description" overload.returns.description ++
      textArgument "description" overload.description ++
      flagArgument "static" overload.flags.isStatic ++
      flagArgument "const" overload.flags.isConst ++
      flagArgument "virtual" overload.flags.isVirtual ++
      flagArgument "pure_virtual" overload.flags.isPureVirtual ++
      flagArgument "protected" overload.flags.isProtected ++
      flagArgument "deprecated" overload.flags.isDeprecated)
    (overload.parameters.map parameterPhrase)

/-- The statement of a variable in a class. -/
def classVariablePhrase (member : ClassVariable) : Phrase :=
  .mk "variable" [member.name]
    (textArgument "type" member.type.text ++
      flagArgument "static" member.isStatic ++
      flagArgument "mutable" member.isMutable ++
      flagArgument "protected" member.isProtected ++
      flagArgument "public" member.isPublic ++
      textArgument "description" member.type.description) []

/-- The statement of an enumeration in a class. -/
def classEnumerationPhrase (enumeration : Enumeration) : Phrase :=
  .mk "enumeration" [enumeration.name] (enumerationArguments enumeration) []

/-- The statement of a method. -/
def methodPhrase (method : Function) : Phrase :=
  .mk "method" [method.name] [] (method.overloads.map overloadPhrase)

/-- The statement of a constant, behind the header and the scope. -/
def constantPhrase (place : List String) (constant : Constant) : Phrase :=
  .mk "constant" (place ++ [constant.name])
    (textArgument "value" constant.value ++ textArgument "description" constant.description) []

/-- The statement of an enumeration in a scope. -/
def enumerationPhrase (place : List String) (enumeration : Enumeration) : Phrase :=
  .mk "enumeration" (place ++ [enumeration.name]) (enumerationArguments enumeration) []

/-- The statement of a type alias. -/
def aliasPhrase (place : List String) (typeAlias : TypedName) : Phrase :=
  .mk "type_alias" (place ++ [typeAlias.name]) (typeArguments typeAlias.type) []

/-- The statement of a variable in a scope. -/
def variablePhrase (place : List String) (globalVariable : TypedName) : Phrase :=
  .mk "variable" (place ++ [globalVariable.name]) (typeArguments globalVariable.type) []

/-- The statement of a function. -/
def functionPhrase (place : List String) (function : Function) : Phrase :=
  .mk "function" (place ++ [function.name]) [] (function.overloads.map overloadPhrase)

/-- The statement of a class. -/
def classPhrase (place : List String) (self : Symbols.Class) : Phrase :=
  .mk "class" (place ++ [self.name])
    (flagArgument "struct" self.isStruct ++
      flagArgument "forward" self.isForward ++
      listArgument "parents" self.parents.names ++
      listArgument "generics" self.generics ++
      textArgument "description" self.description)
    (self.fields.values.map classVariablePhrase ++
      self.enumerations.values.map classEnumerationPhrase ++
      self.methods.values.map methodPhrase)

/-! ## The statements of a table -/

/-- The statement that names a header. -/
def headerPhrase (header : Header) : Phrase :=
  .mk "include" [header.name] (if header.enabled then [] else [("enabled", .truth false)]) []

/-- The statements of the elements of a scope. -/
def scopePhrases (header : String) (scope : Scope) : List Phrase :=
  let place := [header, scope.name]
  scope.constants.values.map (constantPhrase place) ++
    scope.enumerations.values.map (enumerationPhrase place) ++
    scope.aliases.values.map (aliasPhrase place) ++
    scope.globals.values.map (variablePhrase place) ++
    scope.functions.values.map (functionPhrase place) ++
    scope.classes.values.map (classPhrase place)

/-- The statements of a table. -/
def tablePhrases (table : Table) : List Phrase :=
  table.headerList.map headerPhrase ++
    table.scopes.flatMap fun (header, scope) => scopePhrases header.name scope

/-- The comment at the top of every script. -/
def banner : String := "// wrapgen definitions\n"

/-- The script of a table. -/
def write (table : Table) : String :=
  String.ofList (banner.toList ++ Phrase.renderAll 0 (tablePhrases table))

end Bindery.Script
