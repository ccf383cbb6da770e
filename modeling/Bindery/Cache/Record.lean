/-
**The JSON records of the elements of a symbol table.**

Each kind of element has one record, written and read in the same order of fields. A field that is
empty or not set is left out and read back as such; only few fields are always written.

* `constantRecord`, …, `classRecord` — from an element to its record.
* `constant?`, …, `class?` — from a record to the element of a name.
-/

import Bindery.Json.Number
import Bindery.Json.Record
import Bindery.Symbols.Class

namespace Bindery.Cache

open Json Symbols

/-! ## Constants, enumerations and types -/

/-- The record of a constant. -/
def constantRecord (constant : Constant) : Json :=
  record ((("value", text constant.value) :: textField "description" constant.description))

/-- The constant of a record. -/
def constant? (name : String) (json : Json) : Option Constant := do
  let fields ← json.fields? ["value", "description"]
  let value ← fields.required? "value" Json.text?
  return { name, value, description := ← fields.text? "description" }

/-- The record of an enumeration. -/
def enumerationRecord (enumeration : Enumeration) : Json :=
  record (("options", array (enumeration.options.names.map text)) ::
    textField "description" enumeration.description)

/-- The enumeration of a record. -/
def enumeration? (name : String) (json : Json) : Option Enumeration := do
  let fields ← json.fields? ["options", "description"]
  let options ← fields.orElse? "options" (list? Json.text?) []
  return { name, options := .ofList options, description := ← fields.text? "description" }

/-- The record of a type alias or a variable. -/
def typedRecord (type : TypeShape) : Json :=
  record (("type", text type.text) :: textField "description" type.description)

/-- The type alias or variable of a record. -/
def typed? (name : String) (json : Json) : Option TypedName := do
  let fields ← json.fields? ["type", "description"]
  let type ← fields.required? "type" Json.text?
  let description ← fields.text? "description"
  return { name, type := (TypeShape.parse type).withDescription description }

/-- The record of a variable in a class. -/
def classVariableRecord (member : ClassVariable) : Json :=
  record (textField "type" member.type.text ++ flagField "static" member.isStatic ++
    flagField "mutable" member.isMutable ++ flagField "protected" member.isProtected ++
    flagField "public" member.isPublic ++ textField "description" member.type.description)

/-- The variable of a record in a class. -/
def classVariable? (name : String) (json : Json) : Option ClassVariable := do
  let fields ← json.fields? ["type", "static", "mutable", "protected", "public", "description"]
  let type ← fields.text? "type"
  let isStatic ← fields.flag? "static"
  let isMutable ← fields.flag? "mutable"
  let isProtected ← fields.flag? "protected"
  let isPublic ← fields.flag? "public"
  let description ← fields.text? "description"
  return {
    name, isStatic, isMutable, isProtected, isPublic
    type := (TypeShape.parse type).withDescription description }

/-! ## Functions -/

/-- The record of a parameter. -/
def parameterRecord (parameter : Parameter) : Json :=
  record (("name", text parameter.name) :: ("type", text parameter.type.text) ::
    (flagField "is_array" parameter.type.isArray ++ textField "value" parameter.default ++
      textField "description" parameter.type.description))

/-- The parameter of a record. A type without a base is never an array. -/
def parameter? (json : Json) : Option Parameter := do
  let fields ← json.fields? ["name", "type", "is_array", "value", "description"]
  let name ← fields.required? "name" Json.text?
  let spelt ← fields.required? "type" Json.text?
  let isArray ← fields.flag? "is_array"
  let default ← fields.text? "value"
  let type := (TypeShape.parse spelt).withDescription (← fields.text? "description")
  return {
    name, default
    type := if isArray && !type.isEmpty then { type with isArray := true } else type }

/-- The record of an overload. -/
def overloadRecord (overload : Overload) : Json :=
  record (("description", text overload.description) ::
    ("return_type", text overload.returns.text) ::
    (textField "return_description" overload.returns.description ++
      (if overload.parameters.isEmpty then []
        else [("parameters", array (overload.parameters.map parameterRecord))]) ++
      flagField "constant" overload.flags.isConst ++ flagField "static" overload.flags.isStatic ++
      flagField "virtual" overload.flags.isVirtual ++
      flagField "pure_virtual" overload.flags.isPureVirtual ++
      flagField "protected" overload.flags.isProtected ++
      flagField "deprecated" overload.flags.isDeprecated))

/-- The overload of a record, with every parameter that the record holds. -/
def overload? (json : Json) : Option Overload := do
  let fields ← json.fields? ["description", "return_type", "return_description", "parameters",
    "constant", "static", "virtual", "pure_virtual", "protected", "deprecated"]
  let description ← fields.text? "description"
  let returns ← fields.text? "return_type"
  let returnDescription ← fields.text? "return_description"
  let parameters ← fields.orElse? "parameters" (list? parameter?) []
  let isConst ← fields.flag? "constant"
  let isStatic ← fields.flag? "static"
  let isVirtual ← fields.flag? "virtual"
  let isPureVirtual ← fields.flag? "pure_virtual"
  let isProtected ← fields.flag? "protected"
  let isDeprecated ← fields.flag? "deprecated"
  return {
    description, parameters
    returns := (TypeShape.parse returns).withDescription returnDescription
    flags := { isStatic, isConst, isVirtual, isPureVirtual, isProtected, isDeprecated } }

/-- The records of the overloads of a function. -/
def functionRecord (function : Function) : Json :=
  array (function.overloads.map overloadRecord)

/-- The overloads of a function's record. -/
def overloads? : Json → Option (List Overload) := list? overload?

/-- The function of a name with some overloads, whose parameters are taken in one by one. -/
def buildFunction (policy : DuplicatePolicy) (name : String) (overloads : List Overload) :
    Except DuplicateParameter Function :=
  overloads.foldlM (fun function draft => do
    let bare : Overload := { draft with parameters := [], function := name }
    return function.addOverload (← bare.addParameters draft.parameters policy)) { name }

/-! ## Classes -/

/-- What the record of a class says. -/
structure ClassDraft where
  description : String
  isStruct : Bool
  isForward : Bool
  parents : List String
  generics : List String
  methods : OrderedMap (List Overload)

/-- The fields of a class; every other member of its record is a method. -/
def classFields : List String :=
  ["@description", "@struct", "@forward_declaration", "@parents", "@generics"]

/-- The record of a class. -/
def classRecord (self : Symbols.Class) : Json :=
  record (textField "@description" self.description ++ flagField "@struct" self.isStruct ++
    flagField "@forward_declaration" self.isForward ++
    textsField "@parents" self.parents.names ++ textsField "@generics" self.generics ++
    self.methods.entries.map fun (name, method) => (name, functionRecord method))

/-- How deep the containers of a method may be nested: all containers around a value of a document
are fewer than 128, and four of them hold the members of a class. -/
def methodDepth : Nat := 123

/-- Whether a value has a text for each string and double precision for each number. -/
def isPlain : Json → Bool
  | .string text => text.isSome
  | .number spelling => !exceedsDouble spelling
  | _ => true

/-- The overloads of the record of a method, in which every value has to be plain. -/
def method? (json : Json) : Option (List Overload) :=
  if json.depth ≤ methodDepth ∧ json.everywhere isPlain then overloads? json else none

/-- What the record of a class says. -/
def class? (json : Json) : Option ClassDraft := do
  let members ← json.members?
  let fields ← (Json.record members).fields? classFields
  let methods ← (members.filter fun (key, _) => !classFields.contains key).mapM
    fun (name, value) => (method? value).map fun overloads => (name, overloads)
  return {
    description := ← fields.text? "@description"
    isStruct := ← fields.flag? "@struct"
    isForward := ← fields.flag? "@forward_declaration"
    parents := ← fields.orElse? "@parents" (list? Json.text?) []
    generics := ← fields.orElse? "@generics" (list? Json.text?) []
    methods := .ofList methods }

/-- The class of a name that a record describes. -/
def buildClass (policy : DuplicatePolicy) (name : String) (draft : ClassDraft) :
    Except DuplicateParameter Symbols.Class := do
  let plain := Class.named name
  let bare : Symbols.Class :=
    { plain with
      description := draft.description
      isStruct := draft.isStruct
      isForward := draft.isForward
      generics := if draft.generics.isEmpty then plain.generics else draft.generics }
  draft.methods.entries.foldlM
    (fun self (name, overloads) => return self.addMethod (← buildFunction policy name overloads))
    (draft.parents.foldl Class.addParent bare)

end Bindery.Cache
