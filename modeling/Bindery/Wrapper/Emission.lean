/-
**Emission: the generated sources of a table.**

Each enabled header becomes one file, and one more file, the module, lists them. A file is a list
of fragments that follows the order of the table; templates turn it into text.

* `fileFragments` — the fragments of a header's file.
* `moduleFragments` — the fragments of the module.
* `emitBy` — all files with their texts, whoever writes the fragments; `emit` — with templates.
* `emissionWarnings` — the types met on the way that nothing is known about.
-/

import Bindery.Wrapper.Fragment

namespace Bindery.Wrapper

open Symbols

/-- What is generated besides the elements of the table. -/
structure EmissionOptions where
  /-- The name of the module. -/
  name : String := "extension"
  version : String := "0.1.0"
  /-- The extension of generated files. -/
  extension : String := "cpp"
  plan : PlanOptions := {}
deriving BEq, DecidableEq, Inhabited

/-- A generated text and its path inside the output folder. -/
structure GeneratedFile where
  path : String
  contents : String
deriving BEq, DecidableEq, Inhabited

/-! ## Values -/

/-- A truth value as templates see it. -/
def truthText (b : Bool) : String := if b then "true" else "false"

/-- Names with a comma between two of them. -/
def commaList (names : List String) : String := ", ".intercalate names

/-- The values that every fragment has. -/
def baseValues (options : EmissionOptions) : Values :=
  Values.set .empty [("name", options.name), ("version", options.version)]

/-- The values of a header. -/
def headerValues (options : EmissionOptions) (header : Header) : Values :=
  (baseValues options).set
    [("header", header.name), ("header_stem", (Path.stem? header.name).getD "")]

/-- The values of a scope. -/
def scopeValues (outer : Values) (scope : Scope) : Values :=
  outer.set [("namespace", scope.name), ("is_global", truthText scope.isRoot)]

/-- The values of a constant. -/
def constantValues (outer : Values) (constant : Constant) : Values :=
  outer.set
    [("constant", constant.name), ("value", constant.value), ("description", constant.description)]

/-- The values of an enumeration. -/
def enumerationValues (outer : Values) (enumeration : Enumeration) : Values :=
  outer.set
    [("enumeration", enumeration.name),
      ("option_count", toString enumeration.options.size),
      ("description", enumeration.description)]

/-- The values of the option at a position. -/
def optionValues (outer : Values) (position : Nat) (option : String) : Values :=
  outer.set [("option", option), ("option_index", toString position)]

/-- The values of a type alias. -/
def aliasValues (known : KnownTypes) (outer : Values) (element : TypedName) : Values :=
  outer.set
    [("alias", element.name), ("type", element.type.text),
      ("category", (known.categoryOf element.type).name),
      ("description", element.type.description)]

/-- The values of a variable. -/
def variableValues (known : KnownTypes) (outer : Values) (name : String) (type : TypeShape) :
    Values :=
  outer.set
    [("variable", name), ("type", type.text), ("category", (known.categoryOf type).name),
      ("category_fragment", (known.categoryOf type).suffix), ("description", type.description)]

/-- The values of a variable of a class. -/
def classVariableValues (known : KnownTypes) (outer : Values) (member : ClassVariable) : Values :=
  (variableValues known outer member.name member.type).set
    [("is_static", truthText member.isStatic), ("is_mutable", truthText member.isMutable),
      ("is_protected", truthText member.isProtected), ("is_public", truthText member.isPublic)]

/-- The values of a class. -/
def classValues (outer : Values) (self : Symbols.Class) : Values :=
  outer.set
    [("class", self.name), ("is_struct", truthText self.isStruct),
      ("is_forward_declaration", truthText self.isForward),
      ("parents", commaList self.parents.names),
      ("parent", self.parents.names.head?.getD ""),
      ("generics", commaList self.generics),
      ("has_constructor", truthText self.hasConstructor),
      ("description", self.description)]

/-- The values of a function. -/
def functionValues (outer : Values) (plan : FunctionPlan) (description : String) : Values :=
  outer.set
    [("function", plan.name), ("overload_count", toString plan.overloads.length),
      ("block_count", toString plan.blockCount),
      ("is_constructor", truthText plan.isConstructor), ("description", description)]

/-- The values of an overload. -/
def overloadValues (outer : Values) (className : Option String) (plan : OverloadPlan) : Values :=
  outer.set
    ([("overload_index", toString plan.index),
      ("next_overload", (plan.successor.map toString).getD ""),
      ("is_last_overload", truthText plan.isLast),
      ("required", toString plan.required), ("total", toString plan.total),
      ("return_type", plan.returns.declaration), ("return_category", plan.returns.category.name),
      ("return_fragment", plan.returns.fragmentName),
      ("is_static", truthText plan.flags.isStatic), ("is_const", truthText plan.flags.isConst),
      ("is_virtual", truthText plan.flags.isVirtual),
      ("is_pure_virtual", truthText plan.flags.isPureVirtual),
      ("is_protected", truthText plan.flags.isProtected),
      ("is_deprecated", truthText plan.flags.isDeprecated),
      ("overload_description", plan.description)] ++
      (className.map fun name => ("class", name)).toList)

/-- The values of a block that binds some parameters. -/
def blockValues (outer : Values) (block : Block) (bound : List ParameterPlan) : Values :=
  outer.set
    [("block_index", toString block.index), ("argument_count", toString block.argumentCount),
      ("call_arguments", commaList (bound.map (·.name)))]

/-- The values of a parameter; that of an array has the category of its elements too. -/
def parameterValues (outer : Values) (plan : ParameterPlan) : Values :=
  outer.set
    ([("parameter", plan.name), ("parameter_position", toString plan.position),
      ("parameter_type", plan.declaration), ("parameter_category", plan.category.name),
      ("parameter_default", plan.default), ("parameter_nullable", truthText plan.nullable),
      ("requires_handle", truthText plan.requiresHandle)] ++
      match plan.category with
      | .array element => [("element_category", element.suffix)]
      | _ => [])

/-! ## Functions -/

/-- The fragments of a block. -/
def blockFragments (outer : Values) (overload : OverloadPlan) (block : Block) : List Fragment :=
  let bound := overload.parameters.take block.argumentCount
  let values := blockValues outer block bound
  bracketed .block values
    (bound.map (fun plan => ⟨.parameter plan, parameterValues values plan⟩) ++
      [⟨.call, values⟩, ⟨.result overload.returns, values⟩])

/-- The fragments of an overload. -/
def overloadFragments (outer : Values) (className : Option String) (plan : OverloadPlan) :
    List Fragment :=
  let values := overloadValues outer className plan
  bracketed .overload values
    (plan.blocks.flatMap (blockFragments values plan) ++
      [⟨if plan.isLast then .refusal else .nextOverload, values⟩])

/-- The fragments of a function or a method. -/
def functionFragments (known : KnownTypes) (options : EmissionOptions) (part : Section)
    (outer : Values) (function : Function) : List Fragment :=
  let plan := FunctionPlan.ofFunction known options.plan function
  let values := functionValues outer plan function.description
  bracketed part values (plan.overloads.flatMap (overloadFragments values plan.className))

/-! ## Other elements -/

/-- The fragments of an enumeration. -/
def enumerationFragments (part : Section) (outer : Values) (enumeration : Enumeration) :
    List Fragment :=
  let values := enumerationValues outer enumeration
  bracketed part values
    (enumeration.options.names.mapIdx fun position option =>
      ⟨.option part, optionValues values position option⟩)

/-- The fragments of a class. -/
def classFragments (known : KnownTypes) (options : EmissionOptions) (outer : Values)
    (self : Symbols.Class) : List Fragment :=
  let values := classValues outer self
  bracketed .classDefinition values
    (self.fields.values.map
        (fun member => ⟨.classVariable, classVariableValues known values member⟩) ++
      self.enumerations.values.flatMap (enumerationFragments .classEnumeration values) ++
      self.methods.values.flatMap (functionFragments known options .method values))

/-- The fragments of a scope. -/
def scopeFragments (known : KnownTypes) (options : EmissionOptions) (outer : Values)
    (scope : Scope) : List Fragment :=
  let values := scopeValues outer scope
  bracketed .scope values
    (scope.constants.values.map
        (fun element => ⟨.constant, constantValues values element⟩) ++
      scope.enumerations.values.flatMap (enumerationFragments .enumeration values) ++
      scope.aliases.values.map
        (fun element => ⟨.typeAlias, aliasValues known values element⟩) ++
      scope.globals.values.map
        (fun element =>
          ⟨.globalVariable, variableValues known values element.name element.type⟩) ++
      scope.functions.values.flatMap (functionFragments known options .function values) ++
      scope.classes.values.flatMap (classFragments known options values))

/-! ## Files -/

/-- The fragments of a header's file. Scopes without elements have none. -/
def fileFragments (known : KnownTypes) (options : EmissionOptions) (header : Header) :
    List Fragment :=
  let values := headerValues options header
  bracketed .file values
    ((header.scopes.values.filter fun scope => !scope.isEmpty).flatMap
      (scopeFragments known options values))

/-- The path of a header's file. The header's own extension stays, so that headers of one stem
have different files. -/
def outputPath (options : EmissionOptions) (header : String) : String :=
  header ++ "." ++ options.extension

/-- The fragments of the module, which lists the files of some headers. -/
def moduleFragments (options : EmissionOptions) (headers : List Header) : List Fragment :=
  bracketed .module (baseValues options)
    (headers.map fun header =>
      ⟨.moduleHeader,
        (headerValues options header).set [("output", outputPath options header.name)]⟩)

/-- The generated files: those of the enabled headers in table order, then the module. -/
def emitBy (provider : Provider) (options : EmissionOptions) (table : Table) :
    List GeneratedFile :=
  let known := KnownTypes.ofTable table
  table.enabledHeaders.map (fun header =>
    { path := outputPath options header.name
      contents := renderAllBy provider (fileFragments known options header) }) ++
    [{ path := outputPath options options.name
       contents := renderAllBy provider (moduleFragments options table.enabledHeaders) }]

/-- The files that templates generate. -/
def emit (templates : Templates) (options : EmissionOptions) (table : Table) :
    List GeneratedFile :=
  emitBy templates.render options table

/-! ## Warnings -/

/-- The functions of a scope, its own before the methods of its classes. -/
def scopeFunctions (scope : Scope) : List Function :=
  scope.functions.values ++ scope.classes.values.flatMap fun self => self.methods.values

/-- A warning for each type in the functions of enabled headers that nothing is known about. -/
def emissionWarnings (table : Table) : List Warning :=
  (table.enabledHeaders.flatMap fun header => header.scopes.values.flatMap scopeFunctions).flatMap
    (unknownTypeWarnings (KnownTypes.ofTable table))

end Bindery.Wrapper
