/-
**What the document of a compound contributes.**

Each member of a namespace or a file becomes an element, an overload of a function, or a warning;
a class becomes one element with all its members.

* `Finding` — one contribution.
* `compoundFindings`, `classFindings` — the contributions of a compound.
-/

import Bindery.Reference.Index
import Bindery.Reference.Member
import Bindery.Symbols.Edit
import Bindery.Warning

namespace Bindery.Reference

open Symbols Xml

/-- How documentation is read. -/
structure Options where
  /-- The folder in front of documented paths that is no part of header names. -/
  headersRoot : String := ""
  policy : DuplicatePolicy := .ignore

/-- One contribution of a document. -/
inductive Finding where
  /-- An element for a scope of a header. -/
  | element (header scope : String) (element : Symbols.Element)
  /-- An overload of a function outside classes. -/
  | overload (header scope : String) (overload : Overload)
  | warning (warning : Warning)

/-! ## Headers -/

/-- A text with slashes for backslashes. -/
def forwardSlashes (cs : List Char) : List Char := cs.map fun c => if c = '\\' then '/' else c

/-- The name of the header at a documented path: slashes go forward, the root folder and the
slashes behind it are dropped. -/
def headerName (root path : String) : String :=
  let path := forwardSlashes path.toList
  let inner := (Text.dropStart? (forwardSlashes root.toList) path).getD path
  String.ofList (inner.dropWhile (· = '/'))

/-- The documented path of an element, if it is given and not empty. -/
def location? (element : Xml.Element) : Option String := do
  let path ← (← element.child? "location").attribute? "file"
  if path.isEmpty then none else some path

/-- The header of an element, or another one when no path is given. -/
def headerOf (options : Options) (element : Xml.Element) (fallback : String) : String :=
  match location? element with
  | some path => headerName options.headersRoot path
  | none => fallback

/-! ## Members -/

/-- Whether a name was given to something that has none. -/
def isAnonymous (name : String) : Bool := name.toList.head? == some '@'

/-- The enumeration of a member. -/
def enumerationOf (member : Xml.Element) (name : String) : Enumeration :=
  { name
    options := .ofList ((member.children "enumvalue").filterMap (·.childText? "name"))
    description := brief member }

/-- The type of a member, with a warning when it has no base. -/
def typeOf (member : Xml.Element) (name header : String) : TypeShape × List Finding :=
  let fragment := memberType member
  let type := (TypeShape.parse fragment).withDescription (brief member)
  (type, if type.isEmpty then [.warning (.emptyType (header ++ ": " ++ name) fragment)] else [])

/-- The flags of an overload; of a function outside classes only one is known. -/
def flagsOf (member : Xml.Element) (isMethod : Bool) : OverloadFlags :=
  if isMethod then
    let virtuality := (member.attribute? "virt").getD "non-virtual"
    { isStatic := flag member "static"
      isConst := flag member "const"
      isVirtual := virtuality != "non-virtual"
      isPureVirtual := virtuality == "pure-virtual"
      isProtected := member.hasAttribute "prot" "protected"
      isDeprecated := isDeprecated member }
  else { isDeprecated := isDeprecated member }

/-- The overload of a member with its warnings, or the warning for which it is left out. -/
def overloadOf (options : Options) (member : Xml.Element) (name header : String)
    (isMethod : Bool) : Except Warning (Overload × List Warning) :=
  match parameters member (parameterDescriptions member) with
  | .error position => .error (.unnamedParameter name position header)
  | .ok parameters =>
    let bare : Overload :=
      { returns := (TypeShape.parse (memberType member)).withDescription (returnDescription member)
        description := brief member
        flags := flagsOf member isMethod
        function := name }
    match bare.addParameters parameters options.policy with
    | .error duplicate =>
      .error (.duplicateParameter duplicate.function duplicate.parameter header)
    | .ok overload =>
      .ok (overload, overload.parameters.filterMap fun parameter =>
        if parameter.type.isEmpty then
          some (.emptyType (header ++ ": parameter `" ++ parameter.name ++ "` of " ++ name)
            parameter.type.text)
        else none)

/-! ## Namespaces and files -/

/-- The contribution of a macro. One with parameters gives nothing. -/
def definitionFindings (member : Xml.Element) (name header scope : String) : List Finding :=
  if (member.child? "param").isSome then []
  else if "__".toList.isPrefixOf name.toList then [.warning (.reservedName name header)]
  else
    let value := member.childText "initializer"
    if value.isEmpty then [.warning (.macroWithoutValue name header)]
    else [.element header scope (.constant { name, value, description := brief member })]

/-- The contribution of an enumeration. The options of one without a name become constants. -/
def enumerationFindings (member : Xml.Element) (name header scope : String) : List Finding :=
  if isAnonymous name then
    (member.children "enumvalue").filterMap fun option =>
      (option.childText? "name").map fun optionName =>
        .element header scope
          (.constant { name := optionName, value := "1", description := brief option })
  else [.element header scope (.enumeration (enumerationOf member name))]

/-- The contribution of a member of a namespace or a file. -/
def memberFindings (options : Options) (scope fallback : String) (member : Xml.Element) :
    List Finding :=
  let header := headerOf options member fallback
  let name := member.childText "name"
  if name.isEmpty then []
  else match (member.attribute? "kind").getD "" with
    | "define" => definitionFindings member name header scope
    | "enum" => enumerationFindings member name header scope
    | "typedef" =>
      let (type, warnings) := typeOf member name header
      warnings ++ [.element header scope (.typeAlias { name, type })]
    | "variable" =>
      let (type, warnings) := typeOf member name header
      warnings ++ [.element header scope (.globalVariable { name, type })]
    | "function" =>
      match overloadOf options member name header false with
      | .error warning => [.warning warning]
      | .ok (overload, warnings) =>
        warnings.map .warning ++ [.overload header scope overload]
    | _ => []

/-! ## Classes -/

/-- A full name parted at its last scope separator outside template arguments. -/
def splitScope (fullName : String) : String × String :=
  let name := fullName.toList
  let plain := name.takeWhile (· ≠ '<')
  match afterLastScope? plain with
  | some behind =>
    (String.ofList (plain.take (plain.length - behind.length - 2)),
      String.ofList (behind ++ name.drop plain.length))
  | none => (rootScope, fullName)

/-- The names of the template parameters of a class. -/
def templateParameters (definition : Xml.Element) : List String :=
  match definition.child? "templateparamlist" with
  | none => []
  | some list => (list.children "param").filterMap fun parameter =>
      let name := parameter.childText "declname"
      if name.isEmpty then
        ((Text.words (parameter.childText "type").toList).getLast?).map String.ofList
      else some name

/-- The label of a node of an inheritance graph. -/
def nodeLabel (node : Xml.Element) : String := node.childText "label"

/-- The parents of a class in an inheritance graph, if the class has a node there. -/
def graphParents? (graph : Xml.Element) (fullName shortName : String) : Option (List String) := do
  let nodes := graph.children "node"
  let own ← nodes.find? fun node => nodeLabel node == fullName || nodeLabel node == shortName
  let targets := (own.children "childnode").filterMap (·.attribute? "refid")
  return (targets.filterMap fun target =>
    (nodes.find? fun node => node.hasAttribute "id" target).map nodeLabel).filter
      fun label => !label.isEmpty

/-- The parents that a class lists, without private ones. -/
def listedParents (definition : Xml.Element) : List String :=
  ((definition.children "basecompoundref").filter fun base =>
    !base.hasAttribute "prot" "private").map (·.text) |>.filter fun name => !name.isEmpty

/-- The parents of a class: those of the inheritance graph, or the listed ones when the class has
no node in a graph. -/
def parents (definition : Xml.Element) (fullName shortName : String) : List String :=
  match (definition.child? "inheritancegraph").bind (graphParents? · fullName shortName) with
  | some names => names
  | none => listedParents definition

/-- A class under construction: the class without methods, the methods in order of their first
overload, and the warnings. -/
structure ClassDraft where
  bare : Symbols.Class
  methods : OrderedMap Function := .empty
  warnings : List Warning := []

/-- Takes a member into a class. Private members, destructors and what has no name are left out. -/
def ClassDraft.addMember (options : Options) (header : String) (draft : ClassDraft)
    (member : Xml.Element) : ClassDraft :=
  let name := member.childText "name"
  if member.hasAttribute "prot" "private" || name.isEmpty then draft
  else match (member.attribute? "kind").getD "" with
    | "function" =>
      if name.toList.head? = some '~' then draft
      else match overloadOf options member name (headerOf options member header) true with
        | .error warning => { draft with warnings := draft.warnings ++ [warning] }
        | .ok (overload, warnings) =>
          { draft with
            methods := draft.methods.upsert name { name } (·.addOverload overload)
            warnings := draft.warnings ++ warnings }
    | "enum" =>
      if isAnonymous name then draft
      else { draft with bare := draft.bare.addEnumeration (enumerationOf member name) }
    | "variable" =>
      let fragment := memberType member
      let type := (TypeShape.parse fragment).withDescription (brief member)
      let protection := (member.attribute? "prot").getD "public"
      let added : ClassVariable :=
        { name, type
          isStatic := flag member "static"
          isMutable := flag member "mutable"
          isProtected := protection == "protected"
          isPublic := protection == "public" }
      { draft with
        bare := draft.bare.addVariable added
        warnings := draft.warnings ++
          if type.isEmpty then [.emptyType (header ++ ": " ++ name) fragment] else [] }
    | _ => draft

/-- The class of a compound, still without members. -/
def bareClass (kind : CompoundKind) (definition : Xml.Element) (fullName : String) :
    Symbols.Class :=
  let plain := Class.named (splitScope fullName).2
  (parents definition fullName plain.name).foldl Class.addParent
    { plain with
      isStruct := kind == .structKind
      description := brief definition
      generics :=
        if plain.generics.isEmpty then templateParameters definition else plain.generics }

/-- The contribution of a class with some members. -/
def classFindings (options : Options) (kind : CompoundKind) (definition : Xml.Element)
    (fullName header : String) (members : List Xml.Element) : List Finding :=
  let draft := members.foldl (ClassDraft.addMember options header)
    { bare := bareClass kind definition fullName }
  let complete := draft.methods.values.foldl Class.addMethod draft.bare
  draft.warnings.map .warning ++
    [.element header (splitScope fullName).1 (.classDefinition complete)]

/-- The contribution of a compound with some members. -/
def compoundFindings (options : Options) (compound : Compound) (definition : Xml.Element)
    (members : List Xml.Element) : List Finding :=
  let name := (definition.childText? "compoundname").getD compound.name
  let header := headerOf options definition compound.name
  match compound.kind with
  | .file => members.flatMap (memberFindings options rootScope header)
  | .scope => members.flatMap (memberFindings options name header)
  | kind => classFindings options kind definition name header members

end Bindery.Reference
