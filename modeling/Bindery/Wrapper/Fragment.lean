/-
**Fragments: the pieces that generated sources are made of.**

A fragment names the template that writes it and holds the values for its placeholders. Most
fragments come in pairs that open and close a section; both of a pair have the same values.

* `FragmentKind.name` — the name of the template of a fragment.
* `bracketed` — fragments between the two of a section.
* `renderAllBy` — the text of a list of fragments, whoever writes the single ones.
* `renderAll` — the same text, written with templates.
-/

import Bindery.Wrapper.Plan
import Bindery.Wrapper.Template

namespace Bindery.Wrapper

/-! ## Kinds -/

/-- What a pair of fragments opens and closes. -/
inductive Section where
  | module
  | file
  | scope
  | enumeration
  | classEnumeration
  | classDefinition
  | function
  | method
  | overload
  | block
deriving BEq, DecidableEq, Inhabited

/-- The word for a section in the names of templates. -/
def Section.word : Section → String
  | module => "module"
  | file => "file"
  | scope => "namespace"
  | enumeration => "enumeration"
  | classEnumeration => "class_enumeration"
  | classDefinition => "class"
  | function => "function"
  | method => "method"
  | overload => "overload"
  | block => "block"

/-- What a fragment stands for. -/
inductive FragmentKind where
  | opening (part : Section)
  | closing (part : Section)
  /-- A generated file in the list of the module. -/
  | moduleHeader
  | constant
  /-- An option of an enumeration. -/
  | option (part : Section)
  | typeAlias
  | globalVariable
  | classVariable
  | parameter (plan : ParameterPlan)
  | call
  | result (plan : ReturnPlan)
  /-- What happens when the arguments do not match and another overload follows. -/
  | nextOverload
  /-- What happens when the arguments do not match the last overload. -/
  | refusal
deriving BEq, DecidableEq, Inhabited

/-- The template that takes a parameter. -/
def ParameterPlan.fragmentName (plan : ParameterPlan) : String :=
  "parameter_" ++ plan.category.suffix

/-- The template that gives a result back. -/
def ReturnPlan.fragmentName (plan : ReturnPlan) : String :=
  if plan.isConstructor then "return_constructor"
  else if plan.category.isVoid then "return_void"
  else "return_" ++ plan.category.suffix

/-- The name of a fragment's template. -/
def FragmentKind.name : FragmentKind → String
  | opening part => part.word ++ "_begin"
  | closing part => part.word ++ "_end"
  | moduleHeader => "module_header"
  | constant => "constant"
  | option part => part.word ++ "_option"
  | typeAlias => "type_alias"
  | globalVariable => "variable"
  | classVariable => "class_variable"
  | parameter plan => plan.fragmentName
  | call => "call"
  | result plan => plan.fragmentName
  | nextOverload => "overload_next"
  | refusal => "overload_error"

/-! ## Fragments -/

/-- A piece of a generated source. -/
structure Fragment where
  kind : FragmentKind
  values : Values

/-- Fragments between the two of a section. -/
def bracketed (part : Section) (values : Values) (inner : List Fragment) : List Fragment :=
  ⟨.opening part, values⟩ :: inner ++ [⟨.closing part, values⟩]

/-- What writes fragments: a text for the name of a template and the values of its keys. -/
abbrev Provider := String → Values → String

/-- The text that a provider gives a fragment. -/
def Fragment.renderBy (provider : Provider) (fragment : Fragment) : String :=
  provider fragment.kind.name fragment.values

/-- The texts of fragments one behind the other. -/
def renderAllBy (provider : Provider) (fragments : List Fragment) : String :=
  String.join (fragments.map (·.renderBy provider))

/-- The text of a fragment whose template is filled. -/
def Fragment.render (templates : Templates) (fragment : Fragment) : String :=
  fragment.renderBy templates.render

/-- The texts of fragments whose templates are filled. -/
def renderAll (templates : Templates) (fragments : List Fragment) : String :=
  renderAllBy templates.render fragments

end Bindery.Wrapper
