/-
**Reading the members of a compound.**

A member is an element with a name, a type, parameters and descriptions. Words about storage say
nothing about the shape of a type and are dropped from it.

* `memberType` — the type of a member.
* `parameters` — its parameters, or the position of the first one without a name.
* `parameterDescriptions`, `returnDescription`, `isDeprecated` — what its description says.
-/

import Bindery.OrderedMap
import Bindery.Symbols.Function
import Bindery.Xml.Node

namespace Bindery.Reference

open Symbols Xml

/-! ## Types -/

/-- The words about storage that may stand in front of a type. -/
def storageWords : List String := ["virtual", "static", "inline", "explicit", "extern"]

/-- Moves stars and ampersands next to what stands before them. -/
def closeMarks (cs : List Char) : List Char :=
  Text.replacePair ' ' '&' ['&'] (Text.replacePair ' ' '*' ['*'] cs)

/-- The words of a text that are not about storage, one space between two of them. -/
def dropStorage (cs : List Char) : List Char :=
  [' '].intercalate
    ((Text.words cs).filter fun word => !(storageWords.map String.toList).contains word)

/-- The text of a member's type. -/
def memberType (member : Xml.Element) : String :=
  String.ofList (closeMarks (dropStorage (member.childText "type").toList))

/-! ## Descriptions -/

/-- Whether an attribute says yes. -/
def flag (element : Xml.Element) (name : String) : Bool := element.hasAttribute name "yes"

/-- The short description. -/
def brief (element : Xml.Element) : String := element.childText "briefdescription"

/-- The elements of the long description, itself included. -/
def detailElements (member : Xml.Element) : List Xml.Element :=
  match member.child? "detaileddescription" with
  | some detail => detail.descendants
  | none => []

/-- The first text about what is returned. -/
def returnDescription (member : Xml.Element) : String :=
  match (detailElements member).find? fun element =>
      element.name == "simplesect" && element.hasAttribute "kind" "return" with
  | some element => element.text
  | none => ""

/-- The names and the description in an entry of a list of parameters. -/
def describedNames (item : Xml.Element) : List (String × String) :=
  match item.child? "parameternamelist" with
  | none => []
  | some names => (names.children "parametername").map fun name =>
      (name.text, item.childText "parameterdescription")

/-- The descriptions of parameters by name; the last one of a name counts. -/
def parameterDescriptions (member : Xml.Element) : OrderedMap String :=
  let lists := (detailElements member).filter fun element =>
    element.name == "parameterlist" && element.hasAttribute "kind" "param"
  .ofList (lists.flatMap fun list => (list.children "parameteritem").flatMap describedNames)

/-- Whether the long description has a section that calls the member deprecated. -/
def isDeprecated (member : Xml.Element) : Bool :=
  (detailElements member).any fun element =>
    element.name == "xrefsect" &&
      (((element.attribute? "id").map fun id =>
          "deprecated".toList.isPrefixOf id.toList).getD false ||
        element.childText? "xreftitle" == some "Deprecated")

/-! ## Parameters -/

/-- Whether a parameter says that there are no parameters: it is `void` without a name. -/
def isLoneVoid (element : Xml.Element) : Bool :=
  element.childText "declname" == "" && element.childText? "type" == some "void"

/-- The parameter of an element, if it has a name. -/
def parameter? (descriptions : OrderedMap String) (element : Xml.Element) : Option Parameter :=
  let name := element.childText "declname"
  if name.isEmpty then none
  else
    let type := closeMarks (element.childText "type").toList ++ (element.childText "array").toList
    let description := (descriptions.get? name).getD ""
    some {
      name
      type := (TypeShape.parse (String.ofList type)).withDescription description
      default := element.childText "defval" }

/-- The parameters of elements, or the position of the first one without a name. -/
def parametersFrom (descriptions : OrderedMap String) (position : Nat) :
    List Xml.Element → Except Nat (List Parameter)
  | [] => .ok []
  | element :: rest =>
    match parameter? descriptions element with
    | none => .error position
    | some parameter => (parametersFrom descriptions (position + 1) rest).map (parameter :: ·)

/-- The parameters of a member, or the position of the first one without a name. -/
def parameters (member : Xml.Element) (descriptions : OrderedMap String) :
    Except Nat (List Parameter) :=
  match member.children "param" with
  | [only] =>
    if isLoneVoid only then .ok [] else parametersFrom descriptions 1 [only]
  | elements => parametersFrom descriptions 1 elements

end Bindery.Reference
