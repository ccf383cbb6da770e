/-
**From the text of an XML document to its root element.**

A stack holds the elements that are open. Prefixes have to be bound to a namespace by an element
around them; names count as the same when their namespaces and local names are the same.

* `Builder.step` — one token.
* `read?` — the root element of a document.
-/

import Bindery.Xml.Node
import Bindery.Xml.Token

namespace Bindery.Xml

/-! ## Namespaces -/

/-- The namespaces of prefixes, the innermost binding first; the empty prefix stands for the
default namespace. -/
abbrev Bindings := List (List Char × List Char)

/-- The namespace of the prefix `xml`. -/
def xmlSpace : List Char :=
  ['/'].intercalate (["http:", "", "www.w3.org", "XML", "1998", "namespace"].map String.toList)

/-- The namespace of the prefix `xmlns`. -/
def xmlnsSpace : List Char :=
  ['/'].intercalate (["http:", "", "www.w3.org", "2000", "xmlns", ""].map String.toList)

/-- The bindings behind an attribute that declares a namespace, if it is one; `own` holds what the
same tag has declared before. -/
def declare? (own : Bindings) (name : QName) (value : List Char) : Option Bindings :=
  if name.space = "xmlns".toList then
    if value = xmlnsSpace ∨ (value = xmlSpace ↔ name.localName ≠ "xml".toList) then none
    else if own.any (·.1 == name.localName) then none
    else some (if value = xmlSpace then own else own ++ [(name.localName, value)])
  else if value = xmlSpace ∨ value = xmlnsSpace then none
  else some (own ++ [([], value)])

/-- Whether an attribute declares a namespace. -/
def isDeclaration (name : QName) : Bool :=
  name.space == "xmlns".toList || name.localName == "xmlns".toList

/-- The bindings that the attributes of a tag declare. -/
def declarations? (attributes : List (QName × List Char)) : Option Bindings :=
  (attributes.filter fun entry => isDeclaration entry.1).foldlM
    (fun own entry => declare? own entry.1 entry.2) []

/-- The namespace of an attribute: none without a prefix. -/
def attributeSpace? (bindings : Bindings) (name : QName) : Option (Option (List Char)) :=
  if name.space.isEmpty then some none
  else if name.space = "xml".toList then some (some xmlSpace)
  else ((bindings.find? (·.1 == name.space)).map Prod.snd).map some

/-- Whether the prefix of an element is bound; without a prefix it need not be. -/
def isBound (bindings : Bindings) (name : QName) : Bool :=
  name.space.isEmpty || bindings.any (·.1 == name.space)

/-- An attribute with its namespace. -/
structure SpacedAttribute where
  space : Option (List Char)
  name : List Char
  value : List Char

/-- The attributes of a tag that declare no namespace, each with its own. No two may have the same
name. -/
def spacedAttributes? (bindings : Bindings) (attributes : List (QName × List Char)) :
    Option (List SpacedAttribute) := do
  let all ← (attributes.filter fun entry => !isDeclaration entry.1).mapM fun entry =>
    (attributeSpace? bindings entry.1).map fun space =>
      (⟨space, entry.1.localName, entry.2⟩ : SpacedAttribute)
  if (all.map fun entry => (entry.space, entry.name)).Nodup then some all else none

/-! ## The tree -/

/-- An element that is open; what stands inside it is kept in reverse. -/
structure OpenElement where
  name : QName
  attributes : List (String × String)
  content : List Node := []
  bindings : Bindings

/-- Where the builder stands: the open elements, innermost first, and the root element if it is
complete. -/
structure Builder where
  stack : List OpenElement := []
  root : Option Element := none

namespace Builder

/-- The bindings inside the innermost element. -/
def bindings (builder : Builder) : Bindings :=
  match builder.stack with
  | [] => []
  | innermost :: _ => innermost.bindings

/-- The builder behind a complete element. -/
def put (builder : Builder) (element : Element) : Builder :=
  match builder.stack with
  | [] => { builder with root := some element }
  | parent :: outer =>
    { builder with stack := { parent with content := .element element :: parent.content } :: outer }

/-- The element of a start tag, still open. -/
def openElement? (builder : Builder) (name : QName) (attributes : List (QName × List Char)) :
    Option OpenElement := do
  let own ← declarations? attributes
  let bindings := own ++ builder.bindings
  let spaced ← spacedAttributes? bindings attributes
  if name.space ≠ "xmlns".toList ∧ isBound bindings name then
    return {
      name, bindings
      attributes := spaced.filterMap fun entry =>
        if entry.space.isNone then some (String.ofList entry.name, String.ofList entry.value)
        else none }
  else none

/-- The element that closes with all of its content read. -/
def close (element : OpenElement) : Element :=
  .mk (String.ofList element.name.localName) element.attributes element.content.reverse

/-- The builder behind a token, if the token may come. -/
def step? (builder : Builder) : Token → Option Builder
  | .startTag name attributes isEmpty =>
    if builder.stack.isEmpty && builder.root.isSome then none
    else do
      let element ← builder.openElement? name attributes
      if isEmpty then return builder.put (close element)
      else return { builder with stack := element :: builder.stack }
  | .endTag name =>
    match builder.stack with
    | [] => none
    | innermost :: outer =>
      if innermost.name = name then some (put { builder with stack := outer } (close innermost))
      else none
  | .text characters isBlank =>
    match builder.stack with
    | [] => if isBlank then some builder else none
    | innermost :: outer =>
      some { builder with
        stack := { innermost with content := .text characters :: innermost.content } :: outer }

end Builder

/-- The root element of a document, if the text is one. -/
def read? (document : String) : Option Element := do
  let builder ← (← tokens? document).foldlM Builder.step? {}
  if builder.stack.isEmpty then builder.root else none

end Bindery.Xml
