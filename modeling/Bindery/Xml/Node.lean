/-
**XML elements.**

Of a document only its elements, their attributes without a namespace and their texts are kept.
Elements are told apart by their local names.

* `Element.child?`, `Element.children` — the elements directly inside one.
* `Element.descendants` — an element and all elements inside it.
* `Element.text` — all texts inside an element as one line of words.
-/

import Bindery.Text.Blank

namespace Bindery.Xml

mutual

/-- An element with its local name, its attributes and what stands inside it. -/
inductive Element where
  | mk (name : String) (attributes : List (String × String)) (content : List Node)

/-- What may stand inside an element. -/
inductive Node where
  | element (element : Element)
  | text (characters : List Char)

end

namespace Element

/-- The local name. -/
def name : Element → String
  | mk name _ _ => name

/-- The attributes without a namespace. -/
def attributes : Element → List (String × String)
  | mk _ attributes _ => attributes

/-- What stands inside the element. -/
def content : Element → List Node
  | mk _ _ content => content

/-- The value of an attribute. -/
def attribute? (element : Element) (name : String) : Option String :=
  (element.attributes.find? fun entry => entry.1 == name).map Prod.snd

/-- Whether an attribute has the value. -/
def hasAttribute (element : Element) (name value : String) : Bool :=
  element.attribute? name == some value

/-- The elements of a name directly inside the element. -/
def children (element : Element) (name : String) : List Element :=
  element.content.filterMap fun
    | .element inner => if inner.name == name then some inner else none
    | .text _ => none

/-- The first element of a name directly inside the element. -/
def child? (element : Element) (name : String) : Option Element := (element.children name).head?

mutual

/-- The characters of all texts inside an element. -/
def characters : Element → List Char
  | mk _ _ content => charactersOf content

/-- The characters of all texts among some nodes. -/
def charactersOf : List Node → List Char
  | [] => []
  | .element inner :: rest => characters inner ++ charactersOf rest
  | .text text :: rest => text ++ charactersOf rest

end

mutual

/-- The element and all elements inside it, in document order. -/
def descendants : Element → List Element
  | mk name attributes content => mk name attributes content :: descendantsOf content

/-- The elements among some nodes, each with all elements inside it. -/
def descendantsOf : List Node → List Element
  | [] => []
  | .element inner :: rest => descendants inner ++ descendantsOf rest
  | .text _ :: rest => descendantsOf rest

end

/-- The words of all texts inside an element, one space between two of them. -/
def text (element : Element) : String := String.ofList (Text.collapse element.characters)

/-- The words inside the first element of a name. -/
def childText? (element : Element) (name : String) : Option String :=
  (element.child? name).map Element.text

/-- The words inside the first element of a name; there are none when it is missing. -/
def childText (element : Element) (name : String) : String := (element.childText? name).getD ""

end Element

end Bindery.Xml
