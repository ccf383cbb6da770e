/-
**The shape of a type, read from a fragment of a declaration.**

Outside template arguments the words `const` and `unsigned` and the marks `*`, `&` and `[...]`
qualify a type, wherever they stand; what remains is its base. Everything between `<` and `>` is
part of the base as it stands.

* `TypeShape.parse` — the shape of a fragment; a fragment without a base has no shape at all.
* `TypeShape.unqualifiedBase` — the base behind its last scope separator.
-/

import Bindery.Text.Blank

namespace Bindery.Symbols

/-- A type as a declaration spells it. -/
structure TypeShape where
  /-- The type's name without its qualifiers. -/
  base : String := ""
  isConst : Bool := false
  isUnsigned : Bool := false
  isReference : Bool := false
  /-- How many stars qualify the type. -/
  pointerDepth : Nat := 0
  isArray : Bool := false
  /-- The fragment that was read. -/
  text : String := ""
  description : String := ""
deriving BEq, DecidableEq, Inhabited

/-! ## Marks -/

/-- The marks of a fragment and the characters that remain without them. -/
structure Marks where
  /-- The fragment with a blank for each mark. -/
  rest : List Char := []
  stars : Nat := 0
  isReference : Bool := false
  isArray : Bool := false

/-- Where a reader of marks stands. -/
inductive MarkPlace where
  /-- Inside so many open template argument lists. -/
  | depth (n : Nat)
  /-- Behind a `[` that is not closed yet. -/
  | brackets

/-- Takes the marks outside template arguments out of a fragment. -/
def Marks.read : MarkPlace → List Char → Marks
  | _, [] => {}
  | .brackets, c :: cs => if c = ']' then Marks.read (.depth 0) cs else Marks.read .brackets cs
  | .depth n, c :: cs =>
    if c = '<' then
      let marks := Marks.read (.depth (n + 1)) cs
      { marks with rest := c :: marks.rest }
    else if c = '>' then
      let marks := Marks.read (.depth (n - 1)) cs
      { marks with rest := c :: marks.rest }
    else if n = 0 ∧ c = '*' then
      let marks := Marks.read (.depth 0) cs
      { marks with rest := ' ' :: marks.rest, stars := marks.stars + 1 }
    else if n = 0 ∧ c = '&' then
      let marks := Marks.read (.depth 0) cs
      { marks with rest := ' ' :: marks.rest, isReference := true }
    else if n = 0 ∧ c = '[' then
      let marks := Marks.read .brackets cs
      { marks with rest := ' ' :: marks.rest, isArray := true }
    else
      let marks := Marks.read (.depth n) cs
      { marks with rest := c :: marks.rest }

/-! ## Words -/

/-- The depth of template arguments behind a character. -/
def templateDepth (depth : Nat) (c : Char) : Nat :=
  if c = '<' then depth + 1 else if c = '>' then depth - 1 else depth

/-- The words of a fragment at template depth `depth`, where `word` is what is read so far of the
word at the front; a blank inside template arguments belongs to its word. -/
def templateWords (depth : Nat) (word : List Char) : List Char → List (List Char)
  | [] => if word.isEmpty then [] else [word]
  | c :: cs =>
    if Text.isBlank c ∧ depth = 0 then
      if word.isEmpty then templateWords 0 [] cs else word :: templateWords 0 [] cs
    else templateWords (templateDepth depth c) (word ++ [c]) cs

/-- The words `const` and `unsigned` qualify; all others spell the base. -/
def isQualifier (word : List Char) : Bool :=
  word == "const".toList || word == "unsigned".toList

/-! ## Reading -/

namespace TypeShape

/-- The shape of a fragment. `unsigned` alone stands for `unsigned int`; a fragment without a base
keeps nothing but its text. -/
def parse (fragment : String) : TypeShape :=
  let marks := Marks.read (.depth 0) (Text.trim fragment.toList)
  let words := templateWords 0 [] marks.rest
  let isUnsigned := words.contains "unsigned".toList
  let spelt := [' '].intercalate (words.filter fun word => !isQualifier word)
  let base := if spelt.isEmpty && isUnsigned then "int".toList else spelt
  if base.isEmpty then { text := fragment }
  else
    { base := String.ofList base
      isConst := words.contains "const".toList
      isUnsigned
      isReference := marks.isReference
      pointerDepth := marks.stars
      isArray := marks.isArray
      text := fragment }

/-- Whether at least one star qualifies the type. -/
def isPointer (shape : TypeShape) : Bool := 0 < shape.pointerDepth

/-- Whether there is no base. -/
def isEmpty (shape : TypeShape) : Bool := shape.base.isEmpty

/-- Whether the type is `void` and not a pointer to it. -/
def isVoid (shape : TypeShape) : Bool := shape.base == "void" && !shape.isPointer

/-- Whether a function of this return type returns nothing: its type is `void` or missing. -/
def returnsNothing (shape : TypeShape) : Bool := shape.isVoid || shape.isEmpty

/-- The same shape with a description. -/
def withDescription (shape : TypeShape) (description : String) : TypeShape :=
  { shape with description }

end TypeShape

/-- What stands behind the last `::` of a text, if there is one. -/
def afterLastScope? : List Char → Option (List Char)
  | [] => none
  | c :: cs =>
    match afterLastScope? cs with
    | some rest => some rest
    | none => if c = ':' then Text.dropStart? [':'] cs else none

/-- A name without the scopes in front of it; a `::` inside template arguments does not count. -/
def unqualifiedName (name : List Char) : List Char :=
  let plain := name.takeWhile (· ≠ '<')
  match afterLastScope? plain with
  | some rest => rest ++ name.drop plain.length
  | none => name

namespace TypeShape

/-- The base without the scopes in front of it. -/
def unqualifiedBase (shape : TypeShape) : String :=
  String.ofList (unqualifiedName shape.base.toList)

end TypeShape

end Bindery.Symbols
