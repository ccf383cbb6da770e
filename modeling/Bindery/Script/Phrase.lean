/-
**Phrases: calls as a writer of scripts lays them out.**

A phrase is a call without places in a text: its unnamed arguments are texts and stand before the
named ones, and an empty block is no block.

* `Phrase.render` — the text of a phrase, indented by four spaces for each block around it.
-/

import Bindery.Script.Call
import Bindery.Script.Token

namespace Bindery.Script

/-- A statement to be written. -/
inductive Phrase where
  | mk (name : String) (unnamed : List String) (named : List (String × Value))
    (block : List Phrase)
deriving Inhabited

/-! ## Arguments -/

/-- The named argument of a text, left out when the text is empty. -/
def textArgument (name value : String) : List (String × Value) :=
  if value.isEmpty then [] else [(name, .text value)]

/-- The named argument of a flag, left out when the flag is not set. -/
def flagArgument (name : String) (value : Bool) : List (String × Value) :=
  if value then [(name, .truth true)] else []

/-- The named argument of a list, left out when the list is empty. -/
def listArgument (name : String) (items : List String) : List (String × Value) :=
  if items.isEmpty then [] else [(name, .list items)]

/-! ## Layout -/

/-- A text between quotes. -/
def renderText (value : String) : List Char := Text.quote value.toList

/-- Pieces with a comma and a space between two of them. -/
def commaSeparated (pieces : List (List Char)) : List Char := ", ".toList.intercalate pieces

/-- A value as a script writes it. -/
def Value.render : Value → List Char
  | .text value => renderText value
  | .truth value => (truthWord value).toList
  | .list items => '[' :: commaSeparated (items.map renderText) ++ [']']

/-- The blanks in front of a statement inside so many blocks. -/
def indentation (depth : Nat) : List Char := List.replicate (4 * depth) ' '

namespace Phrase

/-- The name and the arguments of a phrase. -/
def renderHead (name : String) (unnamed : List String) (named : List (String × Value)) :
    List Char :=
  let arguments := unnamed.map renderText ++
    named.map fun (key, value) => key.toList ++ " = ".toList ++ value.render
  name.toList ++ '(' :: commaSeparated arguments ++ [')']

mutual

/-- The lines of a phrase inside so many blocks. -/
def render (depth : Nat) : Phrase → List Char
  | mk name unnamed named block =>
    indentation depth ++ renderHead name unnamed named ++
      match block with
      | [] => ";\n".toList
      | first :: rest =>
        " \x7b\n".toList ++ render (depth + 1) first ++ renderAll (depth + 1) rest ++
          indentation depth ++ "\x7d\n".toList

/-- The lines of some phrases inside so many blocks. -/
def renderAll (depth : Nat) : List Phrase → List Char
  | [] => []
  | phrase :: rest => render depth phrase ++ renderAll depth rest

end

end Phrase

end Bindery.Script
