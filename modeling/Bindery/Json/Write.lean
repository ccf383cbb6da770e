/-
**From a JSON value to the text of a document.**

Containers are laid out over lines, two spaces deeper for each container around; empty ones are
written without a line break.

* `Json.render` — the text of a value.
* `Json.document` — the text of a document, which ends with a line break.
-/

import Bindery.Json.Value

namespace Bindery.Json

/-- A digit of a hexadecimal number. -/
def hexDigit (n : Nat) : Char := if n < 10 then Char.ofNat (48 + n) else Char.ofNat (87 + n)

/-- A character as it stands inside quotes. -/
def escapeChar (c : Char) : List Char :=
  if c = '"' then "\\\"".toList
  else if c = '\\' then "\\\\".toList
  else if c = '\x08' then "\\b".toList
  else if c = '\x0c' then "\\f".toList
  else if c = '\n' then "\\n".toList
  else if c = '\r' then "\\r".toList
  else if c = '\t' then "\\t".toList
  else if c.toNat < 0x20 then
    "\\u00".toList ++ [hexDigit (c.toNat / 16), hexDigit (c.toNat % 16)]
  else [c]

/-- A text between quotes; one that is missing is written empty. -/
def renderString (text : Option String) : List Char :=
  '"' :: (text.getD "").toList.flatMap escapeChar ++ ['"']

/-- A line break and the blanks of a line inside so many containers. -/
def newLine (depth : Nat) : List Char := '\n' :: List.replicate (2 * depth) ' '

mutual

/-- The text of a value inside so many containers. -/
def render (depth : Nat) : Json → List Char
  | null => "null".toList
  | bool value => (if value then "true" else "false").toList
  | number spelling => spelling
  | string text => renderString text
  | array [] => "[]".toList
  | array (item :: rest) =>
    '[' :: newLine (depth + 1) ++ render (depth + 1) item ++ renderItems (depth + 1) rest ++
      newLine depth ++ [']']
  | object [] => "\x7b\x7d".toList
  | object ((key, value) :: rest) =>
    '\x7b' :: newLine (depth + 1) ++ renderString key ++ ": ".toList ++
      render (depth + 1) value ++ renderMembers (depth + 1) rest ++ newLine depth ++ ['\x7d']

/-- The text of the items behind the first one. -/
def renderItems (depth : Nat) : List Json → List Char
  | [] => []
  | item :: rest => ',' :: newLine depth ++ render depth item ++ renderItems depth rest

/-- The text of the members behind the first one. -/
def renderMembers (depth : Nat) : List (Option String × Json) → List Char
  | [] => []
  | (key, value) :: rest =>
    ',' :: newLine depth ++ renderString key ++ ": ".toList ++ render depth value ++
      renderMembers depth rest

end

/-- The text of a document. -/
def document (value : Json) : String := String.ofList (render 0 value ++ ['\n'])

end Bindery.Json
