/-
**From the text of a JSON document to its value.**

Two machines work one after the other: the first one turns characters into tokens, the second one
turns tokens into a value, with a stack of the arrays and objects that are open.

* `Json.Lexer.step`, `Json.Parser.step` — one character, one token.
* `Json.parse?` — the value of a document.
-/

import Bindery.Json.Number
import Bindery.Json.Value

namespace Bindery.Json

/-! ## Tokens -/

/-- A token of a JSON document. -/
inductive Token where
  | openBrace
  | closeBrace
  | openBracket
  | closeBracket
  | comma
  | colon
  /-- A string, which is a value or a key. -/
  | string (text : Option String)
  /-- A value of one token that is no string. -/
  | leaf (value : Json)

/-- A part of a string: a character, or a surrogate that an escape gives. -/
inductive StringPart where
  | char (c : Char)
  | surrogate (code : Nat)

/-- The character of a surrogate pair. -/
def pairChar (high low : Nat) : Char :=
  Char.ofNat (0x10000 + (high - 0xD800) * 0x400 + (low - 0xDC00))

/-- The characters of a string, if each of its surrogates is one of a pair. -/
def stringChars? : List StringPart → Option (List Char)
  | [] => some []
  | .char c :: rest => (stringChars? rest).map (c :: ·)
  | .surrogate high :: .surrogate low :: rest =>
    if high < 0xDC00 ∧ 0xDC00 ≤ low then (stringChars? rest).map (pairChar high low :: ·) else none
  | .surrogate _ :: _ => none

/-- The part that an escaped code stands for. -/
def codePart (code : Nat) : StringPart :=
  if 0xD800 ≤ code ∧ code ≤ 0xDFFF then .surrogate code else .char (Char.ofNat code)

/-- The character that a backslash with `c` behind it stands for. -/
def escapedChar? (c : Char) : Option Char :=
  if c = '"' ∨ c = '\\' ∨ c = '/' then some c
  else if c = 'b' then some '\x08'
  else if c = 'f' then some '\x0c'
  else if c = 'n' then some '\n'
  else if c = 'r' then some '\r'
  else if c = 't' then some '\t'
  else none

/-- The value of a hexadecimal digit. -/
def hexDigit? (c : Char) : Option Nat :=
  if '0' ≤ c ∧ c ≤ '9' then some (c.toNat - '0'.toNat)
  else if 'a' ≤ c ∧ c ≤ 'f' then some (c.toNat - 'a'.toNat + 10)
  else if 'A' ≤ c ∧ c ≤ 'F' then some (c.toNat - 'A'.toNat + 10)
  else none

/-! ## From characters to tokens -/

/-- What the lexer is in the middle of; what is read is kept in reverse. -/
inductive LexMode where
  | between
  | word (read : List Char)
  | number (read : List Char)
  | string (read : List StringPart)
  | escape (read : List StringPart)
  /-- Inside the four digits of an escaped code. -/
  | code (read : List StringPart) (missing value : Nat)

/-- The value of a word. -/
def wordValue? (word : List Char) : Option Json :=
  if word = "true".toList then some (.bool true)
  else if word = "false".toList then some (.bool false)
  else if word = "null".toList then some .null
  else none

/-- The token of a character that is one by itself. -/
def punctuation? (c : Char) : Option Token :=
  if c = '\x7b' then some .openBrace
  else if c = '\x7d' then some .closeBrace
  else if c = '[' then some .openBracket
  else if c = ']' then some .closeBracket
  else if c = ',' then some .comma
  else if c = ':' then some .colon
  else none

/-- The four characters that may stand between tokens. -/
def isJsonSpace (c : Char) : Bool := c == ' ' || c == '\n' || c == '\t' || c == '\r'

/-- The characters of numbers. -/
def isNumberChar (c : Char) : Bool :=
  c.isDigit || c == '-' || c == '+' || c == '.' || c == 'e' || c == 'E'

namespace LexMode

/-- One character between two tokens. -/
def stepBetween (c : Char) : Option (LexMode × List Token) :=
  if isJsonSpace c then some (.between, [])
  else if c = '"' then some (.string [], [])
  else if c.isDigit || c == '-' then some (.number [c], [])
  else if c.isAlpha then some (.word [c], [])
  else (punctuation? c).map fun token => (.between, [token])

/-- The token that ends in front of the next character, if one does. -/
def pending? : LexMode → Option (List Token)
  | .between => some []
  | .word read => (wordValue? read.reverse).map fun value => [.leaf value]
  | .number read => if isNumber read.reverse then some [.leaf (.number read.reverse)] else none
  | _ => none

/-- One character: the mode behind it and the tokens that it completes. -/
def step (mode : LexMode) (c : Char) : Option (LexMode × List Token) :=
  match mode with
  | .between => stepBetween c
  | .word read => if c.isAlpha then some (.word (c :: read), []) else endBefore mode c
  | .number read => if isNumberChar c then some (.number (c :: read), []) else endBefore mode c
  | .string read =>
    if c = '"' then
      some (.between, [.string ((stringChars? read.reverse).map String.ofList)])
    else if c = '\\' then some (.escape read, [])
    else if c.toNat < 0x20 then none
    else some (.string (.char c :: read), [])
  | .escape read =>
    if c = 'u' then some (.code read 4 0, [])
    else (escapedChar? c).map fun meant => (.string (.char meant :: read), [])
  | .code read missing value => do
    let code := 16 * value + (← hexDigit? c)
    if missing ≤ 1 then some (.string (codePart code :: read), [])
    else some (.code read (missing - 1) code, [])
where
  /-- Ends a word or a number in front of a character. -/
  endBefore (mode : LexMode) (c : Char) : Option (LexMode × List Token) := do
    let ended ← mode.pending?
    let (next, tokens) ← stepBetween c
    some (next, ended ++ tokens)

/-- The tokens of the rest of a document. -/
def run (mode : LexMode) : List Char → Option (List Token)
  | [] => mode.pending?
  | c :: cs => do
    let (next, tokens) ← mode.step c
    return tokens ++ (← next.run cs)

end LexMode

/-! ## From tokens to a value -/

/-- An array or an object that is open; what is read of it is kept in reverse. -/
inductive Frame where
  | array (items : List Json)
  /-- An object, with the key of the value that comes next. -/
  | object (members : List (Option String × Json)) (key : Option String)

/-- What may come next. -/
inductive ParsePosition where
  /-- A value. -/
  | value
  /-- A value or the end of an array that is empty so far. -/
  | firstItem
  /-- A key, behind a comma in an object. -/
  | key (members : List (Option String × Json))
  /-- A key or the end of an object that is empty so far. -/
  | firstKey
  /-- The colon behind a key. -/
  | colon
  /-- A comma or the end of the innermost container. -/
  | behind
  /-- Nothing: the document has its value. -/
  | complete (value : Json)

/-- Where the parser stands: the open containers, innermost first, and what may come next. -/
structure Parser where
  stack : List Frame := []
  position : ParsePosition := .value

namespace Parser

/-- The parser behind a complete value, with the containers around it. -/
def put (value : Json) : List Frame → Parser
  | [] => { position := .complete value }
  | .array items :: outer => { stack := .array (value :: items) :: outer, position := .behind }
  | .object members key :: outer =>
    { stack := .object ((key, value) :: members) key :: outer, position := .behind }

/-- The parser behind a token that starts a value, if it does. -/
def startValue (stack : List Frame) : Token → Option Parser
  | .string text => some (put (.string text) stack)
  | .leaf value => some (put value stack)
  | .openBracket => some { stack := .array [] :: stack, position := .firstItem }
  | .openBrace => some { stack, position := .firstKey }
  | _ => none

/-- The parser behind a token, if the token may come. -/
def step (at_ : Parser) (token : Token) : Option Parser :=
  match at_.position, token, at_.stack with
  | .value, token, stack => startValue stack token
  | .firstItem, .closeBracket, .array items :: outer => some (put (.array items.reverse) outer)
  | .firstItem, token, stack => startValue stack token
  | .firstKey, .closeBrace, stack => some (put (.object []) stack)
  | .firstKey, .string key, stack =>
    some { stack := .object [] key :: stack, position := .colon }
  | .key members, .string key, stack =>
    some { stack := .object members key :: stack, position := .colon }
  | .colon, .colon, stack => some { stack, position := .value }
  | .behind, .comma, .array items :: outer =>
    some { stack := .array items :: outer, position := .value }
  | .behind, .comma, .object members _ :: outer =>
    some { stack := outer, position := .key members }
  | .behind, .closeBracket, .array items :: outer => some (put (.array items.reverse) outer)
  | .behind, .closeBrace, .object members _ :: outer =>
    some (put (.object members.reverse) outer)
  | _, _, _ => none

/-- The parser behind all tokens. -/
def run (at_ : Parser) : List Token → Option Parser
  | [] => some at_
  | token :: rest => (at_.step token).bind (·.run rest)

end Parser

/-- The value of a JSON document, if the text is one. -/
def parse? (text : String) : Option Json := do
  let tokens ← LexMode.run .between text.toList
  match (← Parser.run {} tokens).position with
  | .complete value => some value
  | _ => none

end Bindery.Json
