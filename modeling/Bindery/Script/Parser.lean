/-
**From the tokens of a script to its calls.**

A script is read one token at a time by a stack machine: the stack holds the calls whose blocks
are open, and a position says which tokens may come next. The first token that may not come is the
error, and the punctuation marks that might have come in its place are what was expected.

* `Parser.step` — one token.
* `Parser.expected` — the punctuation marks that may come next.
* `parse` — all calls of a script, or its syntax error.
-/

import Bindery.Script.Call
import Bindery.Script.Token

namespace Bindery.Script

/-! ## Errors -/

/-- A token that may not come where it stands, or the end of the script where it may not end. -/
structure SyntaxError where
  /-- The token; nothing at the end of the script. -/
  found : Option TokenKind
  /-- The punctuation marks that may come there, in the order of their characters. -/
  expected : List Punct
  span : Span
deriving BEq, DecidableEq

namespace SyntaxError

/-- The wording of what was expected, if any punctuation mark was. -/
def expectation (error : SyntaxError) : Option String :=
  if error.expected.isEmpty then none
  else some ("expected " ++ " or ".intercalate (error.expected.map Punct.quoted))

/-- The wording of an error. -/
def message (error : SyntaxError) : String :=
  let what := match error.found with
    | some kind => "unexpected token " ++ kind.display
    | none => "unexpected end of input"
  match error.expectation with
  | some expectation => what ++ ", " ++ expectation
  | none => what

/-- An error as a message about the source text. -/
def diagnostic (error : SyntaxError) (source : String) : Diagnostic :=
  { source, span := error.span, message := error.message, label := error.expectation }

end SyntaxError

/-! ## The machine -/

/-- The part of a call in front of its block; the arguments are kept in reverse. -/
structure CallHead where
  name : String
  nameSpan : Span
  arguments : List Argument := []
deriving BEq, DecidableEq

/-- An argument up to its value: its name, if any, and the offset at which it starts. -/
structure ArgumentHead where
  name : Option String
  start : Nat
deriving BEq, DecidableEq

/-- Behind which part of a call the parser stands. Read items are kept in reverse. -/
inductive Position where
  /-- Before a call or behind the last one. -/
  | statement
  /-- Behind the name of a call. -/
  | opening (head : CallHead)
  /-- Behind the parenthesis or a comma: an argument or the end of the arguments follows. -/
  | argument (head : CallHead)
  /-- Behind a word that must be the name of an argument. -/
  | naming (head : CallHead) (argument : ArgumentHead)
  /-- Behind the name of an argument. -/
  | value (head : CallHead) (argument : ArgumentHead)
  /-- Behind the bracket of a list or a comma in it. -/
  | item (head : CallHead) (argument : ArgumentHead) (items : List String)
  /-- Behind an item of a list. -/
  | itemEnd (head : CallHead) (argument : ArgumentHead) (items : List String)
  /-- Behind an argument. -/
  | argumentEnd (head : CallHead)
  /-- Behind the arguments. -/
  | ending (head : CallHead)
deriving BEq, DecidableEq

/-- A call whose block is open, with the calls in front of it in reverse. -/
structure OpenCall where
  before : List Call
  head : CallHead

/-- Where the parser stands: the open calls, innermost first, the complete calls of the innermost
block in reverse, and the position behind them. -/
structure Parser where
  stack : List OpenCall := []
  calls : List Call := []
  position : Position := .statement

namespace CallHead

/-- The call of a head with its block, ending with the token at `last`. -/
def close (head : CallHead) (body : Option (List Call)) (last : Span) : Call :=
  .mk head.name head.nameSpan head.arguments.reverse body (head.nameSpan.to last)

/-- The head with one more argument, ending with the token at `last`. -/
def push (head : CallHead) (argument : ArgumentHead) (value : Value) (last : Span) : CallHead :=
  { head with
    arguments := ⟨argument.name, value, ⟨argument.start, last.stop⟩⟩ :: head.arguments }

end CallHead

/-- The position behind a token that starts a value, if it does. -/
def CallHead.afterValue (head : CallHead) (argument : ArgumentHead) (token : Token) :
    Option Position :=
  match token.kind with
  | .text value => some (.argumentEnd (head.push argument (.text value) token.span))
  | .truth value => some (.argumentEnd (head.push argument (.truth value) token.span))
  | .punct .openBracket => some (.item head argument [])
  | _ => none

namespace Parser

/-- The punctuation marks that may come next, in the order of their characters. -/
def expected (at_ : Parser) : List Punct :=
  match at_.position with
  | .statement => if at_.stack.isEmpty then [] else [.closeBrace]
  | .opening _ => [.openParen]
  | .argument _ => [.closeParen, .openBracket]
  | .naming .. => [.equals]
  | .value .. => [.openBracket]
  | .item .. => [.closeBracket]
  | .itemEnd .. => [.comma, .closeBracket]
  | .argumentEnd _ => [.closeParen, .comma]
  | .ending _ => [.semicolon, .openBrace]

/-- The parser at another position. -/
def moveTo (at_ : Parser) (position : Position) : Parser := { at_ with position }

/-- The parser behind one more complete call. -/
def finishCall (at_ : Parser) (call : Call) : Parser :=
  { at_ with calls := call :: at_.calls, position := .statement }

/-- Where the parser stands behind a token, if the token may come. -/
def step (at_ : Parser) (token : Token) : Option Parser :=
  match at_.position, token.kind with
  | .statement, .identifier name => some (at_.moveTo (.opening { name, nameSpan := token.span }))
  | .statement, .punct .closeBrace =>
    match at_.stack with
    | [] => none
    | parent :: outer =>
      some (finishCall { stack := outer, calls := parent.before }
        (parent.head.close (some at_.calls.reverse) token.span))
  | .opening head, .punct .openParen => some (at_.moveTo (.argument head))
  | .argument head, .punct .closeParen => some (at_.moveTo (.ending head))
  | .argument head, .identifier name =>
    some (at_.moveTo (.naming head ⟨some name, token.span.start⟩))
  | .argument head, _ =>
    (head.afterValue ⟨none, token.span.start⟩ token).map at_.moveTo
  | .naming head argument, .punct .equals => some (at_.moveTo (.value head argument))
  | .value head argument, _ => (head.afterValue argument token).map at_.moveTo
  | .item head argument items, .text item =>
    some (at_.moveTo (.itemEnd head argument (item :: items)))
  | .itemEnd head argument items, .punct .comma => some (at_.moveTo (.item head argument items))
  | .item head argument items, .punct .closeBracket
  | .itemEnd head argument items, .punct .closeBracket =>
    some (at_.moveTo (.argumentEnd (head.push argument (.list items.reverse) token.span)))
  | .argumentEnd head, .punct .comma => some (at_.moveTo (.argument head))
  | .argumentEnd head, .punct .closeParen => some (at_.moveTo (.ending head))
  | .ending head, .punct .semicolon => some (at_.finishCall (head.close none token.span))
  | .ending head, .punct .openBrace => some { stack := ⟨at_.calls, head⟩ :: at_.stack }
  | _, _ => none

/-- The calls of a script that ends here, if it may; `stop` is the end of its last token. -/
def finish (at_ : Parser) (stop : Nat) : Except SyntaxError (List Call) :=
  match at_.position, at_.stack with
  | .statement, [] => .ok at_.calls.reverse
  | _, _ => .error ⟨none, at_.expected, ⟨stop, stop + 1⟩⟩

/-- Reads the rest of a script; `stop` is the end of the last token read. -/
def run (at_ : Parser) (stop : Nat) : List Token → Except SyntaxError (List Call)
  | [] => at_.finish stop
  | token :: rest =>
    match at_.step token with
    | some next => next.run token.span.stop rest
    | none => .error ⟨some token.kind, at_.expected, token.span⟩

end Parser

/-- The calls of a script. -/
def parse (tokens : List Token) : Except SyntaxError (List Call) := Parser.run {} 0 tokens

end Bindery.Script
