/-
**The tokens of definition scripts.**

* `TokenKind.name` — the class of a token.
* `TokenKind.display` — a token as error messages show it.
-/

import Bindery.Diagnostic
import Bindery.Text.Quoted

namespace Bindery.Script

/-- The punctuation marks. -/
inductive Punct where
  | openParen
  | closeParen
  | openBrace
  | closeBrace
  | openBracket
  | closeBracket
  | comma
  | semicolon
  | equals
deriving BEq, DecidableEq, Inhabited

namespace Punct

/-- The character of a mark. -/
def char : Punct → Char
  | openParen => '('
  | closeParen => ')'
  | openBrace => '\x7b'
  | closeBrace => '\x7d'
  | openBracket => '['
  | closeBracket => ']'
  | comma => ','
  | semicolon => ';'
  | equals => '='

/-- The mark of a character. -/
def ofChar? (c : Char) : Option Punct :=
  [openParen, closeParen, openBrace, closeBrace, openBracket, closeBracket, comma, semicolon,
    equals].find? fun mark => mark.char = c

/-- A mark between backquotes. -/
def quoted (mark : Punct) : String := "`" ++ mark.char.toString ++ "`"

end Punct

/-- What a token says. -/
inductive TokenKind where
  | identifier (name : String)
  | text (value : String)
  | truth (value : Bool)
  | punct (mark : Punct)
deriving BEq, DecidableEq, Inhabited

/-- The two words for truth values. -/
def truthWord (value : Bool) : String := if value then "true" else "false"

namespace TokenKind

/-- The class of a token; a mark is a class of its own. -/
def name : TokenKind → String
  | identifier _ => "identifier"
  | text _ => "string"
  | truth _ => "boolean"
  | punct mark => mark.char.toString

/-- A token as error messages show it. -/
def display : TokenKind → String
  | identifier name => "`" ++ name ++ "`"
  | text value => String.ofList (Text.showQuoted value.toList)
  | truth value => "`" ++ truthWord value ++ "`"
  | punct mark => mark.quoted

/-- A token with its class, for inspection. -/
def debug : TokenKind → String
  | identifier name => "Identifier(" ++ name ++ ")"
  | text value => "StringLiteral(" ++ String.ofList (Text.showQuoted value.toList) ++ ")"
  | truth value => "Bool(" ++ truthWord value ++ ")"
  | punct mark => mark.char.toString

end TokenKind

/-- A token and where it stands. -/
structure Token where
  kind : TokenKind
  span : Span
deriving BEq, DecidableEq, Inhabited

end Bindery.Script
