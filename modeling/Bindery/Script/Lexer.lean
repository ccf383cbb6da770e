/-
**From the characters of a script to its tokens.**

The text is read one character at a time. A token or an error is found at its last character, or at
the character behind it when only that one shows the end.

* `Lexer.step` — one character: where the reader then stands and what it has found.
* `tokenize` — all tokens, or all errors when there is one.
* `LexError.diagnostic` — the wording of an error.
-/

import Bindery.Script.Token
import Bindery.Text.Blank

namespace Bindery.Script

/-! ## Errors -/

/-- What is wrong with the characters of a script. -/
inductive LexErrorKind where
  | unterminatedText
  | unknownEscape (c : Char)
  | unexpectedCharacter (c : Char)
deriving BEq, DecidableEq

/-- An error with its span and the line and column that it reports. -/
structure LexError where
  kind : LexErrorKind
  line : Nat
  column : Nat
  span : Span
deriving BEq, DecidableEq

namespace LexError

/-- The wording of an error, its place included. -/
def message (error : LexError) : String :=
  let what := match error.kind with
    | .unterminatedText => "unterminated string literal"
    | .unknownEscape c => "unknown escape `\\" ++ c.toString ++ "`"
    | .unexpectedCharacter c => "unexpected character `" ++ c.toString ++ "`"
  what ++ " (line " ++ toString error.line ++ ", column " ++ toString error.column ++ ")"

/-- An error as a message about the source text. -/
def diagnostic (error : LexError) (source : String) : Diagnostic :=
  let plain : Diagnostic := { source, span := error.span, message := error.message }
  match error.kind with
  | .unterminatedText =>
    { plain with label := some "string starts here", help := some "close the string with `\"`" }
  | .unknownEscape _ =>
    { plain with
      label := some "unknown escape"
      help := some "supported escapes are \\n \\t \\r \\\" and \\\\" }
  | .unexpectedCharacter _ => { plain with label := some "not part of the definitions syntax" }

end LexError

/-- A token or an error. -/
abbrev Finding := Except LexError Token

/-! ## The reader -/

/-- What the reader is in the middle of. The characters of a word or a text are kept in reverse. -/
inductive LexMode where
  | between
  /-- Behind one slash, which begins a comment if another one follows. -/
  | slash
  | comment
  | word (start : Nat) (read : List Char)
  | text (start column : Nat) (read : List Char)
  /-- Behind a backslash inside a text. -/
  | escape (start column : Nat) (read : List Char)
deriving BEq, DecidableEq

/-- Where the reader stands: its mode, the byte offset of the next character, the number of its
line and the offset at which that line starts. -/
structure Lexer where
  mode : LexMode := .between
  offset : Nat := 0
  line : Nat := 1
  lineStart : Nat := 0
deriving BEq, DecidableEq

/-- The characters that words start with. -/
def isWordStart (c : Char) : Bool := c.isAlpha || c == '_'

/-- The characters that words go on with. -/
def isWordPart (c : Char) : Bool := c.isAlphanum || c == '_'

/-- The token of a word: the two truth values are no identifiers. -/
def wordKind (word : String) : TokenKind :=
  if word = truthWord true then .truth true
  else if word = truthWord false then .truth false
  else .identifier word

namespace Lexer

/-- The column of a byte offset in the current line. -/
def columnOf (at_ : Lexer) (offset : Nat) : Nat := offset - at_.lineStart + 1

/-- The reader behind the character `c`, in a new mode. -/
def past (at_ : Lexer) (c : Char) (mode : LexMode) : Lexer :=
  { at_ with mode, offset := at_.offset + c.utf8Size }

/-- The reader behind a line break, in a new mode. -/
def pastLine (at_ : Lexer) (mode : LexMode) : Lexer :=
  { mode, offset := at_.offset + 1, line := at_.line + 1, lineStart := at_.offset + 1 }

/-- The error that a character is not part of the language, `back` bytes before the reader. -/
def unexpected (at_ : Lexer) (c : Char) (back : Nat) : Finding :=
  let start := at_.offset - back
  .error ⟨.unexpectedCharacter c, at_.line, at_.columnOf start, ⟨start, start + c.utf8Size⟩⟩

/-- One character between two tokens. -/
def stepBetween (at_ : Lexer) (c : Char) : Lexer × List Finding :=
  if c = '\n' then (at_.pastLine .between, [])
  else if Text.isBlank c then (at_.past c .between, [])
  else if c = '/' then (at_.past c .slash, [])
  else if c = '"' then (at_.past c (.text at_.offset (at_.columnOf at_.offset) []), [])
  else if isWordStart c then (at_.past c (.word at_.offset [c]), [])
  else match Punct.ofChar? c with
    | some mark =>
      (at_.past c .between, [.ok ⟨.punct mark, ⟨at_.offset, at_.offset + c.utf8Size⟩⟩])
    | none => (at_.past c .between, [at_.unexpected c 0])

/-- The token of a word that ends before the reader. -/
def wordToken (at_ : Lexer) (start : Nat) (read : List Char) : Finding :=
  .ok ⟨wordKind (String.ofList read.reverse), ⟨start, at_.offset⟩⟩

/-- One character: where the reader stands behind it, and what has been found. -/
def step (at_ : Lexer) (c : Char) : Lexer × List Finding :=
  match at_.mode with
  | .between => at_.stepBetween c
  | .slash =>
    if c = '/' then (at_.past c .comment, [])
    else
      let (next, found) := at_.stepBetween c
      (next, at_.unexpected '/' 1 :: found)
  | .comment => if c = '\n' then (at_.pastLine .between, []) else (at_.past c .comment, [])
  | .word start read =>
    if isWordPart c then (at_.past c (.word start (c :: read)), [])
    else
      let (next, found) := at_.stepBetween c
      (next, at_.wordToken start read :: found)
  | .text start column read =>
    if c = '"' then
      (at_.past c .between,
        [.ok ⟨.text (String.ofList read.reverse), ⟨start, at_.offset + 1⟩⟩])
    else if c = '\\' then (at_.past c (.escape start column read), [])
    else if c = '\n' then (at_.pastLine (.text start column (c :: read)), [])
    else (at_.past c (.text start column (c :: read)), [])
  | .escape start column read =>
    match Text.unescape? c with
    | some meant => (at_.past c (.text start column (meant :: read)), [])
    | none =>
      let slash := at_.offset - 1
      (at_.past c (.text start column read),
        [.error ⟨.unknownEscape c, at_.line, at_.columnOf slash,
          ⟨slash, at_.offset + c.utf8Size⟩⟩])

/-- What the end of the text shows to have been found. -/
def finish (at_ : Lexer) : List Finding :=
  match at_.mode with
  | .between | .comment => []
  | .slash => [at_.unexpected '/' 1]
  | .word start read => [at_.wordToken start read]
  | .text start column _ | .escape start column _ =>
    [.error ⟨.unterminatedText, at_.line, column, ⟨start, at_.offset⟩⟩]

/-- Everything found in the rest of a text, in order. -/
def run (at_ : Lexer) : List Char → List Finding
  | [] => at_.finish
  | c :: cs =>
    let (next, found) := at_.step c
    found ++ next.run cs

end Lexer

/-! ## Whole scripts -/

/-- The tokens of a script, or all its errors if there is one. -/
def tokenize (source : String) : Except (List LexError) (List Token) :=
  let found := Lexer.run {} source.toList
  let errors := found.filterMap fun
    | .error e => some e
    | .ok _ => none
  if errors.isEmpty then
    .ok (found.filterMap fun
      | .ok token => some token
      | .error _ => none)
  else .error errors

end Bindery.Script
