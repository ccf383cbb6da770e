/-
**From the text of a definition script to a symbol table.**

* `read` — the table of a script, or what is wrong with its characters, tokens or statements.
* `ScriptError.summary` — all errors in one line.
-/

import Bindery.Script.Lexer
import Bindery.Script.Parser
import Bindery.Script.Statement

namespace Bindery.Script

open Symbols

/-- What keeps a text from being a script. -/
inductive ScriptError where
  /-- Its characters; all such errors are known together. -/
  | lexical (errors : List LexError)
  /-- Its tokens. -/
  | syntactic (error : SyntaxError)
  /-- Its statements. -/
  | statement (error : StatementError)

namespace ScriptError

/-- The errors as messages about the source text. -/
def diagnostics (error : ScriptError) (source : String) : List Diagnostic :=
  match error with
  | .lexical errors => errors.map (·.diagnostic source)
  | .syntactic error => [error.diagnostic source]
  | .statement error => [error.diagnostic source]

/-- The first message, with the number of the others. -/
def summary (error : ScriptError) : String :=
  match error.diagnostics "" with
  | [] => "invalid definitions script"
  | [only] => only.message
  | first :: rest => first.message ++ " (and " ++ toString rest.length ++ " more)"

end ScriptError

/-- The calls of a script. -/
def readCalls (source : String) : Except ScriptError (List Call) := do
  let tokens ← (tokenize source).mapError .lexical
  (parse tokens).mapError .syntactic

/-- The table that a script describes. -/
def read (source : String) (policy : DuplicatePolicy) : Except ScriptError Table := do
  (buildTable policy (← readCalls source)).mapError .statement

end Bindery.Script
