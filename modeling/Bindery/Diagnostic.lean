/-
**Messages that point into a source text.**

A span is a range of byte offsets; its end is not part of it.
-/

namespace Bindery

/-- A range of byte offsets in a source text. -/
structure Span where
  start : Nat
  stop : Nat
deriving BEq, DecidableEq, Inhabited

/-- The least span that holds two spans, the first of which starts first. -/
def Span.to (first last : Span) : Span := ⟨first.start, last.stop⟩

/-- How grave a message is. -/
inductive Severity where
  | error
  | warning
  | info
deriving BEq, DecidableEq, Inhabited

/-- The name of a severity. -/
def Severity.name : Severity → String
  | .error => "Error"
  | .warning => "Warning"
  | .info => "Info"

/-- A message about a span of a named source text, with a text for the span and a remedy. -/
structure Diagnostic where
  source : String
  span : Span
  message : String
  label : Option String := none
  help : Option String := none
  severity : Severity := .error
deriving BEq, DecidableEq, Inhabited

end Bindery
