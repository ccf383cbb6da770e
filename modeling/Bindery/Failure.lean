/-
**What can go wrong outside a script, and its wording.**

A failure names its cause; some name the work during which another failure happened.

* `Failure.message` — the whole chain on one line, the outermost part first.
* `Failure.cause` — the innermost failure of a chain.
-/

import Bindery.Symbols.Function

namespace Bindery

/-- Work on a file that did not succeed. -/
inductive FileAction where
  | createCacheFolder
  | createOutputFolder
  | write
  | readTemplate
  | readConfiguration
  | parseConfiguration
deriving BEq, DecidableEq

/-- The wording of an action, the path behind it. -/
def FileAction.phrase : FileAction → String
  | .createCacheFolder => "create cache directory"
  | .createOutputFolder => "create output directory"
  | .write => "write"
  | .readTemplate => "read template"
  | .readConfiguration => "read configuration"
  | .parseConfiguration => "parse configuration"

/-- What went wrong. -/
inductive Failure where
  | missingFolder (path : String)
  | missingIndex (path : String)
  /-- A document does not have the form that it should have. -/
  | malformed (path detail : String)
  /-- A file that is there has no readable text. -/
  | inaccessible (path : String)
  | failedTo (action : FileAction) (path : String)
  | duplicateParameter (duplicate : Symbols.DuplicateParameter)
  /-- Members of a class refer to it by a name that it does not have. -/
  | unattachedClass (name header : String)
  | pathCollision (path : String)
  | emptyCache (path : String)
  | unsupportedConfiguration (path : String)
  /-- A failure in the elements of a document. -/
  | inDocument (path : String) (cause : Failure)
  /-- A failure while a folder of documentation was read. -/
  | extracting (path : String) (cause : Failure)
deriving BEq, DecidableEq

namespace Failure

/-- The failure in words. -/
def message : Failure → String
  | missingFolder path => "directory " ++ path ++ " does not exist"
  | missingIndex path => "index document " ++ path ++ " is missing"
  | malformed path detail => "malformed document " ++ path ++ ": " ++ detail
  | inaccessible path => "failed to access " ++ path
  | failedTo action path => "failed to " ++ action.phrase ++ " " ++ path
  | duplicateParameter duplicate => duplicate.message
  | unattachedClass name header =>
    "class `" ++ name ++ "` could not be attached under " ++ header
  | pathCollision path => "more than one generated file maps to " ++ path
  | emptyCache path => "definitions cache " ++ path ++ " is empty"
  | unsupportedConfiguration path =>
    "unsupported configuration format for " ++ path ++ " (expected .json)"
  | inDocument path cause => "in " ++ path ++ ": " ++ cause.message
  | extracting path cause =>
    "failed to extract definitions from " ++ path ++ ": " ++ cause.message

/-- The innermost failure. -/
def cause : Failure → Failure
  | inDocument _ inner | extracting _ inner => inner.cause
  | innermost => innermost

end Failure

end Bindery
