/-
**Paths: texts that name files.**

Slashes separate the parts of a path. Empty parts and single dots count for nothing, except that a
dot at the start of a relative path is a part of its own. A path keeps its spelling; two paths are
the same when they have the same parts.

* `Path.components` — the parts of a path.
* `Path.parent?`, `Path.stem?`, `Path.extension?` — what stands before, and in, the last part.
* `Path.join` — a path inside a directory.
-/

namespace Bindery

/-- A part of a path. -/
inductive Component where
  /-- The slash at the start of an absolute path. -/
  | root
  /-- The dot at the start of a relative path. -/
  | current
  /-- The two dots of the directory above. -/
  | parent
  | name (text : String)
deriving BEq, DecidableEq

namespace Path

/-- The pieces of a text between its slashes, where `piece` is what is read so far of the first. -/
def piecesFrom (piece : List Char) : List Char → List (List Char)
  | [] => [piece]
  | c :: cs => if c = '/' then piece :: piecesFrom [] cs else piecesFrom (piece ++ [c]) cs

/-- The pieces of a text between its slashes. -/
def pieces (path : List Char) : List (List Char) := piecesFrom [] path

/-- Whether a piece behind the first counts for nothing. -/
def isVoidPiece (piece : List Char) : Bool := piece.isEmpty || piece == ['.']

/-- The part that a piece behind the first stands for, if it counts. -/
def component? (piece : List Char) : Option Component :=
  if isVoidPiece piece then none
  else if piece = ['.', '.'] then some .parent
  else some (.name (String.ofList piece))

/-- The parts that the first piece of a path stands for; `isOnly` says that no slash follows. -/
def firstComponents (piece : List Char) (isOnly : Bool) : List Component :=
  if piece.isEmpty then if isOnly then [] else [.root]
  else if piece = ['.'] then [.current]
  else (component? piece).toList

/-- The parts of a path. -/
def components (path : String) : List Component :=
  match pieces path.toList with
  | [] => []
  | first :: rest => firstComponents first rest.isEmpty ++ rest.filterMap component?

/-- Pieces with a slash between two of them. -/
def joinPieces (parts : List (List Char)) : List Char := ['/'].intercalate parts

/-- The pieces of a path without those at its end that count for nothing; the first piece stays. -/
def dropVoidEnd : List (List Char) → List (List Char)
  | [] => []
  | first :: rest => first :: (rest.reverse.dropWhile isVoidPiece).reverse

/-- The path without its last part, if it has one that is not the root. -/
def parent? (path : String) : Option String :=
  match dropVoidEnd (pieces path.toList) with
  | [] => none
  | [only] => if only.isEmpty then none else some ""
  | trimmed =>
    match dropVoidEnd trimmed.dropLast with
    | [[]] => some "/"
    | kept => some (String.ofList (joinPieces kept))

/-- The name of the last part, if it is a name. -/
def fileName? (path : String) : Option String :=
  match (components path).getLast? with
  | some (.name text) => some text
  | _ => none

/-- A name split at its last dot; a dot at its start does not count. -/
def splitName (name : List Char) : List Char × Option (List Char) :=
  let behind := (name.reverse.takeWhile (· ≠ '.')).reverse
  let before := name.take (name.length - behind.length - 1)
  if before.isEmpty then (name, none) else (before, some behind)

/-- The name of the last part without its extension. -/
def stem? (path : String) : Option String :=
  (fileName? path).map fun name => String.ofList (splitName name.toList).1

/-- What stands behind the last dot of the last part. -/
def extension? (path : String) : Option String := do
  let name ← fileName? path
  let behind ← (splitName name.toList).2
  return String.ofList behind

/-- The path `inner` seen from the directory `outer`; an absolute path stays as it is. -/
def join (outer inner : String) : String :=
  if inner.toList.head? = some '/' then inner
  else if outer.isEmpty ∨ outer.toList.getLast? = some '/' then outer ++ inner
  else outer ++ "/" ++ inner

/-- Whether the spelling of a path asks for a directory: it ends with a slash, or with a slash and
a dot. -/
def asksForFolder (path : String) : Bool :=
  match (pieces path.toList).reverse with
  | last :: _ :: _ => isVoidPiece last
  | _ => false

end Path

end Bindery
