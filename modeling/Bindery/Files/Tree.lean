/-
**A tree of files and folders as a value.**

Every operation on files is a function of such a tree. A relative path starts at the working
folder, two dots lead to the folder above, and no path goes on behind a file.

* `FileTree.node?` — what a path names.
* `FileTree.writeFile?`, `FileTree.makeFolders` — the two ways to change a tree. Both may fail; then
  the file is not written, and the folders up to the one that cannot be there are created.
-/

import Bindery.Files.Path

namespace Bindery

/-- The content of a file: a text, or bytes that are the UTF-8 form of no text. -/
inductive Content where
  | text (value : String)
  | raw (bytes : List UInt8)
deriving BEq, DecidableEq, Inhabited

/-- What stands at a location. -/
inductive Node where
  | folder
  | file (content : Content)
deriving BEq, DecidableEq, Inhabited

/-- The names on the way to a file or folder, the innermost first; the root has none. -/
abbrev Location := List String

/-- Files and folders by location, and the folder at which relative paths start. -/
structure FileTree where
  entries : List (Location × Node) := []
  working : Location := []
deriving Inhabited

namespace FileTree

/-! ## Locations -/

/-- What stands at a location; the root is always a folder. -/
def at? (tree : FileTree) (location : Location) : Option Node :=
  if location.isEmpty then some .folder
  else (tree.entries.find? fun entry => entry.1 == location).map Prod.snd

/-- Whether a folder stands at a location. -/
def isFolderAt (tree : FileTree) (location : Location) : Bool := tree.at? location == some .folder

/-- Puts a node at a location. -/
def placeAt (location : Location) (node : Node) : List (Location × Node) → List (Location × Node)
  | [] => [(location, node)]
  | (other, old) :: rest =>
    if other = location then (location, node) :: rest
    else (other, old) :: placeAt location node rest

/-- The tree with a node at a location. -/
def set (tree : FileTree) (location : Location) (node : Node) : FileTree :=
  { tree with entries := placeAt location node tree.entries }

/-- Whether a file or folder may bear a name: names have at most 255 bytes. -/
def isName (name : String) : Bool := name.utf8ByteSize ≤ 255

/-- Whether a text may be a path: paths have at most 4095 bytes and no zero. -/
def isPath (path : String) : Bool := path.utf8ByteSize ≤ 4095 && !path.toList.contains '\x00'

/-- The location behind one part of a path, whether something stands there or not. Every part but
the root starts from a folder. -/
def enter (tree : FileTree) (here : Location) : Component → Option Location
  | .root => some []
  | .current => if tree.isFolderAt here then some here else none
  | .parent => if tree.isFolderAt here then some here.tail else none
  | .name name => if tree.isFolderAt here && isName name then some (name :: here) else none

/-- The location that a path leads to, if all of its parts but the last exist. -/
def locate? (tree : FileTree) (path : String) : Option Location :=
  if path.isEmpty || !isPath path then none
  else (Path.components path).foldlM tree.enter tree.working

/-! ## Reading -/

/-- What a path names. -/
def node? (tree : FileTree) (path : String) : Option Node := do
  let node ← tree.at? (← tree.locate? path)
  if Path.asksForFolder path && node != .folder then none else some node

/-- Whether a path names a file or a folder. -/
def hasNode (tree : FileTree) (path : String) : Bool := (tree.node? path).isSome

/-- The absolute path of the working folder. -/
def workingPath (tree : FileTree) : String := "/" ++ "/".intercalate tree.working.reverse

/-- Whether a path names a folder. -/
def isFolder (tree : FileTree) (path : String) : Bool := tree.node? path == some .folder

/-- The content of the file that a path names. -/
def content? (tree : FileTree) (path : String) : Option Content :=
  match tree.node? path with
  | some (.file content) => some content
  | _ => none

/-- Whether a path names a file. -/
def isFile (tree : FileTree) (path : String) : Bool := (tree.content? path).isSome

/-- The text of the file that a path names. -/
def text? (tree : FileTree) (path : String) : Option String :=
  match tree.content? path with
  | some (.text value) => some value
  | _ => none

/-- The names of what stands in the folder that a path names. -/
def names (tree : FileTree) (path : String) : List String :=
  match tree.locate? path with
  | none => []
  | some folder => tree.entries.filterMap fun entry =>
      match entry.1 with
      | [] => none
      | name :: holder => if holder = folder then some name else none

/-! ## Writing -/

/-- Writes a file anew. Its folder has to exist, and no folder may stand in its place. -/
def writeFile? (tree : FileTree) (path : String) (content : Content) : Option FileTree := do
  let location ← tree.locate? path
  if Path.asksForFolder path || tree.isFolderAt location then none
  else some (tree.set location (.file content))

/-- Creates the folders that the parts of a path lead to, from a location on. It stops at a part
that leads nowhere or to a file, and says whether there was none. -/
def makeFoldersFrom (tree : FileTree) (here : Location) : List Component → FileTree × Bool
  | [] => (tree, true)
  | part :: parts =>
    match tree.enter here part with
    | none => (tree, false)
    | some location =>
      match tree.at? location with
      | some .folder => makeFoldersFrom tree location parts
      | some (.file _) => (tree, false)
      | none => makeFoldersFrom (tree.set location .folder) location parts

/-- Creates the folder that a path names, with all folders above it, and says whether all of them
are there now. -/
def makeFolders (tree : FileTree) (path : String) : FileTree × Bool :=
  if isPath path then tree.makeFoldersFrom tree.working (Path.components path) else (tree, false)

/-- The locations of the files that are not in an older tree with the same content. -/
def changedSince (tree old : FileTree) : List (Location × Content) :=
  tree.entries.filterMap fun
    | (location, .file content) =>
      if old.at? location == some (.file content) then none else some (location, content)
    | _ => none

end FileTree

end Bindery
