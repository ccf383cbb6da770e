/-
**The program: command lines on the files of the machine.**

What a command line may read is taken into a tree of files first, and what the command changed in
the tree is written back last. Between the two nothing is read or written.
-/

import Bindery.Command.Run

namespace Bindery.Main

open Command

/-! ## Reading -/

/-- The absolute path of a location. -/
def pathOf (location : Location) : String := "/" ++ "/".intercalate location.reverse

/-- The location of an absolute path. -/
def locationOf (path : String) : Location :=
  (Path.components path).foldl (fun here part =>
    match part with
    | .root => []
    | .current => here
    | .parent => here.tail
    | .name name => name :: here) []

/-- Whether a folder of the machine has the path. -/
def isFolder (path : String) : IO Bool := do
  let here ← IO.currentDir
  (here / path).isDir

/-- Whether something of the machine has the path. -/
def isThere (path : String) : IO Bool := do
  let here ← IO.currentDir
  (here / path).pathExists

/-- The names of what stands in a folder of the machine. -/
def namesIn (path : String) : IO (List String) := do
  let here ← IO.currentDir
  return (← (here / path).readDir).toList.map (·.fileName)

/-- The content of a file of the machine. -/
def readContent (path : String) : IO Content := do
  let bytes ← IO.FS.readBinFile path
  match String.fromUTF8? bytes with
  | some text => return .text text
  | none => return .raw bytes.toList

/-- What stands at a location of the machine, with everything below it. -/
partial def readBelow (location : Location) : IO (List (Location × Node)) := do
  let path := pathOf location
  if ← isFolder path then
    let inner ← (← namesIn path).mapM fun name => readBelow (name :: location)
    return (location, .folder) :: inner.flatten
  else if ← isThere path then return [(location, .file (← readContent path))]
  else return []

/-- The folders above a location that the machine has. -/
def foldersAbove (location : Location) : IO (List (Location × Node)) := do
  let above := (List.range location.length).map fun count => location.drop (count + 1)
  let folders ← above.filterM fun folder => isFolder (pathOf folder)
  return folders.map fun folder => (folder, .folder)

/-- The paths that a job is about. -/
def pathsOf : Job → List String
  | .extract documentation cache _ _ => [documentation, cache]
  | .generate cache templates output _ => [cache, templates, output]
  | .convert source destination _ _ => [source, destination]
  | .inspect cache _ => [cache]

/-- The part of the machine's files that a command line may read. -/
def readTree (arguments : List String) : IO FileTree := do
  let working := locationOf (toString (← IO.currentDir))
  let start : FileTree := { working }
  match parseArguments arguments with
  | .error _ => return start
  | .ok invocation =>
    let settings := invocation.settings.getD Project.fileName
    let locations := (settings :: pathsOf invocation.job).map fun path =>
      locationOf (Path.join (pathOf working) path)
    let found ← (working :: locations).mapM foldersAbove
    let below ← locations.mapM readBelow
    let own := [(working, Node.folder)]
    return (own ++ found.flatten ++ below.flatten).foldl
      (fun tree (location, node) => tree.set location node) start

/-! ## Writing -/

/-- Writes what is new or different in a tree. -/
def writeChanges (old new : FileTree) : IO Unit := do
  for (location, node) in new.entries do
    if old.at? location != some node then
      match node with
      | .folder => IO.FS.createDirAll (pathOf location)
      | .file (.text text) => IO.FS.writeFile (pathOf location) text
      | .file (.raw bytes) => IO.FS.writeBinFile (pathOf location) ⟨bytes.toArray⟩

end Bindery.Main

/-- Carries out a command line. -/
def main (arguments : List String) : IO UInt32 := do
  let tree ← Bindery.Main.readTree arguments
  let headersRoot ← IO.getEnv "WRAPGEN_HEADERS_ROOT"
  let (outcome, changed) := Bindery.Command.run arguments headersRoot tree
  Bindery.Main.writeChanges tree changed
  for line in outcome.output do IO.println line
  for line in outcome.errors do IO.eprintln line
  return outcome.code.toUInt32
