/-
**Work on a tree of files that may fail half-way.**

What was written before a failure stays written.

* `Disk` — a program that reads and changes a tree and may end in a failure.
* `Disk.reading` — a program that only reads.
-/

import Bindery.Failure
import Bindery.Files.Tree

namespace Bindery

/-- A program that works on a tree of files. -/
abbrev Disk := EStateM Failure FileTree

namespace Disk

/-- The program that reads something and changes nothing. -/
def reading {α : Type} (read : FileTree → Except Failure α) : Disk α := fun tree =>
  match read tree with
  | .ok value => .ok value tree
  | .error failure => .error failure tree

/-- Writes a text file anew. -/
def writeText (path text : String) : Disk Unit := fun tree =>
  match tree.writeFile? path (.text text) with
  | some changed => .ok () changed
  | none => .error (.failedTo .write path) tree

/-- Creates a folder with all folders above it. -/
def makeFolders (path : String) (action : FileAction) : Disk Unit := fun tree =>
  match tree.makeFolders path with
  | (changed, true) => .ok () changed
  | (changed, false) => .error (.failedTo action path) changed

end Disk

namespace FileTree

/-- The text of a file that should have one. -/
def textOrFail (tree : FileTree) (path : String) : Except Failure String :=
  match tree.text? path with
  | some text => .ok text
  | none => .error (.inaccessible path)

end FileTree

end Bindery
