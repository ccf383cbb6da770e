/-
**Writing generated files.**

A file that is there with the same text stays untouched, so that whoever watches the output folder
sees real changes only. Two files for one path are refused before anything is written.

* `writeFile` — writes one file unless it is there already.
* `writeFiles` — writes all files, and says which of them changed.
-/

import Bindery.Wrapper.Emission

namespace Bindery.Wrapper

/-- What became of a generated file. -/
inductive WriteOutcome where
  | written
  | unchanged
deriving BEq, DecidableEq, Inhabited

/-- The paths that were written and those that were left alone, each in order. -/
structure WriteReport where
  written : List String := []
  unchanged : List String := []
deriving BEq, DecidableEq, Inhabited

/-- How many files there are. -/
def WriteReport.total (report : WriteReport) : Nat :=
  report.written.length + report.unchanged.length

/-- The report with one more file. -/
def WriteReport.add (report : WriteReport) (path : String) : WriteOutcome → WriteReport
  | .written => { report with written := report.written ++ [path] }
  | .unchanged => { report with unchanged := report.unchanged ++ [path] }

/-- Writes a file into a folder, unless it is there with the same text. -/
def writeFile (folder : String) (file : GeneratedFile) : Disk WriteOutcome := do
  let path := Path.join folder file.path
  if (← get).content? path == some (.text file.contents) then return .unchanged
  match Path.parent? path with
  | some parent => Disk.makeFolders parent .createOutputFolder
  | none => pure ()
  Disk.writeText path file.contents
  return .written

/-- The first file whose path has the parts of an earlier one, given the parts of paths that are
taken. -/
def repeatedPath? (taken : List (List Component)) : List GeneratedFile → Option GeneratedFile
  | [] => none
  | file :: rest =>
    let parts := Path.components file.path
    if taken.contains parts then some file else repeatedPath? (parts :: taken) rest

/-- Writes all files into a folder. -/
def writeFiles (folder : String) (files : List GeneratedFile) : Disk WriteReport := do
  match repeatedPath? [] files with
  | some file => throw (.pathCollision (Path.join folder file.path))
  | none =>
    files.foldlM (fun report file => do
      return report.add file.path (← writeFile folder file)) {}

end Bindery.Wrapper
