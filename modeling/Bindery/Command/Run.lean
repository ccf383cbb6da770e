/-
**Carrying out commands.**

Every command works on a tree of files and tells what it did. Warnings are told apart from the
result: one by one when more is asked for, else only how many there are.

* `Job.perform` — a job under the settings of a project.
* `run` — a whole command line: the settings, the job and what it tells.
-/

import Bindery.Command.Arguments
import Bindery.Project
import Bindery.Reference.Extract
import Bindery.Wrapper.Output

namespace Bindery.Command

open Symbols

/-- What a job tells. -/
structure Report where
  lines : List String
  warnings : List Warning := []

/-! ## Tasks -/

/-- The table with those headers disabled that are disabled in an earlier one. -/
def keepDisabled (earlier table : Table) : Table :=
  (earlier.headerList.filter fun header => !header.enabled).foldl (fun table header =>
    if (table.header? header.name).isSome then table.setEnabled header.name false else table) table

/-- The table of the cache that is in a folder already; without a folder it is empty. -/
def earlierTable (format : Cache.Format) (policy : DuplicatePolicy) (cache : String)
    (tree : FileTree) : Except Failure Table :=
  if tree.isFolder cache then Cache.load format policy cache tree else .ok .empty

/-- Reads documentation into a cache. Headers that are disabled there stay disabled. -/
def extract (project : Project) (documentation cache : String) (format : Cache.Format) :
    Disk Report := do
  let extraction ← Disk.reading fun tree =>
    (Reference.extract project.reading documentation tree).mapError (.extracting documentation)
  let earlier ← Disk.reading (earlierTable format project.duplicateParameters cache)
  let table := keepDisabled earlier (Table.empty.applyAll extraction.edits)
  Cache.save format table cache
  return {
    lines := ["extracted " ++ toString table.headers.size ++ " headers from " ++
      toString extraction.compounds ++ " compounds into " ++ cache ++ " (" ++ format.name ++ ")"]
    warnings := extraction.warnings }

/-- Generates sources from a cache. -/
def generate (project : Project) (cache templates output : String) (format : Cache.Format) :
    Disk Report := do
  let table ← Disk.reading (Cache.load format project.duplicateParameters cache)
  if table.headers.isEmpty then throw (.emptyCache cache)
  let templates ← Disk.reading (Wrapper.Templates.load templates)
  let report ← Wrapper.writeFiles output (Wrapper.emit templates project.emission table)
  return {
    lines := ["generated " ++ toString report.written.length ++ " files into " ++ output ++ " (" ++
      toString report.unchanged.length ++ " unchanged)"]
    warnings := Wrapper.emissionWarnings table }

/-- Saves a cache in another format. -/
def convert (project : Project) (source destination : String) (fromFormat toFormat : Cache.Format) :
    Disk Report := do
  let table ← Disk.reading (Cache.load fromFormat project.duplicateParameters source)
  Cache.save toFormat table destination
  return {
    lines := ["converted " ++ source ++ " (" ++ fromFormat.name ++ ") -> " ++ destination ++ " (" ++
      toFormat.name ++ ")"] }

/-! ### Counts -/

/-- A text filled up with spaces behind it. -/
def padEnd (width : Nat) (text : String) : String :=
  text ++ String.ofList (List.replicate (width - text.length) ' ')

/-- A text filled up with spaces in front of it. -/
def padStart (width : Nat) (text : String) : String :=
  String.ofList (List.replicate (width - text.length) ' ') ++ text

/-- A row of the table of counts. -/
def countRow (name : String) (cells : List String) : String :=
  " ".intercalate (padEnd 32 name :: cells.map (padStart 6))

/-- The rows of counts, one for each header, between a heading and the totals. -/
def countLines (table : Table) : List String :=
  let total := table.counts
  countRow "header" ["const", "enum", "alias", "var", "func", "class", "method"] ::
    table.headerList.map (fun header =>
      countRow header.name (header.counts.toList.map toString)) ++
    ["total " ++ toString table.headers.size ++ " headers, " ++ toString total.functions ++
      " functions, " ++ toString total.classes ++ " classes, " ++ toString total.methods ++
      " methods"]

/-- Counts the elements of a cache. -/
def inspect (project : Project) (cache : String) (format : Cache.Format) : Disk Report := do
  let table ← Disk.reading (Cache.load format project.duplicateParameters cache)
  return { lines := countLines table }

/-- Carries out a job. -/
def Job.perform (project : Project) : Job → Disk Report
  | .extract documentation cache format headersRoot =>
    Command.extract (project.withHeadersRoot headersRoot) documentation cache
      (format.getD project.cacheFormat)
  | .generate cache templates output format =>
    Command.generate project cache templates output (format.getD project.cacheFormat)
  | .convert source destination fromFormat toFormat =>
    Command.convert project source destination fromFormat toFormat
  | .inspect cache format => Command.inspect project cache (format.getD project.cacheFormat)

/-! ## Command lines -/

/-- The settings that an invocation works under: those of the file that it names or of the working
folder. The environment may replace the headers root. -/
def Invocation.project (invocation : Invocation) (headersRoot : Option String) (tree : FileTree) :
    Except Failure Project :=
  let found := match invocation.settings with
    | some path => Project.load path tree
    | none => Project.discover tree.workingPath tree
  found.map (·.withHeadersRoot headersRoot)

/-- Carries out an invocation. -/
def Invocation.perform (invocation : Invocation) (headersRoot : Option String) : Disk Report := do
  let project ← Disk.reading (invocation.project headersRoot)
  invocation.job.perform project

/-- How warnings are told. -/
def warningLines (verbosity : Nat) (warnings : List Warning) : List String :=
  if warnings.isEmpty then []
  else if verbosity = 0 then
    ["warning: " ++ toString warnings.length ++ " data-quality warnings (use -v to list them)"]
  else warnings.map fun warning => "warning: " ++ warning.message

/-- What a command line leaves behind besides files. -/
structure Outcome where
  /-- The exit code: zero when all went well, two when the command line is at fault. -/
  code : Nat
  output : List String := []
  errors : List String := []
deriving BEq, DecidableEq

/-- How the program is called. -/
def usageLines : List String :=
  ["Usage: wrapgen [-v]... [--config CONFIG] COMMAND",
    "",
    "Commands:",
    "  extract XML_DIR CACHE_DIR [--format FORMAT] [--headers-root HEADERS_ROOT]",
    "  generate CACHE_DIR TEMPLATES OUTPUT [--format FORMAT]",
    "  convert CACHE_DIR TO_DIR --from FORMAT --to FORMAT",
    "  inspect CACHE_DIR [--format FORMAT]",
    "",
    "FORMAT is data or source."]

/-- What a faulty command line is told. -/
def UsageFault.outcome : UsageFault → Outcome
  | .help => { code := 0, output := usageLines }
  | .version => { code := 0, output := ["wrapgen 0.1.0"] }
  | .noArguments => { code := 2, errors := usageLines }
  | .missingCommand => refused "a command is missing"
  | .unknownCommand => refused "the command is not known"
  | .unknownArgument => refused "an argument is not expected"
  | .invalidValue => refused "a value is missing or not valid"
  | .unneededValue => refused "an option takes no value"
  | .repeatedOption => refused "an option stands twice"
  | .missingArgument => refused "a required argument is missing"
where
  /-- The outcome of a fault in words. -/
  refused (words : String) : Outcome :=
    { code := 2, errors := ("error: " ++ words) :: "" :: usageLines }

/-- Carries out a command line on a tree of files, with the headers root that the environment
gives. -/
def run (arguments : List String) (headersRoot : Option String) (tree : FileTree) :
    Outcome × FileTree :=
  match parseArguments arguments with
  | .error fault => (fault.outcome, tree)
  | .ok invocation =>
    match invocation.perform headersRoot tree with
    | .ok report changed =>
      ({ code := 0, output := report.lines
         errors := warningLines invocation.verbosity report.warnings }, changed)
    | .error failure changed => ({ code := 1, errors := ["error: " ++ failure.message] }, changed)

end Bindery.Command
