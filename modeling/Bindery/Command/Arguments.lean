/-
**The command line: options, paths and their faults.**

Options may stand anywhere among the paths of a command; two dashes end them. Two options are known
everywhere: `-v` counts how much is told, and `--config` names a file of settings. Arguments are
taken from the left and the first fault counts; a value is looked at when the next argument does
not belong to it any more.

* `Invocation` — what a command line asks for.
* `parseArguments` — the invocation of some arguments, or what is wrong with them.
-/

import Bindery.Cache.Store

namespace Bindery.Command

/-! ## Invocations -/

/-- What there is to do. -/
inductive Job where
  /-- Read documentation into a cache. -/
  | extract (documentation cache : String) (format : Option Cache.Format)
      (headersRoot : Option String)
  /-- Generate sources from a cache. -/
  | generate (cache templates output : String) (format : Option Cache.Format)
  /-- Save a cache in another format. -/
  | convert (source destination : String) (fromFormat toFormat : Cache.Format)
  /-- Count the elements of a cache. -/
  | inspect (cache : String) (format : Option Cache.Format)
deriving BEq, DecidableEq

/-- What a command line asks for. -/
structure Invocation where
  job : Job
  /-- How much is told. -/
  verbosity : Nat := 0
  /-- The file of settings. -/
  settings : Option String := none
deriving BEq, DecidableEq

/-- Why a command line asks for nothing that can be done; help and version are asked for, though,
in this way. -/
inductive UsageFault where
  | help
  | version
  /-- There are no arguments at all. -/
  | noArguments
  | missingCommand
  | unknownCommand
  | unknownArgument
  | invalidValue
  /-- An option that takes no value has one. -/
  | unneededValue
  /-- An option that may stand once stands twice. -/
  | repeatedOption
  | missingArgument
deriving BEq, DecidableEq, Inhabited

/-! ## What may be given -/

/-- What a value is given for. -/
inductive Slot where
  | settings
  | headersRoot
  | format
  | fromFormat
  | toFormat
  | path (position : Nat)
deriving BEq, DecidableEq

/-- Whether a value may be given for a slot. -/
def Slot.takes (slot : Slot) (value : String) : Bool :=
  match slot with
  | .settings | .path _ => !value.isEmpty
  | .headersRoot => true
  | .format | .fromFormat | .toFormat => (Cache.Format.ofName? value).isSome

/-- The commands. -/
inductive Verb where
  | extract
  | generate
  | convert
  | inspect
deriving BEq, DecidableEq

namespace Verb

/-- The command of a word. -/
def ofWord? : String → Option Verb
  | "extract" => some extract
  | "generate" => some generate
  | "convert" => some convert
  | "inspect" => some inspect
  | _ => none

/-- How many paths a command takes. -/
def pathCount : Verb → Nat
  | extract => 2
  | generate => 3
  | convert => 2
  | inspect => 1

/-- The options of a command that take a value. -/
def options : Verb → List (String × Slot)
  | extract => [("format", .format), ("headers-root", .headersRoot)]
  | generate | inspect => [("format", .format)]
  | convert => [("from", .fromFormat), ("to", .toFormat)]

end Verb

/-- Where arguments stand: before the command, or behind it. -/
abbrev Level := Option Verb

namespace Level

/-- The options with values that are known at a level. -/
def options (level : Level) : List (String × Slot) :=
  ("config", .settings) :: match level with
    | some verb => verb.options
    | none => []

/-- How many paths may stand at a level. -/
def pathCount (level : Level) : Nat :=
  match level with
  | some verb => verb.pathCount
  | none => 0

/-- Whether a word leaves the level: a command or `help`. -/
def isLeftBy (level : Level) (word : String) : Bool :=
  level.isNone && ((Verb.ofWord? word).isSome || word == "help")

end Level

/-! ## Reading one argument -/

/-- What is read so far at a level. -/
structure Progress where
  /-- The values that were looked at. -/
  given : List (Slot × String) := []
  /-- The value that is still to be looked at; it is missing right behind its option. -/
  pending : Option (Slot × Option String) := none
  pathsTaken : Nat := 0
  verbosity : Nat := 0
  /-- Whether the two dashes that end all options were met. -/
  pathsOnly : Bool := false

namespace Progress

/-- The slot of the option that a value is missing for. -/
def awaited? (progress : Progress) : Option Slot :=
  match progress.pending with
  | some (slot, none) => some slot
  | _ => none

/-- The value that is given for a slot. -/
def value? (progress : Progress) (slot : Slot) : Option String :=
  (progress.given.find? fun entry => entry.1 == slot).map Prod.snd

/-- Looks at the pending value. -/
def settle (progress : Progress) : Except UsageFault Progress :=
  match progress.pending with
  | none => .ok progress
  | some (_, none) => .error .invalidValue
  | some (slot, some value) =>
    if (progress.value? slot).isSome then .error .repeatedOption
    else if slot.takes value then
      .ok { progress with given := progress.given ++ [(slot, value)], pending := none }
    else .error .invalidValue

/-- Counts one more `-v`, up to the greatest number of one byte. -/
def raiseVerbosity (progress : Progress) : Progress :=
  { progress with verbosity := min (progress.verbosity + 1) 255 }

/-- An option of one letter. -/
def readLetter (level : Level) (progress : Progress) (letter : Char) :
    Except UsageFault Progress :=
  if letter = 'v' then progress.settle.map raiseVerbosity
  else if letter = 'h' then progress.settle.bind fun _ => .error .help
  else if letter = 'V' ∧ level.isNone then progress.settle.bind fun _ => .error .version
  else .error .unknownArgument

/-- An option without a value, if its name is known. -/
def letterOfName? (level : Level) (name : String) : Option Char :=
  if name = "verbose" then some 'v'
  else if name = "help" then some 'h'
  else if name = "version" ∧ level.isNone then some 'V'
  else none

/-- An option of a name, with the value behind its equals sign if there is one. -/
def readLong (level : Level) (progress : Progress) (name : String) (value : Option String) :
    Except UsageFault Progress :=
  match lookupPair name level.options with
  | some slot => do
    let progress := { ← progress.settle with pending := some (slot, value) }
    if value.isSome then progress.settle else return progress
  | none =>
    match letterOfName? level name with
    | some letter =>
      if value.isSome then .error .unneededValue else progress.readLetter level letter
    | none => .error .unknownArgument

/-- A path. -/
def readPath (level : Level) (progress : Progress) (path : String) : Except UsageFault Progress :=
  if progress.pathsTaken < level.pathCount then do
    return { ← progress.settle with
      pending := some (.path progress.pathsTaken, some path)
      pathsTaken := progress.pathsTaken + 1 }
  else if level.isNone ∧ ¬(progress.pathsOnly && level.isLeftBy path) then .error .unknownCommand
  else .error .unknownArgument

/-- The value of the option before it, or a path. -/
def readPlain (level : Level) (progress : Progress) (text : String) :
    Except UsageFault Progress :=
  match progress.awaited? with
  | some slot => .ok { progress with pending := some (slot, some text) }
  | none => progress.readPath level text

/-- One argument. -/
def readArgument (level : Level) (progress : Progress) (argument : String) :
    Except UsageFault Progress :=
  if progress.pathsOnly then progress.readPath level argument
  else match argument.toList with
    | ['-', '-'] => .ok { progress with pathsOnly := true }
    | '-' :: '-' :: long =>
      let name := long.takeWhile (· ≠ '=')
      let value := (long.drop name.length).tail?
      progress.readLong level (String.ofList name) (value.map String.ofList)
    | '-' :: letter :: letters => (letter :: letters).foldlM (readLetter level) progress
    | _ => progress.readPlain level argument

end Progress

/-! ## Reading a command line -/

/-- Reads the arguments of a level up to a word that leaves it; gives back that word and what
stands behind it. -/
def readLevel (level : Level) (progress : Progress) :
    List String → Except UsageFault (Progress × Option (String × List String))
  | [] => .ok (progress, none)
  | argument :: rest =>
    if !progress.pathsOnly && progress.awaited?.isNone && level.isLeftBy argument then
      .ok (progress, some (argument, rest))
    else match progress.readArgument level argument with
      | .ok progress => readLevel level progress rest
      | .error fault => .error fault

/-- A value that has to be given. -/
def Progress.required (progress : Progress) (slot : Slot) : Except UsageFault String :=
  match progress.value? slot with
  | some value => .ok value
  | none => .error .missingArgument

/-- A format that has to be given. -/
def Progress.requiredFormat (progress : Progress) (slot : Slot) :
    Except UsageFault Cache.Format :=
  match (progress.value? slot).bind Cache.Format.ofName? with
  | some format => .ok format
  | none => .error .missingArgument

/-- The job of a command with what was given for it. -/
def Verb.job (verb : Verb) (progress : Progress) : Except UsageFault Job := do
  let format := (progress.value? .format).bind Cache.Format.ofName?
  match verb with
  | .extract =>
    return .extract (← progress.required (.path 0)) (← progress.required (.path 1)) format
      (progress.value? .headersRoot)
  | .generate =>
    return .generate (← progress.required (.path 0)) (← progress.required (.path 1))
      (← progress.required (.path 2)) format
  | .convert =>
    return .convert (← progress.required (.path 0)) (← progress.required (.path 1))
      (← progress.requiredFormat .fromFormat) (← progress.requiredFormat .toFormat)
  | .inspect => return .inspect (← progress.required (.path 0)) format

/-- What the words behind `help` ask for. -/
def helpFault : List String → UsageFault
  | [] => .help
  | [word] => if Level.isLeftBy none word then .help else .unknownCommand
  | _ => .unknownCommand

/-- The fault of a command line without a command. -/
def faultWithoutCommand (progress : Progress) : UsageFault :=
  if progress.verbosity = 0 ∧ (progress.value? .settings).isNone then .noArguments
  else .missingCommand

/-- What a command line asks for. What is given behind the command counts before what is given in
front of it. -/
def parseArguments (arguments : List String) : Except UsageFault Invocation := do
  let (outer, command) ← readLevel none {} arguments
  match command with
  | none => throw (faultWithoutCommand (← outer.settle))
  | some (word, rest) =>
    match Verb.ofWord? word with
    | none => throw (helpFault rest)
    | some verb =>
      let (inner, _) ← readLevel (some verb) {} rest
      let inner ← inner.settle
      let job ← verb.job inner
      let outer ← outer.settle
      return {
        job
        verbosity := if inner.verbosity = 0 then outer.verbosity else inner.verbosity
        settings := (inner.value? .settings).or (outer.value? .settings) }

end Bindery.Command
