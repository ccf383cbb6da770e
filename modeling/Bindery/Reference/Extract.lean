/-
**From a folder of reference documentation to edits of a symbol table.**

Compounds are read by kind: namespaces before files, so that a member that both list keeps its
namespace, then classes and structs. A member is read only where it comes first. The overloads of a
function outside classes are gathered from all compounds and enter the table last.

* `findings` — the contributions of all compounds of a folder.
* `Extraction.edits` — the edits that they amount to.
-/

import Bindery.Reference.Finding

namespace Bindery.Reference

open Symbols Xml

/-! ## Members that are new -/

/-- The members of a compound in document order. -/
def membersOf (definition : Xml.Element) : List Xml.Element :=
  (definition.children "sectiondef").flatMap (·.children "memberdef")

/-- The members whose identifiers are not known yet, and all known identifiers behind them; a
member without an identifier is always new. -/
def freshMembers (seen : List String) : List Xml.Element → List Xml.Element × List String
  | [] => ([], seen)
  | member :: rest =>
    let id := (member.attribute? "id").getD ""
    if id.isEmpty then
      let (fresh, known) := freshMembers seen rest
      (member :: fresh, known)
    else if seen.contains id then freshMembers seen rest
    else
      let (fresh, known) := freshMembers (id :: seen) rest
      (member :: fresh, known)

/-! ## All compounds -/

/-- The kinds of compounds in the order in which they are read. -/
def readingOrder : List CompoundKind := [.scope, .file, .classKind, .structKind]

/-- The compounds of an index in the order in which they are read. -/
def inReadingOrder (compounds : List Compound) : List Compound :=
  readingOrder.flatMap fun kind => compounds.filter (·.kind == kind)

/-- The definition in the document of a compound. -/
def readDefinition (folder : String) (tree : FileTree) (compound : Compound) :
    Except Failure Xml.Element := do
  let path := Path.join folder compound.documentName
  match Xml.read? (← tree.textOrFail path) with
  | none => throw (.malformed path notXml)
  | some root =>
    match root.child? "compounddef" with
    | none => throw (.malformed path "no <compounddef> element")
    | some definition => return definition

/-- The contributions of compounds, given the identifiers of members that are known. -/
def findingsFrom (options : Options) (folder : String) (tree : FileTree) (seen : List String) :
    List Compound → Except Failure (List Finding)
  | [] => .ok []
  | compound :: rest => do
    let definition ← readDefinition folder tree compound
    let (members, known) := freshMembers seen (membersOf definition)
    return compoundFindings options compound definition members ++
      (← findingsFrom options folder tree known rest)

/-! ## Functions outside classes -/

/-- A function with the place at which its first overload was found. -/
structure FoundFunction where
  header : String
  scope : String
  function : Function

/-- Adds an overload to the function of its scope and name. -/
def addFound (header scope : String) (overload : Overload) : List FoundFunction → List FoundFunction
  | [] => [⟨header, scope, ({ name := overload.function } : Function).addOverload overload⟩]
  | found :: rest =>
    if found.scope = scope ∧ found.function.name = overload.function then
      { found with function := found.function.addOverload overload } :: rest
    else found :: addFound header scope overload rest

/-- The functions of the overloads among some contributions, in order of their first overloads. -/
def foundFunctions (findings : List Finding) : List FoundFunction :=
  findings.foldl (fun functions finding =>
    match finding with
    | .overload header scope overload => addFound header scope overload functions
    | _ => functions) []

/-! ## The result -/

/-- What the documentation in a folder amounts to. -/
structure Extraction where
  /-- How many compounds were read. -/
  compounds : Nat
  findings : List Finding

namespace Extraction

/-- The warnings in the order in which they arose. -/
def warnings (extraction : Extraction) : List Warning :=
  extraction.findings.filterMap fun
    | .warning warning => some warning
    | _ => none

/-- How many elements and overloads were found. -/
def members (extraction : Extraction) : Nat :=
  (extraction.findings.filter fun
    | .warning _ => false
    | _ => true).length

/-- The steps that bring everything found into a table. -/
def edits (extraction : Extraction) : List Edit :=
  (extraction.findings.filterMap fun
    | .element header scope element => some (.add header scope element)
    | _ => none) ++
    (foundFunctions extraction.findings).map fun found =>
      .add found.header found.scope (.function found.function)

end Extraction

/-- Reads the documentation in a folder. -/
def extract (options : Options) (folder : String) (tree : FileTree) :
    Except Failure Extraction := do
  let compounds := inReadingOrder (← readIndex folder tree)
  return { compounds := compounds.length
           findings := ← findingsFrom options folder tree [] compounds }

end Bindery.Reference
