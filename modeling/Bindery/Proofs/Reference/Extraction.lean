/-
**No function is lost or doubled on the way into the table.**

Functions are gathered by the scope and the name that documents give, and enter the table under the
name of the scope that is read twice. Where every namespace has a name from which a second reading
takes nothing away, the two agree, and the table has just the functions that were gathered.

* `Table.functionAt?` — the function of a name under a key; only an edit that adds a function
  changes it.
* `KeepsFreeFunctions` — what an extraction makes of the functions outside classes.
-/

import Bindery.Proofs.Reference.FreeFunctions
import Bindery.Proofs.Symbols.LookUps

namespace Bindery

/-! ### Functions of a table -/

namespace Symbols.Table

/-- The function of a name in the scope that stands under a key. -/
def functionAt? (table : Table) (header key name : String) : Option Function :=
  (table.scopeAt? header key).bind (·.functions.get? name)

theorem functionAt?_add_function (table : Table) (holder spelling : String) (function : Function)
    (header key name : String) :
    (table.apply (.add holder spelling (.function function))).functionAt? header key name =
      if holder = header ∧ canonicalScope (canonicalScope spelling) = key ∧
          function.name = name then
        some { function with
          place := some ⟨holder, canonicalScope spelling⟩
          className := none }
      else table.functionAt? header key name := by
  rw [functionAt?, scopeAt?_add]
  by_cases isPlace : holder = header ∧ canonicalScope (canonicalScope spelling) = key
  · rw [if_pos isPlace, Option.bind_some, Scope.take, OrderedMap.get?_insert]
    by_cases isName : function.name = name
    · rw [if_pos isName, if_pos ⟨isPlace.1, isPlace.2, isName⟩]
    · rw [if_neg isName, if_neg fun all => isName all.2.2, functionAt?]
      cases table.scopeAt? header key <;> rfl
  · rw [if_neg isPlace, if_neg fun all => isPlace ⟨all.1, all.2.1⟩]
    rfl

/-- No other element touches a function. -/
theorem functionAt?_add_of_ne (table : Table) (holder spelling : String) {element : Element}
    (notFunction : ∀ function, element ≠ .function function) (header key name : String) :
    (table.apply (.add holder spelling element)).functionAt? header key name =
      table.functionAt? header key name := by
  have sameFunctions : ∀ (place : Place) (scope : Scope),
      (scope.take place element).functions = scope.functions := by
    intro place scope
    cases element with
    | function f => exact absurd rfl (notFunction f)
    | _ => rfl
  rw [functionAt?, scopeAt?_add]
  split
  · rw [Option.bind_some, sameFunctions, functionAt?]
    cases table.scopeAt? header key <;> rfl
  · rfl

end Symbols.Table

namespace Reference

open Symbols Xml

/-! ### The edits of an extraction -/

/-- A contribution as the edit that adds its element. -/
def Finding.addition? : Finding → Option Edit
  | .element header scope found => some (.add header scope found)
  | .overload .. | .warning .. => none

/-- A function with its place as the edit that adds it. -/
def FoundFunction.edit (found : FoundFunction) : Edit :=
  .add found.header found.scope (.function found.function)

theorem Extraction.edits_eq (extraction : Extraction) : extraction.edits =
    extraction.findings.filterMap Finding.addition? ++
      (foundFunctions extraction.findings).map FoundFunction.edit := by
  rw [edits]
  refine congrArg (· ++ _) (List.filterMap_congr fun finding _ => ?_)
  cases finding <;> rfl

/-- An extraction has warnings, elements other than functions, and built overloads. -/
theorem findings_cases {options : Options} {folder : String} {tree : FileTree}
    {extraction : Extraction} (succeeds : extract options folder tree = .ok extraction) :
    ∀ finding ∈ extraction.findings, finding.IsElement ∨
      ∃ header scope overload, finding = .overload header scope overload ∧ overload.Built := by
  obtain ⟨visits, _, isFindings⟩ := extract_eq_ok succeeds
  intro finding isFinding
  rw [isFindings] at isFinding
  obtain ⟨entry, _, isOfEntry⟩ := List.mem_flatMap.mp isFinding
  exact compoundFindings_cases _ _ _ _ finding isOfEntry

/-- Elements other than functions leave the functions of a table as they are. -/
theorem functionAt?_elements {findings : List Finding}
    (areFound : ∀ finding ∈ findings, finding.IsElement ∨
      ∃ header scope overload, finding = .overload header scope overload ∧ overload.Built)
    {table : Table} (header key name : String) :
    (table.applyAll (findings.filterMap Finding.addition?)).functionAt? header key name =
      table.functionAt? header key name := by
  induction findings generalizing table with
  | nil => rfl
  | cons finding rest ih =>
    rw [List.forall_mem_cons] at areFound
    cases finding with
    | element holder scope element =>
      have notFunction : ∀ function, element ≠ .function function := by
        rintro function rfl
        rcases areFound.1 with isElement | ⟨_, _, _, isOverload, _⟩
        · exact isElement
        · cases isOverload
      exact (ih areFound.2).trans (table.functionAt?_add_of_ne holder scope notFunction ..)
    | overload => exact ih areFound.2
    | warning => exact ih areFound.2

/-- Functions with distinct scopes and names each enter the table at their place. -/
theorem functionAt?_functions {functions : List FoundFunction}
    (distinct : (functions.map FoundFunction.key).Nodup)
    (plain : ∀ found ∈ functions, canonicalScope found.scope = found.scope) {table : Table}
    (header key name : String) :
    (table.applyAll (functions.map FoundFunction.edit)).functionAt? header key name =
      match functions.find? (·.isAt key name) with
      | none => table.functionAt? header key name
      | some found =>
        if found.header = header then
          some { found.function with place := some ⟨header, key⟩, className := none }
        else table.functionAt? header key name := by
  induction functions generalizing table with
  | nil => rfl
  | cons found rest ih =>
    rw [List.map_cons, List.nodup_cons] at distinct
    rw [List.forall_mem_cons] at plain
    refine (ih distinct.2 plain.2).trans ?_
    rw [FoundFunction.edit, Table.functionAt?_add_function, plain.1, plain.1]
    by_cases isHere : found.scope = key ∧ found.function.name = name
    · obtain ⟨rfl, rfl⟩ := isHere
      have noOther : rest.find? (·.isAt found.scope found.function.name) = none := by
        refine List.find?_eq_none.mpr fun other isOther isSame => distinct.1 ?_
        obtain ⟨sameScope, sameName⟩ := of_decide_eq_true isSame
        exact List.mem_map.mpr ⟨other, isOther, Prod.ext sameScope sameName⟩
      have isAt : found.isAt found.scope found.function.name = true := decide_eq_true ⟨rfl, rfl⟩
      rw [noOther, List.find?_cons_of_pos isAt]
      by_cases isHeader : found.header = header
      · subst isHeader
        simp
      · simp [isHeader]
    · have notAt : found.isAt key name = false := decide_eq_false isHere
      rw [List.find?_cons_of_neg (by simp [notAt]), if_neg fun all => isHere all.2]

/-! ### The functions of the table -/

/-- The function that overloads of a scope and a name make: it has all of them in their order and
stands in the header of the first. -/
def mergedFunction (overloads : List FoundOverload) (header scope name : String) :
    Option Function :=
  match overloads.filter (·.isAt scope name) with
  | [] => none
  | first :: rest =>
    if first.header = header then
      some {
        name
        overloads := (first :: rest).map FoundOverload.overload
        description := firstDescription ((first :: rest).map FoundOverload.overload)
        place := some ⟨header, scope⟩ }
    else none

/-- What an extraction makes of the functions outside classes. -/
structure KeepsFreeFunctions (options : Options) (visits : List Visit)
    (extraction : Extraction) : Prop where
  /-- A member contributes where its identifier comes first, and nowhere else. -/
  findings : extraction.findings = (effects visits).flatMap fun (visit, members) =>
    compoundFindings options visit.compound visit.definition members
  /-- What takes effect in a file is listed in no namespace. -/
  namespaces : ∀ file members, (file, members) ∈ effects visits → file.compound.kind = .file →
    ∀ member ∈ members, memberId member ≠ "" →
      ∀ scope ∈ visits, scope.compound.kind = .scope →
        ∀ other ∈ scope.members, memberId other ≠ memberId member
  /-- A function contributes one overload, or nothing but the warning that says why. -/
  members : ∀ function ∈ freeFunctions visits, function.IsKeptOrDropped options
  /-- The table has these overloads, gathered, and no others. -/
  functions : ∀ header scope name,
    (Table.empty.applyAll extraction.edits).functionAt? header scope name =
      mergedFunction (foundOverloads ((freeFunctions visits).flatMap (·.findings options)))
        header scope name

/-- An overload outside classes belongs to the scope of a namespace or a file. -/
theorem canonicalScope_of_foundOverloads {options : Options} {visits : List Visit}
    (plain : ∀ visit ∈ visits, visit.compound.kind = .scope →
      canonicalScope visit.name = visit.name) :
    ∀ found ∈ foundOverloads ((freeFunctions visits).flatMap (·.findings options)),
      canonicalScope found.scope = found.scope := by
  intro found isFound
  obtain ⟨finding, isFinding, isOverload⟩ := List.mem_filterMap.mp isFound
  obtain ⟨function, isFree, isOfFunction⟩ := List.mem_flatMap.mp isFinding
  obtain ⟨isVisit, isScope, _⟩ := mem_freeFunctions isFree
  have ownScope : found.scope = function.scope := by
    rcases FreeFunction.isKeptOrDropped options isFree with
      ⟨overload, warnings, isKept, _⟩ | ⟨warning, isDropped, _⟩
    · rw [isKept, List.mem_append, List.mem_singleton] at isOfFunction
      rcases isOfFunction with isWarning | rfl
      · obtain ⟨_, _, rfl⟩ := List.mem_map.mp isWarning
        cases isOverload
      · rw [← Option.some.inj isOverload]
    · rw [isDropped, List.mem_singleton] at isOfFunction
      subst isOfFunction
      cases isOverload
  rw [ownScope]
  unfold Visit.scope? at isScope
  split at isScope
  next isKind => exact Option.some.inj isScope ▸ plain _ isVisit isKind
  next =>
    rw [← Option.some.inj isScope]
    decide
  next => cases isScope
  next => cases isScope

/-- A function that was gathered has the scope of one of its overloads. -/
theorem exists_overload_of_mem {findings : List Finding} {found : FoundFunction}
    (isFound : found ∈ foundFunctions findings) :
    ∃ overload ∈ foundOverloads findings, overload.scope = found.scope := by
  have isThere : ((foundFunctions findings).find?
      (·.isAt found.scope found.function.name)).isSome = true :=
    List.find?_isSome.mpr ⟨found, isFound, decide_eq_true ⟨rfl, rfl⟩⟩
  rw [find?_foundFunctions] at isThere
  cases isGathered : (foundOverloads findings).filter
      (·.isAt found.scope found.function.name) with
  | nil =>
    rw [isGathered] at isThere
    cases isThere
  | cons first rest =>
    have isFirst : first ∈ (foundOverloads findings).filter
        (·.isAt found.scope found.function.name) := isGathered ▸ List.mem_cons_self
    obtain ⟨isOverload, isAt⟩ := List.mem_filter.mp isFirst
    exact ⟨first, isOverload, (of_decide_eq_true isAt).1⟩

/-- Functions outside classes survive extraction without loss or duplication. -/
theorem extract_keepsFreeFunctions {options : Options} {folder : String} {tree : FileTree}
    {extraction : Extraction} (succeeds : extract options folder tree = .ok extraction) :
    ∃ visits, IsWalk folder tree visits ∧
      ((∀ visit ∈ visits, visit.compound.kind = .scope →
          canonicalScope visit.name = visit.name) →
        KeepsFreeFunctions options visits extraction) := by
  obtain ⟨visits, isWalk, isFindings⟩ := extract_eq_ok succeeds
  refine ⟨visits, isWalk, fun plain => ?_⟩
  have overloads : foundOverloads extraction.findings =
      foundOverloads ((freeFunctions visits).flatMap (·.findings options)) := by
    rw [isFindings, foundOverloads_effects]
  have plainFunctions : ∀ found ∈ foundFunctions extraction.findings,
      canonicalScope found.scope = found.scope := by
    intro found isFound
    obtain ⟨overload, isOverload, sameScope⟩ := exists_overload_of_mem isFound
    rw [overloads] at isOverload
    exact sameScope ▸ canonicalScope_of_foundOverloads plain overload isOverload
  refine ⟨isFindings, fun file members isEffect isFile member isMember hasId scope isVisit isScope
    other isOther => isWalk.memberId_ne isEffect isFile isMember hasId isVisit isScope isOther,
    fun function isFree => FreeFunction.isKeptOrDropped options isFree, fun header scope name => ?_⟩
  rw [Extraction.edits_eq, Table.applyAll_append,
    functionAt?_functions (nodup_foundFunctions _) plainFunctions,
    functionAt?_elements (findings_cases succeeds), find?_foundFunctions, overloads, mergedFunction]
  cases gatheredOverloads : (foundOverloads ((freeFunctions visits).flatMap
      (·.findings options))).filter (·.isAt scope name) with
  | nil => rfl
  | cons first rest =>
    have own : ∀ overload ∈ (first :: rest).map FoundOverload.overload,
        overload.function = name := by
      intro overload isOverload
      obtain ⟨found, isFound, rfl⟩ := List.mem_map.mp isOverload
      rw [← gatheredOverloads] at isFound
      exact (of_decide_eq_true (List.mem_filter.mp isFound).2).2
    simp only [gathered, Function.foldl_addOverload_of_own own]
    rfl

/-! ### A folder where a file and a namespace list one function -/

/-- A folder with an index and one document for two compounds. -/
def folderOf (index document : String) : FileTree where
  entries := [
    (["xml"], .folder),
    (["index.xml", "xml"], .file (.text index)),
    (["f.xml", "xml"], .file (.text document)),
    (["n.xml", "xml"], .file (.text document))]

/-- An index that lists the file before the namespace. -/
def sampleIndex : String :=
  "<doxygenindex><compound refid='f' kind='file'/><compound refid='n' kind='namespace'>" ++
    "<name>m</name></compound></doxygenindex>"

/-- A document with one function. -/
def sampleDocument : String :=
  "<d><compounddef><sectiondef><memberdef kind='function' id='1'><name>f</name></memberdef>" ++
    "</sectiondef></compounddef></d>"

theorem readIndex_sample (document : String) :
    readIndex "xml" (folderOf sampleIndex document) =
      .ok [⟨"f", .file, ""⟩, ⟨"n", .scope, "m"⟩] := by
  have parsed : parseIndex sampleIndex = .ok [⟨"f", .file, ""⟩, ⟨"n", .scope, "m"⟩] := by
    decide +kernel
  have ofText : ∀ index, readIndex "xml" (folderOf index document) =
      (parseIndex index).mapError (.malformed (Path.join "xml" "index.xml")) := fun _ => rfl
  rw [ofText, parsed]
  rfl

theorem readDefinition_folderOf {index document : String} {definition : Xml.Element}
    (isDefinition : (Xml.read? document).bind (·.child? "compounddef") = some definition)
    {compound : Compound} (isThere : compound.refid = "f" ∨ compound.refid = "n") :
    readDefinition "xml" (folderOf index document) compound = .ok definition := by
  have isText : (folderOf index document).textOrFail (Path.join "xml" compound.documentName) =
      .ok document := by
    rcases isThere with isFile | isScope
    · rw [Compound.documentName, isFile]
      rfl
    · rw [Compound.documentName, isScope]
      rfl
  obtain ⟨root, isRoot, isChild⟩ := Option.bind_eq_some_iff.mp isDefinition
  simp only [readDefinition, isText, bind, Except.bind, isRoot, isChild]
  rfl

/-- The document has a definition, which leaves the name to the index. -/
theorem exists_definition_sample : ∃ definition : Xml.Element,
    (Xml.read? sampleDocument).bind (·.child? "compounddef") = some definition ∧
      definition.childText? "compoundname" = none := by
  have parsed : (((Xml.read? sampleDocument).bind (·.child? "compounddef")).map
      (·.childText? "compoundname")) = some none := by
    decide +kernel
  exact Option.map_eq_some_iff.mp parsed

theorem exists_extract_sample :
    ∃ extraction, extract {} "xml" (folderOf sampleIndex sampleDocument) = .ok extraction := by
  obtain ⟨definition, isDefinition, _⟩ := exists_definition_sample
  have isRead := @readDefinition_folderOf sampleIndex sampleDocument definition isDefinition
  have inOrder : inReadingOrder [⟨"f", .file, ""⟩, ⟨"n", .scope, "m"⟩] =
      [⟨"n", .scope, "m"⟩, ⟨"f", .file, ""⟩] := rfl
  simp only [extract, readIndex_sample, bind, Except.bind, inOrder, findingsFrom, isRead,
    or_true, true_or]
  exact ⟨_, rfl⟩

/-- The namespace and the file list one function, which is found once. -/
theorem extract_keepsFreeFunctions_sample : ∃ extraction visits,
    extract {} "xml" (folderOf sampleIndex sampleDocument) = .ok extraction ∧
      IsWalk "xml" (folderOf sampleIndex sampleDocument) visits ∧
      (∀ visit ∈ visits, visit.compound.kind = .scope → canonicalScope visit.name = visit.name) ∧
      KeepsFreeFunctions {} visits extraction := by
  obtain ⟨definition, isDefinition, noName⟩ := exists_definition_sample
  have isRead := @readDefinition_folderOf sampleIndex sampleDocument definition isDefinition
  obtain ⟨extraction, succeeds⟩ := exists_extract_sample
  obtain ⟨visits, isWalk, keeps⟩ := extract_keepsFreeFunctions succeeds
  have plain : ∀ visit ∈ visits, visit.compound.kind = .scope →
      canonicalScope visit.name = visit.name := by
    intro visit isVisit isScope
    obtain ⟨index, isIndex, order⟩ := isWalk.order
    obtain rfl := Except.ok.inj ((readIndex_sample _).symm.trans isIndex)
    have isCompound : visit.compound ∈ visits.map Visit.compound := List.mem_map_of_mem isVisit
    have isNamespace : visit.compound = ⟨"n", .scope, "m"⟩ := by
      rw [order] at isCompound
      rcases List.mem_cons.mp isCompound with isFirst | isSecond
      · exact isFirst
      · rw [List.mem_singleton.mp isSecond] at isScope
        cases isScope
    have isOwn := isWalk.definitions visit isVisit
    rw [isNamespace, isRead (.inr rfl)] at isOwn
    have isName : visit.name = "m" := by
      rw [Visit.name, ← Except.ok.inj isOwn, noName, isNamespace]
      rfl
    rw [isName]
    decide
  exact ⟨extraction, visits, succeeds, isWalk, plain, keeps plain⟩

end Reference

end Bindery
