/-
**Changes that stay within one header.**

Constants, variables and functions are no types. A header that takes in more of them keeps its place
among the headers and what it tells about types, so that all other files are generated as before,
the module among them.

* `DeclaresNoType` — elements that types are not made of.
* `DifferWithin` — tables that differ in one header, with the same types.
* `emitBy_staysWithin` — one file may differ and is then the only one that is written.
-/

import Bindery.Proofs.Symbols.Built
import Bindery.Proofs.Wrapper.Overwriting

namespace Bindery

/-! ### Maps with one value changed -/

section Maps

variable {α β : Type}

theorem flatMap_placePair {key : String} {value : α} {pairs : List (String × α)}
    {parts : α → List β} (same : parts value = ((lookupPair key pairs).map parts).getD []) :
    ((placePair key value pairs).map Prod.snd).flatMap parts =
      (pairs.map Prod.snd).flatMap parts := by
  induction pairs with
  | nil => simpa [placePair, lookupPair] using same
  | cons pair rest ih =>
    obtain ⟨other, old⟩ := pair
    by_cases isKey : other = key
    · simp only [lookupPair, isKey, if_true, Option.map_some, Option.getD_some] at same
      simp [placePair, isKey, same]
    · simp only [lookupPair, isKey, if_false] at same
      simp [placePair, isKey, ← ih same]

theorem placePair_append_of_notMem {key : String} {value : α} {before : List (String × α)}
    (isNew : key ∉ before.map Prod.fst) (pairs : List (String × α)) :
    placePair key value (before ++ pairs) = before ++ placePair key value pairs := by
  induction before with
  | nil => rfl
  | cons pair rest ih =>
    rw [List.map_cons, List.mem_cons, not_or] at isNew
    simp [placePair, Ne.symm isNew.1, ih isNew.2]

namespace OrderedMap

/-- A change that keeps some parts of each value keeps them in the whole map. -/
theorem flatMap_values_upsert {m : OrderedMap α} {key : String} {fresh : α} {change : α → α}
    {parts : α → List β} (kept : ∀ value, parts (change value) = parts value)
    (isBare : parts fresh = []) :
    (m.upsert key fresh change).values.flatMap parts = m.values.flatMap parts := by
  refine flatMap_placePair ?_
  rw [kept, get?]
  cases lookupPair key m.entries with
  | none => exact isBare
  | some value => rfl

/-- A value that is written anew stays between the others. -/
theorem entries_insert_of_entries {m : OrderedMap α} {key : String} {old : α}
    {before behind : List (String × α)} (parts : m.entries = before ++ (key, old) :: behind)
    (new : α) : (m.insert key new).entries = before ++ (key, new) :: behind := by
  have isNew : key ∉ before.map Prod.fst := by
    have distinct := m.distinct
    rw [parts, List.map_append, List.nodup_append] at distinct
    exact fun isOld => distinct.2.2 key isOld key (List.mem_cons_self ..) rfl
  show placePair key new m.entries = _
  rw [parts, placePair_append_of_notMem isNew, placePair, if_pos rfl]

end OrderedMap

end Maps

namespace Wrapper

open Symbols

/-! ### Elements that are no types -/

/-- An element that types are not made of. -/
def DeclaresNoType : Element → Prop
  | .constant _ | .globalVariable _ | .function _ => True
  | .enumeration _ | .typeAlias _ | .classDefinition _ => False

/-- A step that puts such an element into a header. -/
def AddsNoType (header : String) : Edit → Prop
  | .enable .. => False
  | .add other _ element => other = header ∧ DeclaresNoType element

/-- A header with the same place among the headers and the same types, in the same order. -/
structure SameTypes (header other : Header) : Prop where
  name : other.name = header.name
  enabled : other.enabled = header.enabled
  classes : other.scopes.values.flatMap (·.classes.values) =
    header.scopes.values.flatMap (·.classes.values)
  enumerations : other.scopes.values.flatMap Scope.allEnumerations =
    header.scopes.values.flatMap Scope.allEnumerations
  aliases : other.scopes.values.flatMap (·.aliases.values) =
    header.scopes.values.flatMap (·.aliases.values)

theorem SameTypes.refl (header : Header) : SameTypes header header := ⟨rfl, rfl, rfl, rfl, rfl⟩

theorem SameTypes.trans {first second third : Header} (one : SameTypes first second)
    (two : SameTypes second third) : SameTypes first third where
  name := two.name.trans one.name
  enabled := two.enabled.trans one.enabled
  classes := two.classes.trans one.classes
  enumerations := two.enumerations.trans one.enumerations
  aliases := two.aliases.trans one.aliases

/-- A header that takes in an element that is no type has the same types. -/
theorem sameTypes_modifyScope {element : Element} (noType : DeclaresNoType element)
    (header : Header) (name : String) (place : Place) :
    SameTypes header (header.modifyScope name (·.take place element)) where
  name := rfl
  enabled := rfl
  classes := OrderedMap.flatMap_values_upsert
    (fun scope => by cases element <;> first | rfl | exact noType.elim) rfl
  enumerations := OrderedMap.flatMap_values_upsert
    (fun scope => by cases element <;> first | rfl | exact noType.elim) rfl
  aliases := OrderedMap.flatMap_values_upsert
    (fun scope => by cases element <;> first | rfl | exact noType.elim) rfl

/-! ### Tables that differ in one header -/

/-- Tables that differ in one header, which keeps its types. -/
structure DifferWithin (header : String) (table other : Table) (old new : Header) : Prop where
  parts : ∃ before behind, table.headers.entries = before ++ (header, old) :: behind ∧
    other.headers.entries = before ++ (header, new) :: behind
  sameTypes : SameTypes old new

theorem differWithin_refl {table : Table} {header : String} {old : Header}
    (found : table.header? header = some old) : DifferWithin header table table old old := by
  obtain ⟨before, behind, parts⟩ := List.append_of_mem (mem_of_lookupPair found)
  exact ⟨⟨before, behind, parts, parts⟩, .refl old⟩

namespace DifferWithin

variable {header : String} {table other : Table} {old new : Header}

theorem header?_eq (differ : DifferWithin header table other old new) :
    other.header? header = some new := by
  obtain ⟨⟨before, behind, -, parts⟩, -⟩ := differ
  exact lookupPair_of_mem other.headers.distinct (by simp [parts])

/-- One more element that is no type. -/
theorem add (differ : DifferWithin header table other old new) {element : Element}
    (noType : DeclaresNoType element) (scope : String) :
    ∃ newer, DifferWithin header table (other.add header scope element) old newer := by
  have found : other.headers.get? header = some new := differ.header?_eq
  obtain ⟨⟨before, behind, parts, otherParts⟩, sameTypes⟩ := differ
  let canonical := canonicalScope scope
  refine ⟨new.modifyScope canonical (·.take ⟨header, canonical⟩ element),
    ⟨before, behind, parts, ?_⟩, sameTypes.trans (sameTypes_modifyScope noType ..)⟩
  rw [Table.add_eq_modifyScope, Table.modifyScope, Table.modifyHeader, OrderedMap.upsert, found,
    Option.getD_some]
  exact OrderedMap.entries_insert_of_entries otherParts _

/-- The types of all scopes come header by header. -/
theorem flatMap_scopes_eq {α : Type} {held : Scope → List α}
    (differ : DifferWithin header table other old new)
    (same : new.scopes.values.flatMap held = old.scopes.values.flatMap held) :
    (other.scopes.flatMap fun (_, scope) => held scope) =
      table.scopes.flatMap fun (_, scope) => held scope := by
  have byHeader (table : Table) : (table.scopes.flatMap fun (_, scope) => held scope) =
      table.headerList.flatMap fun header => header.scopes.values.flatMap held := by
    simp [Table.scopes, List.flatMap_assoc, List.flatMap_map]
  obtain ⟨⟨before, behind, parts, otherParts⟩, -⟩ := differ
  rw [byHeader, byHeader, Table.headerList, Table.headerList, OrderedMap.values,
    OrderedMap.values, parts, otherParts]
  simp only [List.map_append, List.map_cons, List.flatMap_append, List.flatMap_cons, same]

/-- The same is known about types. -/
theorem ofTable_eq (differ : DifferWithin header table other old new) :
    KnownTypes.ofTable other = KnownTypes.ofTable table := by
  have classes : other.classes = table.classes :=
    differ.flatMap_scopes_eq differ.sameTypes.classes
  have enumerations : other.enumerations = table.enumerations :=
    differ.flatMap_scopes_eq differ.sameTypes.enumerations
  have aliases : other.aliases = table.aliases :=
    differ.flatMap_scopes_eq differ.sameTypes.aliases
  rw [KnownTypes.ofTable, KnownTypes.ofTable, classes, enumerations, aliases]

/-- The headers that files are generated for are the same but for the one. -/
theorem enabledHeaders_eq (differ : DifferWithin header table other old new)
    (enabled : old.enabled = true) :
    ∃ before behind, table.enabledHeaders = before ++ old :: behind ∧
      other.enabledHeaders = before ++ new :: behind := by
  have newEnabled : new.enabled = true := differ.sameTypes.enabled.trans enabled
  obtain ⟨⟨before, behind, parts, otherParts⟩, -⟩ := differ
  refine
    ⟨(before.map Prod.snd).filter (·.enabled), (behind.map Prod.snd).filter (·.enabled), ?_, ?_⟩
  · simp [Table.enabledHeaders, Table.headerList, OrderedMap.values, parts, enabled]
  · simp [Table.enabledHeaders, Table.headerList, OrderedMap.values, otherParts, newEnabled]

end DifferWithin

/-- Elements that are no types, put into scopes of one header. -/
theorem differWithin_applyAll {table : Table} {header : String} {old : Header}
    (found : table.header? header = some old) {edits : List Edit}
    (noTypes : ∀ edit ∈ edits, AddsNoType header edit) :
    ∃ new, DifferWithin header table (table.applyAll edits) old new := by
  induction edits using List.reverseRecOn with
  | nil => exact ⟨old, differWithin_refl found⟩
  | append_singleton edits last ih =>
    rw [List.forall_mem_append, List.forall_mem_singleton] at noTypes
    obtain ⟨new, differ⟩ := ih noTypes.1
    rw [Table.applyAll_append]
    cases last with
    | enable other enabled => exact noTypes.2.elim
    | add other scope element =>
      obtain ⟨rfl, noType⟩ := noTypes.2
      exact differ.add noType scope

/-! ### Generated files -/

/-- The generated file of a header. -/
def headerFile (provider : Provider) (options : EmissionOptions) (known : KnownTypes)
    (header : Header) : GeneratedFile where
  path := outputPath options header.name
  contents := renderAllBy provider (fileFragments known options header)

/-- The generated file of the module that lists some headers. -/
def moduleFile (provider : Provider) (options : EmissionOptions) (headers : List Header) :
    GeneratedFile where
  path := outputPath options options.name
  contents := renderAllBy provider (moduleFragments options headers)

theorem moduleFile_of_sameTypes {provider : Provider} {options : EmissionOptions}
    {old new : Header} (same : SameTypes old new) (before behind : List Header) :
    moduleFile provider options (before ++ new :: behind) =
      moduleFile provider options (before ++ old :: behind) := by
  simp [moduleFile, moduleFragments, headerValues, same.name]

/-- Generated files that are the same but for one, which has the same path and is not the last. -/
structure DifferInOne (files others before behind : List GeneratedFile)
    (file newer last : GeneratedFile) : Prop where
  files : files = before ++ file :: behind
  others : others = before ++ newer :: behind
  path : newer.path = file.path
  last : behind.getLast? = some last

/-- All files but the one of the header are generated as before, the module among them. -/
theorem DifferWithin.emitBy {header : String} {table other : Table} {old new : Header}
    (differ : DifferWithin header table other old new) (enabled : old.enabled = true)
    (provider : Provider) (options : EmissionOptions) :
    ∃ before behind, DifferInOne (emitBy provider options table) (emitBy provider options other)
      before behind (headerFile provider options (.ofTable table) old)
      (headerFile provider options (.ofTable table) new)
      (moduleFile provider options table.enabledHeaders) := by
  obtain ⟨before, behind, headers, otherHeaders⟩ := differ.enabledHeaders_eq enabled
  have split (table : Table) : Wrapper.emitBy provider options table =
      table.enabledHeaders.map (headerFile provider options (.ofTable table)) ++
        [moduleFile provider options table.enabledHeaders] := rfl
  let file := headerFile provider options (.ofTable table)
  let last := moduleFile provider options table.enabledHeaders
  refine ⟨before.map file, behind.map file ++ [last], ?_, ?_, ?_, List.getLast?_concat ..⟩
  · simp [split, file, last, headers]
  · rw [split, differ.ofTable_eq, otherHeaders, moduleFile_of_sameTypes differ.sameTypes]
    simp [file, last, headers]
  · rw [headerFile, headerFile, differ.sameTypes.name]

/-- **Changes stay within their header.** Constants, variables and functions that are added to an
enabled header change no generated file but its own. Where all files lead to places of their own,
as paths of names do, no other file is written when the new files are written over the old ones. -/
theorem emitBy_staysWithin {table : Table} {header : String} {old : Header}
    (found : table.header? header = some old) (enabled : old.enabled = true) {edits : List Edit}
    (noTypes : ∀ edit ∈ edits, AddsNoType header edit) (provider : Provider)
    (options : EmissionOptions) :
    ∃ new before behind file newer,
      (table.applyAll edits).header? header = some new ∧
      file = headerFile provider options (.ofTable table) old ∧
      newer = headerFile provider options (.ofTable table) new ∧
      DifferInOne (emitBy provider options table)
        (emitBy provider options (table.applyAll edits)) before behind file newer
        (moduleFile provider options table.enabledHeaders) ∧
      ∀ folder start report saved, start.IsProper →
        writeFiles folder (emitBy provider options table) start = .ok report saved →
        ((∀ file ∈ emitBy provider options table, Path.IsOrdinary file.path) →
          LeadApart folder saved (emitBy provider options table)) ∧
        (LeadApart folder saved (emitBy provider options table) →
          ∃ location, saved.locate? (Path.join folder file.path) = some location ∧
            writeFiles folder (emitBy provider options (table.applyAll edits)) saved =
              .ok (reportOver before behind file.path (newer.contents = file.contents))
                (saved.set location (.file (.text newer.contents)))) := by
  obtain ⟨new, differ⟩ := differWithin_applyAll found noTypes
  obtain ⟨before, behind, inOne⟩ := differ.emitBy enabled provider options
  refine ⟨new, before, behind, _, _, differ.header?_eq, rfl, rfl, inOne,
    fun folder start report saved proper writes => ⟨fun ordinary => ?_, fun apart => ?_⟩⟩
  · exact leadApart_of_writeFiles proper writes ordinary
  · rw [inOne.files] at writes apart
    rw [inOne.others]
    exact writeFiles_over proper writes apart inOne.path

/-! ### Files of one place, and files that have places of their own -/

/-- The paths that are written when files are written over others, which are alone in the tree. -/
def overwritten? (folder : String) (files others : List GeneratedFile) : Option (List String) :=
  match writeFiles folder files {} with
  | .error .. => none
  | .ok _ saved =>
    match writeFiles folder others saved with
    | .error .. => none
    | .ok again _ => some again.written

theorem runs_of_overwritten? {folder : String} {files others : List GeneratedFile}
    {paths : List String} (overwrites : overwritten? folder files others = some paths) :
    ∃ report saved again after, writeFiles folder files {} = .ok report saved ∧
      writeFiles folder others saved = .ok again after ∧ again.written = paths := by
  unfold overwritten? at overwrites
  split at overwrites
  next => cases overwrites
  next report saved writes =>
    split at overwrites
    next => cases overwrites
    next again after writesAgain =>
      exact ⟨report, saved, again, after, writes, writesAgain, Option.some.inj overwrites⟩

/-- Templates that write constants one behind the other. -/
def constantTemplates : Templates :=
  .ofList [(FragmentKind.name .constant, "\x7b\x7bconstant\x7d\x7d;")]

/-- The step that adds a constant to a header. -/
def addsConstant (header name : String) : Edit :=
  .add header "ui" (.constant { name, value := "1" })

/-- Headers of which two have paths that lead to one place. -/
def twinHeaders : Table :=
  Table.empty.applyAll [addsConstant "./b.h" "A", addsConstant "b.h" "B", addsConstant "g.h" "G"]

/-- Headers whose paths are names. -/
def plainHeaders : Table :=
  Table.empty.applyAll [addsConstant "b.h" "B", addsConstant "g.h" "G"]

/-- Distinct paths are not enough: of two that lead to one place, both are written again. -/
theorem twin_headers_are_written_again :
    (∃ old, twinHeaders.header? "g.h" = some old ∧ old.enabled = true) ∧
      AddsNoType "g.h" (addsConstant "g.h" "H") ∧
      ((emit constantTemplates {} twinHeaders).map GeneratedFile.path).Nodup ∧
      ∃ report saved again after,
        writeFiles "out" (emit constantTemplates {} twinHeaders) {} = .ok report saved ∧
        writeFiles "out"
          (emit constantTemplates {} (twinHeaders.applyAll [addsConstant "g.h" "H"])) saved =
            .ok again after ∧
        again.written = ["./b.h.cpp", "b.h.cpp", "g.h.cpp"] :=
  ⟨⟨_, rfl, rfl⟩, ⟨rfl, trivial⟩, by decide +kernel, runs_of_overwritten? (by decide +kernel)⟩

/-- Of headers whose paths are names only the one with a new constant is written again. -/
theorem plain_header_is_written_alone :
    ∃ report saved again after,
      writeFiles "out" (emit constantTemplates {} plainHeaders) {} = .ok report saved ∧
      writeFiles "out"
        (emit constantTemplates {} (plainHeaders.applyAll [addsConstant "g.h" "H"])) saved =
          .ok again after ∧
      ∀ path ∈ again.written, path = "g.h.cpp" := by
  have noTypes : ∀ edit ∈ [addsConstant "g.h" "H"], AddsNoType "g.h" edit := by
    rw [List.forall_mem_singleton]
    exact ⟨rfl, trivial⟩
  obtain ⟨new, before, behind, file, newer, -, isFile, -, -, staysWithin⟩ :=
    @emitBy_staysWithin plainHeaders "g.h" _ rfl rfl _ noTypes constantTemplates.render {}
  obtain ⟨report, saved, -, -, writes, -⟩ := runs_of_overwritten?
    (by decide +kernel : overwritten? "out" (emit constantTemplates {} plainHeaders) [] = some [])
  obtain ⟨areApart, overwrites⟩ :=
    staysWithin "out" {} report saved (.of_entries (by simp)) writes
  obtain ⟨location, -, writesAgain⟩ := overwrites (areApart (by decide +kernel))
  refine ⟨report, saved, _, _, writes, writesAgain, fun path isWritten => ?_⟩
  have isPath : path = file.path := by
    unfold reportOver at isWritten
    split at isWritten
    next => cases isWritten
    next => exact List.mem_singleton.mp isWritten
  rw [isPath, isFile]
  rfl

end Wrapper

end Bindery
