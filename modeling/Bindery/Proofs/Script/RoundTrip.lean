/-
**A definition script gives back the table that it was written from.**

The statements of a sound table are those of its edits (`tablePhrases_eq`). Their text is read as
their tokens, the tokens are parsed into calls that say them, the calls are read as the edits, and
the edits make the table again.

* `read_write_of_isSound` — reading what was written, for every sound table.
-/

import Bindery.Proofs.Script.Reading
import Bindery.Script.Read

namespace Bindery.Script

open Symbols

/-! ### The statements of a table -/

/-- A class is written alike wherever it stands. -/
theorem classPhrase_detached (place : List String) (self : Symbols.Class) :
    classPhrase place self.detached = classPhrase place self := by
  have methods : self.detached.methods.values.map methodPhrase =
      self.methods.values.map methodPhrase := by
    rw [Class.detached, OrderedMap.values_mapValues, List.map_map]
    rfl
  rw [classPhrase, methods]
  rfl

/-- The statements of a scope are those of its elements. -/
theorem scopePhrases_eq (header : String) (scope : Scope) :
    scopePhrases header scope = scope.elements.map (elementPhrase [header, scope.name]) := by
  have classes : (scope.elementsOf .classDefinition).map (elementPhrase [header, scope.name]) =
      scope.classes.values.map (classPhrase [header, scope.name]) := by
    rw [Scope.elementsOf, List.map_map]
    exact List.map_congr_left fun self _ => classPhrase_detached _ self
  simp only [Scope.elements, ElementKind.all, List.flatMap_cons, List.flatMap_nil, List.append_nil,
    List.map_append, classes]
  simp only [scopePhrases, Scope.elementsOf, List.map_map, List.append_assoc]
  rfl

/-- The statements of a table are those of its edits. -/
theorem tablePhrases_eq (table : Table) : tablePhrases table = table.edits.map editPhrase := by
  rw [tablePhrases, Table.edits, List.map_append, List.map_map, List.map_flatMap]
  congr 1
  refine List.flatMap_congr ?_
  rintro ⟨header, scope⟩ -
  show scopePhrases header.name scope =
    (scope.elements.map (Edit.add header.name scope.name)).map editPhrase
  rw [scopePhrases_eq, List.map_map]
  rfl

/-! ### Every word of a script is an identifier -/

namespace Phrase.Spelled

theorem of_keepsTo {name : String} {unnamed : List String} {named : List (String × Value)}
    {block : List Phrase} (ownName : isIdentifier name = true) {allowed : List String}
    (keepsTo : (Phrase.mk name unnamed named block).KeepsTo allowed)
    (areNames : ∀ name ∈ allowed, isIdentifier name = true)
    (inside : ∀ phrase ∈ block, phrase.Spelled) :
    (Phrase.mk name unnamed named block).Spelled :=
  .mk name unnamed named block ownName
    (fun argument isArgument => areNames _ (keepsTo argument isArgument)) inside

theorem parameter (parameter : Parameter) : (parameterPhrase parameter).Spelled :=
  of_keepsTo (by decide) (parameterPhrase_keepsTo parameter) (by decide) (by simp)

theorem overload (overload : Overload) : (overloadPhrase overload).Spelled := by
  refine of_keepsTo (by decide) (overloadPhrase_keepsTo overload) (by decide) ?_
  intro phrase isIn
  obtain ⟨_, _, rfl⟩ := List.mem_map.mp isIn
  exact parameter _

theorem overloads {name : String} (ownName : isIdentifier name = true) (unnamed : List String)
    (overloads : List Overload) :
    (Phrase.mk name unnamed [] (overloads.map overloadPhrase)).Spelled := by
  refine .mk _ _ _ _ ownName (by simp) ?_
  intro phrase isIn
  obtain ⟨_, _, rfl⟩ := List.mem_map.mp isIn
  exact overload _

theorem classDefinition (place : List String) (self : Symbols.Class) :
    (classPhrase place self).Spelled := by
  refine of_keepsTo (by decide) (classPhrase_keepsTo place self) (by decide) ?_
  intro phrase isIn
  simp only [List.mem_append, List.mem_map, or_assoc] at isIn
  obtain ⟨member, _, rfl⟩ | ⟨member, _, rfl⟩ | ⟨member, _, rfl⟩ := isIn
  · exact of_keepsTo (by decide) (classVariablePhrase_keepsTo member) (by decide) (by simp)
  · exact of_keepsTo (by decide) (enumerationArguments_keepTo _ _ member) (by decide) (by simp)
  · exact overloads (by decide) _ _

theorem edit (edit : Edit) : (editPhrase edit).Spelled := by
  cases edit with
  | enable header enabled =>
    exact of_keepsTo (by decide) (headerPhrase_keepsTo header enabled) (by decide) (by simp)
  | add header scope element =>
    cases element with
    | constant c =>
      exact of_keepsTo (by decide) (constantPhrase_keepsTo [header, scope] c) (by decide) (by simp)
    | enumeration e =>
      exact of_keepsTo (by decide) (enumerationArguments_keepTo _ _ e) (by decide) (by simp)
    | typeAlias a =>
      exact of_keepsTo (by decide) (typeArguments_keepTo _ _ a.type) (by decide) (by simp)
    | globalVariable v =>
      exact of_keepsTo (by decide) (typeArguments_keepTo _ _ v.type) (by decide) (by simp)
    | function f => exact overloads (by decide) _ _
    | classDefinition c => exact classDefinition _ c

end Phrase.Spelled

/-! ### The round trip -/

/-- The edits of a table put in plain elements where its scopes have plain elements. -/
theorem isPlain_edits {table : Table}
    (plain : ∀ header scope, (header, scope) ∈ table.scopes →
      ∀ element ∈ scope.elements, element.IsPlain) :
    ∀ edit ∈ table.edits, edit.IsPlain := by
  intro edit isEdit
  rcases List.mem_append.mp isEdit with isSwitch | isElement
  · obtain ⟨_, _, rfl⟩ := List.mem_map.mp isSwitch
    trivial
  · obtain ⟨⟨header, scope⟩, isScope, isIn⟩ := List.mem_flatMap.mp isElement
    obtain ⟨element, isOwn, rfl⟩ := List.mem_map.mp isIn
    exact plain header scope isScope element isOwn

/-- The text of the statements of edits is read as the calls that say them. -/
theorem readCalls_edits (edits : List Edit) :
    ∃ calls, List.Forall₂ Says calls (edits.map editPhrase) ∧
      readCalls (String.ofList (banner.toList ++ Phrase.renderAll 0 (edits.map editPhrase))) =
        .ok calls := by
  have spelled : ∀ phrase ∈ edits.map editPhrase, phrase.Spelled := by
    intro phrase isIn
    obtain ⟨edit, _, rfl⟩ := List.mem_map.mp isIn
    exact .edit edit
  have bannerReads : Reads banner.toList [] :=
    @Reads.comment " wrapgen definitions".toList (by decide)
  obtain ⟨tokens, areKinds, tokenized⟩ :=
    tokenize_of_reads (bannerReads.append (Phrase.reads_renderAll 0 spelled))
  obtain ⟨calls, parsed, sayAll⟩ := parse_of_kinds areKinds
  refine ⟨calls, sayAll, ?_⟩
  rw [readCalls, tokenized]
  show (parse tokens).mapError ScriptError.syntactic = _
  rw [parsed]
  rfl

/-- The script of a table with plain elements is read, and makes what its edits make. -/
theorem read_write_of_isPlain {table : Table} (plain : ∀ edit ∈ table.edits, edit.IsPlain)
    (policy : DuplicatePolicy) :
    read (write table) policy = .ok (Table.empty.applyAll table.edits) := by
  obtain ⟨calls, sayAll, areCalls⟩ := readCalls_edits table.edits
  have areEdits := edits_of_says sayAll plain policy
  rw [read, write, tablePhrases_eq, areCalls]
  show (buildTable policy calls).mapError ScriptError.statement = _
  rw [buildTable, areEdits]
  rfl

/-- The script of a sound table makes the table. -/
theorem read_write_of_isSound {table : Table} (sound : table.IsSound) (policy : DuplicatePolicy) :
    read (write table) policy = .ok table := by
  have plain := @isPlain_edits table fun _ _ isScope =>
    (sound.mem_scopes isScope).2.2.2.isPlain_elements
  rw [read_write_of_isPlain plain, sound.applyAll_edits]

/-- A script gives back the table that it was written from, whatever is done with parameters that
repeat a name: there are none. -/
theorem read_write_of_built {table : Table} (built : table.Built) (policy : DuplicatePolicy) :
    read (write table) policy = .ok table :=
  read_write_of_isSound built.isSound policy

/-- A table with a disabled header, two scopes and a class with generic parameters comes back. -/
theorem read_write_sample :
    Table.sample.Built ∧ read (write Table.sample) .reject = .ok Table.sample :=
  ⟨Table.built_sample, read_write_of_built Table.built_sample .reject⟩

end Bindery.Script
