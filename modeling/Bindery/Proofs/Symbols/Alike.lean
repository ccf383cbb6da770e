/-
**Tables that are alike in every look-up.**

Tables are alike when they have the same headers in the same states, the same scopes in each of
them, and alike elements in every slot. The order in which anything arrived does not count, neither
in the table nor among the members of a class. For tables whose names agree with their keys this is
equality.

* `Class.Alike`, `Element.Alike`, `Table.Alike` — the relation, from the members up.
* `Table.beq_of_alike` — tables that are alike are equal.
-/

import Bindery.Proofs.MatchingMaps
import Bindery.Proofs.Symbols.Equality
import Bindery.Proofs.Symbols.LookUps
import Bindery.Proofs.Symbols.Spelling

namespace Bindery.Symbols

/-! ### Classes -/

namespace Class

/-- What a class says of itself, its place included, without its members. -/
def shell (self : Class) : Class :=
  { self with fields := .empty, enumerations := .empty, methods := .empty }

/-- Two classes with the same members under the same names, in whatever order. -/
structure Alike (first second : Class) : Prop where
  shell : first.shell = second.shell
  fields : ∀ name, first.fields.get? name = second.fields.get? name
  enumerations : ∀ name, first.enumerations.get? name = second.enumerations.get? name
  methods : ∀ name, first.methods.get? name = second.methods.get? name

namespace Alike

variable {first second : Class}

theorem refl (self : Class) : Alike self self := ⟨rfl, fun _ => rfl, fun _ => rfl, fun _ => rfl⟩

theorem symm (alike : Alike first second) : Alike second first :=
  ⟨alike.shell.symm, fun name => (alike.fields name).symm,
    fun name => (alike.enumerations name).symm, fun name => (alike.methods name).symm⟩

theorem name_place (alike : Alike first second) :
    first.name = second.name ∧ first.place = second.place := by
  have sameName := congrArg Class.name alike.shell
  have samePlace := congrArg Class.place alike.shell
  exact ⟨sameName, samePlace⟩

theorem beq (alike : Alike first second) : (first == second) = true := by
  obtain ⟨sameShell, sameFields, sameEnumerations, sameMethods⟩ := alike
  cases first
  cases second
  simp only [Class.shell, Class.mk.injEq] at sameShell
  obtain ⟨rfl, rfl, rfl, rfl, rfl, -, -, -, rfl, rfl⟩ := sameShell
  show (_ && (_ && (_ && (_ && (_ && (_ && (_ && (_ && (_ && _))))))))) = true
  simp only [Bool.and_eq_true, beq_self_eq_true, true_and, and_true]
  exact ⟨OrderedMap.beq_of_get?_eq sameFields, OrderedMap.beq_of_get?_eq sameEnumerations,
    OrderedMap.beq_of_get?_eq sameMethods⟩

/-- Put at the same place, classes stay alike. -/
theorem attach (alike : Alike first second) (place : Place) :
    Alike (first.attach place) (second.attach place) where
  shell := congrArg (fun self : Class => { self with place := some place }) alike.shell
  fields := alike.fields
  enumerations := alike.enumerations
  methods := by
    intro name
    show (OrderedMap.mapValues ..).get? name = (OrderedMap.mapValues ..).get? name
    rw [OrderedMap.get?_mapValues, OrderedMap.get?_mapValues, alike.methods]

end Alike

/-! ### Members of classes -/

/-- Members that know their names leave the same look-ups, in whatever order they come. -/
theorem get?_foldl_insert_congr {α : Type} {members others start otherStart : OrderedMap α}
    {nameOf : α → String} {stamp : α → α}
    (named : members.Forall fun name member => nameOf member = name)
    (same : ∀ name, members.get? name = others.get? name)
    (sameStart : ∀ name, start.get? name = otherStart.get? name) (name : String) :
    (members.values.foldl (fun made member => made.insert (nameOf member) (stamp member))
        start).get? name =
      (others.values.foldl (fun made member => made.insert (nameOf member) (stamp member))
        otherStart).get? name := by
  have othersNamed : others.Forall fun name member => nameOf member = name :=
    fun name member found => named name member ((same name).trans found)
  rw [named.get?_foldl_insert_values, othersNamed.get?_foldl_insert_values, same, sameStart]

namespace Alike

variable {first second : Class} (alike : Alike first second)

include alike

theorem addVariables {members others : OrderedMap ClassVariable}
    (named : members.Forall fun name member => member.name = name)
    (same : ∀ name, members.get? name = others.get? name) :
    Alike (members.values.foldl addVariable first) (others.values.foldl addVariable second) := by
  rw [foldl_addVariable, foldl_addVariable]
  exact ⟨alike.shell, @get?_foldl_insert_congr _ _ _ _ _ _ id named same alike.fields,
    alike.enumerations, alike.methods⟩

theorem addEnumerations {members others : OrderedMap Enumeration}
    (named : members.Forall fun name member => member.name = name)
    (same : ∀ name, members.get? name = others.get? name) :
    Alike (members.values.foldl addEnumeration first)
      (others.values.foldl addEnumeration second) := by
  rw [foldl_addEnumeration, foldl_addEnumeration]
  refine ⟨alike.shell, alike.fields, ?_, alike.methods⟩
  dsimp only
  rw [alike.name_place.1]
  exact get?_foldl_insert_congr named same alike.enumerations

theorem addMethods {members others : OrderedMap Function}
    (named : members.Forall fun name member => member.name = name)
    (same : ∀ name, members.get? name = others.get? name) :
    Alike (members.values.foldl addMethod first) (others.values.foldl addMethod second) := by
  rw [foldl_addMethod, foldl_addMethod]
  refine ⟨alike.shell, alike.fields, alike.enumerations, ?_⟩
  dsimp only
  rw [alike.name_place.1, alike.name_place.2]
  exact get?_foldl_insert_congr named same alike.methods

end Alike

end Class

/-! ### Elements -/

namespace Element

/-- Two elements are the same, or alike classes. -/
inductive Alike : Element → Element → Prop
  | refl (element : Element) : Alike element element
  | classes {first second : Class} (alike : first.Alike second) :
      Alike (.classDefinition first) (.classDefinition second)

namespace Alike

variable {first second : Element}

theorem placed (alike : Alike first second) (place : Place) :
    Alike (first.placed place) (second.placed place) := by
  cases alike with
  | refl => exact .refl _
  | classes alike => exact .classes (alike.attach place)

theorem class? (alike : Alike first second) :
    Option.Rel Class.Alike first.class? second.class? := by
  cases alike with
  | refl => cases first <;> first | exact .some (.refl _) | exact .none
  | classes alike => exact .some alike

end Alike

end Element

/-! ### Tables -/

/-- Whether a scope stands under a key in a header. -/
def Table.hasScope (table : Table) (header key : String) : Bool :=
  (table.scopeAt? header key).isSome

/-- Two tables have the same headers in the same states, the same scopes and alike elements. -/
structure Table.Alike (table other : Table) : Prop where
  enabled : ∀ header, table.enabled? header = other.enabled? header
  scopes : ∀ header key, table.hasScope header key = other.hasScope header key
  elements : ∀ slot, Option.Rel Element.Alike (table.find? slot) (other.find? slot)

/-! ### Equality -/

namespace Scope

variable {first second : Scope}

/-- Elements of a kind that does not hold members are alike when they are the same. -/
theorem eq_of_alike_map {α : Type} {asElement : α → Element} {value other : Option α}
    (isSame : ∀ value other, (asElement value).Alike (asElement other) → value = other)
    (alike : Option.Rel Element.Alike (value.map asElement) (other.map asElement)) :
    value = other := by
  cases value with
  | none =>
    cases other with
    | none => rfl
    | some other => cases alike
  | some value =>
    cases other with
    | none => cases alike
    | some other =>
      cases alike with
      | some alike => rw [isSame value other alike]

/-- Scopes of one name with alike elements are equal. -/
theorem beq_of_alike (sameName : first.name = second.name)
    (alike : ∀ kind name, Option.Rel Element.Alike (first.find? kind name)
      (second.find? kind name)) : (first == second) = true := by
  have classes : (first.classes == second.classes) = true := by
    refine OrderedMap.beq_of_matches fun name => ?_
    have ofClass := alike .classDefinition name
    rw [find?, find?] at ofClass
    generalize first.classes.get? name = value, second.classes.get? name = other at ofClass
    cases value with
    | none =>
      cases other with
      | none => exact .none
      | some other => cases ofClass
    | some value =>
      cases other with
      | none => cases ofClass
      | some other =>
        rcases ofClass with isAlike | _
        cases isAlike with
        | refl => exact .some (beq_self_eq_true _)
        | classes isAlike => exact .some isAlike.symm.beq
  have parts : (first == second) = (first.name == second.name &&
      (first.constants == second.constants && (first.enumerations == second.enumerations &&
        (first.aliases == second.aliases && (first.globals == second.globals &&
          (first.functions == second.functions && first.classes == second.classes)))))) := rfl
  rw [parts, sameName]
  simp only [Bool.and_eq_true, beq_self_eq_true, true_and]
  refine ⟨OrderedMap.beq_of_get?_eq fun name => eq_of_alike_map ?_ (alike .constant name),
    OrderedMap.beq_of_get?_eq fun name => eq_of_alike_map ?_ (alike .enumeration name),
    OrderedMap.beq_of_get?_eq fun name => eq_of_alike_map ?_ (alike .typeAlias name),
    OrderedMap.beq_of_get?_eq fun name => eq_of_alike_map ?_ (alike .globalVariable name),
    OrderedMap.beq_of_get?_eq fun name => eq_of_alike_map ?_ (alike .function name), classes⟩ <;>
  · rintro value other (_ | _)
    rfl

end Scope

namespace Table

/-- The headers of a table stand under their names, and the scopes in them under keys that read as
their names. -/
def IsNamed (table : Table) : Prop :=
  table.headers.Forall fun name header => header.name = name ∧ header.ReadsKeys

variable {table other : Table}

/-- Under a header of both tables stand equal scopes. -/
theorem beq_scopes_of_alike (alike : table.Alike other) {name : String}
    {header otherHeader : Header} (isHeader : table.headers.get? name = some header)
    (isOther : other.headers.get? name = some otherHeader) (reads : header.ReadsKeys)
    (otherReads : otherHeader.ReadsKeys) : (otherHeader.scopes == header.scopes) = true := by
  have scopeAt : ∀ key, table.scopeAt? name key = header.scopes.get? key := by
    intro key
    rw [scopeAt?, header?, isHeader, Option.bind_some]
  have otherScopeAt : ∀ key, other.scopeAt? name key = otherHeader.scopes.get? key := by
    intro key
    rw [scopeAt?, header?, isOther, Option.bind_some]
  refine OrderedMap.beq_of_matches fun key => ?_
  have sameScope := alike.scopes name key
  have sameElements := fun kind own => alike.elements ⟨name, key, kind, own⟩
  simp only [hasScope, find?, scopeAt, otherScopeAt] at sameScope sameElements
  cases found : header.scopes.get? key with
  | none =>
    rw [found, Option.isSome_none, eq_comm, Option.isSome_eq_false_iff,
      Option.isNone_iff_eq_none] at sameScope
    rw [sameScope]
    exact .none
  | some scope =>
    rw [found, Option.isSome_some] at sameScope
    obtain ⟨otherScope, foundOther⟩ := Option.isSome_iff_exists.mp sameScope.symm
    rw [foundOther]
    simp only [found, foundOther, Option.bind_some] at sameElements
    have sameName := (reads key scope found).trans (otherReads key otherScope foundOther).symm
    exact .some (Scope.beq_of_alike sameName sameElements)

/-- Tables that are alike are equal, as far as their names agree with their keys. -/
theorem beq_of_alike (alike : table.Alike other) (named : table.IsNamed)
    (otherNamed : other.IsNamed) : (table == other) = true := by
  have headers : (table.headers == other.headers) = true := by
    refine OrderedMap.beq_of_matches fun name => ?_
    have sameState := alike.enabled name
    rw [enabled?, enabled?, header?, header?] at sameState
    cases found : table.headers.get? name with
    | none =>
      rw [found, Option.map_none, eq_comm, Option.map_eq_none_iff] at sameState
      rw [sameState]
      exact .none
    | some header =>
      rw [found, Option.map_some, eq_comm, Option.map_eq_some_iff] at sameState
      obtain ⟨otherHeader, foundOther, sameState⟩ := sameState
      rw [foundOther]
      obtain ⟨ownName, reads⟩ := named name header found
      obtain ⟨otherName, otherReads⟩ := otherNamed name otherHeader foundOther
      have parts : (otherHeader == header) = (otherHeader.name == header.name &&
          (otherHeader.enabled == header.enabled && otherHeader.scopes == header.scopes)) := rfl
      refine .some ?_
      rw [parts, ownName, otherName, sameState,
        beq_scopes_of_alike alike found foundOther reads otherReads]
      simp
  exact headers

end Table

end Bindery.Symbols
