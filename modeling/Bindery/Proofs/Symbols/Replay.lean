/-
**A sound symbol table is what its own content makes again.**

A definition of an element says nothing of where it stands: it gives the element detached. Written
back piece by piece, the detached elements of a sound table make the table again.

* `Scope.IsSound.rebuilt` — the elements of a scope, kind by kind, make the scope.
* `Table.IsSound.foldl_take` — passes over all scopes that make each scope make the table, with the
  scopes of a header in the order in which the passes meet them.
-/

import Bindery.Proofs.Arrangement
import Bindery.Proofs.Symbols.Built

namespace Bindery.Symbols

/-! ### Elements on their own -/

/-- The constant without a place. -/
def Constant.detached (constant : Constant) : Constant := { constant with place := none }

/-- The enumeration without a holder. -/
def Enumeration.detached (enumeration : Enumeration) : Enumeration :=
  { enumeration with holder := .detached }

/-- The type alias or variable without a place. -/
def TypedName.detached (element : TypedName) : TypedName := { element with place := none }

namespace Class

/-- The class without a place, of itself or of its methods. -/
def detached (self : Class) : Class :=
  { self with
    place := none
    methods := self.methods.mapValues fun method => { method with place := none } }

/-- The class without its variables and enumerations. -/
def outline (self : Class) : Class := { self with fields := .empty, enumerations := .empty }

/-- What a class says of itself: everything but its members. -/
def heading (self : Class) : Class :=
  { self with fields := .empty, enumerations := .empty, methods := .empty, place := none }

/-! ### Members of a class -/

theorem foldl_addParent (self : Class) (parents : List String) :
    parents.foldl addParent self =
      { self with parents := parents.foldl NameSet.insert self.parents } :=
  List.foldl_hom (fun parents => { self with parents }) fun _ _ => rfl

/-- The parents of a class make its parents again. -/
theorem foldl_parents (self : Class) {other : Class} (bare : other.parents = .empty) :
    self.parents.names.foldl addParent other = { other with parents := self.parents } := by
  rw [foldl_addParent, bare]
  exact congrArg (fun parents => { other with parents }) (NameSet.ofList_names self.parents)

theorem foldl_addVariable (self : Class) (members : List ClassVariable) :
    members.foldl addVariable self =
      { self with
        fields := members.foldl (fun fields member => fields.insert member.name member)
          self.fields } :=
  List.foldl_hom (fun fields => { self with fields }) fun _ _ => rfl

theorem foldl_addEnumeration (self : Class) (members : List Enumeration) :
    members.foldl addEnumeration self =
      { self with
        enumerations := members.foldl (fun enumerations member => enumerations.insert member.name
          { member with holder := .classNamed self.name }) self.enumerations } :=
  List.foldl_hom (fun enumerations => { self with enumerations }) fun _ _ => rfl

theorem foldl_addMethod (self : Class) (members : List Function) :
    members.foldl addMethod self =
      { self with
        methods := members.foldl (fun methods member => methods.insert member.name
          { member with className := some self.name, place := self.place }) self.methods } :=
  List.foldl_hom (fun methods => { self with methods }) fun _ _ => rfl

namespace IsSound

variable {self : Class}

/-- The variables of a sound class make its variables again. -/
theorem foldl_fields (sound : self.IsSound) {other : Class} (bare : other.fields = .empty) :
    self.fields.values.foldl addVariable other = { other with fields := self.fields } := by
  have named := sound.fields.imp fun _ _ isOwn => isOwn.1
  rw [foldl_addVariable, bare]
  refine congrArg (fun fields => { other with fields }) ?_
  exact (named.foldl_insert_values id).trans (named.mapValues_eq_self fun _ _ _ => rfl)

/-- The enumerations of a sound class make its enumerations again. -/
theorem foldl_enumerations (sound : self.IsSound) {other : Class}
    (bare : other.enumerations = .empty) (sameName : other.name = self.name) :
    (self.enumerations.values.map Enumeration.detached).foldl addEnumeration other =
      { other with enumerations := self.enumerations } := by
  have named := sound.enumerations.imp fun _ _ isOwn => isOwn.1
  rw [foldl_addEnumeration]
  refine congrArg (fun enumerations => { other with enumerations }) ?_
  rw [bare, sameName, List.foldl_map]
  refine (named.foldl_insert_values _).trans (sound.enumerations.mapValues_eq_self ?_)
  rintro _ ⟨_, _, _, _⟩ ⟨_, rfl⟩
  rfl

/-- The methods of a sound class make its methods again, without a place. -/
theorem foldl_methods (sound : self.IsSound) {other : Class} (bare : other.methods = .empty)
    (sameName : other.name = self.name) (noPlace : other.place = none) :
    (self.methods.values.map Function.detached).foldl addMethod other =
      { other with
        methods := self.methods.mapValues fun method => { method with place := none } } := by
  have named := sound.methods.imp fun _ _ isOwn => isOwn.1
  rw [foldl_addMethod]
  refine congrArg (fun methods => { other with methods }) ?_
  rw [bare, sameName, noPlace, List.foldl_map]
  refine (named.foldl_insert_values fun method =>
    { method with className := some self.name, place := none }).trans
      (OrderedMap.mapValues_congr ?_)
  intro name method found
  obtain ⟨_, ofClass, _⟩ := sound.methods name method found
  rw [ofClass]

/-- The members of a sound class make the class again, without a place. -/
theorem rebuilt (sound : self.IsSound) :
    (self.methods.values.map Function.detached).foldl addMethod
      ((self.enumerations.values.map Enumeration.detached).foldl addEnumeration
        (self.fields.values.foldl addVariable self.heading)) = self.detached := by
  have withFields := @foldl_fields _ sound self.heading rfl
  have withEnumerations :=
    @foldl_enumerations _ sound { self.heading with fields := self.fields } rfl rfl
  have withMethods :=
    @foldl_methods _ sound { self with methods := .empty, place := none } rfl rfl rfl
  rw [withFields, withEnumerations]
  exact withMethods

/-- Put back at its place, a detached class is as it was. -/
theorem attach_detached (sound : self.IsSound) {place : Place} (placed : self.place = some place) :
    self.detached.attach place = self := by
  have made : self.detached.methods.mapValues (fun method => { method with place := some place }) =
      self.methods := by
    rw [detached, OrderedMap.mapValues_mapValues]
    refine sound.methods.mapValues_eq_self fun name method ⟨_, _, samePlace, _⟩ => ?_
    rw [← placed, ← samePlace]
    rfl
  rw [Class.attach, made, ← placed]
  rfl

theorem detached (sound : self.IsSound) : self.detached.IsSound :=
  ⟨sound.plainName, sound.fields, sound.enumerations, sound.methods.mapValues
    fun _ _ ⟨ownName, ofClass, _, isSound⟩ => ⟨ownName, ofClass, rfl, isSound.placed ..⟩⟩

theorem outline (sound : self.IsSound) : self.outline.IsSound :=
  ⟨sound.plainName, .empty, .empty, sound.methods⟩

end IsSound

end Class

/-! ### Elements of a scope -/

/-- The kinds of elements, in the order in which a scope is written. -/
inductive ElementKind where
  | constant
  | enumeration
  | typeAlias
  | globalVariable
  | function
  | classDefinition

/-- All kinds in their order. -/
def ElementKind.all : List ElementKind :=
  [.constant, .enumeration, .typeAlias, .globalVariable, .function, .classDefinition]

/-- An element that stands nowhere, and is what its parts make. -/
def Element.IsPlain : Element → Prop
  | .constant element => element.detached = element
  | .enumeration element => element.detached = element
  | .typeAlias element | .globalVariable element => element.detached = element ∧ element.type.IsRead
  | .function element => element.detached = element ∧ element.IsSound
  | .classDefinition element => element.detached = element ∧ element.IsSound

/-- A switch of a header, or an edit that puts in such an element. -/
def Edit.IsPlain : Edit → Prop
  | .enable _ _ => True
  | .add _ _ element => element.IsPlain

namespace Scope

/-- The elements of one kind in a scope, detached. -/
def elementsOf (scope : Scope) : ElementKind → List Element
  | .constant => scope.constants.values.map fun c => .constant c.detached
  | .enumeration => scope.enumerations.values.map fun e => .enumeration e.detached
  | .typeAlias => scope.aliases.values.map fun a => .typeAlias a.detached
  | .globalVariable => scope.globals.values.map fun v => .globalVariable v.detached
  | .function => scope.functions.values.map fun f => .function f.detached
  | .classDefinition => scope.classes.values.map fun c => .classDefinition c.detached

/-- The elements of a scope, kind by kind. -/
def elements (scope : Scope) : List Element := ElementKind.all.flatMap scope.elementsOf

/-- Detached values that get their names and stamps back make their map again. -/
theorem foldl_take {α : Type} {m : OrderedMap α} {property : String → α → Prop}
    (holds : m.Forall property) {place : Place} {asElement : α → Element} {nameOf : α → String}
    {stamp : α → α} (withMap : OrderedMap α → Scope)
    (takes : ∀ grown value, (withMap grown).take place (asElement value) =
      withMap (grown.insert (nameOf value) (stamp value)))
    (own : ∀ key value, property key value → nameOf value = key ∧ stamp value = value) :
    (m.values.map asElement).foldl (take place) (withMap .empty) = withMap m := by
  have named : m.Forall fun key value => nameOf value = key :=
    holds.imp fun key value isOwn => (own key value isOwn).1
  rw [List.foldl_map, List.foldl_hom withMap takes, named.foldl_insert_values stamp,
    holds.mapValues_eq_self fun key value isOwn => (own key value isOwn).2]

/-- The elements of a sound scope make the scope again. -/
theorem IsSound.rebuilt {place : Place} {scope : Scope} (sound : scope.IsSound place)
    (isCanonical : canonicalScope place.scope = place.scope) :
    scope.elements.foldl (Scope.take place) (Scope.named place.scope) = scope := by
  obtain ⟨name, constants, enumerations, aliases, globals, functions, classes⟩ := scope
  obtain ⟨isName, ofConstants, ofEnumerations, ofAliases, ofGlobals, ofFunctions, ofClasses⟩ :=
    sound
  simp only at isName
  subst isName
  have start : Scope.named place.scope = { name := place.scope } := by
    rw [Scope.named, isCanonical]
  simp only [elements, ElementKind.all, List.flatMap_cons, List.flatMap_nil, List.append_nil,
    List.foldl_append, elementsOf, start]
  rw [foldl_take ofConstants (fun m => ⟨place.scope, m, .empty, .empty, .empty, .empty, .empty⟩)
      (fun _ _ => rfl) fun _ _ ⟨isOwn, placed⟩ => ⟨isOwn, by rw [← placed]; rfl⟩,
    foldl_take ofEnumerations
      (fun m => ⟨place.scope, constants, m, .empty, .empty, .empty, .empty⟩)
      (fun _ _ => rfl) fun _ _ ⟨isOwn, placed⟩ => ⟨isOwn, by rw [← placed]; rfl⟩,
    foldl_take ofAliases
      (fun m => ⟨place.scope, constants, enumerations, m, .empty, .empty, .empty⟩)
      (fun _ _ => rfl) fun _ _ ⟨isOwn, placed, _⟩ => ⟨isOwn, by rw [← placed]; rfl⟩,
    foldl_take ofGlobals
      (fun m => ⟨place.scope, constants, enumerations, aliases, m, .empty, .empty⟩)
      (fun _ _ => rfl) fun _ _ ⟨isOwn, placed, _⟩ => ⟨isOwn, by rw [← placed]; rfl⟩,
    foldl_take ofFunctions
      (fun m => ⟨place.scope, constants, enumerations, aliases, globals, m, .empty⟩)
      (fun _ _ => rfl) fun _ _ ⟨isOwn, placed, ofNoClass, _⟩ =>
        ⟨isOwn, by rw [← placed, ← ofNoClass]; rfl⟩,
    foldl_take ofClasses
      (fun m => ⟨place.scope, constants, enumerations, aliases, globals, functions, m⟩)
      (fun _ _ => rfl) fun _ _ ⟨isOwn, placed, isSound⟩ =>
        ⟨isOwn, isSound.attach_detached placed⟩]

/-- The elements of a scope are plain when its types are read and its functions and classes are
sound. -/
theorem isPlain_elements {scope : Scope}
    (aliases : scope.aliases.Forall fun _ element => element.type.IsRead)
    (globals : scope.globals.Forall fun _ element => element.type.IsRead)
    (functions : scope.functions.Forall fun _ function => function.IsSound)
    (classes : scope.classes.Forall fun _ self => self.IsSound) :
    ∀ element ∈ scope.elements, element.IsPlain := by
  have ofMap : ∀ {α : Type} {m : OrderedMap α} {property : String → α → Prop}
      {asElement : α → Element}, m.Forall property →
      (∀ name value, property name value → (asElement value).IsPlain) →
      ∀ element ∈ m.values.map asElement, element.IsPlain := by
    intro α m property asElement holds plain element isIn
    obtain ⟨value, isValue, rfl⟩ := List.mem_map.mp isIn
    obtain ⟨name, found⟩ := (m.mem_values value).mp isValue
    exact plain name value (holds name value found)
  have plainConstants : scope.constants.Forall fun _ _ => True := fun _ _ _ => trivial
  have plainEnumerations : scope.enumerations.Forall fun _ _ => True := fun _ _ _ => trivial
  simp only [elements, ElementKind.all, List.flatMap_cons, List.flatMap_nil, List.append_nil,
    List.forall_mem_append, elementsOf]
  refine ⟨ofMap plainConstants fun _ _ _ => rfl, ofMap plainEnumerations fun _ _ _ => rfl,
    ofMap aliases fun _ _ isRead => ⟨rfl, isRead⟩, ofMap globals fun _ _ isRead => ⟨rfl, isRead⟩,
    ofMap functions fun _ _ isSound => ⟨rfl, isSound.placed ..⟩,
    ofMap classes fun _ _ isSound => ⟨?_, isSound.detached⟩⟩
  rw [Class.detached, Class.detached]
  simp only [OrderedMap.mapValues_mapValues]
  rfl

theorem IsSound.isPlain_elements {place : Place} {scope : Scope} (sound : scope.IsSound place) :
    ∀ element ∈ scope.elements, element.IsPlain :=
  Scope.isPlain_elements (sound.aliases.imp fun _ _ ⟨_, _, isRead⟩ => isRead)
    (sound.globals.imp fun _ _ ⟨_, _, isRead⟩ => isRead)
    (sound.functions.imp fun _ _ ⟨_, _, _, isSound⟩ => isSound)
    (sound.classes.imp fun _ _ ⟨_, _, isSound⟩ => isSound)

/-- The names of the scopes do not count for whether one is empty. -/
theorem elements_eq_nil_iff (scope : Scope) : scope.elements = [] ↔ scope.isEmpty = true := by
  simp [elements, ElementKind.all, elementsOf, isEmpty, OrderedMap.values, OrderedMap.isEmpty,
    and_assoc]

end Scope

/-! ### Passes over a table -/

/-- Changes to the scopes of a table, each under the names of a header and a scope. -/
abbrev Steps := List (String × String × (Scope → Scope))

/-- What a pass over a table does to each scope, as changes one after the other. -/
abbrev Pass := Place → Scope → List (Scope → Scope)

namespace Header

/-- The changes that a pass makes to the scopes of a header. -/
def stepsOf (header : Header) (pass : Pass) : List (String × (Scope → Scope)) :=
  header.scopes.values.flatMap fun scope =>
    (pass ⟨header.name, scope.name⟩ scope).map (scope.name, ·)

/-- Whether a pass has something to change in a scope of the header. -/
def meets (header : Header) (pass : Pass) (scope : Scope) : Bool :=
  !(pass ⟨header.name, scope.name⟩ scope).isEmpty

/-- The header with its scopes in the order in which passes have something to change in them. -/
def arranged (passes : List Pass) (header : Header) : Header :=
  { header with scopes := header.scopes.arrange (passes.map header.meets) }

/-- The scopes stay where they are when they stand by the first pass that meets them. -/
theorem arranged_eq_self_iff (passes : List Pass) (header : Header) :
    header.arranged passes = header ↔ header.scopes.values.Pairwise fun a b =>
      firstPass (passes.map header.meets) a ≤ firstPass (passes.map header.meets) b := by
  rw [← OrderedMap.arrange_eq_self_iff]
  constructor
  · exact fun same => congrArg Header.scopes same
  · intro same
    rw [arranged, same]

end Header

namespace Table

/-- The changes that a pass makes to the scopes of a table. -/
def stepsOf (table : Table) (pass : Pass) : Steps :=
  table.headerList.flatMap fun header => (header.stepsOf pass).map (header.name, ·)

/-- The table with one scope changed, which is created when it is not there. -/
def take (table : Table) (step : String × String × (Scope → Scope)) : Table :=
  table.modifyScope step.1 step.2.1 fun _ => step.2.2

/-- The headers of a table without their scopes. -/
def bareHeaders (table : Table) : Table :=
  table.headerList.foldl (fun made header => made.setEnabled header.name header.enabled) .empty

/-- Adding an element is taking it into a scope that has its canonical name. -/
theorem add_eq_take {scope : String} (isCanonical : canonicalScope scope = scope) (table : Table)
    (header : String) (element : Element) :
    table.add header scope element =
      table.take (header, scope, fun holder => holder.take ⟨header, scope⟩ element) := by
  rw [add_eq_modifyScope, take, modifyScope, modifyScope, isCanonical]

/-- The table with the scopes of each header in the order in which passes meet them. -/
def arranged (passes : List Pass) (table : Table) : Table :=
  { headers := table.headers.mapValues (Header.arranged passes) }

end Table

/-! ### What passes make of a header -/

/-- Changes to scopes leave a header with just these changes to its scopes. -/
theorem changed_modifyScope {steps : List (String × (Scope → Scope))}
    (canonical : ∀ step ∈ steps, canonicalScope step.1 = step.1) (header : Header) :
    OrderedMap.changed
        (steps.map fun step holder => holder.modifyScope (canonicalScope step.1) step.2) header =
      { header with scopes := header.scopes.perform Scope.named steps } := by
  induction steps generalizing header with
  | nil => rfl
  | cons step rest ih =>
    have isCanonical := canonical step (by simp)
    have ofRest := ih (fun other isLater => canonical other (List.mem_cons_of_mem _ isLater))
      (header.modifyScope step.1 step.2)
    show OrderedMap.changed _ (header.modifyScope (canonicalScope step.1) step.2) = _
    rw [isCanonical, ofRest, Header.modifyScope, isCanonical]
    rfl

namespace Header.IsSound

variable {header : Header} {passes : List Pass}

theorem get?_scopes (sound : header.IsSound) {scope : Scope}
    (isScope : scope ∈ header.scopes.values) : header.scopes.get? scope.name = some scope :=
  OrderedMap.Forall.get?_nameOf (sound.imp fun _ _ isOwn => isOwn.2.1.name) isScope

theorem names_nodup (sound : header.IsSound) : (header.scopes.values.map Scope.name).Nodup := by
  rw [OrderedMap.Forall.map_values (sound.imp fun _ _ isOwn => isOwn.2.1.name)]
  exact header.scopes.distinct

/-- Under the name of a scope stand the changes to it, pass by pass. -/
theorem under_steps (sound : header.IsSound) {scope : Scope}
    (isScope : scope ∈ header.scopes.values) :
    under scope.name (passes.flatMap header.stepsOf) =
      passes.flatMap fun pass => pass ⟨header.name, scope.name⟩ scope := by
  rw [under_flatMap]
  refine List.flatMap_congr fun pass _ => ?_
  exact under_groups _ sound.names_nodup isScope

/-- A scope that passes change is what these changes make of a new one. -/
theorem get?_perform_steps (sound : header.IsSound) {scope : Scope}
    (isScope : scope ∈ header.scopes.values)
    (isChanged : passes.flatMap (fun pass => pass ⟨header.name, scope.name⟩ scope) ≠ []) :
    (OrderedMap.empty.perform Scope.named (passes.flatMap header.stepsOf)).get? scope.name =
      some (OrderedMap.changed (passes.flatMap fun pass => pass ⟨header.name, scope.name⟩ scope)
        (Scope.named scope.name)) := by
  have isKey : scope.name ∈ (passes.flatMap header.stepsOf).map Prod.fst := by
    by_contra isOther
    exact isChanged ((sound.under_steps isScope).symm.trans (under_eq_nil_of_notMem isOther))
  rw [OrderedMap.get?_perform, if_pos isKey, sound.under_steps isScope]
  rfl

/-- Passes that make a scope that is not empty change something in it. -/
theorem changes_ne_nil (sound : header.IsSound) {scope : Scope}
    (isScope : scope ∈ header.scopes.values)
    (makes : OrderedMap.changed (passes.flatMap fun pass => pass ⟨header.name, scope.name⟩ scope)
      (Scope.named scope.name) = scope) :
    passes.flatMap (fun pass => pass ⟨header.name, scope.name⟩ scope) ≠ [] := by
  intro nothing
  obtain ⟨_, _, notEmpty⟩ := sound _ _ (sound.get?_scopes isScope)
  rw [nothing] at makes
  rw [← makes] at notEmpty
  simp [OrderedMap.changed, Scope.named, Scope.isEmpty, OrderedMap.isEmpty, OrderedMap.empty]
    at notEmpty

/-- Passes that make each scope meet each scope. -/
theorem met_of_makes (sound : header.IsSound)
    (makes : ∀ scope ∈ header.scopes.values,
      OrderedMap.changed (passes.flatMap fun pass => pass ⟨header.name, scope.name⟩ scope)
        (Scope.named scope.name) = scope) :
    ∀ scope ∈ header.scopes.values, (passes.map header.meets).any (· scope) = true := by
  intro scope isScope
  by_contra notMet
  exact sound.changes_ne_nil isScope (makes scope isScope) (by simpa [meets] using notMet)

/-- Passes that make each scope make the header, with the scopes in the order of the passes. -/
theorem perform_steps (sound : header.IsSound)
    (makes : ∀ scope ∈ header.scopes.values,
      OrderedMap.changed (passes.flatMap fun pass => pass ⟨header.name, scope.name⟩ scope)
        (Scope.named scope.name) = scope) :
    OrderedMap.empty.perform Scope.named (passes.flatMap header.stepsOf) =
      (header.arranged passes).scopes := by
  have named : header.scopes.Forall fun name scope => scope.name = name :=
    sound.imp fun _ _ isOwn => isOwn.2.1.name
  have sameNames : (OrderedMap.empty.perform Scope.named (passes.flatMap header.stepsOf)).nameSet =
      (header.arranged passes).scopes.nameSet :=
    (OrderedMap.nameSet_perform ..).trans <| (foldl_insert_passes ..).trans <|
      named.foldl_insert_passes (sound.met_of_makes makes)
  refine OrderedMap.ext_get? sameNames fun name => ?_
  have arrangedFound : (header.arranged passes).scopes.get? name = header.scopes.get? name :=
    OrderedMap.get?_arrange ..
  cases found : header.scopes.get? name with
  | none =>
    rw [found] at arrangedFound
    exact (OrderedMap.get?_eq_none_of_nameSet sameNames arrangedFound).trans arrangedFound.symm
  | some scope =>
    have isScope : scope ∈ header.scopes.values :=
      (OrderedMap.mem_values ..).mpr ⟨name, found⟩
    have makesScope := makes scope isScope
    rw [arrangedFound, found, ← named name scope found,
      sound.get?_perform_steps isScope (sound.changes_ne_nil isScope makesScope), makesScope]

/-- The changes to a header stand under canonical names. -/
theorem canonical_steps (sound : header.IsSound) :
    ∀ step ∈ passes.flatMap header.stepsOf, canonicalScope step.1 = step.1 := by
  intro step isStep
  simp only [stepsOf, List.mem_flatMap, List.mem_map] at isStep
  obtain ⟨_, _, scope, isScope, _, _, rfl⟩ := isStep
  exact (sound _ _ (sound.get?_scopes isScope)).1

end Header.IsSound

/-! ### What passes make of a table -/

namespace Table

/-- Changes to scopes, as changes to the headers that hold them. -/
theorem headers_foldl_take (steps : Steps) (table : Table) :
    (steps.foldl take table).headers =
      table.headers.perform (fun name => { name }) (steps.map fun step =>
        (step.1, fun holder => holder.modifyScope (canonicalScope step.2.1) step.2.2)) := by
  rw [OrderedMap.perform, List.foldl_map]
  exact (List.foldl_hom Table.headers fun _ _ => rfl).symm

theorem headers_bareHeaders (table : Table) :
    table.bareHeaders.headers =
      OrderedMap.empty.perform (fun name => { name }) (table.headerList.flatMap fun header =>
        [fun holder => { holder with enabled := header.enabled }].map (header.name, ·)) := by
  simp only [List.map_cons, List.map_nil, ← List.map_eq_flatMap]
  rw [OrderedMap.perform, List.foldl_map]
  exact (List.foldl_hom Table.headers fun _ _ => rfl).symm

namespace IsSound

variable {table : Table} {passes : List Pass}

theorem named (sound : table.IsSound) :
    table.headers.Forall fun name header => header.name = name :=
  OrderedMap.Forall.imp sound fun _ _ isOwn => isOwn.1

theorem get?_headers (sound : table.IsSound) {header : Header}
    (isHeader : header ∈ table.headerList) : table.headers.get? header.name = some header :=
  sound.named.get?_nameOf isHeader

theorem header (sound : table.IsSound) {header : Header} (isHeader : header ∈ table.headerList) :
    header.IsSound :=
  (sound _ _ (sound.get?_headers isHeader)).2

theorem names_nodup (sound : table.IsSound) : (table.headerList.map Header.name).Nodup := by
  rw [headerList, sound.named.map_values]
  exact table.headers.distinct

/-- Switching the headers of a table names them all. -/
theorem nameSet_bareHeaders (sound : table.IsSound) :
    table.bareHeaders.headers.nameSet = table.headers.nameSet := by
  have names : (table.headerList.flatMap fun header =>
      [fun holder : Header => { holder with enabled := header.enabled }].map
        (header.name, ·)).map Prod.fst = table.headers.nameSet.names := by
    simp only [List.map_cons, List.map_nil, ← List.map_eq_flatMap, List.map_map]
    exact sound.named.map_values
  rw [headers_bareHeaders, OrderedMap.nameSet_perform, names]
  exact NameSet.ofList_names table.headers.nameSet

/-- The changes of passes stand under names of headers. -/
theorem mem_names_of_step (sound : table.IsSound) {step : String × String × (Scope → Scope)}
    (isStep : step ∈ passes.flatMap table.stepsOf) : step.1 ∈ table.headers.nameSet.names := by
  simp only [stepsOf, List.mem_flatMap, List.mem_map] at isStep
  obtain ⟨_, _, header, isHeader, _, _, rfl⟩ := isStep
  exact (OrderedMap.mem_keys ..).mpr ⟨header, sound.get?_headers isHeader⟩

/-- Behind its switch, a header has its name and is on or off. -/
theorem get?_bareHeaders (sound : table.IsSound) {header : Header}
    (isHeader : header ∈ table.headerList) :
    table.bareHeaders.headers.get? header.name =
      some { name := header.name, enabled := header.enabled } := by
  rw [headers_bareHeaders, OrderedMap.get?_perform, under_groups _ sound.names_nodup isHeader,
    if_pos]
  · rfl
  · simp only [List.mem_map, List.mem_flatMap]
    exact ⟨_, ⟨header, isHeader, _, List.mem_singleton.mpr rfl, rfl⟩, rfl⟩

/-- Under the name of a header stand the changes to its scopes. -/
theorem under_steps (sound : table.IsSound) {header : Header}
    (isHeader : header ∈ table.headerList) :
    under header.name (passes.flatMap table.stepsOf) = passes.flatMap header.stepsOf := by
  rw [under_flatMap]
  exact List.flatMap_congr fun pass _ => under_groups _ sound.names_nodup isHeader

/-- A header behind passes has the scopes that they have changed. -/
theorem get?_foldl_take (sound : table.IsSound) {header : Header}
    (isHeader : header ∈ table.headerList) (passes : List Pass) :
    ((passes.flatMap table.stepsOf).foldl take table.bareHeaders).headers.get? header.name =
      some { header with
        scopes := OrderedMap.empty.perform Scope.named (passes.flatMap header.stepsOf) } := by
  have changes := under_map header.name
    (fun (step : String × (Scope → Scope)) (holder : Header) =>
      holder.modifyScope (canonicalScope step.1) step.2) (passes.flatMap table.stepsOf)
  rw [headers_foldl_take, OrderedMap.get?_perform_of_eq_some (sound.get?_bareHeaders isHeader),
    changes, sound.under_steps isHeader,
    changed_modifyScope (sound.header isHeader).canonical_steps]

/-- Passes that make each scope make the table, with the scopes in the order of the passes. -/
theorem foldl_take (sound : table.IsSound)
    (makes : ∀ header ∈ table.headerList, ∀ scope ∈ header.scopes.values,
      OrderedMap.changed (passes.flatMap fun pass => pass ⟨header.name, scope.name⟩ scope)
        (Scope.named scope.name) = scope) :
    (passes.flatMap table.stepsOf).foldl take table.bareHeaders = table.arranged passes := by
  have sameNames : ((passes.flatMap table.stepsOf).foldl take table.bareHeaders).headers.nameSet =
      (table.arranged passes).headers.nameSet := by
    rw [headers_foldl_take, OrderedMap.nameSet_perform, sound.nameSet_bareHeaders, arranged,
      OrderedMap.nameSet_mapValues]
    refine NameSet.foldl_insert_of_subset fun name isName => ?_
    simp only [List.map_map, List.mem_map] at isName
    obtain ⟨step, isStep, rfl⟩ := isName
    exact sound.mem_names_of_step isStep
  refine congrArg Table.mk (OrderedMap.ext_get? sameNames fun name => ?_)
  have arrangedFound : (table.headers.mapValues (Header.arranged passes)).get? name =
      (table.headers.get? name).map (Header.arranged passes) := OrderedMap.get?_mapValues ..
  cases found : table.headers.get? name with
  | none =>
    rw [found, Option.map_none] at arrangedFound
    exact (OrderedMap.get?_eq_none_of_nameSet sameNames arrangedFound).trans arrangedFound.symm
  | some header =>
    have isHeader : header ∈ table.headerList := (OrderedMap.mem_values ..).mpr ⟨name, found⟩
    rw [arrangedFound, found, ← sound.named name header found, sound.get?_foldl_take isHeader,
      (sound.header isHeader).perform_steps (makes header isHeader)]
    rfl

end IsSound

/-! ### The edits that make a table -/

/-- Puts in each element of a scope. -/
def elementsPass : Pass := fun place scope => scope.elements.map fun element s =>
  s.take place element

/-- The edits that make a table: its headers are switched first, then the elements of each scope
go in, kind by kind. -/
def edits (table : Table) : List Edit :=
  table.headerList.map (fun header => .enable header.name header.enabled) ++
    table.scopes.flatMap fun (header, scope) =>
      scope.elements.map (.add header.name scope.name)

theorem stepsOf_eq (table : Table) (pass : Pass) :
    table.stepsOf pass = table.scopes.flatMap fun (header, scope) =>
      (pass ⟨header.name, scope.name⟩ scope).map fun change =>
        (header.name, scope.name, change) := by
  simp only [stepsOf, Header.stepsOf, scopes, List.map_flatMap, List.map_map, List.flatMap_assoc,
    List.flatMap_map]
  rfl

namespace IsSound

variable {table : Table}

theorem mem_scopes (sound : table.IsSound) {header : Header} {scope : Scope}
    (isIn : (header, scope) ∈ table.scopes) :
    header ∈ table.headerList ∧ scope ∈ header.scopes.values ∧
      canonicalScope scope.name = scope.name ∧ scope.IsSound ⟨header.name, scope.name⟩ := by
  simp only [scopes, List.mem_flatMap, List.mem_map, Prod.mk.injEq] at isIn
  obtain ⟨_, isHeader, _, isScope, rfl, rfl⟩ := isIn
  have isSound := sound.header isHeader
  obtain ⟨isCanonical, isSoundScope, _⟩ := isSound _ _ (isSound.get?_scopes isScope)
  exact ⟨isHeader, isScope, isCanonical, isSoundScope⟩

theorem arranged_eq_self_iff (sound : table.IsSound) (passes : List Pass) :
    table.arranged passes = table ↔
      ∀ header ∈ table.headerList, header.arranged passes = header := by
  constructor
  · intro same header isHeader
    have found := sound.get?_headers isHeader
    have arrangedFound := congrArg (fun t : Table => t.headers.get? header.name) same
    simp only [arranged, OrderedMap.get?_mapValues, found] at arrangedFound
    exact Option.some.inj arrangedFound
  · intro same
    have isListed : table.headers.Forall fun _ header => header ∈ table.headerList :=
      fun name header found => (OrderedMap.mem_values ..).mpr ⟨name, found⟩
    exact congrArg Table.mk (isListed.mapValues_eq_self fun _ header => same header)

/-- Putting in the elements of a scope is a change to it for each element. -/
theorem foldl_apply_add (sound : table.IsSound) {header : Header} {scope : Scope}
    (isIn : (header, scope) ∈ table.scopes) (made : Table) :
    (scope.elements.map (Edit.add header.name scope.name)).foldl Table.apply made =
      ((elementsPass ⟨header.name, scope.name⟩ scope).map fun change =>
        (header.name, scope.name, change)).foldl take made := by
  obtain ⟨_, _, isCanonical, _⟩ := sound.mem_scopes isIn
  simp only [elementsPass, List.map_map, List.foldl_map]
  exact List.foldl_ext _ _ _ fun made element _ => add_eq_take isCanonical made header.name element

/-- The edits of a sound table make the table. -/
theorem applyAll_edits (sound : table.IsSound) : Table.empty.applyAll table.edits = table := by
  have switches : (table.headerList.map fun header =>
      Edit.enable header.name header.enabled).foldl Table.apply .empty = table.bareHeaders :=
    List.foldl_map
  have makes : ∀ header ∈ table.headerList, ∀ scope ∈ header.scopes.values,
      OrderedMap.changed ([elementsPass].flatMap fun pass => pass ⟨header.name, scope.name⟩ scope)
        (Scope.named scope.name) = scope := by
    intro header isHeader scope isScope
    have isSound := sound.header isHeader
    obtain ⟨isCanonical, isSoundScope, _⟩ := isSound _ _ (isSound.get?_scopes isScope)
    rw [List.flatMap_singleton, elementsPass, OrderedMap.changed, List.foldl_map]
    exact isSoundScope.rebuilt isCanonical
  have stays : table.arranged [elementsPass] = table := by
    refine (sound.arranged_eq_self_iff _).mpr fun header isHeader => ?_
    rw [Header.arranged_eq_self_iff]
    refine List.pairwise_of_forall_mem_list fun a isScope b _ => ?_
    have met : header.meets elementsPass a = true := by
      simpa using (sound.header isHeader).met_of_makes (makes header isHeader) a isScope
    exact (firstPass_cons_of_met met []).symm ▸ Nat.zero_le _
  calc Table.empty.applyAll table.edits
      = (table.scopes.flatMap fun (header, scope) =>
          scope.elements.map (Edit.add header.name scope.name)).foldl Table.apply
            table.bareHeaders := by
        rw [applyAll, edits, List.foldl_append, switches]
    _ = (table.stepsOf elementsPass).foldl take table.bareHeaders := by
        rw [stepsOf_eq, List.foldl_flatMap, List.foldl_flatMap]
        exact List.foldl_ext _ _ _ fun made (header, scope) isIn => sound.foldl_apply_add isIn made
    _ = ([elementsPass].flatMap table.stepsOf).foldl take table.bareHeaders := by
        rw [List.flatMap_singleton]
    _ = table := (sound.foldl_take makes).trans stays

end IsSound

end Table

end Bindery.Symbols
