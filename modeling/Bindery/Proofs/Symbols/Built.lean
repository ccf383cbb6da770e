/-
**Which symbol tables can be built, and what holds of all of them.**

A table is built from the empty one by edits and by additions to classes that are in it. The
inductive predicates say which overloads, functions and classes may go in: those that are put
together by their own operations, from types that were read from some text.

* `Table.Built` — the tables that can be built.
* `Table.IsSound` — elements stand under their own names and know their places, scopes stand under
  canonical names and are not empty, and each element is what its parts make.
* `Table.Built.isSound` — what every step keeps, for the whole table.
-/

import Bindery.Proofs.OrderedMap
import Bindery.Proofs.Symbols.Names
import Bindery.Symbols.Edit

namespace Bindery.Symbols

/-! ### What can be built -/

/-- A type that was read from some text and got some description. -/
def TypeShape.IsRead (type : TypeShape) : Prop :=
  ∃ text description, type = (TypeShape.parse text).withDescription description

/-- A type that was read, or the array of one that has a base. -/
def TypeShape.IsReadParameter (type : TypeShape) : Prop :=
  ∃ read : TypeShape, read.IsRead ∧
    (type = read ∨ read.isEmpty = false ∧ type = { read with isArray := true })

/-- An overload whose parameters were added one by one. -/
inductive Overload.Built : Overload → Prop
  | fresh (overload : Overload) (bare : overload.parameters = [])
      (read : overload.returns.IsRead) : Built overload
  | addParameter {overload longer : Overload} (built : Built overload) (parameter : Parameter)
      (read : parameter.type.IsReadParameter) (policy : DuplicatePolicy) (isNew : Bool)
      (added : overload.addParameter parameter policy = .ok (longer, isNew)) : Built longer

/-- A function whose overloads were added one by one, wherever it has been put since. -/
inductive Function.Built : Function → Prop
  | fresh (name : String) : Built { name }
  | addOverload {function : Function} (built : Built function) {overload : Overload}
      (builtOverload : overload.Built) : Built (function.addOverload overload)
  | placed {function : Function} (built : Built function) (place : Option Place)
      (className : Option String) : Built { function with place, className }

/-- The additions of a member to a class. -/
inductive Class.Addition : (Class → Class) → Prop
  | parent (name : String) : Addition (·.addParent name)
  | variable (newVariable : ClassVariable) (read : newVariable.type.IsRead) :
      Addition (·.addVariable newVariable)
  | enumeration (enumeration : Enumeration) : Addition (·.addEnumeration enumeration)
  | method (method : Function) (built : method.Built) : Addition (·.addMethod method)

/-- A class that a name declares, with what it says of itself and members added one by one. -/
inductive Class.Built : Class → Prop
  | named (name : String) : Built (Class.named name)
  | described {self : Class} (built : Built self) (generics : List String)
      (isStruct isForward : Bool) (description : String) :
      Built { self with generics, isStruct, isForward, description }
  | add {self : Class} (built : Built self) {change : Class → Class}
      (addition : Class.Addition change) : Built (change self)
  | attach {self : Class} (built : Built self) (place : Place) : Built (self.attach place)

/-- An element that may go into a scope. -/
def Element.Built : Element → Prop
  | .constant _ | .enumeration _ => True
  | .typeAlias element | .globalVariable element => element.type.IsRead
  | .function element => element.Built
  | .classDefinition element => element.Built

/-- An edit that puts in such an element, into a scope whose canonical name is its own. -/
def Edit.Built : Edit → Prop
  | .enable _ _ => True
  | .add _ scope element =>
    canonicalScope (canonicalScope scope) = canonicalScope scope ∧ element.Built

/-- A table that edits and additions to its classes make. -/
inductive Table.Built : Table → Prop
  | empty : Built .empty
  | apply {table : Table} (built : Built table) (edit : Edit) (builtEdit : edit.Built) :
      Built (table.apply edit)
  | modifyClass {table : Table} (built : Built table) (header scope name : String)
      {change : Class → Class} (addition : Class.Addition change) :
      Built (table.modifyClass header scope name change)

/-! ### Types -/

namespace TypeShape

theorem text_parse (text : String) : (TypeShape.parse text).text = text := by
  unfold TypeShape.parse
  extract_lets _ _ _ _ base
  by_cases noBase : base.isEmpty <;> simp [noBase]

/-- A type that was read is read again from its own text. -/
theorem IsRead.reread {type : TypeShape} (read : type.IsRead) :
    (TypeShape.parse type.text).withDescription type.description = type := by
  obtain ⟨text, description, rfl⟩ := read
  simp only [withDescription, text_parse]

/-- A parameter's type is read again from its own text, if it is told again that it is an array. -/
theorem IsReadParameter.reread {type : TypeShape} (read : type.IsReadParameter)
    {again : TypeShape}
    (isAgain : again = (TypeShape.parse type.text).withDescription type.description) :
    (if type.isArray && !again.isEmpty then { again with isArray := true } else again) = type := by
  obtain ⟨original, isRead, rfl | ⟨hasBase, rfl⟩⟩ := read
  · rw [isRead.reread] at isAgain
    subst isAgain
    split
    next isArray =>
      rw [Bool.and_eq_true] at isArray
      cases again
      simp_all
    next => rfl
  · have isOriginal : again = original := isAgain.trans isRead.reread
    subst isOriginal
    simp [hasBase]

end TypeShape

/-! ### Overloads -/

/-- An overload of a function: its parameters have distinct names and its types were read. -/
structure Overload.IsSound (function : String) (overload : Overload) : Prop where
  function : overload.function = function
  returns : overload.returns.IsRead
  parameters : ∀ parameter ∈ overload.parameters, parameter.type.IsReadParameter
  distinct : (overload.parameters.map Parameter.name).Nodup

namespace Overload

theorem hasParameter_eq_true_iff (overload : Overload) (name : String) :
    overload.hasParameter name = true ↔ name ∈ overload.parameters.map Parameter.name := by
  simp [hasParameter]

/-- A parameter with a new name is added under either policy. -/
theorem addParameter_of_new {overload : Overload} {parameter : Parameter}
    (isNew : parameter.name ∉ overload.parameters.map Parameter.name) (policy : DuplicatePolicy) :
    overload.addParameter parameter policy =
      .ok ({ overload with parameters := overload.parameters ++ [parameter] }, true) := by
  rw [← hasParameter_eq_true_iff] at isNew
  simp [addParameter, isNew]

/-- An added parameter is dropped, or new and behind the others. -/
theorem addParameter_eq_ok {overload longer : Overload} {parameter : Parameter}
    {policy : DuplicatePolicy} {isNew : Bool}
    (added : overload.addParameter parameter policy = .ok (longer, isNew)) :
    longer = overload ∨ parameter.name ∉ overload.parameters.map Parameter.name ∧
      longer = { overload with parameters := overload.parameters ++ [parameter] } := by
  by_cases isTaken : parameter.name ∈ overload.parameters.map Parameter.name
  · rw [← hasParameter_eq_true_iff] at isTaken
    cases policy with
    | ignore =>
      simp only [addParameter, isTaken, if_true, Except.ok.injEq, Prod.mk.injEq] at added
      exact .inl added.1.symm
    | reject => simp [addParameter, isTaken] at added
  · rw [addParameter_of_new isTaken policy, Except.ok.injEq, Prod.mk.injEq] at added
    exact .inr ⟨isTaken, added.1.symm⟩

/-- Parameters with new and distinct names are all added. -/
theorem addParameters_of_distinct {overload : Overload} {parameters : List Parameter}
    (distinct : ((overload.parameters ++ parameters).map Parameter.name).Nodup)
    (policy : DuplicatePolicy) :
    overload.addParameters parameters policy =
      .ok { overload with parameters := overload.parameters ++ parameters } := by
  induction parameters generalizing overload with
  | nil =>
    rw [List.append_nil]
    rfl
  | cons parameter rest ih =>
    have isNew : parameter.name ∉ overload.parameters.map Parameter.name := by
      rw [List.map_append] at distinct
      exact fun isTaken => (List.nodup_append.mp distinct).2.2 _ isTaken _ (by simp) rfl
    rw [List.append_cons] at distinct
    have ofRest := @ih { overload with parameters := overload.parameters ++ [parameter] } distinct
    rw [List.append_assoc] at ofRest
    rw [addParameters, List.foldlM_cons, addParameter_of_new isNew policy]
    exact ofRest

theorem Built.isSound {overload : Overload} (built : overload.Built) :
    overload.IsSound overload.function := by
  induction built with
  | fresh overload bare read => exact ⟨rfl, read, by simp [bare], by simp [bare]⟩
  | addParameter _ parameter read policy isNew added ih =>
    rcases addParameter_eq_ok added with rfl | ⟨isNew, rfl⟩
    · exact ih
    · refine ⟨rfl, ih.returns, ?_, ?_⟩
      · intro other isIn
        rcases List.mem_append.mp isIn with isOld | isLast
        · exact ih.parameters other isOld
        · exact List.mem_singleton.mp isLast ▸ read
      · rw [List.map_append, List.nodup_append]
        refine ⟨ih.distinct, by simp, ?_⟩
        rintro name isOld other isLast rfl
        exact isNew (List.mem_singleton.mp isLast ▸ isOld)

end Overload

/-! ### Functions -/

namespace Function

/-- The function without a place and a class. -/
def detached (function : Function) : Function := { function with place := none, className := none }

/-- The function is what its overloads make, and each of them is one of it. -/
structure IsSound (function : Function) : Prop where
  overloads : ∀ overload ∈ function.overloads, overload.IsSound function.name
  rebuilt : function.overloads.foldl addOverload { name := function.name } = function.detached

theorem Built.isSound {function : Function} (built : function.Built) : function.IsSound := by
  induction built with
  | fresh name => exact ⟨by simp, rfl⟩
  | @addOverload function _ overload builtOverload ih =>
    refine ⟨?_, ?_⟩
    · intro other isIn
      rcases List.mem_append.mp isIn with isOld | isLast
      · exact ih.overloads other isOld
      · obtain ⟨_, returns, parameters, distinct⟩ := builtOverload.isSound
        exact List.mem_singleton.mp isLast ▸ ⟨rfl, returns, parameters, distinct⟩
    · show (function.overloads ++ [_]).foldl _ ({ name := function.name } : Function) = _
      rw [List.foldl_append, ih.rebuilt]
      rfl
  | placed _ place className ih => exact ⟨ih.overloads, ih.rebuilt⟩

theorem IsSound.placed {function : Function} (sound : function.IsSound) (place : Option Place)
    (className : Option String) : ({ function with place, className } : Function).IsSound :=
  ⟨sound.overloads, sound.rebuilt⟩

end Function

/-! ### Classes -/

namespace Class

/-- The members of a class stand under their names and know the class and its place. -/
structure IsSound (holder : Class) : Prop where
  plainName : Class.named holder.name = { name := holder.name }
  fields : holder.fields.Forall fun name member => member.name = name ∧ member.type.IsRead
  enumerations : holder.enumerations.Forall fun name enumeration =>
    enumeration.name = name ∧ enumeration.holder = .classNamed holder.name
  methods : holder.methods.Forall fun name method =>
    method.name = name ∧ method.className = some holder.name ∧ method.place = holder.place ∧
      method.IsSound

theorem isSound_named (name : String) : (Class.named name).IsSound := by
  refine ⟨named_name name, ?_, ?_, ?_⟩ <;>
    · unfold Class.named
      simp only
      split <;> exact .empty

theorem Addition.isSound {change : Class → Class} (addition : Addition change) {self : Class}
    (sound : self.IsSound) : (change self).IsSound := by
  cases addition with
  | parent name => exact ⟨sound.plainName, sound.fields, sound.enumerations, sound.methods⟩
  | «variable» newVariable read =>
    exact ⟨sound.plainName, sound.fields.insert ⟨rfl, read⟩, sound.enumerations, sound.methods⟩
  | enumeration enumeration =>
    exact ⟨sound.plainName, sound.fields, sound.enumerations.insert ⟨rfl, rfl⟩, sound.methods⟩
  | method method built =>
    exact ⟨sound.plainName, sound.fields, sound.enumerations,
      sound.methods.insert ⟨rfl, rfl, rfl, built.isSound.placed ..⟩⟩

/-- An addition changes neither the name of a class nor its place. -/
theorem Addition.name_place {change : Class → Class} (addition : Addition change) (self : Class) :
    (change self).name = self.name ∧ (change self).place = self.place := by
  cases addition <;> exact ⟨rfl, rfl⟩

theorem IsSound.attach {self : Class} (sound : self.IsSound) (place : Place) :
    (self.attach place).IsSound :=
  ⟨sound.plainName, sound.fields, sound.enumerations, sound.methods.mapValues
    fun _ _ ⟨ownName, ofClass, _, isSound⟩ => ⟨ownName, ofClass, rfl, isSound.placed ..⟩⟩

theorem Built.isSound {self : Class} (built : self.Built) : self.IsSound := by
  induction built with
  | named name => exact isSound_named name
  | described _ generics isStruct isForward description ih =>
    exact ⟨ih.plainName, ih.fields, ih.enumerations, ih.methods⟩
  | add _ addition ih => exact addition.isSound ih
  | attach _ place ih => exact ih.attach place

/-- Members that can be added one by one can be added one after the other. -/
theorem Built.foldl {α : Type} {items : List α} {add : Class → α → Class}
    (additions : ∀ item ∈ items, Addition (add · item)) {self : Class} (built : self.Built) :
    (items.foldl add self).Built := by
  induction items generalizing self with
  | nil => exact built
  | cons item rest ih =>
    rw [List.forall_mem_cons] at additions
    exact ih additions.2 (built.add additions.1)

end Class

/-! ### Scopes -/

namespace Scope

/-- The scope with an element put in, which is stamped with the place of the scope. -/
def take (place : Place) (scope : Scope) : Element → Scope
  | .constant c =>
    { scope with constants := scope.constants.insert c.name { c with place := some place } }
  | .enumeration e =>
    { scope with
      enumerations := scope.enumerations.insert e.name { e with holder := .scope place } }
  | .typeAlias a =>
    { scope with aliases := scope.aliases.insert a.name { a with place := some place } }
  | .globalVariable v =>
    { scope with globals := scope.globals.insert v.name { v with place := some place } }
  | .function f =>
    { scope with
      functions := scope.functions.insert f.name { f with place := some place, className := none } }
  | .classDefinition c =>
    { scope with classes := scope.classes.insert c.name (c.attach place) }

/-- The elements of a scope stand under their names and know their place. -/
structure IsSound (place : Place) (scope : Scope) : Prop where
  name : scope.name = place.scope
  constants : scope.constants.Forall fun name constant =>
    constant.name = name ∧ constant.place = some place
  enumerations : scope.enumerations.Forall fun name enumeration =>
    enumeration.name = name ∧ enumeration.holder = .scope place
  aliases : scope.aliases.Forall fun name element =>
    element.name = name ∧ element.place = some place ∧ element.type.IsRead
  globals : scope.globals.Forall fun name element =>
    element.name = name ∧ element.place = some place ∧ element.type.IsRead
  functions : scope.functions.Forall fun name function =>
    function.name = name ∧ function.place = some place ∧ function.className = none ∧
      function.IsSound
  classes : scope.classes.Forall fun name self =>
    self.name = name ∧ self.place = some place ∧ self.IsSound

theorem isSound_named {place : Place} (isCanonical : canonicalScope place.scope = place.scope) :
    (Scope.named place.scope).IsSound place :=
  ⟨isCanonical, .empty, .empty, .empty, .empty, .empty, .empty⟩

theorem IsSound.take {place : Place} {scope : Scope} (sound : scope.IsSound place)
    {element : Element} (built : element.Built) : (scope.take place element).IsSound place := by
  cases element with
  | constant c => exact { sound with constants := sound.constants.insert ⟨rfl, rfl⟩ }
  | enumeration e => exact { sound with enumerations := sound.enumerations.insert ⟨rfl, rfl⟩ }
  | typeAlias a => exact { sound with aliases := sound.aliases.insert ⟨rfl, rfl, built⟩ }
  | globalVariable v => exact { sound with globals := sound.globals.insert ⟨rfl, rfl, built⟩ }
  | function f =>
    have isSound := (Function.Built.isSound built).placed (some place) none
    exact { sound with functions := sound.functions.insert ⟨rfl, rfl, rfl, isSound⟩ }
  | classDefinition c =>
    have isSound := (Class.Built.isSound built).attach place
    exact { sound with classes := sound.classes.insert ⟨rfl, rfl, isSound⟩ }

theorem isEmpty_take (place : Place) (scope : Scope) (element : Element) :
    (scope.take place element).isEmpty = false := by
  cases element <;> simp [take, isEmpty, OrderedMap.isEmpty_insert]

theorem IsSound.adjustClass {place : Place} {scope : Scope} (sound : scope.IsSound place)
    (name : String) {change : Class → Class} (addition : Class.Addition change) :
    ({ scope with classes := scope.classes.adjust name change } : Scope).IsSound place := by
  refine { sound with classes := sound.classes.adjust ?_ }
  rintro self ⟨ownName, placed, isSound⟩
  obtain ⟨sameName, samePlace⟩ := addition.name_place self
  exact ⟨sameName.trans ownName, samePlace.trans placed, addition.isSound isSound⟩

end Scope

/-! ### Tables -/

/-- The scopes of a header stand under their canonical names, and none is empty. -/
def Header.IsSound (header : Header) : Prop :=
  header.scopes.Forall fun name scope =>
    canonicalScope name = name ∧ scope.IsSound ⟨header.name, name⟩ ∧ scope.isEmpty = false

/-- The headers of a table stand under their names, and each of them is sound. -/
def Table.IsSound (table : Table) : Prop :=
  table.headers.Forall fun name header => header.name = name ∧ header.IsSound

namespace Table

/-- Adding an element is taking it into the scope of its place. -/
theorem add_eq_modifyScope (table : Table) (header scope : String) (element : Element) :
    table.add header scope element =
      table.modifyScope header scope fun place holder => holder.take place element := by
  cases element <;> rfl

theorem IsSound.apply {table : Table} (sound : table.IsSound) {edit : Edit}
    (built : edit.Built) : (table.apply edit).IsSound := by
  cases edit with
  | enable header enabled =>
    exact OrderedMap.Forall.upsert sound ⟨rfl, .empty⟩ fun holder isSound => isSound
  | add header scope element =>
    obtain ⟨isCanonical, builtElement⟩ := built
    rw [Table.apply, add_eq_modifyScope]
    have kept : ∀ holder : Header, holder.name = header → holder.IsSound →
        (holder.modifyScope (canonicalScope scope)
          (Scope.take ⟨header, canonicalScope scope⟩ · element)).IsSound := by
      rintro holder rfl isSound
      rw [Header.modifyScope, isCanonical]
      refine OrderedMap.Forall.upsert isSound ?_ ?_
      · refine ⟨isCanonical, ?_, Scope.isEmpty_take ..⟩
        exact (@Scope.isSound_named ⟨holder.name, canonicalScope scope⟩ isCanonical).take
          builtElement
      · rintro inner ⟨_, isSoundInner, _⟩
        exact ⟨isCanonical, isSoundInner.take builtElement, Scope.isEmpty_take ..⟩
    refine OrderedMap.Forall.upsert sound ⟨rfl, ?_⟩ ?_
    · exact kept { name := header } rfl .empty
    · rintro holder ⟨ownName, isSound⟩
      exact ⟨ownName, kept holder ownName isSound⟩

theorem IsSound.modifyClass {table : Table} (sound : table.IsSound) (header scope name : String)
    {change : Class → Class} (addition : Class.Addition change) :
    (table.modifyClass header scope name change).IsSound := by
  refine OrderedMap.Forall.adjust sound ?_
  rintro holder ⟨ownName, isSound⟩
  refine ⟨ownName, OrderedMap.Forall.adjust isSound ?_⟩
  rintro inner ⟨isCanonical, isSoundInner, notEmpty⟩
  refine ⟨isCanonical, isSoundInner.adjustClass name addition, ?_⟩
  simpa only [Scope.isEmpty, OrderedMap.isEmpty_adjust] using notEmpty

/-- Whatever is built is sound. -/
theorem Built.isSound {table : Table} (built : table.Built) : table.IsSound := by
  induction built with
  | empty => exact .empty
  | apply _ edit builtEdit ih => exact ih.apply builtEdit
  | modifyClass _ header scope name addition ih => exact ih.modifyClass header scope name addition

/-- Edits that can be made one by one can be made one after the other. -/
theorem Built.applyAll {table : Table} (built : table.Built) {edits : List Edit}
    (builtEdits : ∀ edit ∈ edits, edit.Built) : (table.applyAll edits).Built := by
  induction edits generalizing table with
  | nil => exact built
  | cons edit rest ih =>
    obtain ⟨isBuilt, areBuilt⟩ := List.forall_mem_cons.mp builtEdits
    exact ih (built.apply edit isBuilt) areBuilt

/-! ### A table with something of everything -/

/-- A method with a parameter that is an array and has a default value. -/
def sampleMethod : Function :=
  Function.addOverload { name := "at" }
    { returns := (TypeShape.parse "const T &").withDescription "the element"
      parameters := [{
        name := "steps"
        type := { (TypeShape.parse "unsigned *").withDescription "\"quoted\"" with isArray := true }
        default := "0" }]
      flags := { isConst := true }
      description := "one\nelement" }

/-- A class with that method; its name declares two generic parameters. -/
def sampleClass : Class := (Class.named "List<T, Alloc<T> >").addMethod sampleMethod

/-- A table of a disabled header and two scopes, where a class was added to later. -/
def sample : Table :=
  (((Table.empty.apply (.add "list.hxx" "::base" (.classDefinition sampleClass))).modifyClass
      "list.hxx" "base" "List" (·.addEnumeration
        { name := "Side", options := .ofList ["left", "right"] })).apply
    (.add "list.hxx" "" (.constant { name := "LIMIT", value := "4" }))).apply
    (.enable "list.hxx" false)

theorem built_sampleMethod : sampleMethod.Built := by
  refine .addOverload (.fresh "at") (.addParameter
    (.fresh { returns := (TypeShape.parse "const T &").withDescription "the element",
              flags := { isConst := true }, description := "one\nelement" } rfl ⟨_, _, rfl⟩)
    { name := "steps",
      type := { (TypeShape.parse "unsigned *").withDescription "\"quoted\"" with isArray := true },
      default := "0" } ?_ .reject true rfl)
  exact ⟨_, ⟨_, _, rfl⟩, .inr ⟨by decide, rfl⟩⟩

theorem built_sample : sample.Built := by
  have ofClass : (Edit.add "list.hxx" "::base" (.classDefinition sampleClass)).Built :=
    ⟨by decide, .add (.named _) (.method _ built_sampleMethod)⟩
  have ofConstant : (Edit.add "list.hxx" ""
      (.constant { name := "LIMIT", value := "4" })).Built := ⟨by decide, trivial⟩
  exact .apply (.apply (.modifyClass (.apply .empty _ ofClass) _ _ _ (.enumeration _)) _
    ofConstant) _ trivial

end Table

end Bindery.Symbols
