/-
**Calls that say what a writer wrote are read as what was written.**

A call is asked for its arguments by name and by position; the first part says what it answers when
it says a phrase. From there on each statement is read back: parameters, overloads, functions,
classes, and at last the edits of a whole table.

* `Says.edit_eq` — a call that says the phrase of an edit is read as this edit.
* `edits_of_says` — calls that say the phrases of edits are read as these edits.
-/

import Bindery.Proofs.Script.Parsing
import Bindery.Proofs.Symbols.Replay
import Bindery.Script.Write

namespace Bindery.Script

open Symbols

/-! ### What arguments give -/

@[simp] theorem lookupPair_textArgument (key name value : String) :
    lookupPair key (textArgument name value) =
      if name = key then if value.isEmpty then none else some (.text value) else none := by
  unfold textArgument
  split <;> simp_all [lookupPair]

@[simp] theorem lookupPair_flagArgument (key name : String) (value : Bool) :
    lookupPair key (flagArgument name value) =
      if name = key then if value then some (.truth true) else none else none := by
  cases value <;> simp [flagArgument, lookupPair]

@[simp] theorem lookupPair_listArgument (key name : String) (items : List String) :
    lookupPair key (listArgument name items) =
      if name = key then if items.isEmpty then none else some (.list items) else none := by
  unfold listArgument
  split <;> simp_all [lookupPair]

/-- The named arguments of a phrase. -/
def Phrase.named : Phrase → List (String × Value)
  | mk _ _ named _ => named

/-- Each named argument of a phrase has one of the names. -/
def Phrase.KeepsTo (phrase : Phrase) (allowed : List String) : Prop :=
  ∀ argument ∈ phrase.named, argument.1 ∈ allowed

theorem parameterPhrase_keepsTo (parameter : Parameter) :
    (parameterPhrase parameter).KeepsTo ["type", "array", "value", "description"] := by
  simp [Phrase.KeepsTo, Phrase.named, parameterPhrase, textArgument, flagArgument]
  grind

theorem overloadPhrase_keepsTo (overload : Overload) :
    (overloadPhrase overload).KeepsTo Statement.overloadArguments := by
  simp [Phrase.KeepsTo, Phrase.named, overloadPhrase, textArgument, flagArgument,
    Statement.overloadArguments]
  grind

theorem classVariablePhrase_keepsTo (member : ClassVariable) :
    (classVariablePhrase member).KeepsTo
      ["type", "static", "mutable", "protected", "public", "description"] := by
  simp [Phrase.KeepsTo, Phrase.named, classVariablePhrase, textArgument, flagArgument]
  grind

theorem enumerationArguments_keepTo (name : String) (unnamed : List String)
    (enumeration : Enumeration) :
    (Phrase.mk name unnamed (enumerationArguments enumeration) []).KeepsTo
      ["options", "description"] := by
  simp [Phrase.KeepsTo, Phrase.named, enumerationArguments, listArgument, textArgument]
  grind

theorem typeArguments_keepTo (name : String) (unnamed : List String) (type : TypeShape) :
    (Phrase.mk name unnamed (typeArguments type) []).KeepsTo ["type", "description"] := by
  simp [Phrase.KeepsTo, Phrase.named, typeArguments, textArgument]
  grind

theorem constantPhrase_keepsTo (place : List String) (constant : Constant) :
    (constantPhrase place constant).KeepsTo ["value", "description"] := by
  simp [Phrase.KeepsTo, Phrase.named, constantPhrase, textArgument]
  grind

theorem classPhrase_keepsTo (place : List String) (self : Symbols.Class) :
    (classPhrase place self).KeepsTo
      ["struct", "forward", "parents", "generics", "description"] := by
  simp [Phrase.KeepsTo, Phrase.named, classPhrase, flagArgument, listArgument, textArgument]
  grind

namespace Says

variable {call : Call} {name : String} {unnamed : List String} {named : List (String × Value)}
  {block : List Phrase}

theorem name_eq (said : Says call (.mk name unnamed named block)) : call.name = name := by
  cases said with
  | mk ownName _ _ _ => exact ownName

theorem given_eq (said : Says call (.mk name unnamed named block)) :
    call.arguments.map Argument.given = Phrase.givens unnamed named := by
  cases said with
  | mk _ ownArguments _ _ => exact ownArguments

theorem inside (said : Says call (.mk name unnamed named block)) :
    List.Forall₂ Says call.block block := by
  cases said with
  | mk _ _ _ inside => exact inside

/-- A call without a block passes for one. -/
theorem checkLeaf_eq (said : Says call (.mk name unnamed named [])) : call.checkLeaf = .ok () := by
  cases said with
  | mk _ _ leaf _ => rw [Call.checkLeaf, leaf rfl]

/-- Names that are allowed pass. -/
theorem checkNames_eq (said : Says call (.mk name unnamed named block)) {allowed : List String}
    (areAllowed : (Phrase.mk name unnamed named block).KeepsTo allowed) :
    call.checkNames allowed = .ok () := by
  unfold Call.checkNames
  simp only
  split
  next argument found =>
    have isUnknown := List.find?_some found
    have isGiven : argument.given ∈ Phrase.givens unnamed named :=
      said.given_eq ▸ List.mem_map_of_mem (List.mem_of_find?_eq_some found)
    rcases List.mem_append.mp isGiven with isText | isNamed
    · obtain ⟨_, _, same⟩ := List.mem_map.mp isText
      simp [show argument.name = none from (congrArg Prod.fst same).symm] at isUnknown
    · obtain ⟨pair, isPair, same⟩ := List.mem_map.mp isNamed
      simp [show argument.name = some pair.1 from (congrArg Prod.fst same).symm,
        areAllowed pair isPair] at isUnknown
  next => rfl

/-- The unnamed argument at an index. -/
theorem unnamed_eq (said : Says call (.mk name unnamed named block)) {index : Nat} {text : String}
    (isText : unnamed[index]? = some text) (what : String) :
    call.unnamed index what = .ok text := by
  have texts : (call.arguments.filter (·.name.isNone)).map Argument.given =
      unnamed.map fun text => (none, .text text) := by
    have filtered : (call.arguments.map Argument.given).filter (·.1.isNone) =
        unnamed.map fun text => (none, .text text) := by
      rw [said.given_eq, Phrase.givens, List.filter_append, List.filter_map, List.filter_map]
      simp [Function.comp_def]
    rw [← filtered, List.filter_map]
    rfl
  have atIndex := congrArg (·[index]?) texts
  simp only [List.getElem?_map, isText, Option.map_some, Option.map_eq_some_iff] at atIndex
  obtain ⟨argument, found, same⟩ := atIndex
  have isValue : argument.value = .text text := congrArg Prod.snd same
  simp only [Call.unnamed, found, Call.textOf, isValue]

/-- The value of a named argument. -/
theorem named?_eq (said : Says call (.mk name unnamed named block)) (key : String) :
    (call.named? key).map Argument.value = lookupPair key named := by
  have onNamed : ∀ named : List (String × Value),
      ((named.map fun pair => (some pair.1, pair.2)).find? (·.1 == some key)).map Prod.snd =
        lookupPair key named := by
    intro named
    induction named with
    | nil => rfl
    | cons pair rest ih =>
      obtain ⟨other, value⟩ := pair
      by_cases isKey : other = key <;> simp_all [lookupPair]
  have found : ((call.arguments.map Argument.given).find? (·.1 == some key)).map Prod.snd =
      lookupPair key named := by
    rw [said.given_eq, Phrase.givens, List.find?_append, List.find?_eq_none.mpr]
    · rw [Option.none_or]
      exact onNamed named
    · simp
  rw [← found, List.find?_map, Option.map_map]
  rfl

theorem text_eq (said : Says call (.mk name unnamed named block)) {key value : String}
    (given : lookupPair key named = if value.isEmpty then none else some (.text value)) :
    call.text key = .ok value := by
  rw [← said.named?_eq] at given
  unfold Call.text
  split at given
  next isEmpty =>
    rw [Option.map_eq_none_iff.mp given, String.isEmpty_iff.mp isEmpty]
  next =>
    obtain ⟨argument, found, isText⟩ := Option.map_eq_some_iff.mp given
    simp only [found, Call.textOf, isText]

theorem truth_eq (said : Says call (.mk name unnamed named block)) {key : String}
    {value missing : Bool}
    (given : lookupPair key named = if value = missing then none else some (.truth value)) :
    call.truth key missing = .ok value := by
  rw [← said.named?_eq] at given
  unfold Call.truth
  split at given
  next isMissing => rw [Option.map_eq_none_iff.mp given, isMissing]
  next =>
    obtain ⟨argument, found, isTruth⟩ := Option.map_eq_some_iff.mp given
    simp only [found, isTruth]

theorem flag_eq (said : Says call (.mk name unnamed named block)) {key : String} {value : Bool}
    (given : lookupPair key named = if value then some (.truth true) else none) :
    call.flag key = .ok value := by
  refine said.truth_eq ?_
  cases value <;> simp_all

theorem list_eq (said : Says call (.mk name unnamed named block)) {key : String}
    {items : List String}
    (given : lookupPair key named = if items.isEmpty then none else some (.list items)) :
    call.list key = .ok items := by
  rw [← said.named?_eq] at given
  unfold Call.list
  split at given
  next isEmpty => rw [Option.map_eq_none_iff.mp given, List.isEmpty_iff.mp isEmpty]
  next =>
    obtain ⟨argument, found, isList⟩ := Option.map_eq_some_iff.mp given
    simp only [found, isList]

end Says

/-! ### Statements inside blocks -/

theorem Reading.ok_bind {α β : Type} (value : α) (next : α → Reading β) :
    ((.ok value : Reading α) >>= next) = next value :=
  rfl

/-- Calls that say phrases of items, each of which changes a state, change it item by item. -/
theorem foldlM_of_says {σ α : Type} {statement : σ → Call → Reading σ} {phraseOf : α → Phrase}
    {step : σ → α → σ} (fits : σ → List α → Prop)
    (reads : ∀ state item rest call, fits state (item :: rest) → Says call (phraseOf item) →
      statement state call = .ok (step state item) ∧ fits (step state item) rest)
    {calls : List Call} {items : List α} (sayAll : List.Forall₂ Says calls (items.map phraseOf))
    {state : σ} (fitting : fits state items) :
    calls.foldlM statement state = .ok (items.foldl step state) := by
  induction items generalizing calls state with
  | nil =>
    cases sayAll
    rfl
  | cons item rest ih =>
    obtain ⟨call, others, saysFirst, sayRest, rfl⟩ := List.forall₂_cons_right_iff.mp sayAll
    obtain ⟨isRead, fitsRest⟩ := reads state item rest call fitting saysFirst
    rw [List.foldlM_cons, isRead, Reading.ok_bind, ih sayRest fitsRest]
    rfl

/-- The type that two texts of a call give. -/
theorem describedType_eq {call : Call} {type description : String}
    (ofType : call.text "type" = .ok type)
    (ofDescription : call.text "description" = .ok description) :
    call.describedType = .ok ((TypeShape.parse type).withDescription description) := by
  rw [Call.describedType, ofType, Reading.ok_bind, ofDescription]
  rfl

/-- A call that says the phrase of a parameter adds the parameter, if its name is new. -/
theorem Says.parameter_eq {call : Call} {parameter : Parameter}
    (said : Says call (parameterPhrase parameter)) (read : parameter.type.IsReadParameter)
    {overload : Overload} (isNew : parameter.name ∉ overload.parameters.map Parameter.name)
    (policy : DuplicatePolicy) :
    Statement.parameter policy overload call =
      .ok { overload with parameters := overload.parameters ++ [parameter] } := by
  have names : call.checkNames ["type", "array", "value", "description"] = .ok () :=
    said.checkNames_eq (parameterPhrase_keepsTo parameter)
  have type : call.describedType =
      .ok ((TypeShape.parse parameter.type.text).withDescription parameter.type.description) :=
    describedType_eq (said.text_eq (by simp)) (said.text_eq (by simp))
  have isArray : call.flag "array" = .ok parameter.type.isArray := said.flag_eq (by simp)
  have default : call.text "value" = .ok parameter.default := said.text_eq (by simp)
  have name : call.unnamed 0 "name" = .ok parameter.name := said.unnamed_eq rfl "name"
  rw [Statement.parameter, said.name_eq, names, said.checkLeaf_eq, type, isArray, name, default]
  simp only [Reading.ok_bind, if_true, read.reread rfl]
  rw [Overload.addParameter_of_new isNew policy]
  rfl

/-- Calls that say the phrases of parameters add them, if their names are new and distinct. -/
theorem foldlM_parameters {calls : List Call} {parameters : List Parameter}
    (sayAll : List.Forall₂ Says calls (parameters.map parameterPhrase))
    (read : ∀ parameter ∈ parameters, parameter.type.IsReadParameter) {overload : Overload}
    (distinct : ((overload.parameters ++ parameters).map Parameter.name).Nodup)
    (policy : DuplicatePolicy) :
    calls.foldlM (Statement.parameter policy) overload =
      .ok { overload with parameters := overload.parameters ++ parameters } := by
  have grown : ∀ (parameters : List Parameter) (overload : Overload),
      parameters.foldl (fun overload parameter =>
        { overload with parameters := overload.parameters ++ [parameter] }) overload =
      { overload with parameters := overload.parameters ++ parameters } := by
    intro parameters
    induction parameters with
    | nil => simp
    | cons parameter rest ih =>
      intro overload
      rw [List.foldl_cons, ih, List.append_assoc]
      rfl
  rw [← grown]
  refine foldlM_of_says (fun overload rest =>
    ((overload.parameters ++ rest).map Parameter.name).Nodup ∧
      ∀ parameter ∈ rest, parameter.type.IsReadParameter) ?_ sayAll ⟨distinct, read⟩
  rintro overload parameter rest call ⟨distinct, read⟩ said
  have isNew : parameter.name ∉ overload.parameters.map Parameter.name := by
    rw [List.map_append] at distinct
    exact fun isTaken => (List.nodup_append.mp distinct).2.2 _ isTaken _ (by simp) rfl
  refine ⟨said.parameter_eq (read parameter (List.mem_cons_self ..)) isNew policy, ?_, ?_⟩
  · rwa [List.append_cons] at distinct
  · exact fun other isLater => read other (List.mem_cons_of_mem _ isLater)

/-- A call that says the phrase of an overload adds the overload. -/
theorem Says.overload_eq {call : Call} {overload : Overload}
    (said : Says call (overloadPhrase overload)) {function : Function}
    (sound : overload.IsSound function.name) (policy : DuplicatePolicy) :
    Statement.overload policy function call = .ok (function.addOverload overload) := by
  have names : call.checkNames Statement.overloadArguments = .ok () :=
    said.checkNames_eq (overloadPhrase_keepsTo overload)
  have returns : call.text "return" = .ok overload.returns.text := said.text_eq (by simp)
  have returnDescription : call.text "return_description" = .ok overload.returns.description :=
    said.text_eq (by simp)
  have description : call.text "description" = .ok overload.description := said.text_eq (by simp)
  have isStatic : call.flag "static" = .ok overload.flags.isStatic := said.flag_eq (by simp)
  have isConst : call.flag "const" = .ok overload.flags.isConst := said.flag_eq (by simp)
  have isVirtual : call.flag "virtual" = .ok overload.flags.isVirtual := said.flag_eq (by simp)
  have isPureVirtual : call.flag "pure_virtual" = .ok overload.flags.isPureVirtual :=
    said.flag_eq (by simp)
  have isProtected : call.flag "protected" = .ok overload.flags.isProtected :=
    said.flag_eq (by simp)
  have isDeprecated : call.flag "deprecated" = .ok overload.flags.isDeprecated :=
    said.flag_eq (by simp)
  have parameters : call.block.foldlM (Statement.parameter policy)
      { overload with parameters := [] } = .ok overload :=
    @foldlM_parameters _ _ said.inside sound.parameters { overload with parameters := [] }
      sound.distinct policy
  rw [Statement.overload, said.name_eq, names, returns, returnDescription, description, isStatic,
    isConst, isVirtual, isPureVirtual, isProtected, isDeprecated]
  simp only [Reading.ok_bind, if_true, sound.returns.reread, ← sound.function]
  rw [parameters]
  rfl

/-- Calls that say the phrases of the overloads of a sound function make the function. -/
theorem function_eq {calls : List Call} {function : Function} (sound : function.IsSound)
    (sayAll : List.Forall₂ Says calls (function.overloads.map overloadPhrase))
    (policy : DuplicatePolicy) :
    Statement.function policy function.name calls = .ok function.detached := by
  rw [Statement.function, ← sound.rebuilt]
  refine foldlM_of_says (fun made rest => made.name = function.name ∧
    ∀ overload ∈ rest, overload.IsSound function.name) ?_ sayAll ⟨rfl, sound.overloads⟩
  rintro made overload rest call ⟨sameName, soundAll⟩ said
  refine ⟨said.overload_eq (sameName ▸ soundAll overload (List.mem_cons_self ..)) policy, ?_, ?_⟩
  · exact sameName
  · exact fun other isLater => soundAll other (List.mem_cons_of_mem _ isLater)

/-- A call that says the phrase of a variable of a class is read as the variable. -/
theorem Says.classVariable_eq {call : Call} {member : ClassVariable}
    (said : Says call (classVariablePhrase member)) (read : member.type.IsRead) :
    Statement.classVariable call = .ok member := by
  have names : call.checkNames
      ["type", "static", "mutable", "protected", "public", "description"] = .ok () :=
    said.checkNames_eq (classVariablePhrase_keepsTo member)
  have name : call.unnamed 0 "name" = .ok member.name := said.unnamed_eq rfl "name"
  have type : call.describedType = .ok member.type := by
    rw [← read.reread]
    exact describedType_eq (said.text_eq (by simp)) (said.text_eq (by simp))
  have isStatic : call.flag "static" = .ok member.isStatic := said.flag_eq (by simp)
  have isMutable : call.flag "mutable" = .ok member.isMutable := said.flag_eq (by simp)
  have isProtected : call.flag "protected" = .ok member.isProtected := said.flag_eq (by simp)
  have isPublic : call.flag "public" = .ok member.isPublic := said.flag_eq (by simp)
  rw [Statement.classVariable, names, said.checkLeaf_eq, name, type, isStatic, isMutable,
    isProtected, isPublic]
  rfl

/-- A call with the arguments of an enumeration is read as the enumeration. -/
theorem Says.enumeration_eq {call : Call} {name : String} {unnamed : List String}
    {enumeration : Enumeration}
    (said : Says call (.mk name unnamed (enumerationArguments enumeration) [])) :
    Statement.enumeration enumeration.name call = .ok enumeration.detached := by
  have options : call.list "options" = .ok enumeration.options.names :=
    said.list_eq (by simp [enumerationArguments])
  have description : call.text "description" = .ok enumeration.description :=
    said.text_eq (by simp [enumerationArguments])
  rw [Statement.enumeration, options, description]
  simp only [Reading.ok_bind, NameSet.ofList_names]
  rfl

/-! ### Classes -/

/-- A member that a class is written with. -/
inductive Member where
  | field (field : ClassVariable)
  | enumeration (enumeration : Enumeration)
  | method (method : Function)

namespace Member

/-- The statement of a member. -/
def phrase : Member → Phrase
  | field member => classVariablePhrase member
  | enumeration member => classEnumerationPhrase member
  | method member => methodPhrase member

/-- The class with a member put in, as if it had been on its own. -/
def addTo (self : Symbols.Class) : Member → Symbols.Class
  | field member => self.addVariable member
  | enumeration member => self.addEnumeration member.detached
  | method member => self.addMethod member.detached

/-- A member that can be read back. -/
def IsSound : Member → Prop
  | field member => member.type.IsRead
  | enumeration _ => True
  | method member => member.IsSound

/-- The members of a class in the order in which they are written. -/
def ofClass (self : Symbols.Class) : List Member :=
  self.fields.values.map field ++ self.enumerations.values.map enumeration ++
    self.methods.values.map method

end Member

/-- A call that says the phrase of a member adds the member. -/
theorem Says.member_eq {call : Call} {member : Member} (said : Says call member.phrase)
    (sound : member.IsSound) (self : Symbols.Class) (policy : DuplicatePolicy) :
    Statement.member policy self call = .ok (member.addTo self) := by
  cases member with
  | field member =>
    rw [Statement.member, said.name_eq]
    simp only [said.classVariable_eq sound]
    rfl
  | enumeration member =>
    have names : call.checkNames ["options", "description"] = .ok () :=
      said.checkNames_eq (enumerationArguments_keepTo _ _ member)
    have name : call.unnamed 0 "name" = .ok member.name := said.unnamed_eq rfl "name"
    rw [Statement.member, said.name_eq]
    simp only [names, said.checkLeaf_eq, name, Reading.ok_bind, said.enumeration_eq]
    rfl
  | method member =>
    have names : call.checkNames [] = .ok () :=
      said.checkNames_eq (by simp [Phrase.KeepsTo, Phrase.named])
    have name : call.unnamed 0 "name" = .ok member.name := said.unnamed_eq rfl "name"
    rw [Statement.member, said.name_eq]
    simp only [names, name, Reading.ok_bind, function_eq sound said.inside policy]
    rfl

theorem isSound_members {self : Symbols.Class} (sound : self.IsSound) :
    ∀ member ∈ Member.ofClass self, member.IsSound := by
  intro member isMember
  simp only [Member.ofClass, List.mem_append, List.mem_map, or_assoc] at isMember
  obtain ⟨_, isField, rfl⟩ | ⟨_, _, rfl⟩ | ⟨_, isMethod, rfl⟩ := isMember
  · obtain ⟨_, found⟩ := (OrderedMap.mem_values ..).mp isField
    exact (sound.fields _ _ found).2
  · trivial
  · obtain ⟨_, found⟩ := (OrderedMap.mem_values ..).mp isMethod
    exact (sound.methods _ _ found).2.2.2

/-- A call that says the phrase of a sound class is read as the class. -/
theorem Says.classDefinition_eq {call : Call} {place : List String} {self : Symbols.Class}
    (said : Says call (classPhrase place self)) (sound : self.IsSound)
    (policy : DuplicatePolicy) :
    Statement.classDefinition policy self.name call = .ok self.detached := by
  have description : call.text "description" = .ok self.description := said.text_eq (by simp)
  have isStruct : call.flag "struct" = .ok self.isStruct := said.flag_eq (by simp)
  have isForward : call.flag "forward" = .ok self.isForward := said.flag_eq (by simp)
  have generics : call.list "generics" = .ok self.generics := said.list_eq (by simp)
  have parents : call.list "parents" = .ok self.parents.names := said.list_eq (by simp)
  have members : call.block.foldlM (Statement.member policy) self.heading = .ok self.detached := by
    have sayAll : List.Forall₂ Says call.block ((Member.ofClass self).map Member.phrase) := by
      simpa [Member.ofClass, Function.comp_def, Member.phrase] using said.inside
    have made : (Member.ofClass self).foldl Member.addTo self.heading = self.detached := by
      rw [← sound.rebuilt, Member.ofClass, List.foldl_append, List.foldl_append]
      simp only [List.foldl_map]
      rfl
    rw [← made]
    refine foldlM_of_says (fun _ rest => ∀ member ∈ rest, member.IsSound) ?_ sayAll
      (isSound_members sound)
    intro state member rest call soundAll saidMember
    refine ⟨saidMember.member_eq (soundAll member (List.mem_cons_self ..)) state policy, ?_⟩
    exact fun other isLater => soundAll other (List.mem_cons_of_mem _ isLater)
  have heading : self.parents.names.foldl Class.addParent
      { name := self.name, generics := self.generics, isStruct := self.isStruct,
        isForward := self.isForward, description := self.description } = self.heading :=
    Class.foldl_parents self rfl
  have noGenerics : (if self.generics.isEmpty then [] else self.generics) = self.generics := by
    split <;> simp_all
  rw [Statement.classDefinition, description, isStruct, isForward, generics, parents]
  simp only [Reading.ok_bind, sound.plainName, noGenerics]
  rw [heading]
  exact members

/-! ### Edits -/

/-- The statement of an element behind the header and the scope. -/
def elementPhrase (place : List String) : Element → Phrase
  | .constant c => constantPhrase place c
  | .enumeration e => enumerationPhrase place e
  | .typeAlias a => aliasPhrase place a
  | .globalVariable v => variablePhrase place v
  | .function f => functionPhrase place f
  | .classDefinition c => classPhrase place c

/-- The statement of an edit. -/
def editPhrase : Edit → Phrase
  | .enable header enabled =>
    .mk "include" [header] (if enabled then [] else [("enabled", .truth false)]) []
  | .add header scope element => elementPhrase [header, scope] element

theorem headerPhrase_keepsTo (header : String) (enabled : Bool) :
    (editPhrase (.enable header enabled)).KeepsTo ["enabled"] := by
  cases enabled <;> simp [Phrase.KeepsTo, Phrase.named, editPhrase]

/-- The call is read as the element in the statement for it. -/
theorem Says.element_eq {call : Call} {place : List String} {element : Element}
    (said : Says call (elementPhrase place element)) (plain : element.IsPlain)
    (policy : DuplicatePolicy) : Statement.element policy call element.name = .ok element := by
  cases element with
  | constant c =>
    have value : call.text "value" = .ok c.value := said.text_eq (by simp)
    have description : call.text "description" = .ok c.description := said.text_eq (by simp)
    rw [Statement.element, said.name_eq]
    simp only [value, description, Reading.ok_bind]
    show Except.ok (Element.constant c.detached) = _
    rw [show c.detached = c from plain]
  | enumeration e =>
    rw [Statement.element, said.name_eq]
    simp only [Element.name, said.enumeration_eq]
    show Except.ok (Element.enumeration e.detached) = _
    rw [show e.detached = e from plain]
  | typeAlias a =>
    have type : call.describedType = .ok a.type := by
      rw [← plain.2.reread]
      exact describedType_eq (said.text_eq (by simp [typeArguments]))
        (said.text_eq (by simp [typeArguments]))
    rw [Statement.element, said.name_eq]
    simp only [type]
    show Except.ok (Element.typeAlias a.detached) = _
    rw [show a.detached = a from plain.1]
  | globalVariable v =>
    have type : call.describedType = .ok v.type := by
      rw [← plain.2.reread]
      exact describedType_eq (said.text_eq (by simp [typeArguments]))
        (said.text_eq (by simp [typeArguments]))
    rw [Statement.element, said.name_eq]
    simp only [type]
    show Except.ok (Element.globalVariable v.detached) = _
    rw [show v.detached = v from plain.1]
  | function f =>
    rw [Statement.element, said.name_eq]
    simp only [Element.name, function_eq plain.2 said.inside policy]
    show Except.ok (Element.function f.detached) = _
    rw [show f.detached = f from plain.1]
  | classDefinition c =>
    rw [Statement.element, said.name_eq]
    simp only [Element.name, said.classDefinition_eq plain.2 policy]
    show Except.ok (Element.classDefinition c.detached) = _
    rw [show c.detached = c from plain.1]

/-- A statement with a header, a scope and a name in front of its arguments puts in what it is read
as. -/
theorem Says.edit_of_element {call : Call} {name header scope elementName : String}
    {named : List (String × Value)} {block : List Phrase}
    (said : Says call (.mk name [header, scope, elementName] named block))
    {allowed : List String} {mayHaveBlock : Bool} (isOther : name ≠ "include")
    (form : Statement.elementForm? name = some (allowed, mayHaveBlock))
    (areAllowed : (Phrase.mk name [header, scope, elementName] named block).KeepsTo allowed)
    (leaf : mayHaveBlock = false → block = []) {policy : DuplicatePolicy} {element : Element}
    (isElement : Statement.element policy call elementName = .ok element) :
    Statement.edit policy call = .ok (.add header scope element) := by
  have ofHeader : call.unnamed 0 "header" = .ok header := said.unnamed_eq rfl "header"
  have ofScope : call.unnamed 1 "namespace" = .ok scope := said.unnamed_eq rfl "namespace"
  have ofName : call.unnamed 2 "name" = .ok elementName := said.unnamed_eq rfl "name"
  rw [Statement.edit, said.name_eq, if_neg isOther, form]
  simp only [said.checkNames_eq areAllowed, ofHeader, ofScope, ofName, isElement, Reading.ok_bind]
  cases mayHaveBlock with
  | true => rfl
  | false =>
    have noBlock := leaf rfl
    subst noBlock
    simp only [said.checkLeaf_eq]
    rfl

/-- A call that says the phrase of an edit is read as this edit. -/
theorem Says.edit_eq {call : Call} {edit : Edit} (said : Says call (editPhrase edit))
    (plain : edit.IsPlain) (policy : DuplicatePolicy) :
    Statement.edit policy call = .ok edit := by
  cases edit with
  | enable header enabled =>
    have names : call.checkNames ["enabled"] = .ok () :=
      said.checkNames_eq (headerPhrase_keepsTo header enabled)
    have ofHeader : call.unnamed 0 "header" = .ok header := said.unnamed_eq rfl "header"
    have isEnabled : call.truth "enabled" true = .ok enabled :=
      said.truth_eq (by cases enabled <;> rfl)
    rw [Statement.edit, said.name_eq, if_pos rfl, names, said.checkLeaf_eq, ofHeader, isEnabled]
    rfl
  | add header scope element =>
    have isElement := Says.element_eq said plain policy
    cases element with
    | constant c =>
      exact said.edit_of_element (by decide) rfl (constantPhrase_keepsTo [header, scope] c)
        (fun _ => rfl)
        isElement
    | enumeration e =>
      exact said.edit_of_element (by decide) rfl (enumerationArguments_keepTo _ _ e) (fun _ => rfl)
        isElement
    | typeAlias a =>
      exact said.edit_of_element (by decide) rfl (typeArguments_keepTo _ _ a.type) (fun _ => rfl)
        isElement
    | globalVariable v =>
      exact said.edit_of_element (by decide) rfl (typeArguments_keepTo _ _ v.type) (fun _ => rfl)
        isElement
    | function f =>
      exact said.edit_of_element (by decide) rfl (by simp [Phrase.KeepsTo, Phrase.named])
        (fun isLeaf => nomatch isLeaf) isElement
    | classDefinition c =>
      exact said.edit_of_element (by decide) rfl (classPhrase_keepsTo [header, scope] c)
        (fun isLeaf => nomatch isLeaf) isElement

/-- Calls that say the phrases of edits are read as these edits. -/
theorem edits_of_says {calls : List Call} {edits : List Edit}
    (sayAll : List.Forall₂ Says calls (edits.map editPhrase))
    (plain : ∀ edit ∈ edits, edit.IsPlain) (policy : DuplicatePolicy) :
    Script.edits policy calls = .ok edits := by
  induction edits generalizing calls with
  | nil =>
    cases sayAll
    rfl
  | cons edit rest ih =>
    obtain ⟨call, others, saysFirst, sayRest, rfl⟩ := List.forall₂_cons_right_iff.mp sayAll
    have ofRest := ih sayRest fun other isLater => plain other (List.mem_cons_of_mem _ isLater)
    rw [Script.edits] at ofRest ⊢
    rw [List.mapM_cons, saysFirst.edit_eq (plain edit (List.mem_cons_self ..)) policy,
      Reading.ok_bind, ofRest]
    rfl

end Bindery.Script
