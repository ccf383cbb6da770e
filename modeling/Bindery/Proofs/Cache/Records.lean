/-
**The record of an element is read back as the element.**

What a record does not say is the same for every element on its own: where it stands and, for an
overload, the function that holds it. An overload comes back without its function and gets it again
when the function is built.

* `constant?_record`, …, `classVariable?_record` — the elements of one record.
* `buildFunction_drafts` — a function is built from what its record says.
* `buildClass_draft` — a class is built from what its record says, without variables and
  enumerations, if no method has the name of a field.
-/

import Bindery.Cache.Record
import Bindery.Proofs.Json.Records
import Bindery.Proofs.Returns
import Bindery.Proofs.Symbols.Replay

namespace Bindery.Cache

open Json Symbols

/-! ### Constants, enumerations and types -/

theorem constant?_record (constant : Constant) :
    constant? constant.name (constantRecord constant) = some constant.detached := by
  obtain ⟨fields, found, given⟩ := @fields?_record ["value", "description"] (by decide)
    (("value", text constant.value) :: textField "description" constant.description)
    ((sublist_textField ..).cons_cons _)
  have value : fields.required? "value" Json.text? = some constant.value :=
    Fields.required?_of_text (by simp [given, lookupPair])
  have description : fields.text? "description" = some constant.description :=
    Fields.text?_of_field (by simp [given, lookupPair])
  rw [constant?, constantRecord, found]
  simp only [Option.bind_eq_bind, Option.bind_some, value, description]
  rfl

theorem enumeration?_record (enumeration : Enumeration) :
    enumeration? enumeration.name (enumerationRecord enumeration) = some enumeration.detached := by
  obtain ⟨fields, found, given⟩ := @fields?_record ["options", "description"] (by decide)
    (("options", array (enumeration.options.names.map text)) ::
      textField "description" enumeration.description) ((sublist_textField ..).cons_cons _)
  have options : fields.orElse? "options" (list? Json.text?) [] =
      some enumeration.options.names := by
    rw [Fields.orElse?, show lookupPair "options" fields.values = _ from given "options"]
    exact list?_texts enumeration.options.names
  have description : fields.text? "description" = some enumeration.description :=
    Fields.text?_of_field (by simp [given, lookupPair])
  rw [enumeration?, enumerationRecord, found]
  simp only [Option.bind_eq_bind, Option.bind_some, options, description,
    NameSet.ofList_names]
  rfl

theorem typed?_record {element : TypedName} (read : element.type.IsRead) :
    typed? element.name (typedRecord element.type) = some element.detached := by
  obtain ⟨fields, found, given⟩ := @fields?_record ["type", "description"] (by decide)
    (("type", text element.type.text) :: textField "description" element.type.description)
    ((sublist_textField ..).cons_cons _)
  have type : fields.required? "type" Json.text? = some element.type.text :=
    Fields.required?_of_text (by simp [given, lookupPair])
  have description : fields.text? "description" = some element.type.description :=
    Fields.text?_of_field (by simp [given, lookupPair])
  rw [typed?, typedRecord, found]
  simp only [Option.bind_eq_bind, Option.bind_some, type, description, read.reread]
  rfl

theorem classVariable?_record {member : ClassVariable} (read : member.type.IsRead) :
    classVariable? member.name (classVariableRecord member) = some member := by
  obtain ⟨fields, found, given⟩ := @fields?_record
    ["type", "static", "mutable", "protected", "public", "description"] (by decide)
    (textField "type" member.type.text ++ flagField "static" member.isStatic ++
      flagField "mutable" member.isMutable ++ flagField "protected" member.isProtected ++
      flagField "public" member.isPublic ++ textField "description" member.type.description) (by
    simp only [List.map_append]
    exact (((((sublist_textField ..).append (sublist_flagField ..)).append
      (sublist_flagField ..)).append (sublist_flagField ..)).append
        (sublist_flagField ..)).append (sublist_textField ..))
  have type : fields.text? "type" = some member.type.text :=
    Fields.text?_of_field (by simp [given])
  have isStatic : fields.flag? "static" = some member.isStatic :=
    Fields.flag?_of_field (by simp [given])
  have isMutable : fields.flag? "mutable" = some member.isMutable :=
    Fields.flag?_of_field (by simp [given])
  have isProtected : fields.flag? "protected" = some member.isProtected :=
    Fields.flag?_of_field (by simp [given])
  have isPublic : fields.flag? "public" = some member.isPublic :=
    Fields.flag?_of_field (by simp [given])
  have description : fields.text? "description" = some member.type.description :=
    Fields.text?_of_field (by simp [given])
  rw [classVariable?, classVariableRecord, found]
  simp only [Option.bind_eq_bind, Option.bind_some, type, isStatic, isMutable, isProtected,
    isPublic, description, read.reread]
  rfl

theorem shallow_constantRecord (constant : Constant) : IsShallow 1 (constantRecord constant) := by
  refine .record ?_
  rw [List.forall_mem_cons]
  exact ⟨.text _, .textField _ _⟩

theorem shallow_enumerationRecord (enumeration : Enumeration) :
    IsShallow 2 (enumerationRecord enumeration) := by
  refine .record ?_
  rw [List.forall_mem_cons]
  exact ⟨.texts _, .textField _ _⟩

theorem shallow_typedRecord (type : TypeShape) : IsShallow 1 (typedRecord type) := by
  refine .record ?_
  rw [List.forall_mem_cons]
  exact ⟨.text _, .textField _ _⟩

theorem shallow_classVariableRecord (member : ClassVariable) :
    IsShallow 1 (classVariableRecord member) := by
  refine .record ?_
  simp only [List.forall_mem_append]
  exact ⟨⟨⟨⟨⟨.textField _ _, .flagField _ _⟩, .flagField _ _⟩, .flagField _ _⟩, .flagField _ _⟩,
    .textField _ _⟩

/-! ### Functions -/

theorem parameter?_record {parameter : Parameter} (read : parameter.type.IsReadParameter) :
    parameter? (parameterRecord parameter) = some parameter := by
  obtain ⟨fields, found, given⟩ := @fields?_record
    ["name", "type", "is_array", "value", "description"] (by decide)
    (("name", text parameter.name) :: ("type", text parameter.type.text) ::
      (flagField "is_array" parameter.type.isArray ++ textField "value" parameter.default ++
        textField "description" parameter.type.description)) (by
    simp only [List.map_cons, List.map_append]
    exact ((((sublist_flagField ..).append (sublist_textField ..)).append
      (sublist_textField ..)).cons_cons _).cons_cons _)
  have name : fields.required? "name" Json.text? = some parameter.name :=
    Fields.required?_of_text (by simp [given, lookupPair])
  have type : fields.required? "type" Json.text? = some parameter.type.text :=
    Fields.required?_of_text (by simp [given, lookupPair])
  have isArray : fields.flag? "is_array" = some parameter.type.isArray :=
    Fields.flag?_of_field (by simp [given, lookupPair])
  have default : fields.text? "value" = some parameter.default :=
    Fields.text?_of_field (by simp [given, lookupPair])
  have description : fields.text? "description" = some parameter.type.description :=
    Fields.text?_of_field (by simp [given, lookupPair])
  rw [parameter?, parameterRecord, found]
  simp only [Option.bind_eq_bind, Option.bind_some, name, type, isArray, default, description,
    read.reread rfl]
  rfl

/-- What the record of an overload says: everything but the function that holds it. -/
def draftOf (overload : Overload) : Overload := { overload with function := "" }

theorem overload?_record {function : String} {overload : Overload}
    (sound : overload.IsSound function) :
    overload? (overloadRecord overload) = some (draftOf overload) := by
  obtain ⟨fields, found, given⟩ := @fields?_record ["description", "return_type",
      "return_description", "parameters", "constant", "static", "virtual", "pure_virtual",
      "protected", "deprecated"] (by decide)
    (("description", text overload.description) :: ("return_type", text overload.returns.text) ::
      (textField "return_description" overload.returns.description ++
        (if overload.parameters.isEmpty then []
          else [("parameters", array (overload.parameters.map parameterRecord))]) ++
        flagField "constant" overload.flags.isConst ++ flagField "static" overload.flags.isStatic ++
        flagField "virtual" overload.flags.isVirtual ++
        flagField "pure_virtual" overload.flags.isPureVirtual ++
        flagField "protected" overload.flags.isProtected ++
        flagField "deprecated" overload.flags.isDeprecated)) (by
    simp only [List.map_cons, List.map_append]
    exact ((((((((sublist_textField ..).append (sublist_optional ..)).append
      (sublist_flagField ..)).append
      (sublist_flagField ..)).append (sublist_flagField ..)).append
        (sublist_flagField ..)).append (sublist_flagField ..)).append
          (sublist_flagField ..)).cons_cons _ |>.cons_cons _)
  have ofParameters : list? parameter? (array (overload.parameters.map parameterRecord)) =
      some overload.parameters := by
    have each := @list?_array _ _ parameter? parameterRecord id overload.parameters
      fun parameter isIn => parameter?_record (sound.parameters parameter isIn)
    rwa [List.map_id] at each
  have description : fields.text? "description" = some overload.description :=
    Fields.text?_of_text (by simp [given, lookupPair, -List.isEmpty_iff])
  have returns : fields.text? "return_type" = some overload.returns.text :=
    Fields.text?_of_text (by simp [given, lookupPair, -List.isEmpty_iff])
  have returnDescription :
      fields.text? "return_description" = some overload.returns.description :=
    Fields.text?_of_field (by simp [given, lookupPair, -List.isEmpty_iff])
  have parameters : fields.orElse? "parameters" (list? parameter?) [] =
      some overload.parameters :=
    Fields.list?_of_field ofParameters (by simp [given, lookupPair, -List.isEmpty_iff])
  have isConst : fields.flag? "constant" = some overload.flags.isConst :=
    Fields.flag?_of_field (by simp [given, lookupPair, -List.isEmpty_iff])
  have isStatic : fields.flag? "static" = some overload.flags.isStatic :=
    Fields.flag?_of_field (by simp [given, lookupPair, -List.isEmpty_iff])
  have isVirtual : fields.flag? "virtual" = some overload.flags.isVirtual :=
    Fields.flag?_of_field (by simp [given, lookupPair, -List.isEmpty_iff])
  have isPureVirtual : fields.flag? "pure_virtual" = some overload.flags.isPureVirtual :=
    Fields.flag?_of_field (by simp [given, lookupPair, -List.isEmpty_iff])
  have isProtected : fields.flag? "protected" = some overload.flags.isProtected :=
    Fields.flag?_of_field (by simp [given, lookupPair, -List.isEmpty_iff])
  have isDeprecated : fields.flag? "deprecated" = some overload.flags.isDeprecated :=
    Fields.flag?_of_field (by simp [given, lookupPair, -List.isEmpty_iff])
  rw [overload?, overloadRecord, found]
  simp only [Option.bind_eq_bind, Option.bind_some, description, returns, returnDescription,
    parameters, isConst, isStatic, isVirtual, isPureVirtual, isProtected, isDeprecated,
    sound.returns.reread]
  rfl

/-- A sound function is built from what its record says, under either policy. -/
theorem buildFunction_drafts {function : Function} (sound : function.IsSound)
    (policy : DuplicatePolicy) :
    buildFunction policy function.name (function.overloads.map draftOf) =
      .ok function.detached := by
  rw [buildFunction, List.foldlM_map, ← sound.rebuilt]
  refine foldlM_eq_ok (fun overload isIn built => ?_) _
  have ofOverload := sound.overloads overload isIn
  have parameters := @Overload.addParameters_of_distinct
    { draftOf overload with parameters := [], function := function.name } overload.parameters
    ofOverload.distinct policy
  simp only [draftOf] at parameters ⊢
  rw [parameters]
  simp only [List.nil_append, ← ofOverload.function]
  rfl

theorem shallow_parameterRecord (parameter : Parameter) :
    IsShallow 1 (parameterRecord parameter) := by
  refine .record ?_
  simp only [List.forall_mem_cons, List.forall_mem_append]
  exact ⟨.text _, .text _, ⟨.flagField _ _, .textField _ _⟩, .textField _ _⟩

theorem shallow_overloadRecord (overload : Overload) : IsShallow 3 (overloadRecord overload) := by
  have ofParameters : IsShallow 2 (array (overload.parameters.map parameterRecord)) :=
    .array (by simpa using fun parameter _ => shallow_parameterRecord parameter)
  refine .record ?_
  simp only [List.forall_mem_cons, List.forall_mem_append]
  exact ⟨.text _, .text _, ⟨⟨⟨⟨⟨⟨⟨.textField _ _, .optional _ ofParameters⟩, .flagField _ _⟩,
    .flagField _ _⟩, .flagField _ _⟩, .flagField _ _⟩, .flagField _ _⟩, .flagField _ _⟩⟩

theorem shallow_functionRecord (function : Function) :
    IsShallow 4 (functionRecord function) :=
  .array (by simpa using fun overload _ => shallow_overloadRecord overload)

/-- What the record of a function says. -/
theorem overloads?_record {function : Function} (sound : function.IsSound) :
    overloads? (functionRecord function) = some (function.overloads.map draftOf) :=
  list?_array fun overload isIn => overload?_record (sound.overloads overload isIn)

/-! ### Classes -/

/-- The record of a method is nested no deeper than it may be. -/
theorem method?_record {method : Function} (sound : method.IsSound) :
    method? (functionRecord method) = some (method.overloads.map draftOf) := by
  have shallow := shallow_functionRecord method
  have isPlainOfTextual : ∀ value : Json, isTextual value = true → isPlain value = true := by
    intro value textual
    cases value <;> simp_all [isTextual, isPlain]
  rw [method?, if_pos, overloads?_record sound]
  exact ⟨(shallow.mono (by decide)).depth, everywhere_imp isPlainOfTextual _ shallow.textual⟩

/-- No method of the class has the name of a field of its record. -/
def HasPlainMethods (self : Symbols.Class) : Prop := ∀ name ∈ self.methods.keys, name ∉ classFields

/-- No method of a class in the table has the name of a field of the class's record. -/
def HasPlainMethodNames (table : Table) : Prop := ∀ self ∈ table.classes, HasPlainMethods self

instance (table : Table) : Decidable (HasPlainMethodNames table) :=
  inferInstanceAs (Decidable
    (∀ self ∈ table.classes, ∀ name ∈ self.methods.keys, name ∉ classFields))

/-- What the record of a class says. -/
def classDraft (self : Symbols.Class) : ClassDraft where
  description := self.description
  isStruct := self.isStruct
  isForward := self.isForward
  parents := self.parents.names
  generics := self.generics
  methods := self.methods.mapValues fun method => method.overloads.map draftOf

/-- The fields of the record of a class. -/
def headingFields (self : Symbols.Class) : List (String × Json) :=
  textField "@description" self.description ++ flagField "@struct" self.isStruct ++
    flagField "@forward_declaration" self.isForward ++
    textsField "@parents" self.parents.names ++ textsField "@generics" self.generics

theorem sublist_headingFields (self : Symbols.Class) :
    ((headingFields self).map Prod.fst).Sublist classFields := by
  simp only [headingFields, List.map_append]
  exact ((((sublist_textField ..).append (sublist_flagField ..)).append
    (sublist_flagField ..)).append (sublist_textsField ..)).append (sublist_textsField ..)

/-- The methods in the record of a class, which are all members but its fields. -/
theorem methods_classRecord {self : Symbols.Class} (plain : HasPlainMethods self) :
    (headingFields self ++ (self.methods.mapValues functionRecord).entries).filter
      (fun (key, _) => !classFields.contains key) =
        (self.methods.mapValues functionRecord).entries := by
  rw [List.filter_append, List.filter_eq_nil_iff.mpr, List.filter_eq_self.mpr, List.nil_append]
  · intro member isMethod
    obtain ⟨pair, isPair, rfl⟩ := List.mem_map.mp isMethod
    simpa using plain pair.1 (List.mem_map_of_mem isPair)
  · intro member isField
    simpa using (sublist_headingFields self).subset (List.mem_map_of_mem isField)

theorem class?_record {self : Symbols.Class} (sound : self.IsSound)
    (plain : HasPlainMethods self) : class? (classRecord self) = some (classDraft self) := by
  obtain ⟨fields, found, given⟩ := @fields?_record_append classFields (by decide)
    (headingFields self) (self.methods.mapValues functionRecord).entries
    (sublist_headingFields self) (by
      intro member isMethod
      obtain ⟨pair, isPair, rfl⟩ := List.mem_map.mp isMethod
      exact plain pair.1 (List.mem_map_of_mem isPair))
  have description : fields.text? "@description" = some self.description :=
    Fields.text?_of_field (by simp [given, headingFields])
  have isStruct : fields.flag? "@struct" = some self.isStruct :=
    Fields.flag?_of_field (by simp [given, headingFields])
  have isForward : fields.flag? "@forward_declaration" = some self.isForward :=
    Fields.flag?_of_field (by simp [given, headingFields])
  have parents : fields.orElse? "@parents" (list? Json.text?) [] = some self.parents.names :=
    Fields.list?_of_field (list?_texts _)
      (by simp [given, headingFields, -List.isEmpty_iff])
  have generics : fields.orElse? "@generics" (list? Json.text?) [] = some self.generics :=
    Fields.list?_of_field (list?_texts _)
      (by simp [given, headingFields, -List.isEmpty_iff])
  have methods : (self.methods.mapValues functionRecord).entries.mapM (fun member =>
      (method? member.2).map fun overloads => (member.1, overloads)) =
        some (classDraft self).methods.entries := by
    refine mapM_map_eq_some fun pair isPair => ?_
    have isMethod := sound.methods.of_mem (show (pair.1, pair.2) ∈ self.methods.entries from isPair)
    rw [method?_record isMethod.2.2.2]
    rfl
  have isRecord : classRecord self =
      record (headingFields self ++ (self.methods.mapValues functionRecord).entries) := rfl
  rw [class?, isRecord, members?_record]
  simp only [Option.bind_eq_bind, Option.bind_some, found, methods_classRecord plain, methods,
    description, isStruct, isForward, parents, generics, OrderedMap.ofList_entries]
  rfl

theorem shallow_classRecord (self : Symbols.Class) : IsShallow 5 (classRecord self) := by
  refine .record ?_
  simp only [List.forall_mem_append]
  refine ⟨⟨⟨⟨⟨.textField _ _, .flagField _ _⟩, .flagField _ _⟩, .textsField _ _⟩,
    .textsField _ _⟩, ?_⟩
  rw [List.forall_mem_map]
  exact fun method _ => shallow_functionRecord method.2

/-- A sound class is built from what its record says, without its variables and enumerations. -/
theorem buildClass_draft {self : Symbols.Class} (sound : self.IsSound)
    (policy : DuplicatePolicy) :
    buildClass policy self.name (classDraft self) = .ok self.outline.detached := by
  have generics : (if self.generics.isEmpty then (Class.named self.name).generics
      else self.generics) = self.generics := by
    rw [sound.plainName]
    split
    next isEmpty => exact (List.isEmpty_iff.mp isEmpty).symm
    next => rfl
  have withParents : self.parents.names.foldl Class.addParent
      { name := self.name, generics := self.generics, isStruct := self.isStruct,
        isForward := self.isForward, description := self.description } = self.heading :=
    self.foldl_parents rfl
  have withMethods : (self.methods.values.map Function.detached).foldl Class.addMethod
      self.heading = self.outline.detached := sound.foldl_methods rfl rfl rfl
  have asSteps : ∀ bare : Symbols.Class, (classDraft self).methods.entries.foldlM
      (fun built pair => return built.addMethod (← buildFunction policy pair.1 pair.2)) bare =
        (.ok ((self.methods.values.map Function.detached).foldl Class.addMethod bare) :
          Except DuplicateParameter Symbols.Class) := by
    intro bare
    rw [OrderedMap.values, List.map_map, List.foldl_map]
    show List.foldlM _ bare (self.methods.entries.map _) = _
    rw [List.foldlM_map]
    refine foldlM_eq_ok (fun pair isPair built => ?_) bare
    obtain ⟨ownName, _, _, isSound⟩ :=
      sound.methods.of_mem (show (pair.1, pair.2) ∈ self.methods.entries from isPair)
    simp only [← ownName, buildFunction_drafts isSound]
    rfl
  rw [buildClass]
  refine (asSteps _).trans ?_
  show Except.ok ((self.methods.values.map Function.detached).foldl Class.addMethod
    (self.parents.names.foldl Class.addParent
      { Class.named self.name with
        description := self.description
        isStruct := self.isStruct
        isForward := self.isForward
        generics := if self.generics.isEmpty then (Class.named self.name).generics
          else self.generics })) = _
  rw [generics, sound.plainName, withParents, withMethods]

end Bindery.Cache
