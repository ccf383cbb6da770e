/-
**The same overload in a record and in a call.**

An overload is written as a JSON record and as a call of a script. What it says is the same in both,
however the fields stand and whichever of the empty ones are left out. Each format is read into this
content first, and both go on to take in its parameters one by one.

* `OverloadContent` — what an overload says, with `InRecord` and `InCall` for the two formats.
* `Cache.overload?_eq_some_iff`, `Script.exists_inCall_of_overload` — whatever is read has a
  content.
* `Script.overload_of_inCall` — a call ends as the record of the same content does.
* `policies_agree_but_on_repeats` — the two policies for repeated names, in both formats.
-/

import Mathlib.Data.List.Forall2
import Bindery.Cache.Record
import Bindery.Proofs.Returns
import Bindery.Proofs.Script.Reading
import Bindery.Proofs.Symbols.DuplicateParameters

namespace Bindery

open Symbols

/-! ### What parameters and overloads say -/

/-- What a parameter said. -/
structure ParameterContent where
  name : String
  type : String
  isArray : Bool
  default : String
  description : String

/-- What an overload said. -/
structure OverloadContent where
  returns : String
  returnDescription : String
  description : String
  flags : OverloadFlags
  parameters : List ParameterContent

namespace ParameterContent

/-- The parameter that is meant; a type without a base is never an array. -/
def parameter (content : ParameterContent) : Parameter :=
  let type := (TypeShape.parse content.type).withDescription content.description
  { name := content.name
    type := if content.isArray && !type.isEmpty then { type with isArray := true } else type
    default := content.default }

theorem names_parameters (contents : List ParameterContent) :
    (contents.map parameter).map Parameter.name = contents.map name :=
  List.map_map

/-- The record of a parameter says the content. -/
inductive InRecord (content : ParameterContent) (json : Json) : Prop
  | mk (fields : Json.Fields)
      (areFields :
        json.fields? ["name", "type", "is_array", "value", "description"] = some fields)
      (name : fields.required? "name" Json.text? = some content.name)
      (type : fields.required? "type" Json.text? = some content.type)
      (isArray : fields.flag? "is_array" = some content.isArray)
      (default : fields.text? "value" = some content.default)
      (description : fields.text? "description" = some content.description)

/-- The call in the block of an overload says the content. -/
structure InCall (content : ParameterContent) (call : Script.Call) : Prop where
  isParameter : call.name = "parameter"
  names : call.checkNames ["type", "array", "value", "description"] = .ok ()
  leaf : call.checkLeaf = .ok ()
  name : call.unnamed 0 "name" = .ok content.name
  type : call.text "type" = .ok content.type
  isArray : call.flag "array" = .ok content.isArray
  default : call.text "value" = .ok content.default
  description : call.text "description" = .ok content.description

end ParameterContent

namespace OverloadContent

/-- The names of the parameters in order. -/
def names (content : OverloadContent) : List String :=
  content.parameters.map ParameterContent.name

/-- The overload that is meant, with every parameter and not yet in a function. -/
def draft (content : OverloadContent) : Overload where
  returns := (TypeShape.parse content.returns).withDescription content.returnDescription
  description := content.description
  flags := content.flags
  parameters := content.parameters.map ParameterContent.parameter

/-- The record of an overload says the content. -/
inductive InRecord (content : OverloadContent) (json : Json) : Prop
  | mk (fields : Json.Fields) (items : List Json)
      (areFields : json.fields? ["description", "return_type", "return_description", "parameters",
        "constant", "static", "virtual", "pure_virtual", "protected", "deprecated"] = some fields)
      (areItems : fields.orElse? "parameters" (Json.list? some) [] = some items)
      (parameters : List.Forall₂ ParameterContent.InRecord content.parameters items)
      (returns : fields.text? "return_type" = some content.returns)
      (returnDescription : fields.text? "return_description" = some content.returnDescription)
      (description : fields.text? "description" = some content.description)
      (isStatic : fields.flag? "static" = some content.flags.isStatic)
      (isConst : fields.flag? "constant" = some content.flags.isConst)
      (isVirtual : fields.flag? "virtual" = some content.flags.isVirtual)
      (isPureVirtual : fields.flag? "pure_virtual" = some content.flags.isPureVirtual)
      (isProtected : fields.flag? "protected" = some content.flags.isProtected)
      (isDeprecated : fields.flag? "deprecated" = some content.flags.isDeprecated)

/-- The call in the block of a function says the content. -/
structure InCall (content : OverloadContent) (call : Script.Call) : Prop where
  isOverload : call.name = "overload"
  names : call.checkNames Script.Statement.overloadArguments = .ok ()
  parameters : List.Forall₂ ParameterContent.InCall content.parameters call.block
  returns : call.text "return" = .ok content.returns
  returnDescription : call.text "return_description" = .ok content.returnDescription
  description : call.text "description" = .ok content.description
  isStatic : call.flag "static" = .ok content.flags.isStatic
  isConst : call.flag "const" = .ok content.flags.isConst
  isVirtual : call.flag "virtual" = .ok content.flags.isVirtual
  isPureVirtual : call.flag "pure_virtual" = .ok content.flags.isPureVirtual
  isProtected : call.flag "protected" = .ok content.flags.isProtected
  isDeprecated : call.flag "deprecated" = .ok content.flags.isDeprecated

end OverloadContent

/-! ### Records -/

namespace Cache

open Json

theorem parameter?_eq_some_iff {json : Json} {parameter : Parameter} :
    parameter? json = some parameter ↔
      ∃ content : ParameterContent, content.InRecord json ∧ content.parameter = parameter := by
  simp only [parameter?, Option.bind_eq_bind, Option.bind_eq_some_iff, Option.pure_def,
    Option.some.injEq]
  constructor
  · rintro ⟨fields, areFields, name, isName, type, isType, isArray, array, default, isDefault,
      description, isDescription, rfl⟩
    exact ⟨⟨name, type, isArray, default, description⟩,
      ⟨fields, areFields, isName, isType, array, isDefault, isDescription⟩, rfl⟩
  · rintro ⟨content, ⟨fields, areFields, isName, isType, array, isDefault, isDescription⟩, rfl⟩
    exact ⟨fields, areFields, _, isName, _, isType, _, array, _, isDefault, _, isDescription, rfl⟩

theorem mapM_parameter?_eq_some_iff {items : List Json} {parameters : List Parameter} :
    items.mapM parameter? = some parameters ↔
      ∃ contents : List ParameterContent, List.Forall₂ ParameterContent.InRecord contents items ∧
        contents.map ParameterContent.parameter = parameters := by
  induction items generalizing parameters with
  | nil => simp [List.forall₂_nil_right_iff, eq_comm]
  | cons item rest ih =>
    simp only [List.mapM_cons, Option.bind_eq_bind, Option.bind_eq_some_iff, Option.pure_def,
      Option.some.injEq, parameter?_eq_some_iff, ih, List.forall₂_cons_right_iff]
    constructor
    · rintro ⟨_, ⟨content, isFirst, rfl⟩, _, ⟨contents, areRest, rfl⟩, rfl⟩
      exact ⟨content :: contents, ⟨content, contents, isFirst, areRest, rfl⟩, rfl⟩
    · rintro ⟨_, ⟨content, contents, isFirst, areRest, rfl⟩, rfl⟩
      exact ⟨_, ⟨content, isFirst, rfl⟩, _, ⟨contents, areRest, rfl⟩, rfl⟩

theorem orElse?_list?_eq_some_iff {α : Type} {fields : Fields} {name : String}
    {read : Json → Option α} {found : List α} :
    fields.orElse? name (list? read) [] = some found ↔
      ∃ items, fields.orElse? name (list? some) [] = some items ∧ items.mapM read = some found := by
  have all : ∀ items : List Json, items.mapM some = some items := fun items => by
    simpa using List.mapM_pure (m := Option) (l := items) (f := id)
  unfold Fields.orElse?
  cases lookupPair name fields.values with
  | none => simp [eq_comm]
  | some value => cases value <;> simp [list?, all]

/-- What is read from the record of an overload is what its content means. -/
theorem overload?_eq_some_iff {json : Json} {draft : Overload} :
    overload? json = some draft ↔
      ∃ content : OverloadContent, content.InRecord json ∧ content.draft = draft := by
  simp only [overload?, Option.bind_eq_bind, Option.bind_eq_some_iff, Option.pure_def,
    Option.some.injEq, @orElse?_list?_eq_some_iff _ _ _ parameter?, mapM_parameter?_eq_some_iff]
  constructor
  · rintro ⟨fields, areFields, description, isDescription, returns, areReturns, returnDescription,
      isReturnDescription, _, ⟨items, areItems, parameters, areParameters, rfl⟩, isConst, ofConst,
      isStatic, ofStatic, isVirtual, ofVirtual, isPureVirtual, ofPureVirtual, isProtected,
      ofProtected, isDeprecated, ofDeprecated, rfl⟩
    exact ⟨⟨returns, returnDescription, description,
      ⟨isStatic, isConst, isVirtual, isPureVirtual, isProtected, isDeprecated⟩, parameters⟩,
      ⟨fields, items, areFields, areItems, areParameters, areReturns, isReturnDescription,
        isDescription, ofStatic, ofConst, ofVirtual, ofPureVirtual, ofProtected, ofDeprecated⟩,
      rfl⟩
  · rintro ⟨content, ⟨fields, items, areFields, areItems, areParameters, areReturns,
      isReturnDescription, isDescription, ofStatic, ofConst, ofVirtual, ofPureVirtual, ofProtected,
      ofDeprecated⟩, rfl⟩
    exact ⟨fields, areFields, _, isDescription, _, areReturns, _, isReturnDescription, _,
      ⟨items, areItems, _, areParameters, rfl⟩, _, ofConst, _, ofStatic, _, ofVirtual, _,
      ofPureVirtual, _, ofProtected, _, ofDeprecated, rfl⟩

/-- The overload of a function that a record describes: its parameters are taken in one by one. -/
def intoOverload (policy : DuplicatePolicy) (function : String) (draft : Overload) :
    Except DuplicateParameter Overload :=
  { draft with parameters := [], function }.addParameters draft.parameters policy

/-- A function is built from its overloads. -/
theorem buildFunction_eq (policy : DuplicatePolicy) (name : String) (drafts : List Overload) :
    buildFunction policy name drafts = drafts.foldlM
      (fun function draft => return function.addOverload (← intoOverload policy name draft))
      { name } :=
  rfl

end Cache

/-! ### Building and reading side by side -/

section EndsAs

variable {α β σ : Type}

/-- Reading a script ends as building from records does: with the same value, or for the same
repeated parameter. -/
def EndsAs (built : Except DuplicateParameter α) (read : Script.Reading α) : Prop :=
  match built with
  | .ok value => read = .ok value
  | .error duplicate => ∃ span, read = .error ⟨.duplicateParameter duplicate, span⟩

theorem EndsAs.bind {built : Except DuplicateParameter α} {read : Script.Reading α}
    (endsAs : EndsAs built read) {next : α → Except DuplicateParameter β}
    {otherNext : α → Script.Reading β}
    (ofNext : ∀ value, built = .ok value → EndsAs (next value) (otherNext value)) :
    EndsAs (built >>= next) (read >>= otherNext) := by
  cases built with
  | ok value =>
    obtain rfl : read = .ok value := endsAs
    exact ofNext value rfl
  | error duplicate =>
    obtain ⟨span, rfl⟩ := endsAs
    exact ⟨span, rfl⟩

/-- Steps that end alike one by one end alike together. -/
theorem EndsAs.foldlM {step : σ → α → Except DuplicateParameter σ}
    {otherStep : σ → β → Script.Reading σ} {invariant : σ → Prop} {items : List α}
    {others : List β}
    (each : List.Forall₂ (fun item other => ∀ state, invariant state →
      EndsAs (step state item) (otherStep state other) ∧ Returns invariant (step state item))
        items others)
    {state : σ} (holds : invariant state) :
    EndsAs (items.foldlM step state) (others.foldlM otherStep state) := by
  induction each generalizing state with
  | nil => exact rfl
  | cons first _ ih =>
    obtain ⟨endsAs, kept⟩ := first state holds
    rw [List.foldlM_cons, List.foldlM_cons]
    exact endsAs.bind fun next isNext => ih (kept next isNext)

end EndsAs

/-! ### Calls -/

namespace Script

/-- A call adds the parameter that its content means, and an error shows the whole call. -/
theorem parameter_of_inCall {content : ParameterContent} {call : Call} (said : content.InCall call)
    (overload : Overload) (policy : DuplicatePolicy) :
    Statement.parameter policy overload call =
      match overload.addParameter content.parameter policy with
      | .ok (longer, _) => .ok longer
      | .error duplicate => .error ⟨.duplicateParameter duplicate, call.span⟩ := by
  have type := describedType_eq said.type said.description
  rw [Statement.parameter, said.isParameter]
  simp only [said.names, said.leaf, type, said.isArray, said.name, said.default, Reading.ok_bind]
  rfl

/-- Calls take in parameters as their contents say. -/
theorem endsAs_parameters {contents : List ParameterContent} {calls : List Call}
    (sayAll : List.Forall₂ ParameterContent.InCall contents calls) (overload : Overload)
    (policy : DuplicatePolicy) :
    EndsAs (overload.addParameters (contents.map ParameterContent.parameter) policy)
      (calls.foldlM (Statement.parameter policy) overload) := by
  rw [Overload.addParameters, List.foldlM_map]
  refine @EndsAs.foldlM _ _ _ _ _ (fun _ => True) _ _ (sayAll.imp fun content call said state _ =>
    ⟨?_, fun _ _ => trivial⟩) _ trivial
  rw [parameter_of_inCall said]
  cases state.addParameter content.parameter policy with
  | ok result => exact rfl
  | error duplicate => exact ⟨call.span, rfl⟩

/-- A call adds the overload that its content means, once its parameters are taken in. -/
theorem overload_of_inCall {content : OverloadContent} {call : Call} (said : content.InCall call)
    (function : Function) (policy : DuplicatePolicy) :
    Statement.overload policy function call = do
      let overload ← call.block.foldlM (Statement.parameter policy)
        { content.draft with parameters := [], function := function.name }
      return function.addOverload overload := by
  rw [Statement.overload, said.isOverload]
  simp only [said.names, said.returns, said.returnDescription, said.description, said.isStatic,
    said.isConst, said.isVirtual, said.isPureVirtual, said.isProtected, said.isDeprecated,
    Reading.ok_bind]
  rfl

/-- A call ends as the record of the same content does. -/
theorem endsAs_overload {content : OverloadContent} {call : Call} (said : content.InCall call)
    (function : Function) (policy : DuplicatePolicy) :
    EndsAs (return function.addOverload (← Cache.intoOverload policy function.name content.draft))
      (Statement.overload policy function call) := by
  rw [overload_of_inCall said]
  exact (endsAs_parameters said.parameters _ policy).bind fun overload _ => rfl

/-- The calls of a function end as its records do. -/
theorem endsAs_function {contents : List OverloadContent} {calls : List Call}
    (sayAll : List.Forall₂ OverloadContent.InCall contents calls) (name : String)
    (policy : DuplicatePolicy) :
    EndsAs (Cache.buildFunction policy name (contents.map OverloadContent.draft))
      (Statement.function policy name calls) := by
  rw [Cache.buildFunction_eq, List.foldlM_map]
  refine @EndsAs.foldlM _ _ _ _ _ (fun function : Function => function.name = name) _ _
    (sayAll.imp fun content call said function isNamed => ?_) _ rfl
  subst isNamed
  exact ⟨endsAs_overload said function policy, .bind_any fun overload => .ok rfl⟩

/-- Calls end at the one of the first name that comes again. -/
theorem parameters_of_isFirstRepeat {contents : List ParameterContent} {calls : List Call}
    (sayAll : List.Forall₂ ParameterContent.InCall contents calls) {bare : Overload}
    (isBare : bare.parameters = []) {index : Nat} {name : String}
    (first : IsFirstRepeat (contents.map ParameterContent.name) index name) :
    ∃ repeated, calls[index]? = some repeated ∧
      calls.foldlM (Statement.parameter .reject) bare =
        .error ⟨.duplicateParameter ⟨bare.function, name⟩, repeated.span⟩ := by
  obtain ⟨inside, rfl⟩ := List.getElem?_eq_some_iff.mp first.atIndex
  have isCall : index < calls.length := by
    rwa [List.length_map, sayAll.length_eq] at inside
  have again := first.again
  have distinct := first.distinct
  rw [← List.map_take, ← ParameterContent.names_parameters] at again distinct
  rw [List.getElem_map] at again ⊢
  -- the calls in front of it take in their parameters, and the next one is refused
  have before := endsAs_parameters (List.forall₂_take index sayAll) bare .reject
  rw [Overload.addParameters_of_nodup isBare distinct] at before
  have refused := parameter_of_inCall (sayAll.get (by simpa using inside) isCall)
    { bare with parameters := (contents.take index).map ParameterContent.parameter } .reject
  rw [Overload.addParameter_of_taken again] at refused
  refine ⟨calls[index], List.getElem?_eq_getElem isCall, ?_⟩
  have run := @List.foldlM_append _ _ _ _ _ (Statement.parameter .reject) bare
    (calls.take index) (calls[index] :: calls.drop (index + 1))
  have split : calls.take index ++ calls[index] :: calls.drop (index + 1) = calls := by simp
  rw [split] at run
  rw [run, before, Reading.ok_bind, List.foldlM_cons]
  exact congrArg (· >>= _) refused

/-- The error of a script shows the call of the first name that comes again. -/
theorem overload_of_isFirstRepeat {content : OverloadContent} {call : Call}
    (said : content.InCall call) (function : Function) {index : Nat} {name : String}
    (first : IsFirstRepeat content.names index name) :
    ∃ repeated, call.block[index]? = some repeated ∧
      Statement.overload .reject function call =
        .error ⟨.duplicateParameter ⟨function.name, name⟩, repeated.span⟩ := by
  obtain ⟨repeated, isCall, refused⟩ := parameters_of_isFirstRepeat said.parameters
    (show { content.draft with parameters := [], function := function.name }.parameters = [] from
      rfl) first
  refine ⟨repeated, isCall, ?_⟩
  rw [overload_of_inCall said, refused]
  rfl

theorem returned {α : Type} (read : Reading α) :
    Returns (fun value => read = .ok value) read :=
  fun _ isValue => isValue

/-- A call that adds a parameter has a content. -/
theorem exists_inCall_of_parameter (policy : DuplicatePolicy) (overload : Overload) (call : Call) :
    Returns (fun _ => ∃ content : ParameterContent, content.InCall call)
      (Statement.parameter policy overload call) := by
  unfold Statement.parameter
  extract_lets parts
  split
  next isParameter =>
    refine .bind (returned _) fun _ names => .bind (returned _) fun _ leaf => ?_
    rw [Call.describedType, bind_assoc]
    refine .bind (returned _) fun type ofType => ?_
    rw [bind_assoc]
    refine .bind (returned _) fun description ofDescription => .bind (returned _) fun _ _ =>
      .bind (returned _) fun isArray ofArray => ?_
    extract_lets
    refine .bind (returned _) fun name ofName => .bind (returned _) fun default ofDefault => ?_
    exact fun _ _ => ⟨⟨name, type, isArray, default, description⟩, isParameter, names, leaf, ofName,
      ofType, ofArray, ofDefault, ofDescription⟩
  next => exact .error _

theorem exists_inCall_of_foldlM_parameter (policy : DuplicatePolicy) (overload : Overload)
    (calls : List Call) :
    Returns (fun _ => ∃ contents : List ParameterContent,
      List.Forall₂ ParameterContent.InCall contents calls)
      (calls.foldlM (Statement.parameter policy) overload) := by
  induction calls generalizing overload with
  | nil => exact .ok ⟨[], .nil⟩
  | cons call rest ih =>
    rw [List.foldlM_cons]
    refine .bind (exists_inCall_of_parameter policy overload call) fun longer isFirst => ?_
    obtain ⟨content, said⟩ := isFirst
    intro last isLast
    obtain ⟨contents, sayRest⟩ := ih longer last isLast
    exact ⟨content :: contents, .cons said sayRest⟩

/-- A call that adds an overload has a content. -/
theorem exists_inCall_of_overload (policy : DuplicatePolicy) (function : Function) (call : Call) :
    Returns (fun _ => ∃ content : OverloadContent, content.InCall call)
      (Statement.overload policy function call) := by
  unfold Statement.overload
  extract_lets parts
  split
  next isOverload =>
    refine .bind (returned _) fun _ names => .bind (returned _) fun returns ofReturns => ?_
    extract_lets
    refine .bind (returned _) fun returnDescription ofReturnDescription => ?_
    extract_lets
    refine .bind (returned _) fun description ofDescription =>
      .bind (returned _) fun isStatic ofStatic => .bind (returned _) fun isConst ofConst =>
      .bind (returned _) fun isVirtual ofVirtual => .bind (returned _) fun isPureVirtual ofPure =>
      .bind (returned _) fun isProtected ofProtected =>
      .bind (returned _) fun isDeprecated ofDeprecated => ?_
    extract_lets
    refine .bind (exists_inCall_of_foldlM_parameter _ _ _) fun _ ofBlock => ?_
    obtain ⟨contents, sayAll⟩ := ofBlock
    exact fun _ _ => ⟨⟨returns, returnDescription, description,
      ⟨isStatic, isConst, isVirtual, isPureVirtual, isProtected, isDeprecated⟩, contents⟩,
      isOverload, names, sayAll, ofReturns, ofReturnDescription, ofDescription, ofStatic, ofConst,
      ofVirtual, ofPure, ofProtected, ofDeprecated⟩
  next => exact .error _

end Script

/-! ### Both policies in both formats -/

theorem Cache.overloads?_eq_some {contents : List OverloadContent} {records : List Json}
    (sayAll : List.Forall₂ OverloadContent.InRecord contents records) :
    Cache.overloads? (.array records) = some (contents.map OverloadContent.draft) := by
  rw [Cache.overloads?, Json.list?]
  induction sayAll with
  | nil => rfl
  | cons said _ ih =>
    rw [List.mapM_cons, Cache.overload?_eq_some_iff.mpr ⟨_, said, rfl⟩, ih]
    rfl

/-- **The policies differ in nothing but names that come again.** Parameters are refused exactly
when a name comes again, for the first one that does; all others give the same overload, and where
names are ignored each keeps its first parameter. A record and a call of the same content end alike,
and so do the records and the calls of a whole function. -/
theorem policies_agree_but_on_repeats (name : String) (rest : Overload)
    (parameters : List Parameter) :
    let bare : Overload := { rest with parameters := [], function := name }
    ((∃ built, bare.addParameters parameters .reject = .ok built) ↔
      (parameters.map Parameter.name).Nodup) ∧
    (∀ built, bare.addParameters parameters .reject = .ok built →
      bare.addParameters parameters .ignore = .ok built) ∧
    bare.addParameters parameters .ignore = .ok { bare with parameters := firstOfEach parameters } ∧
    (∀ duplicate, bare.addParameters parameters .reject = .error duplicate ↔
      duplicate.function = name ∧
        ∃ index, IsFirstRepeat (parameters.map Parameter.name) index duplicate.parameter) ∧
    (∀ (content : OverloadContent) (record : Json) (call : Script.Call),
      content.InRecord record → content.InCall call →
      ∀ (policy : DuplicatePolicy) (function : Function), function.name = name →
        Cache.overload? record = some content.draft ∧
        (∀ overload, Cache.intoOverload policy name content.draft = .ok overload →
          Script.Statement.overload policy function call =
            .ok (function.addOverload overload)) ∧
        ∀ duplicate, Cache.intoOverload policy name content.draft = .error duplicate →
          ∃ index repeated, IsFirstRepeat content.names index duplicate.parameter ∧
            call.block[index]? = some repeated ∧
            Script.Statement.overload policy function call =
              .error ⟨.duplicateParameter duplicate, repeated.span⟩) ∧
    ∀ (contents : List OverloadContent) (records : List Json) (calls : List Script.Call),
      List.Forall₂ OverloadContent.InRecord contents records →
      List.Forall₂ OverloadContent.InCall contents calls →
      ∀ policy : DuplicatePolicy, ∃ drafts, Cache.overloads? (.array records) = some drafts ∧
        EndsAs (Cache.buildFunction policy name drafts)
          (Script.Statement.function policy name calls) := by
  intro bare
  refine ⟨Overload.addParameters_reject_eq_ok_iff rfl, fun built isBuilt => ?_,
    Overload.addParameters_ignore rfl parameters, Overload.addParameters_reject_eq_error_iff rfl,
    fun content record call inRecord inCall policy function isNamed => ?_,
    fun contents records calls inRecords inCalls policy => ?_⟩
  · have distinct := (Overload.addParameters_reject_eq_ok_iff rfl).mp ⟨built, isBuilt⟩
    rw [Overload.addParameters_of_nodup rfl distinct] at isBuilt ⊢
    exact isBuilt
  · subst isNamed
    have endsAs := Script.endsAs_overload inCall function policy
    refine ⟨Cache.overload?_eq_some_iff.mpr ⟨content, inRecord, rfl⟩, fun overload isBuilt => ?_,
      fun duplicate refused => ?_⟩
    · rw [isBuilt] at endsAs
      exact endsAs
    · cases policy with
      | ignore => cases (Overload.addParameters_ignore rfl _).symm.trans refused
      | reject =>
        obtain ⟨ofFunction, index, first⟩ :=
          (Overload.addParameters_reject_eq_error_iff rfl duplicate).mp refused
        have inContent : IsFirstRepeat content.names index duplicate.parameter := by
          rwa [OverloadContent.draft, ParameterContent.names_parameters] at first
        obtain ⟨repeated, isCall, isRefused⟩ :=
          Script.overload_of_isFirstRepeat inCall function inContent
        refine ⟨index, repeated, inContent, isCall, isRefused.trans ?_⟩
        rw [← show duplicate.function = function.name from ofFunction]
  · exact ⟨_, Cache.overloads?_eq_some inRecords, Script.endsAs_function inCalls name policy⟩

/-- An overload that declares its width twice. -/
def areaContent : OverloadContent where
  returns := "int"
  returnDescription := ""
  description := ""
  flags := { isConst := true }
  parameters := [⟨"width", "int", false, "", ""⟩, ⟨"width", "float", true, "1", "in feet"⟩]

/-- The record of the overload. -/
def areaRecord : Json :=
  Json.record [("return_type", Json.text "int"), ("constant", .bool true),
    ("parameters", .array [Json.record [("name", Json.text "width"), ("type", Json.text "int")],
      Json.record [("description", Json.text "in feet"), ("name", Json.text "width"),
        ("type", Json.text "float"), ("is_array", .bool true), ("value", Json.text "1")]])]

/-- The call of the overload, whose second width stands from position 52 to 138. -/
def areaCall : Script.Call :=
  let named := fun (name : String) (value : Script.Value) => Script.Argument.mk name value default
  .mk "overload" default [named "return" (.text "int"), named "const" (.truth true)]
    (some [
      .mk "parameter" default [⟨none, .text "width", default⟩, named "type" (.text "int")] none
        default,
      .mk "parameter" default [⟨none, .text "width", default⟩, named "type" (.text "float"),
        named "value" (.text "1"), named "array" (.truth true),
        named "description" (.text "in feet")] none ⟨52, 138⟩])
    default

theorem inRecord_area : areaContent.InRecord areaRecord :=
  .mk _ _ rfl rfl
    (.cons (.mk _ rfl rfl rfl rfl rfl rfl) (.cons (.mk _ rfl rfl rfl rfl rfl rfl) .nil))
    rfl rfl rfl rfl rfl rfl rfl rfl rfl

theorem inCall_area : areaContent.InCall areaCall :=
  { isOverload := rfl, names := rfl, returns := rfl, returnDescription := rfl, description := rfl
    isStatic := rfl, isConst := rfl, isVirtual := rfl, isPureVirtual := rfl, isProtected := rfl
    isDeprecated := rfl
    parameters := .cons ⟨rfl, rfl, rfl, rfl, rfl, rfl, rfl, rfl⟩
      (.cons ⟨rfl, rfl, rfl, rfl, rfl, rfl, rfl, rfl⟩ .nil) }

/-- A width that is declared twice is refused in both formats and dropped in both. -/
theorem second_width_is_refused :
    Cache.intoOverload .reject "area" areaContent.draft = .error ⟨"area", "width"⟩ ∧
      Script.Statement.overload .reject { name := "area" } areaCall =
        .error ⟨.duplicateParameter ⟨"area", "width"⟩, ⟨52, 138⟩⟩ := by
  obtain ⟨-, -, -, refuses, formats, -⟩ := policies_agree_but_on_repeats "area" areaContent.draft
    areaContent.draft.parameters
  have refused : Cache.intoOverload .reject "area" areaContent.draft =
      .error ⟨"area", "width"⟩ :=
    (refuses _).mpr ⟨rfl, 1, ⟨rfl, List.mem_singleton_self _, List.nodup_singleton _⟩⟩
  obtain ⟨-, -, sameError⟩ := formats areaContent areaRecord areaCall inRecord_area inCall_area
    .reject { name := "area" } rfl
  obtain ⟨index, repeated, first, isCall, isError⟩ := sameError _ refused
  refine ⟨refused, isError.trans ?_⟩
  match index with
  | 0 => cases first.again
  | 1 =>
    obtain rfl := Option.some.inj isCall
    rfl
  | index + 2 => cases first.atIndex

end Bindery
