/-
**Which scripts are read.**

The table of a script is built exactly if every call, at any depth, is sound in its place. If not,
the error tells of the first call in the order of the text that is not.

A reader asks for one thing at a time and stops at the first thing that is missing, so what is
known of a call grows from reader to reader. The block of a call is read last, when nothing of the
call itself is left to ask for; that is why a call comes before the calls of its block.

* `Visit.ends_text` and the like — what each reader finds out about the call, or what it refuses.
* `Statement.admits_edit` — a call at top level with all calls inside it.
* `buildTable_admits` — a script.
-/

import Bindery.Proofs.Returns
import Bindery.Proofs.Script.MovedCalls
import Bindery.Proofs.Script.Schema

namespace Bindery.Script

open Symbols

/-! ### Readers of one call -/

/-- The text of an argument, or the error that it is none. -/
theorem Call.ends_textOf (what : String) (argument : Argument) :
    Ends (fun text => argument.value = .text text)
      (fun error => Kind.of argument.value ≠ .text ∧
        error = ⟨.wrongKind what Kind.text.word (Kind.of argument.value).word, argument.span⟩)
      (Call.textOf what argument) := by
  obtain ⟨name, value, span⟩ := argument
  cases value with
  | text text => exact rfl
  | truth value => exact ⟨nofun, rfl⟩
  | list items => exact ⟨nofun, rfl⟩

/-- The kind of a named argument is the kind of the first one of the name. -/
theorem Call.hasKind_of_named? {call : Call} {name : String} {kind : Kind} {argument : Argument}
    (found : call.named? name = some argument) (isKind : Kind.of argument.value = kind) :
    call.HasKind name kind := fun other isOther => by
  obtain rfl := Option.some.inj (found.symm.trans isOther)
  exact isKind

theorem Call.hasKind_of_missing {call : Call} {name : String} (kind : Kind)
    (missing : call.named? name = none) : call.HasKind name kind := fun other isOther =>
  absurd isOther (by rw [missing]; nofun)

namespace Visit

variable {policy : DuplicatePolicy} {visit : Visit} {schema : Schema}

theorem ends_checkNames (isSchema : visit.schema? = some schema) :
    Ends (fun _ => ∀ argument ∈ visit.call.arguments, ∀ name ∈ argument.name, name ∈ schema.names)
      (visit.Violates policy) (visit.call.checkNames schema.names) := by
  rw [Call.checkNames_eq_find?]
  split
  next argument found =>
    have isUnknown := List.find?_some found
    unfold Call.isUnknown at isUnknown
    split at isUnknown
    next name isName =>
      rw [Ends, isName]
      exact .argument isSchema (List.mem_of_find?_eq_some found) isName (by simpa using isUnknown)
    next => cases isUnknown
  next none =>
    intro argument isArgument name isName
    have isKnown := List.find?_eq_none.mp none argument isArgument
    simpa [Call.isUnknown, Option.mem_def.mp isName] using isKnown

theorem ends_checkLeaf (isSchema : visit.schema? = some schema) (isLeaf : schema.block = none) :
    Ends (fun _ => visit.call.body = none) (visit.Violates policy) visit.call.checkLeaf := by
  unfold Call.checkLeaf
  split
  next block isBlock => exact .block isSchema isLeaf (by rw [isBlock]; nofun)
  next none => exact none

theorem ends_unnamed (isSchema : visit.schema? = some schema) {index : Nat} {what : String}
    (isAsked : schema.unnamed[index]? = some what) :
    Ends (fun text => visit.call.unnamedText? index = some text) (visit.Violates policy)
      (visit.call.unnamed index what) := by
  unfold Call.unnamed
  split
  next argument found =>
    refine (Call.ends_textOf what argument).imp (fun text => Call.unnamedText?_eq_some found) ?_
    rintro _ ⟨isOther, rfl⟩
    exact .unnamed isSchema isAsked found isOther
  next missing => exact .missing isSchema isAsked missing

theorem ends_text (isSchema : visit.schema? = some schema) {name : String}
    (isAsked : (name, Kind.text) ∈ schema.named) :
    Ends (fun _ => visit.call.HasKind name .text) (visit.Violates policy)
      (visit.call.text name) := by
  unfold Call.text
  split
  next argument found =>
    refine (Call.ends_textOf name argument).imp (fun text isText => ?_) ?_
    · exact Call.hasKind_of_named? found (by rw [isText]; rfl)
    · rintro _ ⟨isOther, rfl⟩
      exact .named isSchema isAsked found isOther
  next missing => exact Call.hasKind_of_missing .text missing

theorem ends_truth (isSchema : visit.schema? = some schema) {name : String}
    (isAsked : (name, Kind.truth) ∈ schema.named) (missing : Bool) :
    Ends (fun _ => visit.call.HasKind name .truth) (visit.Violates policy)
      (visit.call.truth name missing) := by
  unfold Call.truth
  split
  next missing => exact Call.hasKind_of_missing .truth missing
  next argument found =>
    split
    next value isTruth => exact Call.hasKind_of_named? found (by rw [isTruth]; rfl)
    next value isOther =>
      rw [Ends, ← Kind.word_of]
      refine .named isSchema isAsked found fun isKind => ?_
      cases isValue : argument.value with
      | truth other => exact isOther other isValue
      | text | list => rw [isValue] at isKind; cases isKind

theorem ends_list (isSchema : visit.schema? = some schema) {name : String}
    (isAsked : (name, Kind.list) ∈ schema.named) :
    Ends (fun _ => visit.call.HasKind name .list) (visit.Violates policy)
      (visit.call.list name) := by
  unfold Call.list
  split
  next missing => exact Call.hasKind_of_missing .list missing
  next argument found =>
    split
    next items isList => exact Call.hasKind_of_named? found (by rw [isList]; rfl)
    next value isOther =>
      rw [Ends, ← Kind.word_of]
      refine .named isSchema isAsked found fun isKind => ?_
      cases isValue : argument.value with
      | list other => exact isOther other isValue
      | text | truth => rw [isValue] at isKind; cases isKind

theorem ends_describedType (isSchema : visit.schema? = some schema)
    (type : ("type", Kind.text) ∈ schema.named)
    (description : ("description", Kind.text) ∈ schema.named) :
    Ends (fun _ => visit.call.HasKind "type" .text ∧ visit.call.HasKind "description" .text)
      (visit.Violates policy) visit.call.describedType :=
  .bind (ends_text isSchema type) fun _ isType =>
    .bind (ends_text isSchema description) fun _ isDescription => ⟨isType, isDescription⟩

end Visit

/-! ### Calls in order -/

variable {policy : DuplicatePolicy} {α β σ : Type}

/-- The error tells of the first of the calls that is not sound. -/
def TellsOfFirst (policy : DuplicatePolicy) (visits : List Visit) (error : StatementError) : Prop :=
  ∃ before visit after, visits = before ++ visit :: after ∧
    (∀ other ∈ before, other.IsSound policy) ∧ visit.Violates policy error

/-- A reading of calls ends well exactly if all of them are sound. -/
def Admits (policy : DuplicatePolicy) (visits : List Visit) (reading : Reading α) : Prop :=
  Ends (fun _ => ∀ visit ∈ visits, visit.IsSound policy) (TellsOfFirst policy visits) reading

namespace Admits

variable {visit : Visit} {first second : List Visit}

/-- The call in front is refused. -/
theorem refuse {error : StatementError} (violates : visit.Violates policy error) :
    Admits policy (visit :: second) (.error error : Reading α) :=
  ⟨[], visit, second, rfl, by simp, violates⟩

/-- Of the call in front one more thing is read. -/
theorem check {known : α → Prop} {reading : Reading α} {next : α → Reading β}
    (ends : Ends known (visit.Violates policy) reading)
    (admits : ∀ value, known value → Admits policy (visit :: second) (next value)) :
    Admits policy (visit :: second) (reading >>= next) :=
  .bind (ends.imp (fun _ => id) fun _ => refuse (α := α)) admits

/-- Of the call in front nothing more is to be read. -/
theorem cons {reading : Reading α} (isSound : visit.IsSound policy)
    (admits : Admits policy second reading) : Admits policy (visit :: second) reading := by
  refine admits.imp (fun _ areSound => List.forall_mem_cons.mpr ⟨isSound, areSound⟩) ?_
  rintro error ⟨before, other, after, rfl, areSound, violates⟩
  exact ⟨visit :: before, other, after, rfl, List.forall_mem_cons.mpr ⟨isSound, areSound⟩, violates⟩

theorem append {reading : Reading α} {next : α → Reading β} (ofFirst : Admits policy first reading)
    (ofNext : ∀ value, reading = .ok value → Admits policy second (next value)) :
    Admits policy (first ++ second) (reading >>= next) := by
  cases reading with
  | error error =>
    obtain ⟨before, other, after, rfl, areSound, violates⟩ := ofFirst
    exact ⟨before, other, after ++ second, by simp, areSound, violates⟩
  | ok value =>
    refine (ofNext value rfl).imp
      (fun _ areSound => List.forall_mem_append.mpr ⟨ofFirst, areSound⟩) ?_
    rintro error ⟨before, other, after, rfl, areSound, violates⟩
    exact ⟨first ++ before, other, after, by simp,
      List.forall_mem_append.mpr ⟨ofFirst, areSound⟩, violates⟩

theorem map {reading : Reading α} (admits : Admits policy first reading) (change : α → β) :
    Admits policy first (reading >>= fun value => pure (change value)) := by
  cases reading with
  | error error => exact admits
  | ok value => exact admits

/-- A call that turns out to have no block. -/
theorem leaf (known : α → Prop) {reading : Reading α}
    (ends : Ends (fun value => known value ∧ visit.call.body = none ∧ visit.IsSound policy)
      (visit.Violates policy) reading) :
    Admits policy visit.all reading := by
  cases reading with
  | error error => exact ⟨[], visit, _, rfl, by simp, ends⟩
  | ok value =>
    obtain ⟨-, isLeaf, isSound⟩ := ends
    rw [Visit.all_of_body isLeaf]
    exact List.forall_mem_singleton.mpr isSound

theorem leaf_of_fits {schema : Schema} {reading : Reading α}
    (isSchema : visit.schema? = some schema) (isLeaf : schema.block = none)
    (standsElsewhere : visit.context ≠ some .overload)
    (ends : Ends (fun _ => schema.Fits visit.call) (visit.Violates policy) reading) :
    Admits policy visit.all reading :=
  leaf (fun _ => True) (ends.imp (fun _ fits =>
    ⟨trivial, fits.block isLeaf, .of_fits isSchema fits standsElsewhere⟩) fun _ => id)

/-- The calls of a block, where each step knows what the steps before it have left. -/
theorem foldlM {context : Option Context} (agrees : σ → List Call → Prop)
    {step : σ → Call → Reading σ}
    (each : ∀ state (visit : Visit), visit.context = context → agrees state visit.earlier →
      Admits policy visit.all (step state visit.call) ∧
        Returns (agrees · (visit.earlier ++ [visit.call])) (step state visit.call))
    {state : σ} {earlier : List Call} (isStart : agrees state earlier) (calls : List Call) :
    Admits policy (visitsBehind context earlier calls) (calls.foldlM step state) := by
  induction calls generalizing state earlier with
  | nil =>
    rw [visitsBehind]
    exact fun _ isNone => absurd isNone List.not_mem_nil
  | cons call rest ih =>
    obtain ⟨admits, kept⟩ := each state ⟨context, earlier, call⟩ rfl isStart
    rw [visitsBehind, List.foldlM_cons, Call.visits_eq_all]
    exact append admits fun next isNext => ih (kept next isNext)

/-- The same where the steps know of nothing. -/
theorem foldlM_any {context : Option Context} {step : σ → Call → Reading σ}
    (each : ∀ state (visit : Visit), visit.context = context →
      Admits policy visit.all (step state visit.call))
    (state : σ) (calls : List Call) :
    Admits policy (visitsBehind context [] calls) (calls.foldlM step state) :=
  foldlM (fun _ _ => True) (fun state visit stands _ =>
    ⟨each state visit stands, fun _ _ => trivial⟩) trivial calls

theorem mapM {context : Option Context} {step : Call → Reading α}
    (each : ∀ visit : Visit, visit.context = context → Admits policy visit.all (step visit.call))
    (earlier calls : List Call) :
    Admits policy (visitsBehind context earlier calls) (calls.mapM step) := by
  induction calls generalizing earlier with
  | nil =>
    rw [visitsBehind]
    exact fun _ isNone => absurd isNone List.not_mem_nil
  | cons call rest ih =>
    rw [visitsBehind, List.mapM_cons, Call.visits_eq_all]
    exact append (each ⟨context, earlier, call⟩ rfl) fun value _ => (ih _).map _

end Admits

/-! ### Parameters -/

/-- The parameters of an overload bear the names that the calls in its block give. -/
def Declares (overload : Overload) (calls : List Call) : Prop :=
  ∀ name, overload.hasParameter name ↔ ∃ call ∈ calls, call.parameterName? = some name

theorem declares_of_no_parameters {overload : Overload} (isBare : overload.parameters = []) :
    Declares overload [] := fun name => by
  simp [Overload.hasParameter, isBare]

/-- Behind a parameter its name is taken, be it added or dropped; it is refused only where its name
was taken before. -/
theorem ends_addParameter (policy : DuplicatePolicy) (overload : Overload) (parameter : Parameter) :
    Ends
      (fun (longer, _) =>
        (∀ name, longer.hasParameter name ↔ overload.hasParameter name ∨ parameter.name = name) ∧
          (policy = .reject → ¬ overload.hasParameter parameter.name))
      (fun duplicate => policy = .reject ∧ overload.hasParameter parameter.name ∧
        duplicate = ⟨overload.function, parameter.name⟩)
      (overload.addParameter parameter policy) := by
  unfold Overload.addParameter
  split
  next isTaken =>
    cases policy with
    | reject => exact ⟨rfl, isTaken, rfl⟩
    | ignore =>
      refine ⟨fun name => ⟨.inl, ?_⟩, nofun⟩
      rintro (has | rfl)
      exacts [has, isTaken]
  next isNew => exact ⟨fun name => by simp [Overload.hasParameter], fun _ => isNew⟩

theorem declares_append {overload longer : Overload} {earlier : List Call} {call : Call}
    {name : String} (declares : Declares overload earlier)
    (isName : call.parameterName? = some name)
    (grows : ∀ other, longer.hasParameter other ↔ overload.hasParameter other ∨ name = other) :
    Declares longer (earlier ++ [call]) := fun other => by
  simp [grows, declares other, isName, or_and_right, exists_or]

namespace Statement

/-- A call in the block of an overload. Its block is asked for before its parameter is added, so
all that it leaves is the parameter. -/
theorem ends_parameter (policy : DuplicatePolicy) {visit : Visit} {overload : Overload}
    (stands : visit.context = some .overload) (declares : Declares overload visit.earlier) :
    Ends
      (fun longer => Declares longer (visit.earlier ++ [visit.call]) ∧ visit.call.body = none ∧
        visit.IsSound policy)
      (visit.Violates policy) (parameter policy overload visit.call) := by
  unfold parameter
  -- Everything behind the check of the name is one continuation.
  extract_lets parts
  split
  next isParameter =>
    have isSchema : visit.schema? = some .parameter := by
      rw [Visit.schema?_of_context stands, schema?_overload, if_pos isParameter]
    refine .bind (Visit.ends_checkNames isSchema) fun _ names =>
      .bind (Visit.ends_checkLeaf isSchema rfl) fun _ isLeaf =>
      .bind (Visit.ends_describedType isSchema (by decide) (by decide)) fun read isType =>
      .bind (Visit.ends_truth isSchema (by decide) false) fun isArray array => ?_
    extract_lets type
    refine .bind (Visit.ends_unnamed isSchema rfl) fun name isName =>
      .bind (Visit.ends_text isSchema (by decide)) fun default value => ?_
    have fits : Schema.parameter.Fits visit.call :=
      { names
        kinds := by simp [Schema.parameter, isType, array, value]
        unnamed := by simp [Schema.parameter, isName]
        block := fun _ => isLeaf }
    have added := ends_addParameter policy overload { name, type, default }
    split
    next longer isNew isAdded =>
      rw [isAdded] at added
      obtain ⟨grows, isFresh⟩ := added
      refine ⟨declares_append declares isName grows, isLeaf, ⟨_, isSchema, fits⟩, ?_⟩
      intro rejects _ given isGiven other isEarlier isTaken
      obtain rfl := Option.some.inj (isName.symm.trans isGiven)
      exact isFresh rejects ((declares name).mpr ⟨other, isEarlier, isTaken⟩)
    next duplicate isRefused =>
      rw [isRefused] at added
      obtain ⟨rejects, has, rfl⟩ := added
      obtain ⟨other, isEarlier, isTaken⟩ := (declares name).mp has
      exact .parameter rejects stands isName isEarlier isTaken _
  next isOther =>
    refine .statement stands ?_
    rw [Visit.schema?_of_context stands, schema?_overload, if_neg isOther]

/-- A call in the block of a function, with the parameters inside it. What the parameters in front
of one were called is known from the overload they were added to. -/
theorem admits_overload (function : Function) (visit : Visit)
    (stands : visit.context = some .function) :
    Admits policy visit.all (overload policy function visit.call) := by
  unfold overload
  extract_lets parts
  split
  next isOverload =>
    have isSchema : visit.schema? = some .overload := by
      rw [Visit.schema?_of_context stands, schema?_function, if_pos isOverload]
    refine .check (Visit.ends_checkNames isSchema) fun _ names =>
      .check (Visit.ends_text isSchema (by decide)) fun returned returns => ?_
    extract_lets type
    refine .check (Visit.ends_text isSchema (by decide)) fun _ isDescribed => ?_
    extract_lets described
    refine .check (Visit.ends_text isSchema (by decide)) fun description isDescription =>
      .check (Visit.ends_truth isSchema (by decide) false) fun _ isStatic =>
      .check (Visit.ends_truth isSchema (by decide) false) fun _ isConst =>
      .check (Visit.ends_truth isSchema (by decide) false) fun _ isVirtual =>
      .check (Visit.ends_truth isSchema (by decide) false) fun _ isPure =>
      .check (Visit.ends_truth isSchema (by decide) false) fun _ isProtected =>
      .check (Visit.ends_truth isSchema (by decide) false) fun _ isDeprecated => ?_
    extract_lets flags fresh
    have fits : Schema.overload.Fits visit.call :=
      { names
        kinds := by
          simp [Schema.overload, returns, isDescribed, isDescription, isStatic, isConst,
            isVirtual, isPure, isProtected, isDeprecated]
        unnamed := by simp [Schema.overload]
        block := nofun }
    have isSound : visit.IsSound policy :=
      .of_fits isSchema fits (Visit.context_ne_of_context stands (by decide))
    rw [Visit.blockContext_of_schema? isSchema]
    refine .cons isSound (.map (.foldlM Declares ?_ (declares_of_no_parameters rfl) _) _)
    intro overload inner standsInside declares
    have ends := ends_parameter policy standsInside declares
    exact ⟨.leaf _ ends, fun longer isLonger => (ends.returns longer isLonger).1⟩
  next isOther =>
    refine .refuse (.statement stands ?_)
    rw [Visit.schema?_of_context stands, schema?_function, if_neg isOther]

theorem admits_function (name : String) (block : List Call) :
    Admits policy (visitsBehind (some .function) [] block) (function policy name block) :=
  .foldlM_any admits_overload _ block

/-! ### Classes -/

theorem ends_enumeration {visit : Visit} {schema : Schema} (isSchema : visit.schema? = some schema)
    (options : ("options", Kind.list) ∈ schema.named)
    (description : ("description", Kind.text) ∈ schema.named) (name : String) :
    Ends
      (fun _ => visit.call.HasKind "options" .list ∧ visit.call.HasKind "description" .text)
      (visit.Violates policy) (enumeration name visit.call) :=
  .bind (Visit.ends_list isSchema options) fun _ areOptions =>
    .bind (Visit.ends_text isSchema description) fun _ isDescription =>
      ⟨areOptions, isDescription⟩

theorem ends_classVariable {visit : Visit} (isSchema : visit.schema? = some .classVariable) :
    Ends (fun _ => Schema.classVariable.Fits visit.call) (visit.Violates policy)
      (classVariable visit.call) := by
  unfold classVariable
  refine .bind (Visit.ends_checkNames isSchema) fun _ names =>
    .bind (Visit.ends_checkLeaf isSchema rfl) fun _ isLeaf =>
    .bind (Visit.ends_unnamed isSchema rfl) fun name isName =>
    .bind (Visit.ends_describedType isSchema (by decide) (by decide)) fun type isType =>
    .bind (Visit.ends_truth isSchema (by decide) false) fun _ isStatic =>
    .bind (Visit.ends_truth isSchema (by decide) false) fun _ isMutable =>
    .bind (Visit.ends_truth isSchema (by decide) false) fun _ isProtected =>
    .bind (Visit.ends_truth isSchema (by decide) false) fun _ isPublic => ?_
  exact {
    names
    kinds := by simp [Schema.classVariable, isType, isStatic, isMutable, isProtected, isPublic]
    unnamed := by simp [Schema.classVariable, isName]
    block := fun _ => isLeaf }

/-- A call in the block of a class. -/
theorem admits_member (self : Symbols.Class) (visit : Visit)
    (stands : visit.context = some .classBody) :
    Admits policy visit.all (member policy self visit.call) := by
  have standsElsewhere := Visit.context_ne_of_context stands (by decide : _ ≠ .overload)
  unfold member
  split
  next isVariable =>
    have isSchema : visit.schema? = some .classVariable :=
      Visit.schema?_of_name stands isVariable
    exact .map (.leaf_of_fits isSchema rfl standsElsewhere (ends_classVariable isSchema)) _
  next isEnumeration =>
    have isSchema : visit.schema? = some (.enumeration ["name"]) :=
      Visit.schema?_of_name stands isEnumeration
    refine .leaf_of_fits isSchema rfl standsElsewhere ?_
    refine .bind (Visit.ends_checkNames isSchema) fun _ names =>
      .bind (Visit.ends_checkLeaf isSchema rfl) fun _ isLeaf =>
      .bind (Visit.ends_unnamed isSchema rfl) fun name isName =>
      .bind (ends_enumeration isSchema (by decide) (by decide) name) fun _ kinds => ?_
    exact {
      names
      kinds := by simp [Schema.enumeration, kinds]
      unnamed := by simp [Schema.enumeration, isName]
      block := fun _ => isLeaf }
  next isMethod =>
    have isSchema : visit.schema? = some (.function ["name"]) :=
      Visit.schema?_of_name stands isMethod
    refine .check (Visit.ends_checkNames isSchema) fun _ names =>
      .check (Visit.ends_unnamed isSchema rfl) fun name isName => ?_
    have fits : (Schema.function ["name"]).Fits visit.call :=
      { names
        kinds := fun _ isNone => absurd isNone List.not_mem_nil
        unnamed := by simp [Schema.function, isName]
        block := nofun }
    rw [Visit.blockContext_of_schema? isSchema]
    exact .cons (.of_fits isSchema fits standsElsewhere) (.map (admits_function _ _) _)
  next noVariable noEnumeration noMethod =>
    refine .refuse (.statement stands ?_)
    rw [Visit.schema?_of_context stands]
    exact schema?_classBody_eq_none noVariable noEnumeration noMethod

/-- The rest of what is read of a class, with the members inside it. -/
theorem admits_classDefinition {visit : Visit} (isSchema : visit.schema? = some .classDefinition)
    (standsElsewhere : visit.context ≠ some .overload)
    (fits : (∀ expected ∈ Schema.classDefinition.named, visit.call.HasKind expected.1 expected.2) →
      Schema.classDefinition.Fits visit.call) (name : String) :
    Admits policy visit.all (classDefinition policy name visit.call) := by
  unfold classDefinition
  refine .check (Visit.ends_text isSchema (by decide)) fun description isDescription =>
    .check (Visit.ends_truth isSchema (by decide) false) fun _ isStruct =>
    .check (Visit.ends_truth isSchema (by decide) false) fun _ isForward =>
    .check (Visit.ends_list isSchema (by decide)) fun generics areGenerics =>
    .check (Visit.ends_list isSchema (by decide)) fun parents areParents => ?_
  extract_lets plain bare
  have kinds := fits (by
    simp [Schema.classDefinition, isDescription, isStruct, isForward, areGenerics, areParents])
  rw [Visit.blockContext_of_schema? isSchema]
  exact .cons (.of_fits isSchema kinds standsElsewhere) (.foldlM_any admits_member _ _)

/-! ### Calls at top level -/

/-- The rest of what is read of a call that puts an element into a scope. -/
theorem admits_element {visit : Visit} {schema : Schema} (stands : visit.context = some .topLevel)
    (isOther : visit.call.name ≠ "include") (isSchema : visit.schema? = some schema)
    (fits : (∀ expected ∈ schema.named, visit.call.HasKind expected.1 expected.2) →
      schema.Fits visit.call) (name : String) :
    Admits policy visit.all (element policy visit.call name) := by
  have standsElsewhere := Visit.context_ne_of_context stands (by decide : _ ≠ .overload)
  have isOnly : ∀ {called : String} {other : Schema}, visit.call.name = called →
      schema? .topLevel called = some other → other = schema := fun isCalled isOther =>
    Option.some.inj <|
      isOther.symm.trans ((Visit.schema?_of_name stands isCalled).symm.trans isSchema)
  unfold element
  split
  next isConstant =>
    obtain rfl := isOnly isConstant rfl
    exact .leaf_of_fits isSchema rfl standsElsewhere <|
      .bind (Visit.ends_text isSchema (by decide)) fun _ value =>
      .bind (Visit.ends_text isSchema (by decide)) fun _ description =>
      fits (by simp [Schema.constant, value, description])
  next isEnumeration =>
    obtain rfl := isOnly isEnumeration rfl
    exact .leaf_of_fits isSchema rfl standsElsewhere <|
      .bind (ends_enumeration isSchema (by decide) (by decide) name) fun _ kinds =>
      fits (by simp [Schema.enumeration, kinds])
  next isAlias =>
    obtain rfl := isOnly isAlias rfl
    exact .leaf_of_fits isSchema rfl standsElsewhere <|
      .bind (Visit.ends_describedType isSchema (by decide) (by decide)) fun _ kinds =>
      fits (by simp [Schema.typedName, kinds])
  next isVariable =>
    obtain rfl := isOnly isVariable rfl
    exact .leaf_of_fits isSchema rfl standsElsewhere <|
      .bind (Visit.ends_describedType isSchema (by decide) (by decide)) fun _ kinds =>
      fits (by simp [Schema.typedName, kinds])
  next isFunction =>
    obtain rfl := isOnly isFunction rfl
    rw [Visit.all, Visit.blockContext_of_schema? isSchema]
    have isFit := fits fun _ isNone => absurd isNone List.not_mem_nil
    exact .cons (.of_fits isSchema isFit standsElsewhere) (.map (admits_function _ _) _)
  next noConstant noEnumeration noAlias noVariable noFunction =>
    -- No other statement is left that has a schema.
    have isClass : visit.call.name = "class" := by
      rw [Visit.schema?_of_context stands] at isSchema
      unfold schema? at isSchema
      split at isSchema <;> simp_all
    obtain rfl := isOnly isClass rfl
    exact .map (admits_classDefinition isSchema standsElsewhere fits name) _

/-- A call at top level, with all calls inside it. -/
theorem admits_edit (visit : Visit) (stands : visit.context = some .topLevel) :
    Admits policy visit.all (edit policy visit.call) := by
  unfold edit
  split
  next isInclude =>
    have isSchema : visit.schema? = some .inclusion :=
      Visit.schema?_of_name stands isInclude
    refine .leaf_of_fits isSchema rfl (Visit.context_ne_of_context stands (by decide)) ?_
    refine .bind (Visit.ends_checkNames isSchema) fun _ names =>
      .bind (Visit.ends_checkLeaf isSchema rfl) fun _ isLeaf =>
      .bind (Visit.ends_unnamed isSchema rfl) fun header isHeader =>
      .bind (Visit.ends_truth isSchema (by decide) true) fun _ isEnabled => ?_
    exact {
      names
      kinds := by simp [Schema.inclusion, isEnabled]
      unnamed := by simp [Schema.inclusion, isHeader]
      block := fun _ => isLeaf }
  next isOther =>
    rw [elementForm?_eq isOther, ← Visit.schema?_of_context stands]
    cases isSchema : visit.schema? with
    | none => exact .refuse (.statement stands isSchema)
    | some schema =>
      have place : schema.unnamed = placeOfElement :=
        unnamed_of_schema?_topLevel isOther ((Visit.schema?_of_context stands).symm.trans isSchema)
      have first : schema.unnamed[0]? = some "header" := by rw [place]; rfl
      have second : schema.unnamed[1]? = some "namespace" := by rw [place]; rfl
      have third : schema.unnamed[2]? = some "name" := by rw [place]; rfl
      refine .check (Visit.ends_checkNames isSchema) fun _ names => ?_
      -- What is read behind the check of the block is the same with and without that check.
      extract_lets rest
      have ofRest : ∀ checked, (schema.block = none → visit.call.body = none) →
          Admits policy visit.all (rest checked) := by
        intro checked isLeaf
        refine .check (Visit.ends_unnamed isSchema first) fun header isHeader =>
          .check (Visit.ends_unnamed isSchema second) fun scope isScope =>
          .check (Visit.ends_unnamed isSchema third) fun name isName => ?_
        refine .map (admits_element stands isOther isSchema (fun kinds => ?_) name) _
        exact {
          names, kinds
          unnamed := fun index inside => by
            have isThird : index < 3 := by rwa [place] at inside
            obtain rfl | rfl | rfl : index = 0 ∨ index = 1 ∨ index = 2 := by omega
            exacts [⟨_, isHeader⟩, ⟨_, isScope⟩, ⟨_, isName⟩]
          block := isLeaf }
      split
      next mayHaveBlock => exact ofRest () fun noBlock => by simp [noBlock] at mayHaveBlock
      next noBlock =>
        exact .check (Visit.ends_checkLeaf isSchema (by simpa using noBlock)) fun _ isLeaf =>
          ofRest () fun _ => isLeaf

end Statement

/-- **A table is built exactly if every call is sound.** Each call of the script, at top level and
in every block, may stand where it stands and fits the schema of its statement, and no overload
gets a parameter twice where that is refused. If not, the error tells of the first call that is not
sound, in the order of the text, and shows the call, its name or one of its arguments. -/
theorem buildTable_admits (policy : DuplicatePolicy) (calls : List Call) :
    ((∃ table, buildTable policy calls = .ok table) ↔
        ∀ visit ∈ visits calls, visit.IsSound policy) ∧
      ∀ error, buildTable policy calls = .error error →
        ∃ before visit after, visits calls = before ++ visit :: after ∧
          (∀ earlier ∈ before, earlier.IsSound policy) ∧ ¬ visit.IsSound policy ∧
          visit.Violates policy error ∧ error.span ∈ visit.call.places := by
  have admits : Admits policy (visits calls) (buildTable policy calls) :=
    .map (.mapM Statement.admits_edit [] calls) _
  cases isBuilt : buildTable policy calls with
  | ok table =>
    rw [isBuilt] at admits
    exact ⟨⟨fun _ => admits, fun _ => ⟨table, rfl⟩⟩, nofun⟩
  | error error =>
    rw [isBuilt] at admits
    obtain ⟨before, visit, after, isAll, areSound, violates⟩ := admits
    refine ⟨⟨nofun, fun allSound => ?_⟩, ?_⟩
    · exact absurd (allSound visit (by simp [isAll])) violates.not_isSound
    · rintro _ ⟨⟩
      exact ⟨before, visit, after, isAll, areSound, violates.not_isSound, violates,
        violates.span_mem_places⟩

end Bindery.Script
