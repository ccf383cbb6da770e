/-
**What a member of the documentation is read as.**

* `overloadOf_eq_ok` — an overload that is read was built, for a function of the name.
* `overloadOf_eq_error` — one that is left out has a parameter without a name or a name twice.
* `Finding.IsElement` — a warning, or an element other than a function that may go into a scope; all
  contributions but overloads are of this kind.
-/

import Bindery.Proofs.Symbols.Overloads
import Bindery.Reference.Extract

namespace Bindery.Reference

open Symbols Xml

/-! ### Parameters -/

theorem type_of_parameter? {descriptions : OrderedMap String} {element : Xml.Element}
    {parameter : Parameter} (found : parameter? descriptions element = some parameter) :
    parameter.type.IsReadParameter := by
  unfold parameter? at found
  extract_lets name type description at found
  split at found
  · cases found
  · obtain rfl := Option.some.inj found
    exact ⟨_, ⟨_, _, rfl⟩, .inl rfl⟩

theorem types_of_parametersFrom {descriptions : OrderedMap String} {position : Nat}
    {elements : List Xml.Element} {found : List Parameter}
    (succeeds : parametersFrom descriptions position elements = .ok found) :
    ∀ parameter ∈ found, parameter.type.IsReadParameter := by
  induction elements generalizing position found with
  | nil =>
    obtain rfl := Except.ok.inj succeeds
    simp
  | cons element rest ih =>
    unfold parametersFrom at succeeds
    split at succeeds
    next => cases succeeds
    next parameter isParameter =>
      cases ofRest : parametersFrom descriptions (position + 1) rest with
      | error other =>
        rw [ofRest] at succeeds
        cases succeeds
      | ok others =>
        rw [ofRest] at succeeds
        obtain rfl := Except.ok.inj succeeds
        exact List.forall_mem_cons.mpr ⟨type_of_parameter? isParameter, ih ofRest⟩

/-- The types of parameters are read from their texts. -/
theorem types_of_parameters {member : Xml.Element} {descriptions : OrderedMap String}
    {found : List Parameter} (succeeds : parameters member descriptions = .ok found) :
    ∀ parameter ∈ found, parameter.type.IsReadParameter := by
  unfold parameters at succeeds
  split at succeeds
  · split at succeeds
    · obtain rfl := Except.ok.inj succeeds
      simp
    · exact types_of_parametersFrom succeeds
  · exact types_of_parametersFrom succeeds

/-! ### Overloads -/

section Overloads

variable {options : Options} {member : Xml.Element} {name header : String} {isMethod : Bool}

/-- An overload that is read was built for a function of the name, and the warnings are about types
of its parameters. -/
theorem overloadOf_eq_ok {overload : Overload} {warnings : List Warning}
    (succeeds : overloadOf options member name header isMethod = .ok (overload, warnings)) :
    overload.Built ∧ overload.function = name ∧
      ∀ warning ∈ warnings, ∃ context fragment, warning = .emptyType context fragment := by
  unfold overloadOf at succeeds
  split at succeeds
  next => cases succeeds
  next found isFound =>
    extract_lets bare at succeeds
    split at succeeds
    next => cases succeeds
    next read isRead =>
      obtain ⟨rfl, rfl⟩ := Prod.mk.inj (Except.ok.inj succeeds)
      have fresh : bare.Built := .fresh bare rfl ⟨_, _, rfl⟩
      obtain ⟨built, isOwn⟩ :=
        Overload.addParameters_eq_ok fresh (types_of_parameters isFound) isRead
      refine ⟨built, isOwn, fun warning isWarning => ?_⟩
      obtain ⟨parameter, _, isEmpty⟩ := List.mem_filterMap.mp isWarning
      split at isEmpty
      · exact ⟨_, _, (Option.some.inj isEmpty).symm⟩
      · cases isEmpty

/-- A member that is left out has a parameter without a name, or two of one name. -/
theorem overloadOf_eq_error {warning : Warning}
    (fails : overloadOf options member name header isMethod = .error warning) :
    (∃ position, warning = .unnamedParameter name position header) ∨
      ∃ parameter, warning = .duplicateParameter name parameter header := by
  unfold overloadOf at fails
  split at fails
  next position _ => exact .inl ⟨position, (Except.error.inj fails).symm⟩
  next =>
    extract_lets bare at fails
    split at fails
    next duplicate isRefused =>
      have isOwn : duplicate.function = name :=
        Overload.function_of_addParameters_eq_error isRefused
      exact .inr ⟨duplicate.parameter, by rw [← Except.error.inj fails, isOwn]⟩
    next => cases fails

end Overloads

/-! ### Members outside classes -/

/-- A warning, or an element other than a function that may go into a scope. -/
def Finding.IsElement : Finding → Prop
  | .warning _ => True
  | .element _ _ (.function _) | .overload .. => False
  | .element _ _ found => found.Built

/-- Whether a member is a function with a name. -/
def isNamedFunction (member : Xml.Element) : Bool :=
  (member.attribute? "kind").getD "" = "function" ∧ member.childText "name" ≠ ""

theorem isElement_definitionFindings (member : Xml.Element) (name header scope : String) :
    ∀ finding ∈ definitionFindings member name header scope, finding.IsElement := by
  intro finding isFinding
  unfold definitionFindings at isFinding
  extract_lets value at isFinding
  split_ifs at isFinding
  · cases isFinding
  all_goals
    rw [List.mem_singleton] at isFinding
    exact isFinding ▸ trivial

theorem isElement_enumerationFindings (member : Xml.Element) (name header scope : String) :
    ∀ finding ∈ enumerationFindings member name header scope, finding.IsElement := by
  intro finding isFinding
  unfold enumerationFindings at isFinding
  split at isFinding
  · obtain ⟨option, _, isOption⟩ := List.mem_filterMap.mp isFinding
    obtain ⟨_, _, rfl⟩ := Option.map_eq_some_iff.mp isOption
    trivial
  · rw [List.mem_singleton] at isFinding
    exact isFinding ▸ trivial

/-- The type of a member is read from its text, and what else is said is a warning. -/
theorem typeOf_isRead (member : Xml.Element) (name header : String) :
    (typeOf member name header).1.IsRead ∧
      ∀ finding ∈ (typeOf member name header).2, finding.IsElement := by
  refine ⟨⟨_, _, rfl⟩, fun finding isFinding => ?_⟩
  unfold typeOf at isFinding
  simp only at isFinding
  split_ifs at isFinding
  · rw [List.mem_singleton] at isFinding
    exact isFinding ▸ trivial
  · cases isFinding

section Member

variable (options : Options) (scope fallback : String) {member : Xml.Element}

/-- What a named function contributes is its overload or the warning in the place of one. -/
theorem memberFindings_of_isNamedFunction (isFunction : isNamedFunction member = true) :
    memberFindings options scope fallback member =
      let header := headerOf options member fallback
      match overloadOf options member (member.childText "name") header false with
      | .error warning => [.warning warning]
      | .ok (overload, warnings) =>
        warnings.map .warning ++ [.overload header scope overload] := by
  obtain ⟨isKind, hasName⟩ := of_decide_eq_true isFunction
  have notEmpty : (member.childText "name").isEmpty = false := by simpa using hasName
  unfold memberFindings
  simp only [notEmpty, isKind]
  rfl

/-- No other member contributes an overload. -/
theorem isElement_memberFindings (notFunction : isNamedFunction member = false) :
    ∀ finding ∈ memberFindings options scope fallback member, finding.IsElement := by
  intro finding isFinding
  unfold memberFindings at isFinding
  extract_lets header name at isFinding
  split at isFinding
  · cases isFinding
  next notEmpty =>
    split at isFinding
    next => exact isElement_definitionFindings _ _ _ _ finding isFinding
    next => exact isElement_enumerationFindings _ _ _ _ finding isFinding
    next =>
      obtain ⟨isRead, areElements⟩ := typeOf_isRead member name header
      rcases typeOf member name header with ⟨type, warnings⟩
      simp only [List.mem_append, List.mem_singleton] at isFinding
      rcases isFinding with isWarning | rfl
      · exact areElements finding isWarning
      · exact isRead
    next =>
      obtain ⟨isRead, areElements⟩ := typeOf_isRead member name header
      rcases typeOf member name header with ⟨type, warnings⟩
      simp only [List.mem_append, List.mem_singleton] at isFinding
      rcases isFinding with isWarning | rfl
      · exact areElements finding isWarning
      · exact isRead
    next isKind =>
      have isFunction : isNamedFunction member = true :=
        decide_eq_true ⟨isKind, by simpa using notEmpty⟩
      rw [notFunction] at isFunction
      cases isFunction
    next => cases isFinding

end Member

/-! ### Classes -/

/-- The class without methods and the methods were built. -/
structure ClassDraft.IsBuilt (draft : ClassDraft) : Prop where
  bare : draft.bare.Built
  methods : draft.methods.Forall fun _ method => method.Built

theorem built_bareClass (kind : CompoundKind) (definition : Xml.Element) (fullName : String) :
    (bareClass kind definition fullName).Built := by
  unfold bareClass
  extract_lets plain
  have isNamed : plain.Built := .named _
  exact (isNamed.described _ _ plain.isForward _).foldl fun name _ => .parent name

theorem ClassDraft.IsBuilt.addMember {draft : ClassDraft} (built : draft.IsBuilt)
    (options : Options) (header : String) (member : Xml.Element) :
    (draft.addMember options header member).IsBuilt := by
  unfold ClassDraft.addMember
  extract_lets name fragment type protection added
  split
  · exact built
  split
  next =>
    split
    · exact built
    split
    next => exact ⟨built.bare, built.methods⟩
    next overload warnings isRead =>
      have isBuilt := (overloadOf_eq_ok isRead).1
      exact ⟨built.bare, built.methods.upsert (.addOverload (.fresh name) isBuilt)
        fun method isMethod => .addOverload isMethod isBuilt⟩
  next =>
    split
    · exact built
    · exact ⟨built.bare.add (.enumeration _), built.methods⟩
  next => exact ⟨built.bare.add (.variable added ⟨_, _, rfl⟩), built.methods⟩
  next => exact built

/-- A class contributes warnings and one element. -/
theorem isElement_classFindings (options : Options) (kind : CompoundKind)
    (definition : Xml.Element) (fullName header : String) (members : List Xml.Element) :
    ∀ finding ∈ classFindings options kind definition fullName header members,
      finding.IsElement := by
  have isBuilt : ∀ (members : List Xml.Element) {draft : ClassDraft}, draft.IsBuilt →
      (members.foldl (ClassDraft.addMember options header) draft).IsBuilt := by
    intro members
    induction members with
    | nil => exact fun built => built
    | cons member rest ih => exact fun built => ih (built.addMember options header member)
  have fresh : ClassDraft.IsBuilt { bare := bareClass kind definition fullName } :=
    ⟨built_bareClass kind definition fullName, .empty⟩
  obtain ⟨ofBare, ofMethods⟩ := isBuilt members fresh
  intro finding isFinding
  unfold classFindings at isFinding
  extract_lets draft complete at isFinding
  rcases List.mem_append.mp isFinding with isWarning | isClass
  · obtain ⟨_, _, rfl⟩ := List.mem_map.mp isWarning
    trivial
  · rw [List.mem_singleton] at isClass
    subst isClass
    refine ofBare.foldl fun method isMethod => ?_
    obtain ⟨key, found⟩ := (OrderedMap.mem_values ..).mp isMethod
    exact .method method (ofMethods key method found)

/-! ### Compounds -/

/-- A compound contributes warnings, elements other than functions, and built overloads. -/
theorem compoundFindings_cases (options : Options) (compound : Compound) (definition : Xml.Element)
    (members : List Xml.Element) :
    ∀ finding ∈ compoundFindings options compound definition members,
      finding.IsElement ∨
        ∃ header scope overload, finding = .overload header scope overload ∧ overload.Built := by
  have ofMembers : ∀ scope fallback,
      ∀ finding ∈ members.flatMap (memberFindings options scope fallback), finding.IsElement ∨
        ∃ header scope overload, finding = .overload header scope overload ∧ overload.Built := by
    intro scope fallback finding isFinding
    obtain ⟨member, _, isOfMember⟩ := List.mem_flatMap.mp isFinding
    cases isFunction : isNamedFunction member with
    | false => exact .inl (isElement_memberFindings options scope fallback isFunction _ isOfMember)
    | true =>
      rw [memberFindings_of_isNamedFunction options scope fallback isFunction] at isOfMember
      extract_lets header at isOfMember
      split at isOfMember
      next =>
        rw [List.mem_singleton] at isOfMember
        exact .inl (isOfMember ▸ trivial)
      next overload warnings isRead =>
        rcases List.mem_append.mp isOfMember with isWarning | isOverload
        · obtain ⟨_, _, rfl⟩ := List.mem_map.mp isWarning
          exact .inl trivial
        · rw [List.mem_singleton] at isOverload
          exact .inr ⟨_, _, _, isOverload, (overloadOf_eq_ok isRead).1⟩
  intro finding isFinding
  unfold compoundFindings at isFinding
  extract_lets name header at isFinding
  split at isFinding
  · exact ofMembers _ _ finding isFinding
  · exact ofMembers _ _ finding isFinding
  · exact .inl (isElement_classFindings _ _ _ _ _ _ finding isFinding)

end Bindery.Reference
