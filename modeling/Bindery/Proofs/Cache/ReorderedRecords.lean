/-
**Records in which members are reordered.**

A record says the same in whatever order its members stand. Only the methods of a class come in the
order of their members, and a class is built with them in that order.

* `isBlind_constant?`, …, `isBlind_overloads?` — records whose elements have no order inside them.
* `match_class?`, `alike_buildClass` — classes whose methods come in any order.
-/

import Bindery.Proofs.Cache.Records
import Bindery.Proofs.Json.Reordered
import Bindery.Proofs.Returns
import Bindery.Proofs.Symbols.Alike

namespace Bindery.Cache

open Json Symbols

/-! ### Elements without an order -/

theorem isBlind_constant? (name : String) : IsBlind (constant? name) := by
  refine isBlind_fields ["value", "description"] fun fields others isMatch => ?_
  rw [isMatch.required? _ isBlind_text?, isMatch.text?]

theorem isBlind_enumeration? (name : String) : IsBlind (enumeration? name) := by
  refine isBlind_fields ["options", "description"] fun fields others isMatch => ?_
  rw [isMatch.orElse? _ (isBlind_list? isBlind_text?), isMatch.text?]

theorem isBlind_typed? (name : String) : IsBlind (typed? name) := by
  refine isBlind_fields ["type", "description"] fun fields others isMatch => ?_
  rw [isMatch.required? _ isBlind_text?, isMatch.text?]

theorem isBlind_classVariable? (name : String) : IsBlind (classVariable? name) := by
  refine isBlind_fields ["type", "static", "mutable", "protected", "public", "description"]
    fun fields others isMatch => ?_
  simp only [isMatch.text?, isMatch.flag?]

theorem isBlind_parameter? : IsBlind parameter? := by
  refine isBlind_fields ["name", "type", "is_array", "value", "description"]
    fun fields others isMatch => ?_
  simp only [isMatch.required? _ isBlind_text?, isMatch.text?, isMatch.flag?]

theorem isBlind_overload? : IsBlind overload? := by
  refine isBlind_fields ["description", "return_type", "return_description", "parameters",
    "constant", "static", "virtual", "pure_virtual", "protected", "deprecated"]
    fun fields others isMatch => ?_
  simp only [isMatch.text?, isMatch.flag?, isMatch.orElse? _ (isBlind_list? isBlind_parameter?)]

theorem isBlind_overloads? : IsBlind overloads? := isBlind_list? isBlind_overload?

theorem isBlind_method? : IsBlind method? := by
  intro value other same
  have isBlind : ∀ value other, Reordered value other → isPlain value = isPlain other := by
    rintro _ _ (_ | _) <;> rfl
  rw [method?, method?, depth_of_reordered same, everywhere_of_reordered isBlind same,
    isBlind_overloads? _ _ same]

/-! ### Names of elements -/

section Names

variable {name : String} {json : Json}

theorem name_constant? {constant : Constant} (isRead : constant? name json = some constant) :
    constant.name = name := by
  simp only [constant?, Option.bind_eq_bind, Option.bind_eq_some_iff] at isRead
  obtain ⟨_, _, _, _, _, _, isConstant⟩ := isRead
  exact Option.some.inj isConstant ▸ rfl

theorem name_enumeration? {enumeration : Enumeration}
    (isRead : enumeration? name json = some enumeration) : enumeration.name = name := by
  simp only [enumeration?, Option.bind_eq_bind, Option.bind_eq_some_iff] at isRead
  obtain ⟨_, _, _, _, _, _, isEnumeration⟩ := isRead
  exact Option.some.inj isEnumeration ▸ rfl

theorem name_typed? {element : TypedName} (isRead : typed? name json = some element) :
    element.name = name := by
  simp only [typed?, Option.bind_eq_bind, Option.bind_eq_some_iff] at isRead
  obtain ⟨_, _, _, _, _, _, isElement⟩ := isRead
  exact Option.some.inj isElement ▸ rfl

theorem name_classVariable? {member : ClassVariable}
    (isRead : classVariable? name json = some member) : member.name = name := by
  simp only [classVariable?, Option.bind_eq_bind, Option.bind_eq_some_iff] at isRead
  obtain ⟨_, _, _, _, _, _, _, _, _, _, _, _, _, _, isMember⟩ := isRead
  exact Option.some.inj isMember ▸ rfl

end Names

/-! ### Classes -/

/-- Two drafts of a class that say the same, with the same methods in whatever order. -/
structure ClassDraft.Match (draft other : ClassDraft) : Prop where
  description : draft.description = other.description
  isStruct : draft.isStruct = other.isStruct
  isForward : draft.isForward = other.isForward
  parents : draft.parents = other.parents
  generics : draft.generics = other.generics
  methods : draft.methods.Matches (· = ·) other.methods

/-- The records of reordered classes say the same, or neither is the record of a class. -/
theorem match_class? {value other : Json} (same : Reordered value other) :
    Option.Rel ClassDraft.Match (class? value) (class? other) := by
  have fieldsOf : ∀ members, (record members).fields? classFields =
      fieldsOfMembers classFields members := by
    intro members
    rw [record, fields?_object, ← record, members?_record, Option.bind_some]
  refine optionRel_bind (members?_of_reordered same) fun members others isMatch => ?_
  rw [fieldsOf, fieldsOf]
  refine optionRel_bind (fieldsOfMembers_of_match classFields isMatch) fun fields others same => ?_
  have methods := (isMatch.filter fun name => !classFields.contains name).read
    fun _ value other same => optionRel_of_eq (isBlind_method? value other same)
  refine optionRel_bind methods fun pairs otherPairs isMatch => ?_
  simp only [same.text?, same.flag?, same.orElse? _ (isBlind_list? isBlind_text?)]
  refine optionRel_bind_same _ fun description => optionRel_bind_same _ fun isStruct => ?_
  refine optionRel_bind_same _ fun isForward => optionRel_bind_same _ fun parents => ?_
  refine optionRel_bind_same _ fun generics => .some ⟨rfl, rfl, rfl, rfl, rfl, ?_⟩
  exact .of_pairs isMatch

/-- Steps that each make something and add it, taken together. -/
theorem toOption_foldlM_made {ε α β σ : Type} {make : String → α → Except ε β} {add : σ → β → σ}
    (pairs : List (String × α)) (state : σ) :
    (pairs.foldlM (fun state (pair : String × α) => do
        return add state (← make pair.1 pair.2)) state).toOption =
      (readPairs (fun name value => (make name value).toOption) pairs).map fun made =>
        (made.map Prod.snd).foldl add state := by
  induction pairs generalizing state with
  | nil => rfl
  | cons pair rest ih =>
    rw [List.foldlM_cons, readPairs_cons]
    cases make pair.1 pair.2 with
    | error failure => rfl
    | ok item =>
      refine (ih (add state item)).trans ?_
      show _ = Option.map _ (Option.map _ _)
      rw [Option.map_map]
      rfl

/-- A function that is built has the name that it is built for. -/
theorem name_buildFunction (policy : DuplicatePolicy) (name : String) (drafts : List Overload) :
    Returns (·.name = name) (buildFunction policy name drafts) :=
  .foldlM rfl fun _ _ _ isName => .bind_any fun _ => .ok isName

/-- A class that is built has the name that its key declares. -/
theorem name_buildClass (policy : DuplicatePolicy) (name : String) (draft : ClassDraft) :
    Returns (·.name = (Class.named name).name) (buildClass policy name draft) := by
  unfold buildClass
  refine .foldlM ?_ fun _ _ _ isName => .bind_any fun _ => .ok isName
  rw [Class.foldl_addParent]

/-- A class before its methods are added. -/
def ClassDraft.bare (name : String) (draft : ClassDraft) : Symbols.Class :=
  let plain := Class.named name
  draft.parents.foldl Class.addParent
    { plain with
      description := draft.description
      isStruct := draft.isStruct
      isForward := draft.isForward
      generics := if draft.generics.isEmpty then plain.generics else draft.generics }

/-- The methods of a class are built first, and added then. -/
theorem toOption_buildClass (policy : DuplicatePolicy) (name : String) (draft : ClassDraft) :
    (buildClass policy name draft).toOption =
      (readPairs (fun name overloads => (buildFunction policy name overloads).toOption)
        draft.methods.entries).map fun methods =>
          (methods.map Prod.snd).foldl Class.addMethod (draft.bare name) :=
  toOption_foldlM_made ..

/-- Methods that are built stand under their names. -/
theorem named_builtMethods {policy : DuplicatePolicy} {pairs : List (String × List Overload)}
    (distinct : (pairs.map Prod.fst).Nodup) {methods : List (String × Function)}
    (areBuilt : readPairs (fun name overloads => (buildFunction policy name overloads).toOption)
      pairs = some methods) :
    (OrderedMap.ofList methods).values = methods.map Prod.snd ∧
      (OrderedMap.ofList methods).Forall fun name method => method.name = name := by
  obtain ⟨sameKeys, lookups⟩ := keys_readPairs areBuilt
  have entries := OrderedMap.entries_ofList (sameKeys ▸ distinct : (methods.map Prod.fst).Nodup)
  refine ⟨congrArg (List.map Prod.snd) entries, fun name method found => ?_⟩
  rw [OrderedMap.get?, entries, lookups] at found
  obtain ⟨overloads, _, isBuilt⟩ := Option.bind_eq_some_iff.mp found
  exact name_buildFunction policy name overloads method (toOption_eq_some_iff.mp isBuilt)

/-- Drafts that match are built into alike classes, or neither can be built. -/
theorem alike_buildClass (policy : DuplicatePolicy) (name : String) {draft other : ClassDraft}
    (isMatch : draft.Match other) :
    Option.Rel Symbols.Class.Alike (buildClass policy name draft).toOption
      (buildClass policy name other).toOption := by
  have sameBare : draft.bare name = other.bare name := by
    simp only [ClassDraft.bare, isMatch.description, isMatch.isStruct, isMatch.isForward,
      isMatch.parents, isMatch.generics]
  have entries : PairsMatch (· = ·) draft.methods.entries other.methods.entries :=
    ⟨draft.methods.distinct, other.methods.distinct, isMatch.methods⟩
  let build (name : String) (overloads : List Overload) : Option Function :=
    (buildFunction policy name overloads).toOption
  have built : Option.Rel (PairsMatch (· = ·)) (readPairs build draft.methods.entries)
      (readPairs build other.methods.entries) :=
    entries.read fun name _ _ same => optionRel_of_eq (congrArg (build name) same)
  rw [toOption_buildClass, toOption_buildClass, sameBare]
  generalize areBuilt : readPairs build draft.methods.entries = methods,
    areOthers : readPairs build other.methods.entries = otherMethods at built
  cases built with
  | none => exact .none
  | @some methods otherMethods methodsMatch =>
    obtain ⟨values, named⟩ := named_builtMethods draft.methods.distinct areBuilt
    obtain ⟨otherValues, _⟩ := named_builtMethods other.methods.distinct areOthers
    refine .some ?_
    dsimp only
    rw [← values, ← otherValues]
    exact (Class.Alike.refl _).addMethods named fun name =>
      eq_of_optionRel (OrderedMap.Matches.of_pairs methodsMatch name)

end Bindery.Cache
