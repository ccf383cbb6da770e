/-
**An alias is classified by its target.**

The target of an alias takes over what qualifies a use of the alias, and a chain of such targets
ends at a type that is no alias. The category of the use is that of the last type of the chain.
Whether it is an array is asked of the use alone, however: an alias of an array passes as one
element.

* `KnownTypes.AliasChain` — the way from a type to the one behind its aliases.
* `KnownTypes.classify_alias` — the category of a use by the target of its alias.
-/

import Bindery.Wrapper.KnownTypes

namespace Bindery.Wrapper

open Symbols

/-- No category is the category of its own arrays. -/
theorem Category.array_ne_self (element : Category) : Category.array element ≠ element := by
  intro same
  induction element with
  | array element ih => exact ih (Category.array.inj same)
  | primitive | enumeration | object => cases same

/-! ### Types that are looked up alike -/

/-- Types with one base, both pointers or both none. -/
structure LooksLike (first second : TypeShape) : Prop where
  base : first.base = second.base
  isPointer : first.isPointer = second.isPointer

theorem lookupName_congr {first second : TypeShape} (sameBase : first.base = second.base) :
    lookupName first = lookupName second := by
  rw [lookupName, lookupName, sameBase]

/-- A base is primitive or not, whether the type is a pointer or not. -/
theorem isSome_primitiveKind?_congr {first second : TypeShape}
    (sameBase : first.base = second.base) :
    (primitiveKind? first).isSome = (primitiveKind? second).isSome := by
  simp only [primitiveKind?, sameBase, apply_ite Option.isSome, Option.isSome_some]

theorem LooksLike.symm {first second : TypeShape} (alike : LooksLike first second) :
    LooksLike second first :=
  ⟨alike.base.symm, alike.isPointer.symm⟩

theorem LooksLike.primitiveKind? {first second : TypeShape} (alike : LooksLike first second) :
    Wrapper.primitiveKind? first = Wrapper.primitiveKind? second := by
  simp only [Wrapper.primitiveKind?, alike.base, alike.isPointer]

namespace KnownTypes

variable {known : KnownTypes}

/-! ### One alias -/

/-- The stars on either side make a pointer. -/
theorem isPointer_throughAlias (target use : TypeShape) :
    (throughAlias target use).isPointer = (target.isPointer || use.isPointer) := by
  rw [TypeShape.isPointer, TypeShape.isPointer, TypeShape.isPointer, ← Bool.decide_or]
  exact decide_eq_decide.mpr Nat.add_pos_iff_pos_or_pos

theorem isSettled_congr {first second : TypeShape} (sameBase : first.base = second.base) :
    known.isSettled first = known.isSettled second := by
  rw [isSettled, isSettled, lookupName_congr sameBase, isSome_primitiveKind?_congr sameBase]

/-- What it takes to follow an alias. -/
theorem followAlias?_eq_some_iff {type next : TypeShape} :
    known.followAlias? type = some next ↔
      ∃ target, known.isSettled type = false ∧
        known.aliases.get? (lookupName type) = some target ∧ target.isEmpty = false ∧
        target.base ≠ type.base ∧ next = throughAlias target type := by
  unfold followAlias?
  cases known.isSettled type with
  | true => simp
  | false =>
    cases known.aliases.get? (lookupName type) with
    | none => simp
    | some target => simp [and_assoc, eq_comm (b := next)]

/-- Types that are looked up alike have one target, and are looked up alike behind it. -/
theorem followAlias?_of_looksLike {first second next : TypeShape}
    (alike : LooksLike first second) (follows : known.followAlias? first = some next) :
    ∃ other, known.followAlias? second = some other ∧ LooksLike next other := by
  obtain ⟨target, unsettled, found, hasBase, differs, rfl⟩ := followAlias?_eq_some_iff.mp follows
  refine ⟨throughAlias target second,
    followAlias?_eq_some_iff.mpr ⟨target, ?_, ?_, hasBase, ?_, rfl⟩, rfl, ?_⟩
  · exact isSettled_congr alike.base ▸ unsettled
  · exact lookupName_congr alike.base ▸ found
  · exact alike.base ▸ differs
  · rw [isPointer_throughAlias, isPointer_throughAlias, alike.isPointer]

/-- A target with the base of the use itself is not followed. -/
theorem followAlias?_of_own {type target : TypeShape}
    (declared : known.aliases.get? (lookupName type) = some target)
    (own : target.base = type.base) : known.followAlias? type = none := by
  cases follows : known.followAlias? type with
  | none => rfl
  | some next =>
    obtain ⟨other, -, found, -, differs, -⟩ := followAlias?_eq_some_iff.mp follows
    obtain rfl := Option.some.inj (declared.symm.trans found)
    exact absurd own differs

theorem primitiveKind?_of_unsettled {type : TypeShape} (unsettled : known.isSettled type = false) :
    primitiveKind? type = none := by
  rw [isSettled, Bool.or_eq_false_iff, Bool.or_eq_false_iff] at unsettled
  exact Option.isSome_eq_false_iff.mp unsettled.1.1 |> Option.isNone_iff_eq_none.mp

/-! ### Chains of aliases -/

/-- So many aliases are followed from a type, one after the other, up to a type that is none. -/
inductive AliasChain (known : KnownTypes) : Nat → TypeShape → TypeShape → Prop where
  | stop {type : TypeShape} (ends : known.followAlias? type = none) : AliasChain known 0 type type
  | step {steps : Nat} {type next last : TypeShape} (follows : known.followAlias? type = some next)
      (chain : AliasChain known steps next last) : AliasChain known (steps + 1) type last

/-- A chain that is short enough is followed to its end. -/
theorem AliasChain.resolveWithin {steps bound : Nat} {type last : TypeShape}
    (chain : known.AliasChain steps type last) (inBound : steps ≤ bound) :
    known.resolveWithin bound type = last := by
  induction chain generalizing bound with
  | stop ends =>
    cases bound with
    | zero => rfl
    | succ bound => rw [KnownTypes.resolveWithin, ends]
  | step follows chain ih =>
    cases bound with
    | zero => exact absurd inBound (Nat.not_succ_le_zero _)
    | succ bound =>
      rw [KnownTypes.resolveWithin, follows]
      exact ih (Nat.le_of_succ_le_succ inBound)

/-- The last type of a chain is an array if the first one is. -/
theorem AliasChain.isArray {steps : Nat} {type last : TypeShape}
    (chain : known.AliasChain steps type last) (isArray : type.isArray = true) :
    last.isArray = true := by
  induction chain with
  | stop => exact isArray
  | step follows chain ih =>
    obtain ⟨target, -, -, -, -, rfl⟩ := followAlias?_eq_some_iff.mp follows
    exact ih (by rw [throughAlias, isArray, Bool.or_true])

theorem resolveWithin_of_looksLike {first second : TypeShape} (alike : LooksLike first second)
    (bound : Nat) :
    LooksLike (known.resolveWithin bound first) (known.resolveWithin bound second) := by
  induction bound generalizing first second with
  | zero => exact alike
  | succ bound ih =>
    rw [resolveWithin, resolveWithin]
    cases follows : known.followAlias? first with
    | some next =>
      obtain ⟨other, followsOther, alikeNext⟩ := followAlias?_of_looksLike alike follows
      rw [followsOther]
      exact ih alikeNext
    | none =>
      cases followsOther : known.followAlias? second with
      | none => exact alike
      | some other =>
        obtain ⟨next, followsNext, -⟩ := followAlias?_of_looksLike alike.symm followsOther
        rw [follows] at followsNext
        cases followsNext

theorem resolve_of_own {type target : TypeShape}
    (declared : known.aliases.get? (lookupName type) = some target)
    (own : target.base = type.base) : known.resolve type = type :=
  (AliasChain.stop (followAlias?_of_own declared own)).resolveWithin (Nat.zero_le _)

/-! ### Categories -/

theorem classifyResolved_congr {first second : TypeShape} (sameBase : first.base = second.base)
    (sameKind : primitiveKind? first = primitiveKind? second) :
    known.classifyResolved first = known.classifyResolved second := by
  simp only [classifyResolved, sameKind, sameBase, lookupName_congr sameBase]

/-- The classification of a type, or of one of its elements if it is an array. -/
def classifyElement (known : KnownTypes) (type : TypeShape) : Classification :=
  known.classifyResolved (known.resolve type)

theorem AliasChain.classifyElement {steps : Nat} {type last : TypeShape}
    (chain : known.AliasChain steps type last) (inBound : steps ≤ maxAliasSteps) :
    known.classifyElement type = known.classifyResolved last := by
  rw [KnownTypes.classifyElement, resolve, chain.resolveWithin inBound]

theorem classifyElement_congr {first second : TypeShape} (alike : LooksLike first second) :
    known.classifyElement first = known.classifyElement second := by
  have resolved : LooksLike (known.resolve first) (known.resolve second) :=
    resolveWithin_of_looksLike alike maxAliasSteps
  exact classifyResolved_congr resolved.base resolved.primitiveKind?

/-- The mark of an array is read from the type itself, all else from the end of its aliases. -/
theorem classify_eq (type : TypeShape) :
    known.classify type =
      if type.isArray then
        { known.classifyElement type with category := .array (known.classifyElement type).category }
      else known.classifyElement type := by
  have same : known.classifyElement { type with isArray := false } = known.classifyElement type :=
    classifyElement_congr ⟨rfl, rfl⟩
  rw [← same]
  rfl

/-- Two types are classified alike, or one of them as an array of the other. -/
theorem classify_eq_classify_iff {first second : TypeShape}
    (same : known.classifyElement first = known.classifyElement second) :
    known.classify first = known.classify second ↔ first.isArray = second.isArray := by
  rw [classify_eq, classify_eq, same]
  constructor
  · intro equal
    have categories := congrArg Classification.category equal
    cases isFirst : first.isArray <;> cases isSecond : second.isArray
    · rfl
    · simp only [isFirst, isSecond, if_true, Bool.false_eq_true, if_false] at categories
      exact absurd categories.symm (Category.array_ne_self _)
    · simp only [isFirst, isSecond, if_true, Bool.false_eq_true, if_false] at categories
      exact absurd categories (Category.array_ne_self _)
    · rfl
  · intro sameMark
    rw [sameMark]

section Alias

variable {use target : TypeShape} (declared : known.aliases.get? (lookupName use) = some target)
  (unsettled : known.isSettled use = false) (hasBase : target.isEmpty = false)

include declared unsettled hasBase

/-- Behind its alias a use is its target. -/
theorem classifyElement_throughAlias {steps : Nat} {last : TypeShape}
    (chain : known.AliasChain steps use last) (inBound : steps ≤ maxAliasSteps) :
    known.classifyElement use = known.classifyElement (throughAlias target use) := by
  by_cases sameBase : target.base = use.base
  -- Such a target is not followed, from either type; both have the same unknown base.
  · have sameOwn : (throughAlias target use).base = use.base := sameBase
    have ownUnsettled : known.isSettled (throughAlias target use) = false :=
      (isSettled_congr sameOwn).trans unsettled
    have ownDeclared : known.aliases.get? (lookupName (throughAlias target use)) = some target :=
      (congrArg known.aliases.get? (lookupName_congr sameOwn)).trans declared
    rw [classifyElement, classifyElement, resolve_of_own declared sameBase,
      resolve_of_own ownDeclared rfl]
    exact classifyResolved_congr sameOwn.symm ((primitiveKind?_of_unsettled unsettled).trans
      (primitiveKind?_of_unsettled ownUnsettled).symm)
  · have follows : known.followAlias? use = some (throughAlias target use) :=
      followAlias?_eq_some_iff.mpr ⟨target, unsettled, declared, hasBase, sameBase, rfl⟩
    cases chain with
    | stop ends =>
      rw [follows] at ends
      cases ends
    | step followsNext chain =>
      obtain rfl := Option.some.inj (follows.symm.trans followsNext)
      rw [(AliasChain.step follows chain).classifyElement inBound,
        chain.classifyElement (Nat.le_of_succ_le inBound)]

/-- **A use of an alias is classified as its target with what qualifies the use**, but whether it is
an array only the use says. So it is classified as the whole target unless the target is an array
and the use is none. -/
theorem classify_alias {steps : Nat} {last : TypeShape} (chain : known.AliasChain steps use last)
    (inBound : steps ≤ maxAliasSteps) :
    known.classify use = known.classify { throughAlias target use with isArray := use.isArray } ∧
      (known.classify use = known.classify (throughAlias target use) ↔
        (target.isArray = true → use.isArray = true)) := by
  have same := classifyElement_throughAlias declared unsettled hasBase chain inBound
  constructor
  · have sameElement : known.classifyElement use =
        known.classifyElement { throughAlias target use with isArray := use.isArray } :=
      same.trans (classifyElement_congr ⟨rfl, rfl⟩)
    exact (classify_eq_classify_iff sameElement).mpr rfl
  · rw [classify_eq_classify_iff same]
    show use.isArray = (target.isArray || use.isArray) ↔ _
    cases use.isArray <;> cases target.isArray <;> decide

end Alias

/-- Types with an alias of an array. -/
def rowTypes : KnownTypes where
  aliases := .ofList [("Row", .parse "int[]")]

theorem aliasChain_row : rowTypes.AliasChain 1 (.parse "Row")
    (throughAlias (.parse "int[]") (.parse "Row")) :=
  .step (by decide) (.stop (by decide))

/-- The alias passes as one of the numbers. -/
theorem classify_row :
    rowTypes.aliases.get? (lookupName (.parse "Row")) = some (.parse "int[]") ∧
      rowTypes.isSettled (.parse "Row") = false ∧ (TypeShape.parse "int[]").isEmpty = false ∧
      (rowTypes.classify (.parse "Row") =
        rowTypes.classify { throughAlias (.parse "int[]") (.parse "Row") with isArray := false } ∧
      (rowTypes.classify (.parse "Row") =
          rowTypes.classify (throughAlias (.parse "int[]") (.parse "Row")) ↔
        ((TypeShape.parse "int[]").isArray = true → (TypeShape.parse "Row").isArray = true))) := by
  have declared : rowTypes.aliases.get? (lookupName (.parse "Row")) = some (.parse "int[]") := by
    decide
  have unsettled : rowTypes.isSettled (.parse "Row") = false := by decide
  have hasBase : (TypeShape.parse "int[]").isEmpty = false := by decide
  exact ⟨declared, unsettled, hasBase,
    classify_alias declared unsettled hasBase aliasChain_row (by decide)⟩

/-- The alias does not pass as the array that it stands for. -/
theorem classify_row_ne :
    rowTypes.AliasChain 1 (.parse "Row") (throughAlias (.parse "int[]") (.parse "Row")) ∧
      rowTypes.classify (.parse "Row") = { category := .primitive .integer } ∧
      rowTypes.classify (throughAlias (.parse "int[]") (.parse "Row")) =
        { category := .array (.primitive .integer) } :=
  ⟨aliasChain_row, by decide, by decide⟩

end KnownTypes

end Bindery.Wrapper
