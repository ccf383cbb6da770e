/-
**The names under which types are looked up.**

A type is looked up under the own name of its base, without template arguments. Its category is
settled by that name, by what primitive type its base is, and by whether it is a pointer. The base
itself counts only where an alias is not followed because it stands for itself, and such an alias
leads nowhere from either of two types that share a name.

* `lookupName_of_parted` — the name of a type with template arguments.
* `FoundAlike` — types that share what they are looked up by.
* `KnownTypes.category_classifyElement_of_foundAlike` — they have one category, whatever the
  aliases are.
-/

import Bindery.Proofs.Symbols.ScopedNames
import Bindery.Proofs.Wrapper.Aliases

namespace Bindery.Wrapper

open Symbols

/-! ### Template arguments -/

/-- A base with template arguments is no primitive one. -/
theorem primitiveKind?_of_arguments {type : TypeShape} (hasArguments : '<' ∈ type.base.toList) :
    primitiveKind? type = none := by
  have notAmong : ∀ bases : List String, (bases.all fun base => !base.toList.contains '<') = true →
      bases.contains type.base = false := by
    intro bases allPlain
    rw [List.all_eq_true] at allPlain
    rw [List.contains_eq_mem, decide_eq_false_iff_not]
    intro isAmong
    have isPlain := allPlain _ isAmong
    simp [hasArguments] at isPlain
  have notVoid := notAmong ["void", "bool"] (by decide)
  have notCharacter := notAmong characterBases (by decide)
  have notString := notAmong stringBases (by decide)
  have notFloat := notAmong floatBases (by decide)
  have notInteger := notAmong integerBases (by decide)
  have notFixed := notAmong fixedWidthBases (by decide)
  have notStandard := notAmong (fixedWidthBases.map ("std::" ++ ·)) (by decide)
  simp only [List.contains_eq_mem, decide_eq_false_iff_not, List.mem_cons, List.not_mem_nil,
    or_false, not_or] at notVoid
  simp only [primitiveKind?, isFixedWidth, notVoid.1, notVoid.2, notCharacter, notString, notFloat,
    notInteger, notFixed, notStandard, Bool.or_self, Bool.false_eq_true, if_false]

theorem primitiveKind?_of_parted {plain arguments : List Char} (isParted : IsParted plain arguments)
    (hasArguments : arguments ≠ []) {type : TypeShape}
    (isBase : type.base.toList = plain ++ arguments) : primitiveKind? type = none := by
  obtain ⟨c, rest, rfl⟩ := List.exists_cons_of_ne_nil hasArguments
  obtain rfl := isParted.opens c rfl
  exact primitiveKind?_of_arguments (by rw [isBase]; simp)

/-- A type is looked up under the own name in front of its template arguments. -/
theorem lookupName_of_parted {plain arguments : List Char} (isParted : IsParted plain arguments)
    {type : TypeShape} (isBase : type.base.toList = plain ++ arguments) :
    lookupName type = String.ofList
      (if arguments = [] then unqualifiedName plain else Text.trimEnd (unqualifiedName plain)) := by
  have ofOwn := isParted.ofUnqualified
  rw [lookupName, isBase, isParted.unqualifiedName_append, withoutArguments, ofOwn.takeWhile_eq]
  cases arguments with
  | nil => simp [ofOwn.notOpened]
  | cons c rest => simp [isParted.opens c rfl]

/-! ### Types that share what they are looked up by -/

/-- Types with one name, of one primitive kind if any, both pointers or both none. -/
structure FoundAlike (first second : TypeShape) : Prop where
  name : lookupName first = lookupName second
  kind : primitiveKind? first = primitiveKind? second
  isPointer : first.isPointer = second.isPointer

theorem FoundAlike.symm {first second : TypeShape} (alike : FoundAlike first second) :
    FoundAlike second first :=
  ⟨alike.name.symm, alike.kind.symm, alike.isPointer.symm⟩

namespace KnownTypes

variable {known : KnownTypes} {first second : TypeShape}

theorem resolve_of_notFollowed {type : TypeShape} (ends : known.followAlias? type = none) :
    known.resolve type = type :=
  (AliasChain.stop ends).resolveWithin (Nat.zero_le _)

theorem resolve_of_followed {type next : TypeShape}
    (follows : known.followAlias? type = some next) :
    known.resolve type = known.resolveWithin (maxAliasSteps - 1) next := by
  show known.resolveWithin (maxAliasSteps - 1 + 1) type = _
  rw [resolveWithin, follows]

/-- Nothing is known about a type that is not settled and not followed. -/
theorem category_of_unsettled {type : TypeShape} (unsettled : known.isSettled type = false) :
    (known.classifyResolved type).category = .primitive .unknown := by
  have noKind := primitiveKind?_of_unsettled unsettled
  rw [isSettled, Bool.or_eq_false_iff, Bool.or_eq_false_iff] at unsettled
  simp only [classifyResolved, noKind, unsettled.1.2, unsettled.2, Bool.false_eq_true, if_false]

theorem isSettled_of_foundAlike (alike : FoundAlike first second) :
    known.isSettled first = known.isSettled second := by
  rw [isSettled, isSettled, alike.name, alike.kind]

theorem category_classifyResolved_of_foundAlike (alike : FoundAlike first second) :
    (known.classifyResolved first).category = (known.classifyResolved second).category := by
  simp only [classifyResolved, alike.kind, alike.name]
  cases primitiveKind? second with
  | some kind => rfl
  | none => simp only [apply_ite Classification.category]

/-- If an alias is followed from one of two types, they have one category: it is followed from the
other one too, or its target is the other one's base, which it does not lead away from. -/
theorem category_classifyElement_of_followed (alike : FoundAlike first second) {next : TypeShape}
    (follows : known.followAlias? first = some next) :
    (known.classifyElement first).category = (known.classifyElement second).category := by
  obtain ⟨target, unsettled, found, hasBase, differs, rfl⟩ := followAlias?_eq_some_iff.mp follows
  have unsettledSecond : known.isSettled second = false :=
    isSettled_of_foundAlike alike ▸ unsettled
  have foundSecond : known.aliases.get? (lookupName second) = some target := alike.name ▸ found
  by_cases own : target.base = second.base
  · have sameBase : (throughAlias target first).base = second.base := own
    have foundNext :
        known.aliases.get? (lookupName (throughAlias target first)) = some target := by
      rw [lookupName_congr sameBase, foundSecond]
    have unsettledNext : known.isSettled (throughAlias target first) = false :=
      (isSettled_congr sameBase).trans unsettledSecond
    have ends : known.followAlias? (throughAlias target first) = none :=
      followAlias?_of_own foundNext rfl
    have chain := AliasChain.step follows (.stop ends)
    rw [chain.classifyElement (by decide), classifyElement, resolve_of_own foundSecond own,
      category_of_unsettled unsettledNext, category_of_unsettled unsettledSecond]
  · have followsSecond : known.followAlias? second = some (throughAlias target second) :=
      followAlias?_eq_some_iff.mpr ⟨target, unsettledSecond, foundSecond, hasBase, own, rfl⟩
    have alikeNext : LooksLike (throughAlias target first) (throughAlias target second) :=
      ⟨rfl, by rw [isPointer_throughAlias, isPointer_throughAlias, alike.isPointer]⟩
    have resolved : LooksLike (known.resolve first) (known.resolve second) := by
      rw [resolve_of_followed follows, resolve_of_followed followsSecond]
      exact resolveWithin_of_looksLike alikeNext _
    rw [classifyElement, classifyElement,
      classifyResolved_congr resolved.base resolved.primitiveKind?]

/-- Types that are looked up alike have one category, whatever the aliases are. -/
theorem category_classifyElement_of_foundAlike (alike : FoundAlike first second) :
    (known.classifyElement first).category = (known.classifyElement second).category := by
  cases follows : known.followAlias? first with
  | some next => exact category_classifyElement_of_followed alike follows
  | none =>
    cases followsSecond : known.followAlias? second with
    | some next => exact (category_classifyElement_of_followed alike.symm followsSecond).symm
    | none =>
      rw [classifyElement, classifyElement, resolve_of_notFollowed follows,
        resolve_of_notFollowed followsSecond]
      exact category_classifyResolved_of_foundAlike alike

theorem categoryOf_of_foundAlike (alike : FoundAlike first second)
    (sameMark : first.isArray = second.isArray) :
    known.categoryOf first = known.categoryOf second := by
  have same := @category_classifyElement_of_foundAlike known _ _ alike
  rw [categoryOf, categoryOf, classify_eq, classify_eq, sameMark]
  split
  · exact congrArg Category.array same
  · exact same

end KnownTypes

end Bindery.Wrapper
