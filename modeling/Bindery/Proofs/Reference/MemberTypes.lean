/-
**Types of members with their marks moved up.**

The documentation puts a space in front of stars and ampersands, and members are read without it.
This leaves the type as it is, apart from the same spaces inside the template arguments of its base,
and it leaves its category as it is, whatever types are known.

* `foundAlike_of_closed` — a type is looked up as before.
* `parse_closeMarks` — the type, its base outside template arguments, and its category.
-/

import Bindery.Proofs.Symbols.ClosedMarks
import Bindery.Proofs.Wrapper.TypeNames
import Bindery.Reference.Member

namespace Bindery.Reference

open Symbols Wrapper
open Text (closeMark)

section Closed

variable {mark : Char} (isStar : mark = '*' ∨ mark = '&')

include isStar

/-- A base without marks outside template arguments is closed up only inside them. -/
theorem closeMark_of_parted {plain arguments : List Char} (isParted : IsParted plain arguments)
    (unmarked : ∀ c ∈ outside 0 (plain ++ arguments), isMark c = false) :
    closeMark mark (plain ++ arguments) = plain ++ closeMark mark arguments ∧
      IsParted plain (closeMark mark arguments) := by
  have notOpening : mark ≠ '<' := by rcases isStar with rfl | rfl <;> decide
  have notThere : mark ∉ plain := by
    intro isIn
    have isOutside : mark ∈ outside 0 (plain ++ arguments) := by
      rw [outside_append, outside_of_notOpened isParted.notOpened]
      exact List.mem_append_left _ isIn
    have isMark : isMark mark = true := by rcases isStar with rfl | rfl <;> rfl
    rw [unmarked mark isOutside] at isMark
    cases isMark
  have apart : ¬ (plain.getLast? = some ' ' ∧ arguments.head? = some mark) := fun isPair =>
    notOpening (isParted.opens mark isPair.2)
  refine ⟨by rw [Text.closeMark_append apart, Text.closeMark_of_notMem notThere],
    isParted.notOpened, ?_⟩
  cases arguments with
  | nil => exact isParted.opens
  | cons c rest =>
    obtain rfl := isParted.opens c rfl
    rw [Text.closeMark_cons (by simp)]
    exact isParted.opens

/-- A type with a closed-up base is looked up as before. -/
theorem foundAlike_of_closed {type closed : TypeShape}
    (isClosed : closed.base.toList = closeMark mark type.base.toList)
    (samePointer : type.isPointer = closed.isPointer)
    (unmarked : ∀ c ∈ outside 0 type.base.toList, isMark c = false) : FoundAlike type closed := by
  obtain ⟨plain, arguments, whole, isParted⟩ := exists_isParted type.base.toList
  rw [whole] at unmarked
  obtain ⟨closes, isPartedClosed⟩ := closeMark_of_parted isStar isParted unmarked
  rw [whole, closes] at isClosed
  have sameEnd : closeMark mark arguments = [] ↔ arguments = [] := by
    rw [← List.isEmpty_iff, Text.isEmpty_closeMark, List.isEmpty_iff]
  refine ⟨?_, ?_, samePointer⟩
  · rw [lookupName_of_parted isParted whole, lookupName_of_parted isPartedClosed isClosed]
    simp only [sameEnd]
  · by_cases noArguments : arguments = []
    · have sameBase : type.base = closed.base := by
        rw [← String.toList_inj, whole, isClosed, noArguments, Text.closeMark_nil]
      exact LooksLike.primitiveKind? ⟨sameBase, samePointer⟩
    · rw [primitiveKind?_of_parted isParted noArguments whole,
        primitiveKind?_of_parted isPartedClosed (mt sameEnd.mp noArguments) isClosed]

/-- A closed-up type is of the same category, and its base outside template arguments is the
same. -/
theorem closed_alike {type : TypeShape}
    (unmarked : ∀ c ∈ outside 0 type.base.toList, isMark c = false) (text : String)
    (known : KnownTypes) :
    known.categoryOf
          { type with base := String.ofList (closeMark mark type.base.toList), text := text } =
        known.categoryOf type ∧
      outside 0 (String.ofList (closeMark mark type.base.toList)).toList =
        outside 0 type.base.toList := by
  have isClosed : (String.ofList (closeMark mark type.base.toList)).toList =
      closeMark mark type.base.toList := String.toList_ofList
  constructor
  · have alike : FoundAlike type
        { type with base := String.ofList (closeMark mark type.base.toList), text := text } :=
      foundAlike_of_closed isStar isClosed rfl unmarked
    exact (KnownTypes.categoryOf_of_foundAlike alike rfl).symm
  · rw [isClosed]
    exact outside_closeMark isStar unmarked

/-- Moving one kind of marks up changes neither the category of a declaration nor its base outside
template arguments. -/
theorem parse_closeMark_alike (fragment : String) (known : KnownTypes) :
    known.categoryOf (.parse (String.ofList (closeMark mark fragment.toList))) =
        known.categoryOf (.parse fragment) ∧
      outside 0 (TypeShape.parse (String.ofList (closeMark mark fragment.toList))).base.toList =
        outside 0 (TypeShape.parse fragment).base.toList := by
  rw [TypeShape.parse_closeMark isStar]
  exact closed_alike isStar (TypeShape.isNormalBase_parse fragment).unmarked _ known

end Closed

/-- **Spacing does not change a type.** A declaration with its stars and ampersands moved up is read
as the same type with the same moves in its base, which is therefore the same outside template
arguments, and it is of the same category whatever types are known. -/
theorem parse_closeMarks (fragment : String) :
    TypeShape.parse (String.ofList (closeMarks fragment.toList)) =
        { TypeShape.parse fragment with
          base := String.ofList (closeMarks (TypeShape.parse fragment).base.toList)
          text := String.ofList (closeMarks fragment.toList) } ∧
      outside 0 (TypeShape.parse (String.ofList (closeMarks fragment.toList))).base.toList =
        outside 0 (TypeShape.parse fragment).base.toList ∧
      ∀ known : KnownTypes,
        known.categoryOf (.parse (String.ofList (closeMarks fragment.toList))) =
          known.categoryOf (.parse fragment) := by
  have inTwoSteps : String.ofList (closeMarks fragment.toList) = String.ofList (closeMark '&'
      (String.ofList (closeMark '*' fragment.toList)).toList) := by
    rw [String.toList_ofList]
    rfl
  have ofStars := parse_closeMark_alike (.inl rfl : '*' = '*' ∨ '*' = '&')
  have ofAmpersands := parse_closeMark_alike (.inr rfl : '&' = '*' ∨ '&' = '&')
  refine ⟨?_, ?_, fun known => ?_⟩
  · rw [inTwoSteps, TypeShape.parse_closeMark (.inr rfl), TypeShape.parse_closeMark (.inl rfl)]
    simp only [String.toList_ofList]
    rfl
  · rw [inTwoSteps, (ofAmpersands _ {}).2, (ofStars _ {}).2]
  · rw [inTwoSteps, (ofAmpersands _ known).1, (ofStars _ known).1]

end Bindery.Reference
