/-
**Where a qualified name is cut.**

A full name belongs to a scope, and the scope ends at the last `::` outside template arguments. The
documentation files a class by this cut, and types are looked up by the name behind it. What the
program cuts is the name in front of its first template argument list: a member of an instance of a
template, such as `Grid<int>::Cell`, stays in one piece.

* `IsLastScope` — the last separator outside template arguments.
* `CutsAtLastScope` — a name is cut there, or not at all if there is none.
* `cutsAtLastScope_iff` — which names are cut so, and where all others are cut.
-/

import Bindery.Proofs.Symbols.ScopedNames
import Bindery.Reference.Finding

namespace Bindery.Reference

open Symbols

/-! ### Separators outside template arguments -/

/-- A scope separator stands outside template arguments, between two parts of a name. -/
structure IsOuterScope (name before behind : List Char) : Prop where
  whole : name = before ++ ':' :: ':' :: behind
  isOutside : depthBehind 0 before = 0

/-- It is the last one. -/
structure IsLastScope (name before behind : List Char) : Prop
    extends IsOuterScope name before behind where
  last : ∀ front rest, IsOuterScope name front rest → front.length ≤ before.length

/-- Of separators outside template arguments one is the last. -/
theorem IsOuterScope.exists_last {name front rest : List Char}
    (isOuter : IsOuterScope name front rest) : ∃ before behind, IsLastScope name before behind := by
  by_cases last : ∀ other more, IsOuterScope name other more → other.length ≤ front.length
  · exact ⟨front, rest, isOuter, last⟩
  · simp only [not_forall, not_le] at last
    obtain ⟨other, more, isOther, isLater⟩ := last
    exact isOther.exists_last
termination_by rest.length
decreasing_by
  have first := congrArg List.length isOuter.whole
  have second := congrArg List.length isOther.whole
  simp only [List.length_append, List.length_cons] at first second
  omega

/-- Two separators of a name: what stands behind the first one has the second one. -/
theorem hasPair_of_later {before behind front rest : List Char}
    (same : before ++ ':' :: ':' :: behind = front ++ ':' :: ':' :: rest)
    (isLater : before.length < front.length) : Text.HasPair ':' (':' :: behind) := by
  rcases List.append_eq_append_iff.mp same with ⟨between, rfl, whole⟩ | ⟨between, rfl, -⟩
  · cases between with
    | nil => simp at isLater
    | cons c between =>
      rw [List.cons_append, List.cons.injEq] at whole
      exact ⟨between, rest, by simp [whole.2]⟩
  · simp only [List.length_append] at isLater
    omega

/-- A separator behind which no other one starts is the last. -/
theorem IsOuterScope.isLast {name before behind : List Char}
    (isOuter : IsOuterScope name before behind) (last : ¬ Text.HasPair ':' (':' :: behind)) :
    IsLastScope name before behind where
  toIsOuterScope := isOuter
  last _ _ isOther := Nat.le_of_not_lt fun isLater =>
    last (hasPair_of_later (isOuter.whole.symm.trans isOther.whole) isLater)

/-- What stands behind a name does not take its separators away. -/
theorem IsOuterScope.append {name before behind : List Char}
    (isOuter : IsOuterScope name before behind) (more : List Char) :
    IsOuterScope (name ++ more) before (behind ++ more) where
  whole := by rw [isOuter.whole]; simp
  isOutside := isOuter.isOutside

section NotOpened

variable {plain : List Char} (notOpened : '<' ∉ plain)

include notOpened

/-- In front of template arguments every separator counts. -/
theorem isOuterScope_iff {before behind : List Char} :
    IsOuterScope plain before behind ↔ plain = before ++ ':' :: ':' :: behind := by
  refine ⟨IsOuterScope.whole, fun whole => ⟨whole, depthBehind_of_notOpened fun isIn => ?_⟩⟩
  exact notOpened (whole ▸ List.mem_append_left _ isIn)

theorem hasPair_iff_exists_isOuterScope :
    Text.HasPair ':' plain ↔ ∃ before behind, IsOuterScope plain before behind := by
  simp only [isOuterScope_iff notOpened, Text.HasPair, List.IsInfix, List.append_assoc,
    List.cons_append, List.nil_append, eq_comm]

theorem IsLastScope.noLater {before behind : List Char} (isLast : IsLastScope plain before behind) :
    ¬ Text.HasPair ':' (':' :: behind) := by
  rintro ⟨between, rest, isLater⟩
  have whole : plain = (before ++ ':' :: between) ++ ':' :: ':' :: rest := by
    have moved : ':' :: behind = between ++ ':' :: ':' :: rest := by simpa using isLater.symm
    rw [isLast.whole, moved]
    simp
  have tooLong := isLast.last _ _ ((isOuterScope_iff notOpened).mpr whole)
  simp only [List.length_append, List.length_cons] at tooLong
  omega

end NotOpened

/-! ### Cuts -/

/-- A name is cut into a scope and an own name; the type of that name has the same own name. -/
def IsCutAs (name scope own : String) : Prop :=
  splitScope name = (scope, own) ∧
    ∀ shape : TypeShape, shape.base = name → shape.unqualifiedBase = own

/-- A name is cut at its last scope separator outside template arguments. Without one it belongs to
the root scope as a whole. -/
def CutsAtLastScope (name : String) : Prop :=
  (∀ scope own, IsLastScope name.toList scope own →
      IsCutAs name (String.ofList scope) (String.ofList own)) ∧
    ((¬ ∃ scope own, IsOuterScope name.toList scope own) → IsCutAs name rootScope name)

/-- Types and classes are cut at the same place. -/
theorem splitScope_snd (name : String) :
    (splitScope name).2 = String.ofList (unqualifiedName name.toList) := by
  unfold unqualifiedName splitScope
  dsimp only
  cases afterLastScope? (name.toList.takeWhile (· ≠ '<')) with
  | none => exact String.ofList_toList.symm
  | some behind => rfl

theorem isCutAs_iff {name scope own : String} :
    IsCutAs name scope own ↔ splitScope name = (scope, own) := by
  refine ⟨And.left, fun isSplit => ⟨isSplit, ?_⟩⟩
  rintro shape rfl
  rw [TypeShape.unqualifiedBase, ← splitScope_snd, isSplit]

section Parted

variable {plain arguments : List Char} (isParted : IsParted plain arguments)

include isParted

/-- The last separator in front of template arguments cuts a name. -/
theorem isCutAs_of_isLastScope {scope own : List Char} (isLast : IsLastScope plain scope own) :
    IsCutAs (String.ofList (plain ++ arguments)) (String.ofList scope)
      (String.ofList (own ++ arguments)) := by
  rw [isCutAs_iff, splitScope]
  simp only [String.toList_ofList, isParted.takeWhile_eq, List.drop_left]
  have isScope : plain.take (plain.length - own.length - 2) = scope := by
    rw [isLast.whole]
    exact List.take_left' (by simp; omega)
  have cut : afterLastScope? plain = some own :=
    isLast.whole ▸ afterLastScope?_of_last (isLast.noLater isParted.notOpened) scope
  rw [cut]
  simp only [isScope]

theorem isCutAs_root (noScope : ¬ ∃ before behind, IsOuterScope plain before behind) :
    IsCutAs (String.ofList (plain ++ arguments)) rootScope
      (String.ofList (plain ++ arguments)) := by
  rw [isCutAs_iff, splitScope]
  simp only [String.toList_ofList, isParted.takeWhile_eq]
  rw [← hasPair_iff_exists_isOuterScope isParted.notOpened] at noScope
  rw [afterLastScope?_eq_none_iff.mpr noScope]

end Parted

/-- No scope has template arguments. -/
theorem notOpened_of_isCutAs {name own : String} {scope : List Char}
    (isCut : IsCutAs name (String.ofList scope) own) : '<' ∉ scope := by
  obtain ⟨plain, arguments, whole, isParted⟩ := exists_isParted name.toList
  have isName : name = String.ofList (plain ++ arguments) := by rw [← whole, String.ofList_toList]
  have isScope : (splitScope name).1 = String.ofList scope := congrArg Prod.fst isCut.1
  by_cases hasScope : ∃ before behind, IsOuterScope plain before behind
  · obtain ⟨before, behind, isOuter⟩ := hasScope
    obtain ⟨before, behind, isLast⟩ := isOuter.exists_last
    rw [isName, (isCutAs_of_isLastScope isParted isLast).1, String.ofList_inj] at isScope
    rw [← isScope]
    exact fun isIn => isParted.notOpened (isLast.whole ▸ List.mem_append_left _ isIn)
  · rw [isName, (isCutAs_root isParted hasScope).1] at isScope
    have isRoot : scope = rootScope.toList := by
      rw [← @String.toList_ofList scope, ← isScope]
    rw [isRoot]
    decide

/-- Separators that stand in front of all template arguments cut a name. -/
theorem cutsAtLastScope_of_notOpened {name : String}
    (inFront : ∀ scope own, IsOuterScope name.toList scope own → '<' ∉ scope) :
    CutsAtLastScope name := by
  refine ⟨fun scope own isLast => ?_, fun noScope => ?_⟩
  · obtain ⟨inner, arguments, rfl, isParted⟩ := exists_isParted own
    have notOpened : '<' ∉ scope ++ ':' :: ':' :: inner := by
      simpa using ⟨inFront _ _ isLast.toIsOuterScope, isParted.notOpened⟩
    have isOuter : IsOuterScope (scope ++ ':' :: ':' :: inner) scope inner :=
      ⟨rfl, isLast.isOutside⟩
    have whole : name.toList = scope ++ ':' :: ':' :: inner ++ arguments := by
      rw [isLast.whole]
      simp
    have isInner : IsLastScope (scope ++ ':' :: ':' :: inner) scope inner :=
      ⟨isOuter, fun front rest isOther => isLast.last front (rest ++ arguments)
        (whole ▸ isOther.append arguments)⟩
    have isCut := isCutAs_of_isLastScope ⟨notOpened, isParted.opens⟩ isInner
    rwa [← whole, String.ofList_toList] at isCut
  · obtain ⟨plain, arguments, whole, isParted⟩ := exists_isParted name.toList
    have isCut := isCutAs_root isParted fun ⟨scope, own, isOuter⟩ =>
      noScope ⟨scope, own ++ arguments, whole ▸ isOuter.append arguments⟩
    rwa [← whole, String.ofList_toList] at isCut

/-- **Qualified names are cut in front of their template arguments.** A name is cut at its last
scope separator outside template arguments exactly if no such separator stands behind template
arguments. Every name is cut at the last separator in front of its first `<`, and belongs to the
root scope if there is none. -/
theorem cutsAtLastScope_iff (name : String) :
    (CutsAtLastScope name ↔ ∀ scope own, IsOuterScope name.toList scope own → '<' ∉ scope) ∧
      ∀ plain arguments, name.toList = plain ++ arguments → IsParted plain arguments →
        (∀ scope own, IsLastScope plain scope own →
            IsCutAs name (String.ofList scope) (String.ofList (own ++ arguments))) ∧
          ((¬ ∃ scope own, IsOuterScope plain scope own) → IsCutAs name rootScope name) := by
  refine ⟨⟨fun cuts scope own isOuter isIn => ?_, cutsAtLastScope_of_notOpened⟩,
    fun plain arguments whole isParted => ?_⟩
  · obtain ⟨before, behind, isLast⟩ := isOuter.exists_last
    refine notOpened_of_isCutAs (cuts.1 before behind isLast) ?_
    have isPrefix : scope <+: before :=
      List.prefix_of_prefix_length_le ⟨_, isOuter.whole.symm⟩ ⟨_, isLast.whole.symm⟩
        (isLast.last scope own isOuter)
    exact isPrefix.subset isIn
  · have isName : name = String.ofList (plain ++ arguments) := by
      rw [← whole, String.ofList_toList]
    rw [isName]
    exact ⟨fun scope own => isCutAs_of_isLastScope isParted, isCutAs_root isParted⟩

/-- A member of an instance of a template is not cut at its scope. -/
theorem not_cutsAtLastScope_cell :
    IsLastScope "geo::Grid<int>::Cell".toList "geo::Grid<int>".toList "Cell".toList ∧
      IsCutAs "geo::Grid<int>::Cell" "geo" "Grid<int>::Cell" ∧
      ¬ CutsAtLastScope "geo::Grid<int>::Cell" := by
  have isLast : IsLastScope "geo::Grid<int>::Cell".toList "geo::Grid<int>".toList "Cell".toList :=
    IsOuterScope.isLast ⟨by decide, by decide⟩ (by decide)
  have isCut : IsCutAs "geo::Grid<int>::Cell" "geo" "Grid<int>::Cell" :=
    isCutAs_iff.mpr (by decide)
  refine ⟨isLast, isCut, fun cuts => ?_⟩
  have isOther := (cuts.1 _ _ isLast).1.symm.trans isCut.1
  exact absurd isOther (by decide)

end Bindery.Reference
