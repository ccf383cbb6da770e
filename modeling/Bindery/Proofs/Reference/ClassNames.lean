/-
**The name of a class and the types that name it.**

The documentation files a class under its own name, without scopes and generic parameters. A type is
looked up under the own name of its base, without template arguments. Two algorithms cut these names
out of texts, and they agree whatever the template arguments are.

* `IsBalanced`, `IsArgumentList` — template arguments in which every `<` has its `>`.
* `IsClassPath` — the name of a class with the scopes in front of it.
* `IsClassPath.name_named_splitScope`, `IsClassPath.lookupName_eq` — the name under which a class is
  filed, and the one under which types are looked up.
* `classify_of_classPath` — a type that names a known class is an object.
-/

import Bindery.Proofs.Reference.ScopeCuts
import Bindery.Proofs.Symbols.Qualified
import Bindery.Proofs.Wrapper.TypeNames

namespace Bindery.Reference

open Symbols Wrapper

/-! ### Template arguments -/

/-- A text in which every `<` is closed by a `>` of its own. -/
inductive IsBalanced : List Char → Prop
  | nil : IsBalanced []
  | plain (c : Char) (rest : List Char) :
      c ≠ '<' → c ≠ '>' → IsBalanced rest → IsBalanced (c :: rest)
  | group (inner rest : List Char) :
      IsBalanced inner → IsBalanced rest → IsBalanced ('<' :: inner ++ '>' :: rest)

/-- Inside template arguments, a balanced text stays inside and leads out of nothing. -/
theorem IsBalanced.isInside {cs : List Char} (isBalanced : IsBalanced cs) (depth : Nat) :
    depthBehind (depth + 1) cs = depth + 1 ∧ outside (depth + 1) cs = [] := by
  induction isBalanced generalizing depth with
  | nil => exact ⟨rfl, rfl⟩
  | plain c rest notOpen notClose _ ih =>
    rw [depthBehind_cons, outside, if_neg (Nat.succ_ne_zero _),
      templateDepth_of_plain notOpen notClose]
    exact ih depth
  | group inner rest _ _ ofInner ofRest =>
    have closes : templateDepth (depth + 2) '>' = depth + 1 := rfl
    rw [depthBehind_append, outside_append]
    change depthBehind (depthBehind (depth + 2) inner) _ = _ ∧
      outside (depth + 2) inner ++ outside (depthBehind (depth + 2) inner) _ = _
    rw [(ofInner (depth + 1)).1, (ofInner (depth + 1)).2, List.nil_append, depthBehind_cons,
      outside, if_neg (Nat.succ_ne_zero _), closes]
    exact ofRest depth

/-- A text without brackets is balanced. -/
theorem IsBalanced.of_plain {cs : List Char} (notOpened : '<' ∉ cs) (notClosed : '>' ∉ cs) :
    IsBalanced cs := by
  induction cs with
  | nil => exact .nil
  | cons c rest ih =>
    rw [List.mem_cons, not_or] at notOpened notClosed
    exact .plain c rest (Ne.symm notOpened.1) (Ne.symm notClosed.1) (ih notOpened.2 notClosed.2)

/-- The template arguments at the end of a name, if there are any. -/
inductive IsArgumentList : List Char → Prop
  | none : IsArgumentList []
  | list (inner : List Char) : IsBalanced inner → IsArgumentList ('<' :: inner ++ ['>'])

namespace IsArgumentList

variable {arguments : List Char} (isList : IsArgumentList arguments)

include isList

theorem opens : ∀ c ∈ arguments.head?, c = '<' := by
  cases isList with
  | none => exact nofun
  | list inner isBalanced => exact fun c isHead => (Option.some.inj isHead).symm

theorem closes : ∀ c ∈ arguments.getLast?, c = '>' := by
  cases isList with
  | none => exact nofun
  | list inner isBalanced =>
    intro c isLast
    rw [List.getLast?_concat] at isLast
    exact (Option.some.inj isLast).symm

/-- Nothing but the first `<` stands outside. -/
theorem isInside : depthBehind 0 arguments = 0 ∧ ∀ c ∈ outside 0 arguments, c = '<' := by
  cases isList with
  | none => exact ⟨rfl, nofun⟩
  | list inner isBalanced =>
    obtain ⟨sameDepth, isInside⟩ := isBalanced.isInside 0
    have opened : ∀ cs, depthBehind 0 ('<' :: cs) = depthBehind 1 cs ∧
        outside 0 ('<' :: cs) = '<' :: outside 1 cs := fun _ => ⟨rfl, rfl⟩
    rw [List.cons_append, (opened _).1, (opened _).2, depthBehind_append, outside_append, sameDepth,
      isInside]
    exact ⟨rfl, fun c isIn => List.mem_singleton.mp isIn⟩

/-- Between template arguments and a text without blanks there is nothing to trim. -/
theorem trim_append {plain : List Char} (noBlank : ∀ c ∈ plain, Text.isBlank c = false) :
    Text.trim (plain ++ arguments) = plain ++ arguments := by
  apply Text.trim_of_ends
  · intro c isHead
    rw [List.head?_append, Option.mem_def, Option.or_eq_some_iff] at isHead
    rcases isHead with isFirst | ⟨-, isFirst⟩
    · exact noBlank c (List.mem_of_mem_head? isFirst)
    · obtain rfl := isList.opens c isFirst
      rfl
  · intro c isLast
    rw [List.getLast?_append, Option.mem_def, Option.or_eq_some_iff] at isLast
    rcases isLast with isFirst | ⟨-, isFirst⟩
    · obtain rfl := isList.closes c isFirst
      rfl
    · exact noBlank c (List.mem_of_mem_getLast? isFirst)

end IsArgumentList

/-! ### Names of classes -/

/-- The name of a class with the scopes in front of it and without template arguments: one word that
does not qualify types, and the class has a name of its own. -/
structure IsClassPath (path : List Char) : Prop where
  noBlank : ∀ c ∈ path, Text.isBlank c = false
  noMark : ∀ c ∈ path, isMark c = false
  notOpened : '<' ∉ path
  notQualifier : isQualifier path = false
  hasName : unqualifiedName path ≠ []

namespace IsClassPath

variable {path arguments : List Char} (isPath : IsClassPath path)

include isPath

/-- Template arguments stand apart from the path. -/
theorem isParted (isList : IsArgumentList arguments) : IsParted path arguments :=
  ⟨isPath.notOpened, isList.opens⟩

theorem noBlank_unqualifiedName : ∀ c ∈ unqualifiedName path, Text.isBlank c = false :=
  fun c isIn => isPath.noBlank c ((unqualifiedName_suffix path).subset isIn)

/-- There is nothing to trim at the own name of a class. -/
theorem trim_unqualifiedName : Text.trim (unqualifiedName path) = unqualifiedName path ∧
    Text.trimEnd (unqualifiedName path) = unqualifiedName path := by
  have trimmed := IsArgumentList.none.trim_append isPath.noBlank_unqualifiedName
  have sameStart : Text.trimStart (unqualifiedName path) = unqualifiedName path :=
    Text.trimStart_of_head fun c isHead =>
      isPath.noBlank_unqualifiedName c (List.mem_of_mem_head? isHead)
  rw [List.append_nil] at trimmed
  exact ⟨trimmed, by rwa [Text.trim, sameStart] at trimmed⟩

theorem notEmpty : path ≠ [] := by
  rintro rfl
  exact isPath.hasName rfl

/-- The characters of a name outside template arguments are neither blanks nor marks. -/
theorem outside_append (isList : IsArgumentList arguments) :
    ∀ c ∈ outside 0 (path ++ arguments), Text.isBlank c = false ∧ isMark c = false := by
  intro c isIn
  rw [Symbols.outside_append, depthBehind_of_notOpened isPath.notOpened,
    outside_of_notOpened isPath.notOpened, List.mem_append] at isIn
  rcases isIn with isIn | isIn
  · exact ⟨isPath.noBlank c isIn, isPath.noMark c isIn⟩
  · obtain rfl := isList.isInside.2 c isIn
    exact ⟨rfl, rfl⟩

/-- With template arguments or without them, a name is no qualifier. -/
theorem isQualifier_append (isList : IsArgumentList arguments) :
    isQualifier (path ++ arguments) = false := by
  cases isList with
  | none => rw [List.append_nil, isPath.notQualifier]
  | list inner _ =>
    rw [isQualifier, Bool.or_eq_false_iff]
    constructor <;>
    · rw [beq_eq_false_iff_ne]
      intro isWord
      have isOpened : '<' ∈ path ++ ('<' :: inner ++ ['>']) := by simp
      rw [isWord] at isOpened
      exact absurd isOpened (by decide)

/-- The name of a class is a base as declarations are read: one word. -/
theorem isNormalBase (isList : IsArgumentList arguments) : IsNormalBase (path ++ arguments) := by
  have notWord := isPath.isQualifier_append isList
  rw [isQualifier, Bool.or_eq_false_iff, beq_eq_false_iff_ne, beq_eq_false_iff_ne] at notWord
  have isWord : IsBaseWord (path ++ arguments) :=
    { notEmpty := List.append_ne_nil_of_left_ne_nil isPath.notEmpty _
      unbroken := fun c isIn => (isPath.outside_append isList c isIn).1
      notConst := notWord.1
      notUnsigned := notWord.2 }
  exact {
    unmarked := fun c isIn => (isPath.outside_append isList c isIn).2
    spelled := ⟨[path ++ arguments], (List.intercalate_singleton ..).symm, by simpa using isWord,
      List.pairwise_singleton ..⟩
    trimmed := isList.trim_append isPath.noBlank }

/-- A class is filed under the own name in its path. -/
theorem name_named_splitScope (isList : IsArgumentList arguments) :
    (Class.named (splitScope (String.ofList (path ++ arguments))).2).name =
      String.ofList (unqualifiedName path) := by
  have ofOwn := (isPath.isParted isList).ofUnqualified
  have trimmed := isList.trim_append isPath.noBlank_unqualifiedName
  rw [splitScope_snd, String.toList_ofList, (isPath.isParted isList).unqualifiedName_append]
  unfold Class.named
  simp only [String.toList_ofList, trimmed, ofOwn.takeWhile_eq, List.drop_left,
    isPath.trim_unqualifiedName.1]
  cases arguments with
  | nil => rw [List.append_nil]
  | cons => rfl

/-- A type is looked up under the own name in the path of its base. -/
theorem lookupName_eq (isList : IsArgumentList arguments) {type : TypeShape}
    (isBase : type.base.toList = path ++ arguments) :
    lookupName type = String.ofList (unqualifiedName path) := by
  rw [lookupName_of_parted (isPath.isParted isList) isBase, isPath.trim_unqualifiedName.2, ite_self]

end IsClassPath

/-! ### References to a class -/

/-- What is looked up under the name of a class is an object, unless the name is that of an
enumeration too or the spelling is primitive. No alias is followed from it. -/
theorem classify_of_class {known : KnownTypes} {type : TypeShape} (notArray : type.isArray = false)
    (isClass : lookupName type ∈ known.classes) :
    known.classify type = { category := .object } ↔
      primitiveKind? type = none ∧ lookupName type ∉ known.enumerations := by
  have settled : known.isSettled type = true := by simp [KnownTypes.isSettled, isClass]
  have ends : known.followAlias? type = none := by rw [KnownTypes.followAlias?, if_pos settled]
  rw [KnownTypes.classify_eq, notArray, if_neg Bool.false_ne_true, KnownTypes.classifyElement,
    KnownTypes.resolve_of_notFollowed ends, KnownTypes.classifyResolved]
  cases primitiveKind? type with
  | some kind => simp
  | none => by_cases isEnumeration : lookupName type ∈ known.enumerations <;> simp [*]

/-- **An extracted class is found by every reference to it.** In a table with the class that a
compound declares, every declaration made of the class's path, any template arguments, `const`, `&`
and stars is of an object, unless its spelling is primitive or an enumeration has the name of the
class. -/
theorem classify_of_classPath (table : Table) {path arguments others : List Char}
    (isPath : IsClassPath path) (isList : IsArgumentList arguments)
    (isOther : IsArgumentList others) {declared : Symbols.Class}
    (isDeclared : declared = Class.named (splitScope (String.ofList (path ++ arguments))).2)
    (isKnown : ∃ known ∈ table.classes, known.name = declared.name) {pieces : List Piece}
    (decorates : Decorates pieces (path ++ others)) (noGroup : pieces.any Piece.isGroup = false) :
    (KnownTypes.ofTable table).classify (.parse (Piece.declaration pieces)) =
        { category := .object } ↔
      primitiveKind? (.parse (Piece.declaration pieces)) = none ∧
        ∀ enumeration ∈ table.enumerations, enumeration.name ≠ declared.name := by
  obtain ⟨base, isBase⟩ : ∃ base : String, base.toList = path ++ others :=
    ⟨_, String.toList_ofList⟩
  have notEmpty : base ≠ "" := by
    rintro rfl
    exact isPath.notEmpty (List.append_eq_nil_iff.mp isBase.symm).1
  have isParsed := TypeShape.parse_declaration (isBase ▸ isPath.isNormalBase isOther) notEmpty
    (isBase ▸ decorates)
  have sameName : lookupName (.parse (Piece.declaration pieces)) = declared.name := by
    rw [isDeclared, isPath.name_named_splitScope isList]
    exact isPath.lookupName_eq isOther (by rw [isParsed, isBase])
  have isClass :
      lookupName (.parse (Piece.declaration pieces)) ∈ (KnownTypes.ofTable table).classes := by
    rw [sameName]
    exact List.mem_map.mpr isKnown
  rw [classify_of_class (by rw [isParsed, noGroup]) isClass, sameName]
  simp [KnownTypes.ofTable]

/-- The pieces of a declaration that refers to a class. -/
def gridPieces : List Piece :=
  [.part "geo::Grid<a::B, C*>".toList rfl, .star, .const, .star, .ampersand]

/-- The class of one instance of a template, and a reference to another instance of it. -/
theorem classify_gridPieces :
    let table := Table.empty.addClass (.named "Grid<int>") "grid.h" "geo"
    Piece.declaration gridPieces = "geo::Grid<a::B, C*>*const*&" ∧
      (KnownTypes.ofTable table).classify (.parse (Piece.declaration gridPieces)) =
        { category := .object } := by
  intro table
  have isPath : IsClassPath "geo::Grid".toList :=
    { noBlank := List.forall_iff_forall_mem.mp (by decide)
      noMark := List.forall_iff_forall_mem.mp (by decide)
      notOpened := by decide
      notQualifier := rfl
      hasName := by decide }
  have isList : IsArgumentList "<int>".toList :=
    .list "int".toList (.of_plain (by decide) (by decide))
  have isOther : IsArgumentList "<a::B, C*>".toList :=
    .list "a::B, C*".toList (.of_plain (by decide) (by decide))
  have decorates : Decorates gridPieces ("geo::Grid".toList ++ "<a::B, C*>".toList) :=
    ⟨by decide, by decide⟩
  refine ⟨by decide,
    (classify_of_classPath table isPath isList isOther rfl ?_ decorates rfl).mpr ?_⟩
  · exact ⟨_, List.mem_singleton_self _, by decide⟩
  · decide

end Bindery.Reference
