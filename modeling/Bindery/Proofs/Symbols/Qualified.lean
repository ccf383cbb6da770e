/-
**Qualifiers around the words of a base.**

A declaration spells a base with qualifiers in front of it, behind it and between its words. Their
order and the blanks around them do not matter: the type that is read has the base, and each
qualifier that was put in.

* `Piece` — what a declaration is put together from.
* `Decorates` — some pieces spell a base and keep its words and the qualifying words apart.
* `TypeShape.parse_of_decorates` — the type that a decorated base is read as.
-/

import Mathlib.Data.List.Chain
import Bindery.Proofs.Symbols.NormalBase

namespace Bindery.Symbols

/-! ### Pieces -/

/-- A piece of a declaration. A `[...]` group ends at its first `]`, and a part of a base that
stands alone has its template arguments closed. -/
inductive Piece where
  | blank (c : Char) (isBlank : Text.isBlank c = true)
  | star
  | ampersand
  | group (inside : List Char) (oneGroup : ']' ∉ inside)
  | const
  | unsigned
  | part (spelled : List Char) (closed : depthBehind 0 spelled = 0)
deriving DecidableEq

namespace Piece

/-- The characters of a piece. -/
def text : Piece → List Char
  | blank c _ => [c]
  | star => ['*']
  | ampersand => ['&']
  | group inside _ => '[' :: inside ++ [']']
  | const => "const".toList
  | unsigned => "unsigned".toList
  | part spelled _ => spelled

/-- The part of a base that a piece is. -/
def part? : Piece → Option (List Char)
  | part spelled _ => some spelled
  | _ => none

/-- Whether a piece has to be kept apart from its like: it is a qualifying word or a part of a
base. -/
def isSpelled : Piece → Bool
  | const | unsigned | part .. => true
  | _ => false

/-- Whether a piece is a `[...]` group. -/
def isGroup : Piece → Bool
  | group .. => true
  | _ => false

/-- The declaration that some pieces make. -/
def declaration (pieces : List Piece) : String := String.ofList (pieces.flatMap text)

/-- What a piece is to the reader of marks. -/
def marks : Piece → Marks
  | star => { rest := [' '], stars := 1 }
  | ampersand => { rest := [' '], isReference := true }
  | group .. => { rest := [' '], isArray := true }
  | other => { rest := other.text }

/-- The words of a piece. -/
def words : Piece → List (List Char)
  | const => ["const".toList]
  | unsigned => ["unsigned".toList]
  | part spelled _ => templateWords 0 [] spelled
  | _ => []

end Piece

/-- Some pieces spell a base, cut at some of its spaces: each space at which it is cut gives way to
qualifiers and blanks. No two words run into each other. -/
structure Decorates (pieces : List Piece) (base : List Char) : Prop where
  spells : [' '].intercalate (pieces.filterMap Piece.part?) = base
  apart : pieces.IsChain fun first second => ¬ (first.isSpelled = true ∧ second.isSpelled = true)

/-! ### The marks of pieces -/

/-- The characters up to the end of a group are no part of the type. -/
theorem Marks.read_group {inside : List Char} (oneGroup : ']' ∉ inside) :
    Marks.read .brackets (inside ++ [']']) = {} ∧
      MarkPlace.brackets.behind (inside ++ [']']) = .depth 0 := by
  induction inside with
  | nil => exact ⟨rfl, rfl⟩
  | cons c inside ih =>
    rw [List.mem_cons, not_or] at oneGroup
    have isPast : MarkPlace.brackets.past c = .brackets := if_neg (Ne.symm oneGroup.1)
    obtain ⟨nothing, stands⟩ := ih oneGroup.2
    rw [List.cons_append, Marks.read_cons, MarkPlace.behind, List.foldl_cons, isPast, nothing]
    exact ⟨rfl, stands⟩

theorem isMark_of_isBlank {c : Char} (isBlank : Text.isBlank c = true) : isMark c = false := by
  rw [Bool.eq_false_iff]
  intro mark
  obtain rfl | rfl | rfl := isMark_cases mark <;> exact absurd isBlank (by decide)

/-- Outside template arguments, a piece is read as what it is, and leads outside them again. -/
theorem Piece.read_text {piece : Piece}
    (unmarked : ∀ spelled ∈ piece.part?, ∀ c ∈ outside 0 spelled, isMark c = false) :
    Marks.read (.depth 0) piece.text = piece.marks ∧
      (MarkPlace.depth 0).behind piece.text = .depth 0 := by
  cases piece with
  | blank c isBlank =>
    obtain ⟨remains, stands⟩ := @Marks.read_of_unmarked 0 [c] fun d isIn => by
      rw [List.mem_singleton.mp isIn]
      exact isMark_of_isBlank isBlank
    exact ⟨remains, stands.trans (congrArg _ (templateDepth_of_isBlank isBlank 0))⟩
  | star | ampersand | const | unsigned => exact ⟨rfl, rfl⟩
  | group inside oneGroup =>
    obtain ⟨nothing, stands⟩ := Marks.read_group oneGroup
    refine ⟨?_, stands⟩
    show Marks.read _ ('[' :: (inside ++ [']'])) = _
    rw [Marks.read_cons]
    exact (congrArg _ nothing).trans (Marks.append_empty _)
  | part spelled closed =>
    obtain ⟨remains, stands⟩ := Marks.read_of_unmarked (unmarked spelled rfl)
    exact ⟨remains, stands.trans (congrArg _ closed)⟩

/-- The marks of pieces are those of each of them. -/
theorem Piece.read_flatMap {pieces : List Piece}
    (unmarked : ∀ piece ∈ pieces, ∀ spelled ∈ piece.part?, ∀ c ∈ outside 0 spelled,
      isMark c = false) :
    Marks.read (.depth 0) (pieces.flatMap text) =
        { rest := pieces.flatMap fun piece => piece.marks.rest
          stars := pieces.count .star
          isReference := pieces.contains .ampersand
          isArray := pieces.any isGroup } ∧
      (MarkPlace.depth 0).behind (pieces.flatMap text) = .depth 0 := by
  induction pieces with
  | nil => exact ⟨rfl, rfl⟩
  | cons piece rest ih =>
    rw [List.forall_mem_cons] at unmarked
    obtain ⟨ofPiece, behindPiece⟩ := read_text unmarked.1
    obtain ⟨ofRest, behindRest⟩ := ih unmarked.2
    rw [List.flatMap_cons, Marks.read_of_append, MarkPlace.behind_append, behindPiece, ofPiece,
      ofRest]
    refine ⟨?_, behindRest⟩
    cases piece <;> simp [marks, Marks.append, isGroup, Nat.add_comm]

/-! ### The words of pieces -/

/-- A piece that is no word leaves a blank. -/
theorem Piece.exists_blank {piece : Piece} (notSpelled : piece.isSpelled = false) :
    ∃ blank, Text.isBlank blank = true ∧ piece.marks.rest = [blank] ∧ piece.words = [] := by
  cases piece with
  | blank c isBlank => exact ⟨c, isBlank, rfl, rfl⟩
  | star | ampersand | group => exact ⟨' ', by decide, rfl, rfl⟩
  | const | unsigned | part => cases notSpelled

/-- A piece that is a word has its template arguments closed. -/
theorem Piece.closed_of_isSpelled {piece : Piece} (isSpelled : piece.isSpelled = true) :
    depthBehind 0 piece.marks.rest = 0 ∧ templateWords 0 [] piece.marks.rest = piece.words := by
  cases piece with
  | const | unsigned => exact ⟨rfl, by decide⟩
  | part spelled closed => exact ⟨closed, rfl⟩
  | blank | star | ampersand | group => cases isSpelled

/-- The words of pieces are those of each of them. -/
theorem Piece.templateWords_flatMap {pieces : List Piece}
    (apart : pieces.IsChain fun first second =>
      ¬ (first.isSpelled = true ∧ second.isSpelled = true)) :
    templateWords 0 [] (pieces.flatMap fun piece => piece.marks.rest) = pieces.flatMap words := by
  induction pieces with
  | nil => rfl
  | cons piece rest ih =>
    have later := ih apart.tail
    cases kind : piece.isSpelled with
    | false =>
      obtain ⟨blank, isBlank, remains, noWords⟩ := exists_blank kind
      rw [List.flatMap_cons, List.flatMap_cons, remains, noWords, List.singleton_append,
        templateWords_blank isBlank, later, List.nil_append]
    | true =>
      obtain ⟨closed, areWords⟩ := closed_of_isSpelled kind
      cases rest with
      | nil => simp [areWords]
      | cons second others =>
        have notSpelled : second.isSpelled = false := by
          rw [Bool.eq_false_iff]
          exact fun isSpelled => (List.isChain_cons_cons.mp apart).1 ⟨kind, isSpelled⟩
        -- the blank of the second piece ends the word
        obtain ⟨blank, isBlank, remains, _⟩ := exists_blank notSpelled
        rw [List.flatMap_cons, remains, List.singleton_append, templateWords_blank isBlank]
          at later
        rw [List.flatMap_cons, List.flatMap_cons, remains, List.singleton_append,
          templateWords_append closed isBlank, areWords, later, ← List.flatMap_cons]

section Words

variable {pieces : List Piece} (noQualifier : ∀ piece ∈ pieces, ∀ spelled ∈ piece.part?,
  ∀ word ∈ templateWords 0 [] spelled, isQualifier word = false)

include noQualifier

/-- The words of pieces that are no qualifiers are those of the parts of the base. -/
theorem Piece.filter_words :
    ((pieces.flatMap words).filter fun word => !isQualifier word) =
      (pieces.filterMap part?).flatMap (templateWords 0 []) := by
  induction pieces with
  | nil => rfl
  | cons piece rest ih =>
    rw [List.forall_mem_cons] at noQualifier
    rw [List.flatMap_cons, List.filter_append, ih noQualifier.2]
    cases piece with
    | part spelled closed =>
      have isPart : (part spelled closed).part? = some spelled := rfl
      rw [List.filterMap_cons_some isPart, List.flatMap_cons, words, List.filter_eq_self.mpr]
      exact fun word isWord => by rw [noQualifier.1 spelled rfl word isWord]; rfl
    | _ => rfl

/-- A qualifying word is among the words of pieces if it was put in. -/
theorem Piece.contains_words :
    (pieces.flatMap words).contains "const".toList = pieces.contains .const ∧
      (pieces.flatMap words).contains "unsigned".toList = pieces.contains .unsigned := by
  simp only [List.contains_eq_mem, decide_eq_decide, List.mem_flatMap]
  refine ⟨⟨?_, fun isIn => ⟨_, isIn, List.mem_singleton_self _⟩⟩,
    ⟨?_, fun isIn => ⟨_, isIn, List.mem_singleton_self _⟩⟩⟩
  all_goals
    rintro ⟨piece, isPiece, isWord⟩
    cases piece with
    | part spelled closed =>
      have isPlain := noQualifier _ isPiece spelled rfl _ isWord
      cases isPlain
    | const | unsigned => first | exact isPiece | exact absurd isWord (by decide)
    | _ => cases isWord

end Words

/-! ### Blanks at the ends -/

/-- A text is what trimming leaves of it between blanks. -/
theorem exists_trim (cs : List Char) : ∃ lead tail, cs = lead ++ (Text.trim cs ++ tail) ∧
    (∀ c ∈ lead, Text.isBlank c = true) ∧ ∀ c ∈ tail, Text.isBlank c = true := by
  refine ⟨cs.takeWhile Text.isBlank, (Text.trimStart cs).rtakeWhile Text.isBlank, ?_,
    fun _ isIn => List.mem_takeWhile_imp isIn, fun _ isIn => List.mem_rtakeWhile_imp isIn⟩
  have atEnd : Text.trim cs ++ (Text.trimStart cs).rtakeWhile Text.isBlank = Text.trimStart cs :=
    List.rdropWhile_append_rtakeWhile ..
  rw [atEnd]
  exact (List.takeWhile_append_dropWhile ..).symm

/-- Blanks are nothing to the reader of marks. -/
theorem MarkPlace.behind_blanks {blanks : List Char}
    (areBlank : ∀ c ∈ blanks, Text.isBlank c = true) (place : MarkPlace) :
    place.behind blanks = place := by
  induction blanks with
  | nil => rfl
  | cons blank rest ih =>
    rw [List.forall_mem_cons] at areBlank
    have isPast : place.past blank = place := by
      cases place with
      | brackets => exact if_neg (by rintro rfl; exact absurd areBlank.1 (by decide))
      | depth n =>
        rw [past, if_neg (by rintro ⟨-, rfl⟩; exact absurd areBlank.1 (by decide)),
          templateDepth_of_isBlank areBlank.1]
    rw [behind, List.foldl_cons, isPast]
    exact ih areBlank.2

theorem mem_of_mem_outside {depth : Nat} {c : Char} {cs : List Char} (isIn : c ∈ outside depth cs) :
    c ∈ cs := by
  induction cs generalizing depth with
  | nil => cases isIn
  | cons d cs ih =>
    rw [outside] at isIn
    split at isIn
    · rcases List.mem_cons.mp isIn with rfl | isLater
      · exact List.mem_cons_self ..
      · exact List.mem_cons_of_mem _ (ih isLater)
    · exact List.mem_cons_of_mem _ (ih isIn)

/-- Where nothing is open at the end of a fragment, the blanks around it change neither its marks
nor its words. -/
theorem Marks.read_trim {cs : List Char} (closed : (MarkPlace.depth 0).behind cs = .depth 0) :
    ∃ rest, Marks.read (.depth 0) (Text.trim cs) = { Marks.read (.depth 0) cs with rest } ∧
      templateWords 0 [] rest = templateWords 0 [] (Marks.read (.depth 0) cs).rest := by
  obtain ⟨lead, tail, whole, areLead, areTail⟩ := exists_trim cs
  have ofBlanks : ∀ {blanks : List Char}, (∀ c ∈ blanks, Text.isBlank c = true) →
      Marks.read (.depth 0) blanks = { rest := blanks } := fun areBlank =>
    (Marks.read_of_unmarked fun c isIn =>
      isMark_of_isBlank (areBlank c (mem_of_mem_outside isIn))).1
  have stands : (MarkPlace.depth 0).behind (Text.trim cs) = .depth 0 := by
    rwa [whole, MarkPlace.behind_append, MarkPlace.behind_blanks areLead, MarkPlace.behind_append,
      MarkPlace.behind_blanks areTail] at closed
  have isRead : Marks.read (.depth 0) cs = Marks.append { rest := lead }
      ((Marks.read (.depth 0) (Text.trim cs)).append { rest := tail }) := by
    conv_lhs => rw [whole]
    rw [Marks.read_of_append, MarkPlace.behind_blanks areLead, ofBlanks areLead,
      Marks.read_of_append, stands, ofBlanks areTail]
  have closedRest : depthBehind 0 (Marks.read (.depth 0) (Text.trim cs)).rest = 0 := by
    have sameDepth := Marks.depthBehind_read (.depth 0) (Text.trim cs)
    rwa [stands] at sameDepth
  refine ⟨(Marks.read (.depth 0) (Text.trim cs)).rest, ?_, ?_⟩
  · rw [isRead]
    simp [Marks.append]
  · rw [isRead, Marks.append, Marks.append, templateWords_blanks areLead,
      templateWords_append_blanks closedRest areTail]

/-! ### Decorated bases -/

namespace Decorates

variable {pieces : List Piece} {base : List Char}

theorem closed (pieces : List Piece) :
    (pieces.filterMap Piece.part?).Pairwise fun part _ => depthBehind 0 part = 0 := by
  refine List.pairwise_of_forall_mem_list fun part isPart _ _ => ?_
  obtain ⟨piece, _, isPart⟩ := List.mem_filterMap.mp isPart
  cases piece with
  | part spelled closed => exact Option.some.inj isPart ▸ closed
  | _ => cases isPart

theorem templateWords_eq (decorates : Decorates pieces base) :
    templateWords 0 [] base = (pieces.filterMap Piece.part?).flatMap (templateWords 0 []) := by
  rw [← decorates.spells, templateWords_intercalate (closed pieces)]

/-- The parts of a base in normal form have no marks outside template arguments. -/
theorem unmarked (decorates : Decorates pieces base) (isNormal : IsNormalBase base) :
    ∀ piece ∈ pieces, ∀ spelled ∈ piece.part?, ∀ c ∈ outside 0 spelled, isMark c = false := by
  intro piece isPiece spelled isPart c isIn
  have isPart := List.mem_filterMap.mpr ⟨piece, isPiece, isPart⟩
  refine isNormal.unmarked c ?_
  rw [← decorates.spells]
  exact mem_outside_of_mem (closed pieces) isPart isIn

/-- The parts of a base in normal form have no qualifiers among their words. -/
theorem noQualifier (decorates : Decorates pieces base) (isNormal : IsNormalBase base) :
    ∀ piece ∈ pieces, ∀ spelled ∈ piece.part?, ∀ word ∈ templateWords 0 [] spelled,
      isQualifier word = false := by
  intro piece isPiece spelled isPart word isWord
  have isPart := List.mem_filterMap.mpr ⟨piece, isPiece, isPart⟩
  refine (isNormal.isSpelled.1 word ?_).isQualifier
  rw [decorates.templateWords_eq]
  exact List.mem_flatMap.mpr ⟨spelled, isPart, isWord⟩

end Decorates

namespace TypeShape

/-- A declaration is read as the normal base that its pieces spell, with their qualifiers. -/
theorem parse_declaration {base : String} {pieces : List Piece}
    (isNormal : IsNormalBase base.toList) (notEmpty : base ≠ "")
    (decorates : Decorates pieces base.toList) :
    parse (Piece.declaration pieces) =
      { base
        isConst := pieces.contains .const
        isUnsigned := pieces.contains .unsigned
        isReference := pieces.contains .ampersand
        pointerDepth := pieces.count .star
        isArray := pieces.any Piece.isGroup
        text := Piece.declaration pieces } := by
  have noQualifier := decorates.noQualifier isNormal
  have isText : (Piece.declaration pieces).toList = pieces.flatMap Piece.text :=
    String.toList_ofList
  obtain ⟨areMarks, stands⟩ := Piece.read_flatMap (decorates.unmarked isNormal)
  obtain ⟨rest, ofTrimmed, sameWords⟩ := Marks.read_trim stands
  rw [areMarks] at ofTrimmed sameWords
  rw [← isText] at ofTrimmed
  have areWords : templateWords 0 [] rest = pieces.flatMap Piece.words := by
    rw [sameWords, Piece.templateWords_flatMap decorates.apart]
  have isSpelled : spelledBy (pieces.flatMap Piece.words) = base.toList := by
    rw [spelledBy, Piece.filter_words noQualifier, ← decorates.templateWords_eq,
      isNormal.isSpelled.2]
  have isParsed := parse_of_spelled ofTrimmed areWords (by rw [isSpelled]; simpa using notEmpty)
  rwa [isSpelled, String.ofList_toList, (Piece.contains_words noQualifier).1,
    (Piece.contains_words noQualifier).2] at isParsed

/-- **Order and spacing of qualifiers.** A base that is its own type may have qualifiers and blanks
around it and in the place of its spaces outside template arguments: the type is that base with the
qualifiers that were put in, and with one pointer for each star. -/
theorem parse_of_decorates {base : String} {pieces : List Piece}
    (own : parse base = { base, text := base }) (notEmpty : base ≠ "")
    (decorates : Decorates pieces base.toList) :
    parse (Piece.declaration pieces) =
        { base
          isConst := pieces.contains .const
          isUnsigned := pieces.contains .unsigned
          isReference := pieces.contains .ampersand
          pointerDepth := pieces.count .star
          isArray := pieces.any Piece.isGroup
          text := Piece.declaration pieces } ∧
      ((parse (Piece.declaration pieces)).isPointer = true ↔ 0 < pieces.count .star) := by
  have isNormal : IsNormalBase base.toList := by
    have isParsed := isNormalBase_parse base
    rwa [own] at isParsed
  rw [parse_declaration isNormal notEmpty decorates]
  exact ⟨rfl, decide_eq_true_iff⟩

/-- The pieces of a declaration with qualifiers in front of, inside and behind its base. -/
def longPieces : List Piece :=
  [.blank '\t' rfl, .const, .star, .unsigned, .blank ' ' rfl, .part "long".toList rfl, .star,
    .const, .group "N * <".toList (by decide), .part "List<int, const T *>".toList rfl, .ampersand,
    .const, .group [] (by decide), .blank '\n' rfl]

theorem parse_longPieces :
    Piece.declaration longPieces =
        "\tconst*unsigned long*const[N * <]List<int, const T *>&const[]\n" ∧
      parse (Piece.declaration longPieces) =
        { base := "long List<int, const T *>"
          isConst := true
          isUnsigned := true
          isReference := true
          pointerDepth := 2
          isArray := true
          text := Piece.declaration longPieces } := by
  have own : parse "long List<int, const T *>" =
      { base := "long List<int, const T *>", text := "long List<int, const T *>" } := by
    decide +kernel
  have decorates : Decorates longPieces "long List<int, const T *>".toList :=
    ⟨by decide +kernel, by decide +kernel⟩
  refine ⟨by decide +kernel, (parse_of_decorates own (by decide) decorates).1.trans ?_⟩
  decide +kernel

end TypeShape

end Bindery.Symbols
