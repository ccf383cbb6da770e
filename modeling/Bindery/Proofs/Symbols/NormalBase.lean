/-
**The normal form of a base.**

Whatever text a type is read from, its base is left without marks and qualifiers outside template
arguments, in words with one space between two of them. Read again, such a base is its own.

* `IsNormalBase` — what a base looks like.
* `TypeShape.parse_of_isNormalBase` — a base in normal form is a type without qualifiers.
* `TypeShape.isNormalBase_parse` — every base that is read is in normal form.
* `TypeShape.parse_normalizes` — both, with what a text without a base gives.
-/

import Bindery.Proofs.Symbols.Spelling
import Bindery.Proofs.Symbols.TypeWords

namespace Bindery

/-! ### Ends of texts -/

namespace Text

theorem getLast_trimEnd (cs : List Char) : ∀ c ∈ (trimEnd cs).getLast?, isBlank c = false := by
  rw [trimEnd, List.getLast?_reverse]
  exact head_trimStart cs.reverse

/-- A text without blanks at its ends loses nothing to trimming. -/
theorem trim_of_ends {cs : List Char} (head : ∀ c ∈ cs.head?, isBlank c = false)
    (last : ∀ c ∈ cs.getLast?, isBlank c = false) : trim cs = cs := by
  have started : trimStart cs.reverse = cs.reverse :=
    trimStart_of_head (by rwa [List.head?_reverse])
  rw [trim, trimStart_of_head head]
  exact (congrArg List.reverse started).trans (List.reverse_reverse _)

end Text

namespace Symbols

/-! ### Normal bases -/

/-- A word of a base: it is no qualifier, and there is no blank in it outside template
arguments. -/
structure IsBaseWord (word : List Char) : Prop where
  notEmpty : word ≠ []
  unbroken : ∀ c ∈ outside 0 word, Text.isBlank c = false
  notConst : word ≠ "const".toList
  notUnsigned : word ≠ "unsigned".toList

/-- A base without marks outside template arguments, spelled as words with one space between two of
them. Only behind the last word may template arguments be open. -/
structure IsNormalBase (base : List Char) : Prop where
  unmarked : ∀ c ∈ outside 0 base, isMark c = false
  spelled : ∃ words, base = [' '].intercalate words ∧ (∀ word ∈ words, IsBaseWord word) ∧
    words.Pairwise fun word _ => depthBehind 0 word = 0
  trimmed : Text.trim base = base

theorem IsBaseWord.isQualifier {word : List Char} (isWord : IsBaseWord word) :
    isQualifier word = false := by
  rw [Symbols.isQualifier, beq_false_of_ne isWord.notConst, beq_false_of_ne isWord.notUnsigned]
  rfl

/-! ### Words with spaces between them -/

section Joined

variable {words : List (List Char)}

/-- Words that are joined stand outside template arguments as they do alone. -/
theorem mem_outside_intercalate (closed : words.Pairwise fun word _ => depthBehind 0 word = 0) :
    ∀ c ∈ outside 0 ([' '].intercalate words), c = ' ' ∨ ∃ word ∈ words, c ∈ outside 0 word := by
  induction words with
  | nil => exact fun _ isIn => nomatch isIn
  | cons word rest ih =>
    obtain ⟨closedWord, closedRest⟩ := List.pairwise_cons.mp closed
    cases rest with
    | nil => exact fun c isIn => .inr ⟨word, List.mem_singleton_self _, by simpa using isIn⟩
    | cons second others =>
      intro c isIn
      rw [List.intercalate_cons_cons, List.append_assoc, outside_append,
        closedWord second (List.mem_cons_self ..), List.mem_append] at isIn
      rcases isIn with isHere | isLater
      · exact .inr ⟨word, List.mem_cons_self .., isHere⟩
      rcases List.mem_cons.mp isLater with isSpace | isLater
      · exact .inl isSpace
      · obtain isSpace | ⟨other, isOther, isInside⟩ := ih closedRest c isLater
        · exact .inl isSpace
        · exact .inr ⟨other, List.mem_cons_of_mem _ isOther, isInside⟩

theorem mem_outside_of_mem (closed : words.Pairwise fun word _ => depthBehind 0 word = 0)
    {word : List Char} (isWord : word ∈ words) {c : Char} (isIn : c ∈ outside 0 word) :
    c ∈ outside 0 ([' '].intercalate words) := by
  induction words with
  | nil => cases isWord
  | cons first rest ih =>
    obtain ⟨closedFirst, closedRest⟩ := List.pairwise_cons.mp closed
    cases rest with
    | nil =>
      rw [List.intercalate_singleton]
      exact List.mem_singleton.mp isWord ▸ isIn
    | cons second others =>
      rw [List.intercalate_cons_cons, List.append_assoc, outside_append,
        closedFirst second (List.mem_cons_self ..)]
      rcases List.mem_cons.mp isWord with rfl | isLater
      · exact List.mem_append_left _ isIn
      · exact List.mem_append_right _ (List.mem_cons_of_mem _ (ih closedRest isLater))

/-- What is joined has the words of its parts. -/
theorem templateWords_intercalate
    (closed : words.Pairwise fun word _ => depthBehind 0 word = 0) :
    templateWords 0 [] ([' '].intercalate words) = words.flatMap (templateWords 0 []) := by
  induction words with
  | nil => rfl
  | cons word rest ih =>
    obtain ⟨closedWord, closedRest⟩ := List.pairwise_cons.mp closed
    cases rest with
    | nil => simp
    | cons second others =>
      rw [List.intercalate_cons_cons, List.append_assoc, List.singleton_append,
        templateWords_append (closedWord second (List.mem_cons_self ..)) (by decide),
        ih closedRest, ← List.flatMap_cons]

/-- Joined words start as the first one does. -/
theorem head_intercalate (notEmpty : ∀ word ∈ words, word ≠ []) :
    ∀ c ∈ ([' '].intercalate words).head?, ∃ word ∈ words, c ∈ word.head? := by
  cases words with
  | nil => exact fun _ isHead => nomatch isHead
  | cons word rest =>
    obtain ⟨first, others, rfl⟩ :=
      List.exists_cons_of_ne_nil (notEmpty word (List.mem_cons_self ..))
    intro c isHead
    refine ⟨first :: others, List.mem_cons_self .., ?_⟩
    cases rest with
    | nil => simpa using isHead
    | cons second more => simpa [List.intercalate_cons_cons] using isHead

/-- Joined words end as the last one does. -/
theorem getLast_intercalate (notEmpty : ∀ word ∈ words, word ≠ []) :
    ∀ c ∈ ([' '].intercalate words).getLast?, ∃ word ∈ words, c ∈ word.getLast? := by
  induction words with
  | nil => exact fun _ isLast => nomatch isLast
  | cons word rest ih =>
    rw [List.forall_mem_cons] at notEmpty
    intro c isLast
    cases rest with
    | nil => exact ⟨word, List.mem_singleton_self _, by simpa using isLast⟩
    | cons second others =>
      have joined : [' '].intercalate (second :: others) ≠ [] := by
        have isWord := notEmpty.2 second (List.mem_cons_self ..)
        cases others <;> simp [List.intercalate_cons_cons, isWord]
      rw [List.intercalate_cons_cons, List.getLast?_append_of_ne_nil _ joined] at isLast
      obtain ⟨other, isOther, isEnd⟩ := ih notEmpty.2 c isLast
      exact ⟨other, List.mem_cons_of_mem _ isOther, isEnd⟩

end Joined

/-- The words of a base in normal form are found in it, and spell it. -/
theorem IsNormalBase.isSpelled {base : List Char} (isNormal : IsNormalBase base) :
    (∀ word ∈ templateWords 0 [] base, IsBaseWord word) ∧
      [' '].intercalate (templateWords 0 [] base) = base := by
  obtain ⟨words, rfl, areWords, closed⟩ := isNormal.spelled
  have areFound : words.flatMap (templateWords 0 []) = words.flatMap ([·]) :=
    List.flatMap_congr fun word isWord => templateWords_of_unbroken
      (areWords word isWord).unbroken [] (areWords word isWord).notEmpty
  rw [templateWords_intercalate closed, areFound, List.flatMap_singleton']
  exact ⟨areWords, rfl⟩

/-! ### The ends of words -/

/-- A word whose template arguments are closed does not end with a blank. -/
theorem getLast_of_closed {word : List Char}
    (unbroken : ∀ c ∈ outside 0 word, Text.isBlank c = false) (closed : depthBehind 0 word = 0) :
    ∀ c ∈ word.getLast?, Text.isBlank c = false := by
  intro c isLast
  obtain ⟨front, rfl⟩ := List.getLast?_eq_some_iff.mp isLast
  rw [Bool.eq_false_iff]
  intro isBlank
  rw [depthBehind_append] at closed
  have isOutside : depthBehind 0 front = 0 :=
    (templateDepth_of_isBlank isBlank _).symm.trans closed
  have isIn : c ∈ outside 0 (front ++ [c]) := by
    rw [outside_append, isOutside]
    exact List.mem_append_right _ (List.mem_singleton_self c)
  rw [unbroken c isIn] at isBlank
  cases isBlank

/-- If a fragment does not end with a blank, what remains of it ends with one only outside template
arguments, where a mark stood. -/
theorem Marks.closed_of_getLast {cs : List Char}
    (last : ∀ c ∈ cs.getLast?, Text.isBlank c = false) (place : MarkPlace) :
    ∀ c ∈ (Marks.read place cs).rest.getLast?, Text.isBlank c = true →
      (place.behind cs).openLists = 0 := by
  intro c isLast isBlank
  cases cs using List.reverseRecOn with
  | nil => rw [Marks.read_nil] at isLast; cases isLast
  | append_singleton front final =>
    rw [MarkPlace.behind_append]
    rw [Marks.read_of_append, Marks.read_singleton] at isLast
    generalize place.behind front = reached at isLast ⊢
    cases reached with
    | brackets =>
      show (if final = ']' then MarkPlace.depth 0 else .brackets).openLists = 0
      split <;> rfl
    | depth n =>
      by_cases mark : n = 0 ∧ isMark final = true
      · obtain ⟨rfl, mark⟩ := mark
        obtain rfl | rfl | rfl := isMark_cases mark <;> rfl
      · rw [(MarkPlace.marksOf_of_plain mark).1, Marks.append, List.getLast?_concat] at isLast
        obtain rfl := Option.some.inj isLast
        rw [last final (by simp)] at isBlank
        cases isBlank

/-! ### What is read -/

namespace TypeShape

/-- What remains of a fragment without its marks. -/
def unmarkedText (fragment : String) : List Char :=
  (Marks.read (.depth 0) (Text.trim fragment.toList)).rest

/-- The base that words spell: those that are no qualifiers. -/
def spelledBy (words : List (List Char)) : List Char :=
  [' '].intercalate (words.filter fun word => !isQualifier word)

theorem isWordOf_unmarkedText {fragment : String} {word : List Char}
    (isWord : word ∈ templateWords 0 [] (unmarkedText fragment)) :
    IsWordOf 0 [] (unmarkedText fragment) word :=
  @isWordOf_of_mem 0 [] _ rfl (fun _ isIn => nomatch isIn) word isWord

/-- No word of a fragment ends with a blank. -/
theorem getLast_of_mem {fragment : String} {word : List Char}
    (isWord : word ∈ templateWords 0 [] (unmarkedText fragment)) :
    ∀ c ∈ word.getLast?, Text.isBlank c = false := by
  have found := isWordOf_unmarkedText isWord
  rcases found.closed with closed | ⟨isSuffix, sameDepth⟩
  · exact getLast_of_closed found.unbroken closed
  · intro c isLast
    rw [Bool.eq_false_iff]
    intro isBlank
    have isEnd : c ∈ (unmarkedText fragment).getLast? := by
      obtain ⟨front, whole⟩ := isSuffix
      rw [List.nil_append] at whole
      rw [← whole, List.getLast?_append_of_ne_nil _ found.notEmpty]
      exact isLast
    have closed : depthBehind 0 word = 0 := by
      rw [sameDepth]
      exact (Marks.depthBehind_read (.depth 0) _).trans
        (Marks.closed_of_getLast (Text.getLast_trimEnd _) _ c isEnd isBlank)
    rw [getLast_of_closed found.unbroken closed c isLast] at isBlank
    cases isBlank

/-- What the words of a fragment spell is in normal form. -/
theorem isNormalBase_spelledBy (fragment : String) :
    IsNormalBase (spelledBy (templateWords 0 [] (unmarkedText fragment))) := by
  have ofWord : ∀ word ∈ (templateWords 0 [] (unmarkedText fragment)).filter
      (fun word => !isQualifier word), word ∈ templateWords 0 [] (unmarkedText fragment) ∧
        IsBaseWord word := by
    intro word isWord
    obtain ⟨isWord, notQualifier⟩ := List.mem_filter.mp isWord
    have found := isWordOf_unmarkedText isWord
    simp only [isQualifier, Bool.not_or, Bool.and_eq_true, Bool.not_eq_true', beq_eq_false_iff_ne]
      at notQualifier
    exact ⟨isWord, found.notEmpty, found.unbroken, notQualifier.1, notQualifier.2⟩
  have noWord : depthBehind 0 [] = 0 := rfl
  have closed := (pairwise_templateWords noWord (unmarkedText fragment)).filter
    fun word => !isQualifier word
  have notEmpty := fun word isWord => (ofWord word isWord).2.notEmpty
  refine ⟨fun c isIn => ?_, ⟨_, rfl, fun word isWord => (ofWord word isWord).2, closed⟩,
    Text.trim_of_ends (fun c isHead => ?_) fun c isLast => ?_⟩
  · obtain rfl | ⟨word, isWord, isInside⟩ := mem_outside_intercalate closed c isIn
    · decide
    · have found := isWordOf_unmarkedText (ofWord word isWord).1
      rcases found.source c isInside with isNone | isRest
      · cases isNone
      · exact Marks.isMark_of_mem_read (.depth 0) _ c isRest
  · obtain ⟨word, isWord, isStart⟩ := head_intercalate notEmpty c isHead
    refine (ofWord word isWord).2.unbroken c ?_
    cases word with
    | nil => cases isStart
    | cons first others =>
      obtain rfl := Option.some.inj isStart
      exact List.mem_cons_self ..
  · obtain ⟨word, isWord, isEnd⟩ := getLast_intercalate notEmpty c isLast
    exact getLast_of_mem (ofWord word isWord).1 c isEnd

/-- The shape of a fragment whose words spell a base. -/
theorem parse_of_spelled {fragment : String} {marks : Marks} {words : List (List Char)}
    (areMarks : Marks.read (.depth 0) (Text.trim fragment.toList) = marks)
    (areWords : templateWords 0 [] marks.rest = words) (spells : spelledBy words ≠ []) :
    parse fragment =
      { base := String.ofList (spelledBy words)
        isConst := words.contains "const".toList
        isUnsigned := words.contains "unsigned".toList
        isReference := marks.isReference
        pointerDepth := marks.stars
        isArray := marks.isArray
        text := fragment } := by
  have notEmpty : (spelledBy words).isEmpty = false := by simpa using spells
  unfold parse
  simp only [areMarks, areWords]
  rw [← spelledBy, notEmpty]
  simp [notEmpty]

/-- A fragment has no base, or one that its words spell, or that of `unsigned` alone. -/
theorem parse_cases (fragment : String) :
    parse fragment = { text := fragment } ∨
      (parse fragment).base ≠ "" ∧ ((parse fragment).base = "int" ∨
        (parse fragment).base =
          String.ofList (spelledBy (templateWords 0 [] (unmarkedText fragment)))) := by
  by_cases spells : spelledBy (templateWords 0 [] (unmarkedText fragment)) = []
  · have isEmpty : (spelledBy (templateWords 0 [] (unmarkedText fragment))).isEmpty = true := by
      simpa using spells
    unfold parse
    dsimp only
    rw [← unmarkedText, ← spelledBy, isEmpty]
    cases (templateWords 0 [] (unmarkedText fragment)).contains "unsigned".toList with
    | false => exact .inl (if_pos isEmpty)
    | true => exact .inr ⟨(by decide : "int" ≠ ""), .inl rfl⟩
  · have isSpelled : (parse fragment).base =
        String.ofList (spelledBy (templateWords 0 [] (unmarkedText fragment))) := by
      rw [parse_of_spelled rfl rfl spells]
      rfl
    rw [isSpelled]
    exact .inr ⟨by simpa using spells, .inr rfl⟩

/-- A base in normal form is read as itself, without qualifiers. -/
theorem parse_of_isNormalBase {base : String} (isNormal : IsNormalBase base.toList)
    (notEmpty : base ≠ "") : parse base = { base, text := base } := by
  have areMarks := (Marks.read_of_unmarked isNormal.unmarked).1
  obtain ⟨areWords, isSpelled⟩ := isNormal.isSpelled
  have noneDropped : spelledBy (templateWords 0 [] base.toList) = base.toList := by
    rw [spelledBy, List.filter_eq_self.mpr fun word isWord => by
      rw [(areWords word isWord).isQualifier]
      rfl, isSpelled]
  rw [parse_of_spelled (by rw [isNormal.trimmed, areMarks]) rfl
    (by rw [noneDropped]; simpa using notEmpty), noneDropped, String.ofList_toList]
  have noConst : (templateWords 0 [] base.toList).contains "const".toList = false := by
    simpa using fun isWord => (areWords _ isWord).notConst rfl
  have noUnsigned : (templateWords 0 [] base.toList).contains "unsigned".toList = false := by
    simpa using fun isWord => (areWords _ isWord).notUnsigned rfl
  rw [noConst, noUnsigned]

theorem isNormalBase_int : IsNormalBase "int".toList := by
  have allOutside : outside 0 "int".toList = ['i', 'n', 't'] := by decide
  have isWord : IsBaseWord "int".toList :=
    { notEmpty := by decide
      unbroken := by
        rw [allOutside]
        simp only [List.forall_mem_cons]
        exact ⟨rfl, rfl, rfl, nofun⟩
      notConst := by decide
      notUnsigned := by decide }
  refine ⟨?_, ⟨["int".toList], rfl, List.forall_mem_singleton.mpr isWord,
    List.pairwise_singleton _ _⟩, by decide⟩
  rw [allOutside]
  simp only [List.forall_mem_cons]
  exact ⟨rfl, rfl, rfl, nofun⟩

theorem isNormalBase_nil : IsNormalBase [] where
  unmarked := fun _ isIn => nomatch isIn
  spelled := ⟨[], rfl, ⟨fun _ isIn => (nomatch isIn), .nil⟩⟩
  trimmed := rfl

theorem isNormalBase_parse (fragment : String) : IsNormalBase (parse fragment).base.toList := by
  rcases parse_cases fragment with isBare | ⟨_, isInt | isSpelled⟩
  · rw [isBare]
    exact isNormalBase_nil
  · rw [isInt]
    exact isNormalBase_int
  · rw [isSpelled, String.toList_ofList]
    exact isNormalBase_spelledBy fragment

/-- **Bases are in normal form.** A type is a pointer if there is at least one star. A text without
a base gives no qualifiers. Outside template arguments a base has no marks and no qualifiers, and
one space between two words; read again it is the same base without qualifiers. -/
theorem parse_normalizes (raw : String) :
    ((parse raw).isPointer = true ↔ 0 < (parse raw).pointerDepth) ∧
      ((parse raw).base = "" → parse raw = { text := raw }) ∧
      IsNormalBase (parse raw).base.toList ∧
      parse (parse raw).base = { base := (parse raw).base, text := (parse raw).base } := by
  refine ⟨decide_eq_true_iff, fun isEmpty => ?_, isNormalBase_parse raw, ?_⟩
  · rcases parse_cases raw with isBare | ⟨hasBase, _⟩
    · exact isBare
    · exact absurd isEmpty hasBase
  · by_cases isEmpty : (parse raw).base = ""
    · rw [isEmpty]
      decide
    · exact parse_of_isNormalBase (isNormalBase_parse raw) isEmpty

end TypeShape

end Symbols

end Bindery
