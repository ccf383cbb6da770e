/-
**Closing up the marks of a declaration.**

The space in front of a mark may be dropped: outside template arguments the mark itself keeps the
words of a declaration apart, and inside them the space is a part of the base. So the type that is
read has the same qualifiers, and its base loses the same spaces.

* `Text.closeMark` — a text without the space in front of each of its marks.
* `wordsFrom_closeMark` — the words of a text are closed up with it.
* `TypeShape.parse_closeMark` — the type of a closed-up declaration.
* `outside_closeMark` — outside template arguments its base is the same.
-/

import Bindery.Proofs.Symbols.Qualified

namespace Bindery

/-! ### Closing a text up -/

namespace Text

/-- A text without the space in front of each of its marks. -/
def closeMark (mark : Char) (cs : List Char) : List Char := replacePair ' ' mark [mark] cs

section CloseMark

variable {mark : Char}

theorem closeMark_nil : closeMark mark [] = [] := rfl

/-- A space in front of a mark is dropped. -/
theorem closeMark_pair (cs : List Char) :
    closeMark mark (' ' :: mark :: cs) = mark :: closeMark mark cs :=
  if_pos ⟨rfl, rfl⟩

/-- Everything else stays. -/
theorem closeMark_cons {c : Char} {cs : List Char} (noPair : ¬ (c = ' ' ∧ cs.head? = some mark)) :
    closeMark mark (c :: cs) = c :: closeMark mark cs := by
  cases cs with
  | nil => rfl
  | cons d cs => exact if_neg (by simpa using noPair)

/-- A text is closed up from its front: a space with its mark at a time, or another character. -/
theorem closeMark_induction {motive : List Char → Prop} (nil : motive [])
    (pair : ∀ cs, motive cs → motive (' ' :: mark :: cs))
    (cons : ∀ c cs, ¬ (c = ' ' ∧ cs.head? = some mark) → motive cs → motive (c :: cs))
    (cs : List Char) : motive cs := by
  fun_induction replacePair ' ' mark [mark] cs with
  | case1 => exact nil
  | case2 c => exact cons c [] (by simp) nil
  | case3 c d cs isPair ih =>
    obtain ⟨rfl, rfl⟩ := isPair
    exact pair cs ih
  | case4 c d cs noPair ih => exact cons c (d :: cs) (by simpa using noPair) ih

theorem mem_closeMark {c : Char} (notSpace : c ≠ ' ') (cs : List Char) :
    c ∈ closeMark mark cs ↔ c ∈ cs := by
  induction cs using @closeMark_induction mark with
  | nil => rfl
  | pair cs ih => simp [closeMark_pair, ih, notSpace]
  | cons d cs noPair ih => simp [closeMark_cons noPair, ih]

theorem closeMark_of_notMem {cs : List Char} (notThere : mark ∉ cs) : closeMark mark cs = cs := by
  induction cs using @closeMark_induction mark with
  | nil => rfl
  | pair cs ih => simp at notThere
  | cons c cs noPair ih =>
    rw [closeMark_cons noPair, ih fun isIn => notThere (List.mem_cons_of_mem _ isIn)]

theorem isEmpty_closeMark (cs : List Char) : (closeMark mark cs).isEmpty = cs.isEmpty := by
  induction cs using @closeMark_induction mark with
  | nil => rfl
  | pair cs ih => rw [closeMark_pair]; rfl
  | cons c cs noPair ih => rw [closeMark_cons noPair]; rfl

theorem getLast?_closeMark (cs : List Char) : (closeMark mark cs).getLast? = cs.getLast? := by
  induction cs using @closeMark_induction mark with
  | nil => rfl
  | pair cs ih => simp [closeMark_pair, List.getLast?_cons, ih]
  | cons c cs noPair ih => simp [closeMark_cons noPair, List.getLast?_cons, ih]

/-- Two texts are closed up one by one if no space of the first meets a mark of the second. -/
theorem closeMark_append {cs ds : List Char}
    (apart : ¬ (cs.getLast? = some ' ' ∧ ds.head? = some mark)) :
    closeMark mark (cs ++ ds) = closeMark mark cs ++ closeMark mark ds := by
  induction cs using @closeMark_induction mark with
  | nil => rfl
  | pair cs ih =>
    have apartRest : ¬ (cs.getLast? = some ' ' ∧ ds.head? = some mark) := by
      rintro ⟨isEnd, isStart⟩
      exact apart ⟨by simp [List.getLast?_cons, isEnd], isStart⟩
    rw [List.cons_append, List.cons_append, closeMark_pair, closeMark_pair, ih apartRest,
      List.cons_append]
  | cons c cs noPair ih =>
    have apartRest : ¬ (cs.getLast? = some ' ' ∧ ds.head? = some mark) := by
      rintro ⟨isEnd, isStart⟩
      exact apart ⟨by simp [List.getLast?_cons, isEnd], isStart⟩
    have noPairThere : ¬ (c = ' ' ∧ (cs ++ ds).head? = some mark) := by
      rintro ⟨rfl, isStart⟩
      cases cs with
      | nil => exact apart ⟨rfl, isStart⟩
      | cons d cs => exact noPair ⟨rfl, isStart⟩
    rw [List.cons_append, closeMark_cons noPairThere, closeMark_cons noPair, ih apartRest,
      List.cons_append]

/-- A text without the mark comes from itself only. -/
theorem closeMark_eq_iff (notSpace : mark ≠ ' ') {cs ds : List Char} (notThere : mark ∉ ds) :
    closeMark mark cs = ds ↔ cs = ds := by
  constructor
  · rintro rfl
    exact (closeMark_of_notMem fun isIn => notThere ((mem_closeMark notSpace cs).mpr isIn)).symm
  · rintro rfl
    exact closeMark_of_notMem notThere

/-! ### Blanks at the ends -/

theorem trimStart_closeMark (notBlank : isBlank mark = false) (cs : List Char) :
    trimStart (closeMark mark cs) = closeMark mark (trimStart cs) := by
  have notSpace : mark ≠ ' ' := by
    rintro rfl
    exact absurd notBlank (by decide)
  induction cs using @closeMark_induction mark with
  | nil => rfl
  | pair cs ih =>
    have dropped : trimStart (' ' :: mark :: cs) = mark :: cs :=
      (List.dropWhile_cons_of_pos (by decide)).trans
        (List.dropWhile_cons_of_neg (by simp [notBlank]))
    rw [dropped, closeMark_pair, closeMark_cons fun isPair => notSpace isPair.1]
    exact List.dropWhile_cons_of_neg (by simp [notBlank])
  | cons c cs noPair ih =>
    rw [closeMark_cons noPair]
    by_cases blank : isBlank c = true
    · exact (List.dropWhile_cons_of_pos blank).trans
        (ih.trans (congrArg _ (List.dropWhile_cons_of_pos blank).symm))
    · have stays : trimStart (c :: cs) = c :: cs := List.dropWhile_cons_of_neg blank
      rw [stays, closeMark_cons noPair]
      exact List.dropWhile_cons_of_neg blank

theorem trimEnd_closeMark (notBlank : isBlank mark = false) (cs : List Char) :
    trimEnd (closeMark mark cs) = closeMark mark (trimEnd cs) := by
  have areBlank : ∀ c ∈ cs.rtakeWhile isBlank, isBlank c = true := fun c isIn =>
    List.mem_rtakeWhile_imp isIn
  have whole : cs = trimEnd cs ++ cs.rtakeWhile isBlank :=
    (List.rdropWhile_append_rtakeWhile ..).symm
  have noMark : mark ∉ cs.rtakeWhile isBlank := fun isIn => by
    rw [areBlank mark isIn] at notBlank
    cases notBlank
  have apart : ¬ ((trimEnd cs).getLast? = some ' ' ∧ (cs.rtakeWhile isBlank).head? = some mark) :=
    fun isPair => noMark (List.mem_of_head? isPair.2)
  have ends : ∀ c ∈ (closeMark mark (trimEnd cs)).reverse.head?, isBlank c = false := by
    rw [List.head?_reverse, getLast?_closeMark]
    exact getLast_trimEnd cs
  conv_lhs => rw [whole]
  rw [closeMark_append apart, closeMark_of_notMem noMark, trimEnd_append_blanks areBlank]
  exact (congrArg List.reverse (trimStart_of_head ends)).trans (List.reverse_reverse _)

/-- Closing a text up and trimming it do not interfere. -/
theorem trim_closeMark (notBlank : isBlank mark = false) (cs : List Char) :
    trim (closeMark mark cs) = closeMark mark (trim cs) := by
  rw [trim, trimStart_closeMark notBlank, trimEnd_closeMark notBlank]
  rfl

end CloseMark

end Text

namespace Symbols

open Text (closeMark closeMark_nil closeMark_pair closeMark_cons closeMark_append
  closeMark_induction isEmpty_closeMark closeMark_eq_iff closeMark_of_notMem)

/-! ### Marks and words of one more character -/

/-- The words that a reader at some place makes of a text, behind the beginning `word` of a word. -/
def wordsFrom (place : MarkPlace) (word cs : List Char) : List (List Char) :=
  templateWords place.openLists word (Marks.read place cs).rest

/-- Marks and blanks outside template arguments stand between words. -/
def isGap (c : Char) : Bool := isMark c || Text.isBlank c

/-- A gap ends a word. -/
theorem wordsFrom_gap {c : Char} (gap : isGap c = true) (word cs : List Char) :
    wordsFrom (.depth 0) word (c :: cs) =
      templateWords 0 word [] ++ wordsFrom ((MarkPlace.depth 0).past c) [] cs := by
  obtain ⟨blank, isBlank, remains, closed⟩ : ∃ blank, Text.isBlank blank = true ∧
      ((MarkPlace.depth 0).marksOf c).rest = [blank] ∧
        ((MarkPlace.depth 0).past c).openLists = 0 := by
    by_cases mark : isMark c = true
    · obtain rfl | rfl | rfl := isMark_cases mark <;> exact ⟨' ', by decide, rfl, rfl⟩
    · rw [isGap, Bool.or_eq_true, or_iff_right mark] at gap
      obtain ⟨remains, isPast⟩ := @MarkPlace.marksOf_of_plain 0 c fun isIt => mark isIt.2
      rw [remains, isPast, templateDepth_of_isBlank gap]
      exact ⟨c, gap, rfl, rfl⟩
  have splits := @templateWords_append 0 [] rfl blank isBlank word
  rw [wordsFrom, wordsFrom, Marks.read_cons, Marks.append, remains, closed]
  exact splits _

/-- Everything else outside `[...]` is a part of its word. -/
theorem wordsFrom_part {n : Nat} {c : Char} (part : ¬ (n = 0 ∧ isGap c = true))
    (word cs : List Char) :
    wordsFrom (.depth n) word (c :: cs) =
      wordsFrom (.depth (templateDepth n c)) (word ++ [c]) cs := by
  have noMark : ¬ (n = 0 ∧ isMark c = true) := fun isIt =>
    part ⟨isIt.1, by rw [isGap, isIt.2, Bool.true_or]⟩
  have noBlank : ¬ (Text.isBlank c = true ∧ n = 0) := fun isIt =>
    part ⟨isIt.2, by rw [isGap, isIt.1, Bool.or_true]⟩
  obtain ⟨remains, isPast⟩ := MarkPlace.marksOf_of_plain noMark
  rw [wordsFrom, Marks.read_cons, Marks.append, remains, isPast]
  exact if_neg noBlank

/-- What stands between brackets is in no word. -/
theorem wordsFrom_brackets (c : Char) (word cs : List Char) :
    wordsFrom .brackets word (c :: cs) = wordsFrom (MarkPlace.brackets.past c) word cs := by
  rw [wordsFrom, Marks.read_cons, wordsFrom]
  show templateWords 0 word _ =
    templateWords (MarkPlace.openLists (if c = ']' then _ else _)) word _
  split <;> rfl

/-! ### Closing a declaration up -/

section Closed

variable {mark : Char}

theorem wordsFrom_nil (place : MarkPlace) (word : List Char) :
    wordsFrom place word [] = templateWords place.openLists word [] := by
  rw [wordsFrom, Marks.read_nil]

theorem templateWords_closeMark_nil (n : Nat) (word : List Char) :
    templateWords n (closeMark mark word) [] = (templateWords n word []).map (closeMark mark) := by
  simp only [templateWords, isEmpty_closeMark]
  split <;> rfl

/-- Where a reader stands, a character other than a bracket does not change. -/
theorem past_of_noBracket {c : Char} (noBracket : c ∉ ['<', '>', '[', ']']) (place : MarkPlace) :
    place.past c = place := by
  simp only [List.mem_cons, List.not_mem_nil, or_false, not_or] at noBracket
  obtain ⟨notOpen, notClose, notGroup, notEnd⟩ := noBracket
  cases place with
  | brackets => exact if_neg notEnd
  | depth n =>
    rw [MarkPlace.past, if_neg fun isGroup => notGroup isGroup.2,
      templateDepth_of_plain notOpen notClose]

/-- A space is no mark. -/
theorem marksOf_space (place : MarkPlace) : ∃ rest, place.marksOf ' ' = { rest } := by
  cases place with
  | brackets => exact ⟨[], rfl⟩
  | depth n => exact ⟨[' '], (MarkPlace.marksOf_of_plain (by simp [isMark])).1⟩

/-- Only what remains of a text depends on the spaces in front of its marks. -/
theorem read_closeMark (noBracket : mark ∉ ['<', '>', '[', ']']) (cs : List Char)
    (place : MarkPlace) :
    ∃ rest, Marks.read place (closeMark mark cs) = { Marks.read place cs with rest } := by
  induction cs using @closeMark_induction mark generalizing place with
  | nil => exact ⟨_, rfl⟩
  | pair cs ih =>
    obtain ⟨rest, ofRest⟩ := ih place
    obtain ⟨space, ofSpace⟩ := marksOf_space place
    have pastSpace : place.past ' ' = place := past_of_noBracket (by decide) place
    rw [closeMark_pair, Marks.read_cons, Marks.read_cons, Marks.read_cons, pastSpace,
      past_of_noBracket noBracket, ofRest, ofSpace]
    exact ⟨(place.marksOf mark).rest ++ rest, by simp [Marks.append]⟩
  | cons c cs noPair ih =>
    obtain ⟨rest, ofRest⟩ := ih (place.past c)
    rw [closeMark_cons noPair, Marks.read_cons, Marks.read_cons, ofRest]
    exact ⟨(place.marksOf c).rest ++ rest, rfl⟩

/-- Words that do not start with the mark are closed up one by one. -/
theorem closeMark_intercalate (notSpace : mark ≠ ' ') {words : List (List Char)}
    (notEmpty : ∀ word ∈ words, word ≠ []) (noMark : ∀ word ∈ words, word.head? ≠ some mark) :
    closeMark mark ([' '].intercalate words) = [' '].intercalate (words.map (closeMark mark)) := by
  induction words with
  | nil => rfl
  | cons word rest ih =>
    rw [List.forall_mem_cons] at notEmpty noMark
    cases rest with
    | nil => simp
    | cons second others =>
      have joined : ¬ (' ' = ' ' ∧ ([' '].intercalate (second :: others)).head? = some mark) := by
        rintro ⟨-, isHead⟩
        obtain ⟨other, isOther, isStart⟩ := head_intercalate notEmpty.2 mark isHead
        exact noMark.2 other isOther isStart
      rw [List.map_cons, List.map_cons, List.intercalate_cons_cons, List.intercalate_cons_cons,
        ← List.map_cons, ← ih notEmpty.2 noMark.2, List.append_assoc, List.append_assoc,
        closeMark_append (by simpa using fun _ => notSpace.symm), List.singleton_append,
        closeMark_cons joined, List.singleton_append]

/-- A text without the mark is a closed-up word exactly if it is a word. -/
theorem contains_map_closeMark (notSpace : mark ≠ ' ') {text : List Char} (notThere : mark ∉ text)
    (words : List (List Char)) :
    (words.map (closeMark mark)).contains text = words.contains text := by
  rw [Bool.eq_iff_iff, List.contains_iff_mem, List.contains_iff_mem, List.mem_map]
  constructor
  · rintro ⟨word, isWord, same⟩
    exact (closeMark_eq_iff notSpace notThere).mp same ▸ isWord
  · exact fun isWord => ⟨text, isWord, closeMark_of_notMem notThere⟩

namespace TypeShape

/-- The base that words make; `unsigned` alone stands for `unsigned int`. -/
def baseOf (words : List (List Char)) : List Char :=
  if (spelledBy words).isEmpty && words.contains "unsigned".toList then "int".toList
  else spelledBy words

/-- The type that marks and words make. -/
def ofWords (fragment : String) (marks : Marks) (words : List (List Char)) : TypeShape :=
  if (baseOf words).isEmpty then { text := fragment }
  else
    { base := String.ofList (baseOf words)
      isConst := words.contains "const".toList
      isUnsigned := words.contains "unsigned".toList
      isReference := marks.isReference
      pointerDepth := marks.stars
      isArray := marks.isArray
      text := fragment }

theorem parse_eq_ofWords (fragment : String) : parse fragment =
    ofWords fragment (Marks.read (.depth 0) (Text.trim fragment.toList))
      (templateWords 0 [] (unmarkedText fragment)) := rfl

/-- No word of a declaration starts with a mark. -/
theorem isMark_head_of_mem {fragment : String} {word : List Char}
    (isWord : word ∈ templateWords 0 [] (unmarkedText fragment)) :
    ∀ c ∈ word.head?, isMark c = false := by
  intro c isHead
  have isOutside : c ∈ outside 0 word := by
    cases word with
    | nil => cases isHead
    | cons d rest =>
      obtain rfl := Option.some.inj isHead
      exact List.mem_cons_self ..
  rcases (isWordOf_unmarkedText isWord).source c isOutside with isNone | isRest
  · cases isNone
  · exact Marks.isMark_of_mem_read (.depth 0) _ c isRest

end TypeShape

variable (isStar : mark = '*' ∨ mark = '&')

include isStar

/-- The words of a text are closed up with it. A word that is read is closed up already, unless it
ends with a space in front of a mark; between brackets no word is read. -/
theorem wordsFrom_closeMark (cs : List Char) : ∀ (place : MarkPlace) (word : List Char),
    (place = .brackets → word = []) → ¬ (word.getLast? = some ' ' ∧ cs.head? = some mark) →
    wordsFrom place (closeMark mark word) (closeMark mark cs) =
      (wordsFrom place word cs).map (closeMark mark) := by
  induction cs using @closeMark_induction mark with
  | nil =>
    intro place word _ _
    rw [closeMark_nil, wordsFrom_nil, wordsFrom_nil, templateWords_closeMark_nil]
  | pair cs ih =>
    intro place word noWord _
    have ofRest := ih place [] (fun _ => rfl) (by simp)
    have gap : isGap mark = true := by rcases isStar with rfl | rfl <;> rfl
    have noBracket : mark ∉ ['<', '>', '[', ']'] := by rcases isStar with rfl | rfl <;> decide
    have notSpace : ' ' ≠ mark := by rcases isStar with rfl | rfl <;> decide
    have pastMark := past_of_noBracket noBracket place
    have pastSpace : place.past ' ' = place := past_of_noBracket (by decide) place
    rw [closeMark_pair]
    cases place with
    | brackets =>
      obtain rfl := noWord rfl
      rw [closeMark_nil] at ofRest ⊢
      rw [wordsFrom_brackets, wordsFrom_brackets, pastMark, pastSpace, wordsFrom_brackets, pastMark,
        ofRest]
    | depth n =>
      by_cases isOutside : n = 0
      · -- both characters stand between words
        subst isOutside
        have spaceGap : isGap ' ' = true := by decide
        rw [wordsFrom_gap gap, wordsFrom_gap spaceGap, pastMark, pastSpace, wordsFrom_gap gap,
          pastMark, List.map_append, List.map_append, templateWords_closeMark_nil, ← ofRest]
        rfl
      · -- both characters are parts of the word, and only one of them remains
        have insideMark : ¬ (n = 0 ∧ isGap mark = true) := fun isIt => isOutside isIt.1
        have insideSpace : ¬ (n = 0 ∧ isGap ' ' = true) := fun isIt => isOutside isIt.1
        have sameDepth : templateDepth n mark = n ∧ templateDepth n ' ' = n := by
          rcases isStar with rfl | rfl <;> exact ⟨rfl, rfl⟩
        have joined : closeMark mark (word ++ [' '] ++ [mark]) = closeMark mark word ++ [mark] := by
          rw [List.append_assoc, closeMark_append (by simp [notSpace]), List.singleton_append,
            closeMark_pair]
          rfl
        rw [wordsFrom_part insideMark, wordsFrom_part insideSpace, sameDepth.1, sameDepth.2,
          wordsFrom_part insideMark, sameDepth.1, ← joined]
        exact ih _ _ nofun (by simp [notSpace.symm])
  | cons c cs noPair ih =>
    intro place word noWord apart
    rw [closeMark_cons noPair]
    cases place with
    | brackets =>
      obtain rfl := noWord rfl
      rw [wordsFrom_brackets, wordsFrom_brackets]
      exact ih _ [] (fun _ => rfl) (by simp)
    | depth n =>
      by_cases gap : n = 0 ∧ isGap c = true
      · obtain ⟨rfl, gap⟩ := gap
        rw [wordsFrom_gap gap, wordsFrom_gap gap, List.map_append, templateWords_closeMark_nil]
        exact congrArg _ (ih _ [] (fun _ => rfl) (by simp))
      · have joined : closeMark mark (word ++ [c]) = closeMark mark word ++ [c] := by
          rw [closeMark_append (by simpa using apart)]
          rfl
        rw [wordsFrom_part gap, wordsFrom_part gap, ← joined]
        exact ih _ _ nofun (by simpa using noPair)

namespace TypeShape

/-- Closing the words of a base up closes the base up. -/
theorem baseOf_map_closeMark {words : List (List Char)} (notEmpty : ∀ word ∈ words, word ≠ [])
    (noMark : ∀ word ∈ words, word.head? ≠ some mark) :
    baseOf (words.map (closeMark mark)) = closeMark mark (baseOf words) := by
  have ofMark : mark ≠ ' ' ∧ mark ∉ "const".toList ∧ mark ∉ "unsigned".toList ∧
      mark ∉ "int".toList := by
    rcases isStar with rfl | rfl <;> decide
  obtain ⟨notSpace, notConst, notUnsigned, notInt⟩ := ofMark
  have sameKind : ∀ word, isQualifier (closeMark mark word) = isQualifier word := fun word => by
    rw [Bool.eq_iff_iff]
    simp only [isQualifier, Bool.or_eq_true, beq_iff_eq, closeMark_eq_iff notSpace notConst,
      closeMark_eq_iff notSpace notUnsigned]
  have isWord : ∀ word ∈ words.filter (fun word => !isQualifier word), word ∈ words :=
    fun word isIn => (List.mem_filter.mp isIn).1
  have spelt : spelledBy (words.map (closeMark mark)) = closeMark mark (spelledBy words) := by
    rw [spelledBy, spelledBy, List.filter_map, closeMark_intercalate notSpace
      (fun word isIn => notEmpty word (isWord word isIn))
      fun word isIn => noMark word (isWord word isIn)]
    simp only [Function.comp_def, sameKind]
  simp only [baseOf, spelt, isEmpty_closeMark, contains_map_closeMark notSpace notUnsigned]
  split
  · exact (closeMark_of_notMem notInt).symm
  · rfl

/-- The type of a closed-up declaration has the closed-up base; its qualifiers are the same. -/
theorem parse_closeMark (fragment : String) :
    parse (String.ofList (closeMark mark fragment.toList)) =
      { parse fragment with
        base := String.ofList (closeMark mark (parse fragment).base.toList)
        text := String.ofList (closeMark mark fragment.toList) } := by
  have ofMark : isMark mark = true ∧ Text.isBlank mark = false ∧ mark ≠ ' ' ∧
      mark ∉ ['<', '>', '[', ']'] ∧ mark ∉ "const".toList ∧ mark ∉ "unsigned".toList := by
    rcases isStar with rfl | rfl <;> decide
  obtain ⟨isMark, notBlank, notSpace, noBracket, notConst, notUnsigned⟩ := ofMark
  obtain ⟨rest, areMarks⟩ := read_closeMark noBracket (Text.trim fragment.toList) (.depth 0)
  have trimmed := Text.trim_closeMark notBlank fragment.toList
  have areWords : templateWords 0 [] (unmarkedText (.ofList (closeMark mark fragment.toList))) =
      (templateWords 0 [] (unmarkedText fragment)).map (closeMark mark) := by
    rw [unmarkedText, String.toList_ofList, trimmed]
    exact wordsFrom_closeMark isStar (Text.trim fragment.toList) (.depth 0) [] (fun _ => rfl)
      (by simp)
  have isBase : baseOf ((templateWords 0 [] (unmarkedText fragment)).map (closeMark mark)) =
      closeMark mark (baseOf (templateWords 0 [] (unmarkedText fragment))) := by
    refine baseOf_map_closeMark isStar (fun word isWord => (isWordOf_unmarkedText isWord).notEmpty)
      fun word isWord isHead => ?_
    rw [isMark_head_of_mem isWord mark isHead] at isMark
    cases isMark
  rw [parse_eq_ofWords, parse_eq_ofWords, areWords, String.toList_ofList, trimmed, areMarks]
  unfold ofWords
  simp only [isBase, isEmpty_closeMark, contains_map_closeMark notSpace notConst,
    contains_map_closeMark notSpace notUnsigned]
  cases (baseOf (templateWords 0 [] (unmarkedText fragment))).isEmpty with
  | true => rfl
  | false => simp

end TypeShape

/-- Where no mark stands outside template arguments, only what is inside is closed up. -/
theorem outside_closeMark {depth : Nat} {cs : List Char}
    (unmarked : ∀ c ∈ outside depth cs, isMark c = false) :
    outside depth (closeMark mark cs) = outside depth cs := by
  have sameDepth : ∀ n, templateDepth n mark = n ∧ templateDepth n ' ' = n := fun n => by
    rcases isStar with rfl | rfl <;> exact ⟨rfl, rfl⟩
  induction cs using @closeMark_induction mark generalizing depth with
  | nil => rfl
  | pair cs ih =>
    by_cases isZero : depth = 0
    · subst isZero
      have isMark : isMark mark = true := by rcases isStar with rfl | rfl <;> rfl
      rw [unmarked mark (by simp [outside, sameDepth])] at isMark
      cases isMark
    · have whole : outside depth (' ' :: mark :: cs) = outside depth cs := by
        rw [outside, if_neg isZero, (sameDepth depth).2, outside, if_neg isZero,
          (sameDepth depth).1]
      rw [whole] at unmarked ⊢
      rw [closeMark_pair, outside, if_neg isZero, (sameDepth depth).1, ih unmarked]
  | cons c cs noPair ih =>
    have ofRest := ih fun d isIn => unmarked d (mem_outside_cons isIn)
    rw [closeMark_cons noPair, outside, outside, ofRest]

end Closed

end Symbols

end Bindery
