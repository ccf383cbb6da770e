/-
**The two passes over a declaration: its marks and its words.**

The first pass takes the marks outside template arguments out of a fragment, the second one cuts
what remains into words. Each counts the depth of template arguments for itself. Both are described
piece by piece here, with one count behind each piece, so that they can be followed side by side.

* `outside` — the characters outside template arguments.
* `Marks.read_of_append` — the marks of two pieces.
* `templateWords_append` — the words on the two sides of a blank.
* `depthBehind_read` — the second pass stands as deep as the first one.
-/

import Mathlib.Data.List.Infix
import Bindery.Symbols.TypeShape

namespace Bindery.Symbols

/-! ### Depth -/

/-- The depth of template arguments behind some characters; a `>` that closes nothing does not
count. -/
def depthBehind (depth : Nat) (cs : List Char) : Nat := cs.foldl templateDepth depth

/-- The characters outside template arguments, where `depth` of them are open in front. -/
def outside : Nat → List Char → List Char
  | _, [] => []
  | depth, c :: cs =>
    if depth = 0 then c :: outside (templateDepth depth c) cs
    else outside (templateDepth depth c) cs

theorem depthBehind_cons (depth : Nat) (c : Char) (cs : List Char) :
    depthBehind depth (c :: cs) = depthBehind (templateDepth depth c) cs := rfl

theorem depthBehind_append (depth : Nat) (cs ds : List Char) :
    depthBehind depth (cs ++ ds) = depthBehind (depthBehind depth cs) ds := List.foldl_append

theorem outside_append (depth : Nat) (cs ds : List Char) :
    outside depth (cs ++ ds) = outside depth cs ++ outside (depthBehind depth cs) ds := by
  induction cs generalizing depth with
  | nil => rfl
  | cons c cs ih =>
    rw [List.cons_append, outside, outside, ih, depthBehind_cons]
    split <;> rfl

theorem mem_outside_cons {depth : Nat} {c d : Char} {cs : List Char}
    (isIn : d ∈ outside (templateDepth depth c) cs) : d ∈ outside depth (c :: cs) := by
  rw [outside]
  split
  · exact List.mem_cons_of_mem _ isIn
  · exact isIn

theorem templateDepth_of_plain {c : Char} (notOpen : c ≠ '<') (notClose : c ≠ '>') (depth : Nat) :
    templateDepth depth c = depth := by
  rw [templateDepth, if_neg notOpen, if_neg notClose]

theorem templateDepth_of_isBlank {c : Char} (blank : Text.isBlank c = true) (depth : Nat) :
    templateDepth depth c = depth :=
  templateDepth_of_plain (by rintro rfl; exact absurd blank (by decide))
    (by rintro rfl; exact absurd blank (by decide)) depth

/-! ### Marks -/

/-- Whether a character qualifies a type where it stands outside template arguments. -/
def isMark (c : Char) : Bool := c == '*' || c == '&' || c == '['

theorem isMark_cases {c : Char} (mark : isMark c = true) : c = '*' ∨ c = '&' ∨ c = '[' := by
  simpa [isMark, or_assoc] using mark

namespace Marks

/-- The marks of two pieces of a fragment. -/
def append (first second : Marks) : Marks where
  rest := first.rest ++ second.rest
  stars := first.stars + second.stars
  isReference := first.isReference || second.isReference
  isArray := first.isArray || second.isArray

theorem empty_append (marks : Marks) : append {} marks = marks := by
  simp [append]

theorem append_empty (marks : Marks) : append marks {} = marks := by
  simp [append]

theorem append_assoc (first second third : Marks) :
    append (append first second) third = append first (append second third) := by
  simp [append, Nat.add_assoc, Bool.or_assoc]

end Marks

namespace MarkPlace

/-- How many template argument lists are open; none is behind a `[`. -/
def openLists : MarkPlace → Nat
  | depth n => n
  | brackets => 0

/-- The reader behind one more character. -/
def past : MarkPlace → Char → MarkPlace
  | brackets, c => if c = ']' then depth 0 else brackets
  | depth n, c => if n = 0 ∧ c = '[' then brackets else depth (templateDepth n c)

/-- The reader behind some characters. -/
def behind (place : MarkPlace) (cs : List Char) : MarkPlace := cs.foldl past place

theorem behind_append (place : MarkPlace) (cs ds : List Char) :
    place.behind (cs ++ ds) = (place.behind cs).behind ds := List.foldl_append

/-- What one character is to the reader. -/
def marksOf : MarkPlace → Char → Marks
  | brackets, _ => {}
  | depth n, c =>
    if n = 0 ∧ c = '*' then { rest := [' '], stars := 1 }
    else if n = 0 ∧ c = '&' then { rest := [' '], isReference := true }
    else if n = 0 ∧ c = '[' then { rest := [' '], isArray := true }
    else { rest := [c] }

/-- A character that is no mark, or stands inside template arguments, remains as it is. -/
theorem marksOf_of_plain {n : Nat} {c : Char} (plain : ¬ (n = 0 ∧ isMark c = true)) :
    (depth n).marksOf c = { rest := [c] } ∧ (depth n).past c = depth (templateDepth n c) := by
  simp only [isMark, Bool.or_eq_true, beq_iff_eq, and_or_left, not_or] at plain
  obtain ⟨⟨notStar, notAmpersand⟩, notBracket⟩ := plain
  rw [marksOf, past, if_neg notStar, if_neg notAmpersand, if_neg notBracket, if_neg notBracket]
  exact ⟨rfl, rfl⟩

end MarkPlace

open MarkPlace (openLists past behind marksOf marksOf_of_plain)

namespace Marks

theorem read_nil (place : MarkPlace) : read place [] = {} := by cases place <;> rfl

theorem read_cons (place : MarkPlace) (c : Char) (cs : List Char) :
    read place (c :: cs) = (place.marksOf c).append (read (place.past c) cs) := by
  cases place with
  | brackets =>
    rw [marksOf, empty_append, read, past]
    split <;> rfl
  | depth n =>
    by_cases mark : n = 0 ∧ isMark c = true
    · obtain ⟨rfl, mark⟩ := mark
      obtain rfl | rfl | rfl := isMark_cases mark <;>
        simp [read, marksOf, past, append, templateDepth, Nat.add_comm]
    · obtain ⟨remains, isPast⟩ := marksOf_of_plain mark
      simp only [isMark, Bool.or_eq_true, beq_iff_eq, and_or_left, not_or] at mark
      obtain ⟨⟨notStar, notAmpersand⟩, notBracket⟩ := mark
      rw [remains, isPast, read, if_neg notStar, if_neg notAmpersand, if_neg notBracket,
        templateDepth]
      split
      · simp [append]
      split <;> simp [append]

/-- The marks of two pieces are those of the first one and, from where it ends, of the second. -/
theorem read_of_append (place : MarkPlace) (cs ds : List Char) :
    read place (cs ++ ds) = (read place cs).append (read (place.behind cs) ds) := by
  induction cs generalizing place with
  | nil => rw [List.nil_append, read_nil, empty_append]; rfl
  | cons c cs ih => rw [List.cons_append, read_cons, ih, read_cons, append_assoc]; rfl

theorem read_singleton (place : MarkPlace) (c : Char) : read place [c] = place.marksOf c := by
  rw [read_cons, read_nil, append_empty]

/-- What remains of one character opens and closes as many template argument lists as the reader
counts, and no mark remains outside them. -/
theorem marksOf_rest (place : MarkPlace) (c : Char) :
    depthBehind place.openLists (place.marksOf c).rest = (place.past c).openLists ∧
      ∀ d ∈ outside place.openLists (place.marksOf c).rest, isMark d = false := by
  cases place with
  | brackets =>
    refine ⟨?_, fun _ isIn => nomatch isIn⟩
    rw [past]
    split <;> rfl
  | depth n =>
    by_cases mark : n = 0 ∧ isMark c = true
    · obtain ⟨rfl, mark⟩ := mark
      -- each mark leaves one blank
      obtain rfl | rfl | rfl := isMark_cases mark <;>
        exact ⟨rfl, fun d isBlank => List.mem_singleton.mp isBlank ▸ rfl⟩
    · obtain ⟨remains, isPast⟩ := marksOf_of_plain mark
      rw [remains, isPast]
      refine ⟨rfl, fun d isIn => ?_⟩
      by_cases isZero : n = 0
      · subst isZero
        rw [List.mem_singleton.mp isIn]
        simpa using mark
      · rw [openLists, outside, if_neg isZero] at isIn
        cases isIn

/-- What remains of a fragment stands as deep in template arguments as its marks were read. -/
theorem depthBehind_read (place : MarkPlace) (cs : List Char) :
    depthBehind place.openLists (read place cs).rest = (place.behind cs).openLists := by
  induction cs generalizing place with
  | nil => rw [read_nil]; rfl
  | cons c cs ih =>
    rw [read_cons, append, depthBehind_append, (marksOf_rest place c).1, ih]
    rfl

/-- No mark remains outside template arguments. -/
theorem isMark_of_mem_read (place : MarkPlace) (cs : List Char) :
    ∀ c ∈ outside place.openLists (read place cs).rest, isMark c = false := by
  induction cs generalizing place with
  | nil => rw [read_nil]; exact fun _ isIn => nomatch isIn
  | cons c cs ih =>
    rw [read_cons, append, outside_append, (marksOf_rest place c).1]
    exact List.forall_mem_append.mpr ⟨(marksOf_rest place c).2, ih _⟩

/-- A piece without marks outside template arguments remains as it is. -/
theorem read_of_unmarked {depth : Nat} {cs : List Char}
    (unmarked : ∀ c ∈ outside depth cs, isMark c = false) :
    read (.depth depth) cs = { rest := cs } ∧
      (MarkPlace.depth depth).behind cs = .depth (depthBehind depth cs) := by
  induction cs generalizing depth with
  | nil => exact ⟨rfl, rfl⟩
  | cons c cs ih =>
    have plain : ¬ (depth = 0 ∧ isMark c = true) := by
      rintro ⟨rfl, mark⟩
      rw [unmarked c (List.mem_cons_self ..)] at mark
      cases mark
    have ofRest : ∀ d ∈ outside (templateDepth depth c) cs, isMark d = false :=
      fun d isIn => unmarked d (mem_outside_cons isIn)
    obtain ⟨remains, isPast⟩ := marksOf_of_plain plain
    obtain ⟨remain, stands⟩ := ih ofRest
    rw [read_cons, behind, List.foldl_cons, remains, isPast, remain]
    exact ⟨rfl, stands⟩

end Marks

/-! ### Words -/

/-- In front of the words, a blank is no part of any. -/
theorem templateWords_blank {blank : Char} (isBlank : Text.isBlank blank = true) (cs : List Char) :
    templateWords 0 [] (blank :: cs) = templateWords 0 [] cs := by
  simp [templateWords, isBlank]

theorem templateWords_blanks {blanks : List Char}
    (areBlank : ∀ c ∈ blanks, Text.isBlank c = true) (cs : List Char) :
    templateWords 0 [] (blanks ++ cs) = templateWords 0 [] cs := by
  induction blanks with
  | nil => rfl
  | cons blank rest ih =>
    rw [List.forall_mem_cons] at areBlank
    rw [List.cons_append, templateWords_blank areBlank.1, ih areBlank.2]

/-- Outside template arguments, a blank stands between two words. -/
theorem templateWords_append {depth : Nat} {cs : List Char} (closed : depthBehind depth cs = 0)
    {blank : Char} (isBlank : Text.isBlank blank = true) (word ds : List Char) :
    templateWords depth word (cs ++ blank :: ds) =
      templateWords depth word cs ++ templateWords 0 [] ds := by
  induction cs generalizing depth word with
  | nil =>
    obtain rfl : depth = 0 := closed
    cases word <;> simp [templateWords, isBlank]
  | cons c cs ih =>
    rw [depthBehind_cons] at closed
    rw [List.cons_append, templateWords, templateWords]
    split
    · next isGap =>
      rw [isGap.2, templateDepth_of_isBlank isGap.1] at closed
      split
      · exact ih closed []
      · rw [ih closed [], List.cons_append]
    · exact ih closed _

/-- Blanks at the end are no part of any word if they stand outside template arguments. -/
theorem templateWords_append_blanks {cs : List Char} (closed : depthBehind 0 cs = 0)
    {blanks : List Char} (areBlank : ∀ c ∈ blanks, Text.isBlank c = true) :
    templateWords 0 [] (cs ++ blanks) = templateWords 0 [] cs := by
  cases blanks with
  | nil => rw [List.append_nil]
  | cons blank rest =>
    rw [List.forall_mem_cons] at areBlank
    have noWord : templateWords 0 [] rest = [] := by
      have none := templateWords_blanks areBlank.2 []
      rwa [List.append_nil] at none
    rw [templateWords_append closed areBlank.1, noWord, List.append_nil]

/-- What has no blank outside template arguments is one word. -/
theorem templateWords_of_unbroken {depth : Nat} {cs : List Char}
    (unbroken : ∀ c ∈ outside depth cs, Text.isBlank c = false) (word : List Char)
    (notEmpty : word ++ cs ≠ []) : templateWords depth word cs = [word ++ cs] := by
  induction cs generalizing depth word with
  | nil =>
    rw [List.append_nil] at notEmpty ⊢
    rw [templateWords, if_neg (by simpa using notEmpty)]
  | cons c cs ih =>
    have notBlank : ¬ (Text.isBlank c = true ∧ depth = 0) := by
      rintro ⟨isBlank, rfl⟩
      rw [unbroken c (List.mem_cons_self ..)] at isBlank
      cases isBlank
    have ofRest : ∀ d ∈ outside (templateDepth depth c) cs, Text.isBlank d = false :=
      fun d isIn => unbroken d (mem_outside_cons isIn)
    rw [templateWords, if_neg notBlank, ih ofRest _ (by simp), List.append_assoc,
      List.singleton_append]

/-- What the second pass makes of some characters behind the beginning `word` of a word: words
without blanks outside template arguments, of which only the one at the end may have some open. -/
structure IsWordOf (depth : Nat) (word cs found : List Char) : Prop where
  notEmpty : found ≠ []
  unbroken : ∀ c ∈ outside 0 found, Text.isBlank c = false
  source : ∀ c ∈ outside 0 found, c ∈ outside 0 word ∨ c ∈ outside depth cs
  closed : depthBehind 0 found = 0 ∨
    found <:+ word ++ cs ∧ depthBehind 0 found = depthBehind depth cs

/-- Behind a blank the words start anew. -/
theorem IsWordOf.behind_blank {c : Char} {cs found : List Char} (isBlank : Text.isBlank c = true)
    (isWord : IsWordOf 0 [] cs found) (word : List Char) : IsWordOf 0 word (c :: cs) found where
  notEmpty := isWord.notEmpty
  unbroken := isWord.unbroken
  source d isIn := .inr <| by
    rcases isWord.source d isIn with isNone | isIn
    · cases isNone
    · exact mem_outside_cons (by rwa [templateDepth_of_isBlank isBlank])
  closed := isWord.closed.imp_right <| by
    rintro ⟨isSuffix, sameDepth⟩
    rw [depthBehind_cons, templateDepth_of_isBlank isBlank]
    exact ⟨isSuffix.trans ((List.suffix_cons c cs).trans (List.suffix_append word _)), sameDepth⟩

/-- A word goes on with what is no blank or stands inside template arguments. -/
theorem unbroken_concat {word : List Char} {c : Char}
    (unbroken : ∀ d ∈ outside 0 word, Text.isBlank d = false)
    (isPart : ¬ (Text.isBlank c = true ∧ depthBehind 0 word = 0)) :
    ∀ d ∈ outside 0 (word ++ [c]), Text.isBlank d = false := by
  rw [outside_append]
  refine List.forall_mem_append.mpr ⟨unbroken, fun d isIn => ?_⟩
  rw [Bool.eq_false_iff]
  intro isBlank
  by_cases isZero : depthBehind 0 word = 0
  · rw [isZero] at isIn
    exact isPart ⟨List.mem_singleton.mp isIn ▸ isBlank, isZero⟩
  · rw [outside, if_neg isZero] at isIn
    cases isIn

theorem isWordOf_of_mem {depth : Nat} {word cs : List Char} (isDepth : depthBehind 0 word = depth)
    (unbroken : ∀ c ∈ outside 0 word, Text.isBlank c = false) :
    ∀ found ∈ templateWords depth word cs, IsWordOf depth word cs found := by
  induction cs generalizing depth word with
  | nil =>
    intro found isFound
    rw [templateWords] at isFound
    split at isFound
    · cases isFound
    · next notEmpty =>
      obtain rfl := List.mem_singleton.mp isFound
      exact ⟨by simpa using notEmpty, unbroken, fun c isIn => .inl isIn,
        .inr ⟨by rw [List.append_nil], isDepth⟩⟩
  | cons c cs ih =>
    intro found isFound
    rw [templateWords] at isFound
    split at isFound
    · next isGap =>
      obtain ⟨isBlank, rfl⟩ := isGap
      have later : found ∈ templateWords 0 [] cs → IsWordOf 0 word (c :: cs) found :=
        fun isLater => .behind_blank isBlank
          (@ih 0 [] rfl (fun _ isIn => nomatch isIn) found isLater) word
      split at isFound
      · exact later isFound
      · next notEmpty =>
        rcases List.mem_cons.mp isFound with rfl | isLater
        · exact ⟨by simpa using notEmpty, unbroken, fun d isIn => .inl isIn, .inl isDepth⟩
        · exact later isLater
    · next isPart =>
      have nextDepth : depthBehind 0 (word ++ [c]) = templateDepth depth c := by
        rw [depthBehind_append, isDepth]
        rfl
      have isUnbroken := unbroken_concat unbroken (by rwa [isDepth])
      obtain ⟨notEmpty, unbroken, source, closed⟩ := ih nextDepth isUnbroken found isFound
      rw [List.append_assoc, List.singleton_append] at closed
      refine ⟨notEmpty, unbroken, fun d isIn => ?_, closed⟩
      have ofWord : outside 0 (word ++ [c]) = outside 0 word ++ outside depth [c] := by
        rw [outside_append, isDepth]
      have whole : outside depth (c :: cs) =
          outside depth [c] ++ outside (templateDepth depth c) cs := outside_append depth [c] cs
      rw [whole, List.mem_append, ← or_assoc, ← List.mem_append, ← ofWord]
      exact source d isIn

/-- Every word that is followed by another one has its template arguments closed. -/
theorem pairwise_templateWords {depth : Nat} {word : List Char}
    (isDepth : depthBehind 0 word = depth) (cs : List Char) :
    (templateWords depth word cs).Pairwise fun found _ => depthBehind 0 found = 0 := by
  induction cs generalizing depth word with
  | nil =>
    rw [templateWords]
    split
    · exact .nil
    · exact List.pairwise_singleton _ _
  | cons c cs ih =>
    rw [templateWords]
    split
    · next isGap =>
      split
      · exact ih rfl
      · exact .cons (fun _ _ => isDepth.trans isGap.2) (ih rfl)
    · exact ih (by rw [depthBehind_append, isDepth]; rfl)

end Bindery.Symbols
