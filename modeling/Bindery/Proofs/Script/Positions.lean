/-
**The lines and columns that the reader of scripts reports.**

The reader counts lines as it goes, with two exceptions. A line break that stands behind a backslash
in a text is reported as an unknown escape and is not counted. The end of the source reports a text
that is still open with the line of the end and the column of the start.

* `Lexer.Stands` — where the reader stands behind some characters, but for the breaks it left out.
* `Lexer.Stands.step`, `Lexer.Stands.run` — one character and a whole text keep it, and the errors
  on the way have the places that it gives them.
* `tokenize_isPlaced` — the line and the column of every error of a script, and when they are those
  of its first character.
* `tokenize_misplaces` — they are not always.
-/

import Mathlib.Algebra.GroupWithZero.Nat
import Mathlib.Data.List.DropRight
import Mathlib.Data.List.Infix
import Bindery.Proofs.Script.Lexing

namespace Bindery.Script

/-! ### Places in a text -/

/-- How many bytes some characters take. -/
def textBytes (cs : List Char) : Nat := (cs.map Char.utf8Size).sum

/-- How many line breaks there are among some characters. -/
def lineBreaks (cs : List Char) : Nat := cs.count '\n'

/-- The offset at which the last line of some characters starts. -/
def lastLineStart (cs : List Char) : Nat := textBytes (cs.rdropWhile (· != '\n'))

/-- The column behind some characters: their bytes behind the last line break, counted from one. -/
def columnBehind (cs : List Char) : Nat := textBytes (cs.rtakeWhile (· != '\n')) + 1

theorem textBytes_append (cs ds : List Char) :
    textBytes (cs ++ ds) = textBytes cs + textBytes ds := by
  simp [textBytes]

theorem textBytes_concat (cs : List Char) (c : Char) :
    textBytes (cs ++ [c]) = textBytes cs + c.utf8Size := by
  simp [textBytes]

theorem columnBehind_eq (cs : List Char) :
    lastLineStart cs + columnBehind cs = textBytes cs + 1 := by
  rw [lastLineStart, columnBehind, ← Nat.add_assoc, ← textBytes_append,
    List.rdropWhile_append_rtakeWhile]

theorem lastLineStart_le (cs : List Char) : lastLineStart cs ≤ textBytes cs := by
  have whole := columnBehind_eq cs
  rw [columnBehind] at whole
  omega

theorem lastLineStart_break (cs : List Char) :
    lastLineStart (cs ++ ['\n']) = textBytes cs + 1 := by
  rw [lastLineStart, List.rdropWhile_concat_neg _ _ _ (by decide), textBytes_concat]
  rfl

/-- Characters without a line break go on with the last line. -/
theorem lastLineStart_append (cs : List Char) {back : List Char} (sameLine : '\n' ∉ back) :
    lastLineStart (cs ++ back) = lastLineStart cs := by
  induction back using List.reverseRecOn with
  | nil => rw [List.append_nil]
  | append_singleton front c ih =>
    rw [List.mem_append, not_or, List.mem_singleton] at sameLine
    rw [← ih sameLine.1, lastLineStart, ← List.append_assoc,
      List.rdropWhile_concat_pos _ _ _ (by simpa using Ne.symm sameLine.2), ← lastLineStart]

theorem lineBreaks_append (cs : List Char) {back : List Char} (sameLine : '\n' ∉ back) :
    lineBreaks (cs ++ back) = lineBreaks cs := by
  rw [lineBreaks, List.count_append, List.count_eq_zero.mpr sameLine, Nat.add_zero, lineBreaks]

/-! ### Places of errors -/

namespace LexError

/-- Whether the error is a line break behind a backslash. -/
def isEscapedBreak (error : LexError) : Bool := decide (error.kind = .unknownEscape '\n')

/-- How many line breaks some errors are. -/
def escapedBreaks (errors : List LexError) : Nat := errors.countP isEscapedBreak

/-- None of some errors is the line break in front of the offset `start`. -/
def NoneEnds (errors : List LexError) (start : Nat) : Prop :=
  ∀ error ∈ errors, error.isEscapedBreak = true → error.span.stop ≠ start

/-- An error starts behind the characters `before`, and its line and its column are those there. -/
structure IsTrue (error : LexError) (before : List Char) : Prop where
  start : error.span.start = textBytes before
  line : error.line = lineBreaks before + 1
  column : error.column = columnBehind before

/-- An error starts behind the characters `before`. Its line is that behind the characters `counted`
if the breaks among the errors in front of it are left out, and its column is the true one unless
such a break is in front of the line. -/
structure IsPlaced (error : LexError) (earlier : List LexError) (before counted : List Char) :
    Prop where
  start : error.span.start = textBytes before
  line : error.line + escapedBreaks earlier = lineBreaks counted + 1
  column : error.column = columnBehind before ↔ NoneEnds earlier (lastLineStart before)

/-- The characters up to which the lines of an error are counted: for a text that is never closed,
all of them. -/
def counted (error : LexError) (before source : List Char) : List Char :=
  if error.kind = .unterminatedText then source else before

/-- Each of some errors has its place in the source, where `earlier` are those in front of it. -/
def AllPlaced (source : List Char) : List LexError → List LexError → Prop
  | _, [] => True
  | earlier, error :: rest =>
    (∃ before, before <+: source ∧ error.IsPlaced earlier before (error.counted before source)) ∧
      AllPlaced source (earlier ++ [error]) rest

theorem AllPlaced.of_mem {source : List Char} {earlier first later : List LexError}
    {error : LexError} (placed : AllPlaced source earlier (first ++ error :: later)) :
    ∃ before, before <+: source ∧
      error.IsPlaced (earlier ++ first) before (error.counted before source) := by
  induction first generalizing earlier with
  | nil => rw [List.append_nil]; exact placed.1
  | cons other first ih =>
    have found := ih placed.2
    rwa [List.append_assoc] at found

/-- When an error has the line and the column of its first character. -/
theorem IsPlaced.isTrue_iff {error : LexError} {earlier : List LexError}
    {before counted : List Char} (isPlaced : error.IsPlaced earlier before counted) :
    error.IsTrue before ↔ lineBreaks before + escapedBreaks earlier = lineBreaks counted ∧
      NoneEnds earlier (lastLineStart before) := by
  have isLine := isPlaced.line
  constructor
  · intro isTrue
    have sameLine := isTrue.line
    exact ⟨by omega, isPlaced.column.mp isTrue.column⟩
  · rintro ⟨sameBreaks, noneEnds⟩
    exact ⟨isPlaced.start, by omega, isPlaced.column.mpr noneEnds⟩

theorem allPlaced_append {source : List Char} {earlier first second : List LexError} :
    AllPlaced source earlier (first ++ second) ↔
      AllPlaced source earlier first ∧ AllPlaced source (earlier ++ first) second := by
  induction first generalizing earlier with
  | nil => simp [AllPlaced]
  | cons error rest ih => simp only [List.cons_append, AllPlaced, ih, and_assoc,
      List.append_assoc, List.nil_append]

theorem escapedBreaks_append (first second : List LexError) :
    escapedBreaks (first ++ second) = escapedBreaks first + escapedBreaks second :=
  List.countP_append

theorem noneEnds_append {first second : List LexError} {start : Nat} :
    NoneEnds (first ++ second) start ↔ NoneEnds first start ∧ NoneEnds second start := by
  simp only [NoneEnds, List.mem_append, or_imp, forall_and]

/-- Errors that are no line breaks do not count. -/
theorem noneEnds_of_plain {errors : List LexError}
    (plain : ∀ error ∈ errors, error.isEscapedBreak = false) (start : Nat) :
    NoneEnds errors start := by
  intro error isError isBreak
  rw [plain error isError] at isBreak
  cases isBreak

theorem escapedBreaks_of_plain {errors : List LexError}
    (plain : ∀ error ∈ errors, error.isEscapedBreak = false) : escapedBreaks errors = 0 :=
  List.countP_eq_zero.mpr fun error isError isBreak => by
    rw [plain error isError] at isBreak
    cases isBreak

end LexError

open LexError

/-! ### Where the reader stands -/

namespace Lexer

/-- The reader has read the characters and found the errors, and it has counted all line breaks
except those that are errors. -/
structure Counts (cs : List Char) (errors : List LexError) (at_ : Lexer) : Prop where
  offset : at_.offset = textBytes cs
  line : at_.line + escapedBreaks errors = lineBreaks cs + 1
  lineStart_le : at_.lineStart ≤ lastLineStart cs
  lineStart : at_.lineStart = lastLineStart cs ↔ NoneEnds errors (lastLineStart cs)
  behind : ∀ error ∈ errors, error.isEscapedBreak = true → error.span.stop ≤ at_.offset

/-- The text that is open starts behind some of the characters, with the column that a text has
there. -/
def Opens (cs : List Char) (errors : List LexError) (start column : Nat) : Prop :=
  ∃ before inner, cs = before ++ inner ∧ inner ≠ [] ∧ start = textBytes before ∧
    (column = columnBehind before ↔ NoneEnds errors (lastLineStart before))

/-- What the mode says of the characters read. -/
def Recalls (cs : List Char) (errors : List LexError) : LexMode → Prop
  | .between | .comment | .word .. => True
  | .slash => ∃ before, cs = before ++ ['/']
  | .text start column _ => Opens cs errors start column
  | .escape start column _ => (∃ before, cs = before ++ ['\\']) ∧ Opens cs errors start column

/-- Where the reader stands behind some characters, in which it has found the errors. -/
structure Stands (cs : List Char) (errors : List LexError) (at_ : Lexer) : Prop where
  counts : Counts cs errors at_
  recalls : Recalls cs errors at_.mode

namespace Counts

variable {cs : List Char} {errors : List LexError} {at_ : Lexer}

/-- A column in the line of the reader. -/
theorem columnOf_eq_iff (counts : Counts cs errors at_) {before back : List Char}
    (isRead : cs = before ++ back) (sameLine : '\n' ∉ back) :
    at_.columnOf (textBytes before) = columnBehind before ↔
      NoneEnds errors (lastLineStart before) := by
  subst isRead
  have isLower := counts.lineStart_le
  have isStart := counts.lineStart
  rw [lastLineStart_append before sameLine] at isLower isStart
  have whole := columnBehind_eq before
  have isBefore := lastLineStart_le before
  rw [← isStart, columnOf]
  omega

/-- An error in the line of the reader. -/
theorem isPlaced (counts : Counts cs errors at_) {before back : List Char}
    (isRead : cs = before ++ back) (sameLine : '\n' ∉ back) (kind : LexErrorKind) (stop : Nat) :
    IsPlaced ⟨kind, at_.line, at_.columnOf (textBytes before), ⟨textBytes before, stop⟩⟩ errors
      before before where
  start := rfl
  line := by rw [counts.line, isRead, lineBreaks_append before sameLine]
  column := counts.columnOf_eq_iff isRead sameLine

/-- An error that starts at the last character. -/
theorem isPlaced_last {before : List Char} {last : Char}
    (counts : Counts (before ++ [last]) errors at_) (sameLine : last ≠ '\n')
    (isByte : last.utf8Size = 1) (kind : LexErrorKind) (stop : Nat) :
    IsPlaced ⟨kind, at_.line, at_.columnOf (at_.offset - 1), ⟨at_.offset - 1, stop⟩⟩ errors
      before before := by
  have isStart : at_.offset - 1 = textBytes before := by
    rw [counts.offset, textBytes_concat, isByte, Nat.add_sub_cancel]
  rw [isStart]
  exact counts.isPlaced rfl (by simpa using Ne.symm sameLine) kind stop

/-- Errors that are no line breaks. -/
theorem found (counts : Counts cs errors at_) {new : List LexError}
    (plain : ∀ error ∈ new, error.isEscapedBreak = false) : Counts cs (errors ++ new) at_ where
  offset := counts.offset
  line := by
    rw [escapedBreaks_append, escapedBreaks_of_plain plain]
    exact counts.line
  lineStart_le := counts.lineStart_le
  lineStart := by
    rw [noneEnds_append, and_iff_left (noneEnds_of_plain plain _)]
    exact counts.lineStart
  behind := by
    intro error isError isBreak
    rcases List.mem_append.mp isError with isOld | isNew
    · exact counts.behind error isOld isBreak
    · rw [plain error isNew] at isBreak
      cases isBreak

/-- One more character of a line. -/
theorem past (counts : Counts cs errors at_) {c : Char} (sameLine : c ≠ '\n') (mode : LexMode) :
    Counts (cs ++ [c]) errors (at_.past c mode) where
  offset := by rw [textBytes_concat, ← counts.offset]; rfl
  line := by
    rw [lineBreaks_append cs (by simpa using Ne.symm sameLine)]
    exact counts.line
  lineStart_le := by
    rw [lastLineStart_append cs (by simpa using Ne.symm sameLine)]
    exact counts.lineStart_le
  lineStart := by
    rw [lastLineStart_append cs (by simpa using Ne.symm sameLine)]
    exact counts.lineStart
  behind := fun error isError isBreak =>
    (counts.behind error isError isBreak).trans (Nat.le_add_right ..)

/-- A line break that is counted. -/
theorem pastLine (counts : Counts cs errors at_) (mode : LexMode) :
    Counts (cs ++ ['\n']) errors (at_.pastLine mode) where
  offset := by rw [textBytes_concat, ← counts.offset]; rfl
  line := by
    have isLine := counts.line
    simp only [lineBreaks, List.count_append, List.count_singleton_self, Lexer.pastLine]
      at isLine ⊢
    omega
  lineStart_le := by rw [lastLineStart_break, ← counts.offset]; exact Nat.le_refl _
  lineStart := by
    rw [lastLineStart_break, ← counts.offset]
    refine iff_of_true rfl fun error isError isBreak => ?_
    exact Nat.ne_of_lt (Nat.lt_succ_of_le (counts.behind error isError isBreak))
  behind := fun error isError isBreak =>
    (counts.behind error isError isBreak).trans (Nat.le_succ _)

/-- A line break that is an error, and is not counted. -/
theorem pastBreak (counts : Counts cs errors at_) (mode : LexMode) {error : LexError}
    (isBreak : error.isEscapedBreak = true) (stop : error.span.stop = at_.offset + 1) :
    Counts (cs ++ ['\n']) (errors ++ [error]) (at_.past '\n' mode) where
  offset := by rw [textBytes_concat, ← counts.offset]; rfl
  line := by
    have isLine := counts.line
    have isOne : escapedBreaks [error] = 1 := by simp [escapedBreaks, isBreak]
    rw [escapedBreaks_append, isOne]
    simp only [lineBreaks, List.count_append, List.count_singleton_self, Lexer.past] at isLine ⊢
    omega
  lineStart_le := by
    have isLower := counts.lineStart_le.trans (lastLineStart_le cs)
    rw [lastLineStart_break]
    exact isLower.trans (Nat.le_succ _)
  lineStart := by
    have isLower := counts.lineStart_le.trans (lastLineStart_le cs)
    rw [lastLineStart_break, ← counts.offset]
    refine iff_of_false ?_ fun noneEnds => ?_
    · exact Nat.ne_of_lt (Nat.lt_succ_of_le (counts.offset ▸ isLower))
    · exact noneEnds error (by simp) isBreak stop
  behind := by
    intro other isOther isBreak
    rcases List.mem_append.mp isOther with isOld | isNew
    · exact (counts.behind other isOld isBreak).trans (Nat.le_succ _)
    · rw [List.mem_singleton.mp isNew, stop]
      exact Nat.le_refl _

end Counts

/-! ### A text that is open -/

namespace Opens

variable {cs : List Char} {errors : List LexError} {start column : Nat}

theorem past (opens : Opens cs errors start column) (c : Char) :
    Opens (cs ++ [c]) errors start column := by
  obtain ⟨before, inner, rfl, _, isStart, isColumn⟩ := opens
  exact ⟨before, inner ++ [c], List.append_assoc .., by simp, isStart, isColumn⟩

/-- Errors behind the start of the text say nothing of the line in which it starts. -/
theorem found (opens : Opens cs errors start column) {new : List LexError}
    (isBehind : ∀ error ∈ new, textBytes cs ≤ error.span.stop) :
    Opens cs (errors ++ new) start column := by
  obtain ⟨before, inner, rfl, isOpen, isStart, isColumn⟩ := opens
  refine ⟨before, inner, rfl, isOpen, isStart, ?_⟩
  rw [noneEnds_append, and_iff_left, isColumn]
  intro error isError _
  have isInner : 0 < textBytes inner := by
    obtain ⟨c, rest, rfl⟩ := List.exists_cons_of_ne_nil isOpen
    have isPositive := c.utf8Size_pos
    rw [textBytes, List.map_cons, List.sum_cons]
    omega
  have stop := isBehind error isError
  have isLower := lastLineStart_le before
  rw [textBytes_append] at stop
  omega

end Opens

/-! ### One character -/

/-- The errors among what was found. -/
def errorsOf (found : List Finding) : List LexError :=
  found.filterMap fun
    | .error e => some e
    | .ok _ => none

theorem errorsOf_append (first second : List Finding) :
    errorsOf (first ++ second) = errorsOf first ++ errorsOf second :=
  List.filterMap_append

section Steps

variable {cs source : List Char} {errors : List LexError} {at_ : Lexer}

/-- Where no error was found, none has to be placed. -/
theorem Stands.withoutErrors (stands : Stands cs errors at_) :
    AllPlaced source errors [] ∧ Stands cs (errors ++ []) at_ :=
  ⟨trivial, (List.append_nil errors).symm ▸ stands⟩

/-- A character between two tokens. -/
theorem Counts.stepBetween (counts : Counts cs errors at_) (c : Char) (isPrefix : cs <+: source) :
    AllPlaced source errors (errorsOf (at_.stepBetween c).2) ∧
      Stands (cs ++ [c]) (errors ++ errorsOf (at_.stepBetween c).2) (at_.stepBetween c).1 := by
  -- all branches but the last find no error
  unfold Lexer.stepBetween
  split
  next isBreak =>
    subst isBreak
    exact Stands.withoutErrors ⟨counts.pastLine .between, trivial⟩
  next sameLine =>
    split
    next => exact Stands.withoutErrors ⟨counts.past sameLine .between, trivial⟩
    split
    next isSlash => exact Stands.withoutErrors ⟨counts.past sameLine .slash, cs, isSlash ▸ rfl⟩
    split
    next =>
      refine Stands.withoutErrors ⟨counts.past sameLine _, cs, [c], rfl, by simp, counts.offset, ?_⟩
      rw [counts.offset]
      exact counts.columnOf_eq_iff (List.append_nil cs).symm (by simp)
    split
    next => exact Stands.withoutErrors ⟨counts.past sameLine _, trivial⟩
    split
    next => exact Stands.withoutErrors ⟨counts.past sameLine .between, trivial⟩
    next =>
      have isPlaced := counts.isPlaced (List.append_nil cs).symm (by simp)
        (.unexpectedCharacter c) (at_.offset + c.utf8Size)
      rw [← counts.offset] at isPlaced
      refine ⟨⟨⟨cs, isPrefix, isPlaced⟩, trivial⟩,
        (counts.past sameLine .between).found fun error isError => ?_, trivial⟩
      rw [List.mem_singleton.mp isError]
      rfl

/-- A character behind a slash: if it is none, the slash is no comment, and the character is read as
if the slash were not there. -/
theorem Counts.step_slash {before : List Char} (counts : Counts (before ++ ['/']) errors at_)
    (isMode : at_.mode = .slash) (c : Char) (isPrefix : before ++ ['/'] <+: source) :
    AllPlaced source errors (errorsOf (at_.step c).2) ∧
      Stands (before ++ ['/'] ++ [c]) (errors ++ errorsOf (at_.step c).2) (at_.step c).1 := by
  unfold Lexer.step
  rw [isMode]
  dsimp only
  split
  next isSlash =>
    exact Stands.withoutErrors ⟨counts.past (isSlash ▸ by decide) .comment, trivial⟩
  next =>
    have isPlaced := counts.isPlaced_last (by decide) rfl (.unexpectedCharacter '/')
      (at_.offset - 1 + ('/' : Char).utf8Size)
    have plain : ∀ error ∈ errorsOf [at_.unexpected '/' 1], error.isEscapedBreak = false := by
      intro error isError
      rw [List.mem_singleton.mp isError]
      rfl
    obtain ⟨placed, stands⟩ := (counts.found plain).stepBetween c isPrefix
    rw [List.append_assoc errors] at stands
    exact ⟨⟨⟨before, (List.prefix_append before _).trans isPrefix, isPlaced⟩, placed⟩, stands⟩

/-- A character behind a backslash, with which it may be no escape. -/
theorem Counts.step_escape {before read : List Char} {start column : Nat}
    (counts : Counts (before ++ ['\\']) errors at_)
    (opens : Opens (before ++ ['\\']) errors start column)
    (isMode : at_.mode = .escape start column read) (c : Char)
    (isPrefix : before ++ ['\\'] <+: source) :
    AllPlaced source errors (errorsOf (at_.step c).2) ∧
      Stands (before ++ ['\\'] ++ [c]) (errors ++ errorsOf (at_.step c).2) (at_.step c).1 := by
  have opens := opens.past c
  unfold Lexer.step
  rw [isMode]
  dsimp only
  split
  next meant isMeant =>
    have sameLine : c ≠ '\n' := by
      rintro rfl
      cases isMeant
    exact Stands.withoutErrors ⟨counts.past sameLine _, opens⟩
  next =>
    have isStop : textBytes (before ++ ['\\'] ++ [c]) = at_.offset + c.utf8Size := by
      rw [textBytes_concat, counts.offset]
    have isPlaced := counts.isPlaced_last (by decide) rfl (.unknownEscape c)
      (at_.offset + c.utf8Size)
    refine ⟨⟨⟨before, (List.prefix_append before _).trans isPrefix, isPlaced⟩, trivial⟩, ?_,
      opens.found fun error isError => ?_⟩
    · by_cases isBreak : c = '\n'
      · subst isBreak
        exact counts.pastBreak _ rfl rfl
      · refine (counts.past isBreak _).found fun error isError => ?_
        rw [List.mem_singleton.mp isError]
        simpa [LexError.isEscapedBreak] using isBreak
    · rw [List.mem_singleton.mp isError]
      exact Nat.le_of_eq isStop

/-- One character: the errors that it completes have their places, and the reader stands behind
it. -/
theorem Stands.step (stands : Stands cs errors at_) (c : Char) (isPrefix : cs <+: source) :
    AllPlaced source errors (errorsOf (at_.step c).2) ∧
      Stands (cs ++ [c]) (errors ++ errorsOf (at_.step c).2) (at_.step c).1 := by
  obtain ⟨counts, recalls⟩ := stands
  unfold Lexer.step
  cases isMode : at_.mode with
  | between => exact counts.stepBetween c isPrefix
  | slash =>
    rw [isMode] at recalls
    obtain ⟨before, rfl⟩ := recalls
    have behind := counts.step_slash isMode c isPrefix
    rwa [Lexer.step, isMode] at behind
  | comment =>
    dsimp only
    split
    next isBreak =>
      subst isBreak
      exact Stands.withoutErrors ⟨counts.pastLine .between, trivial⟩
    next sameLine => exact Stands.withoutErrors ⟨counts.past sameLine .comment, trivial⟩
  | word start read =>
    dsimp only
    split
    next isPart =>
      have sameLine : c ≠ '\n' := by
        rintro rfl
        exact absurd isPart (by decide)
      exact Stands.withoutErrors ⟨counts.past sameLine _, trivial⟩
    next => exact counts.stepBetween c isPrefix
  | text start column read =>
    rw [isMode] at recalls
    have opens : Opens (cs ++ [c]) errors start column := Opens.past recalls c
    dsimp only
    split
    next isQuote => exact Stands.withoutErrors ⟨counts.past (isQuote ▸ by decide) .between, trivial⟩
    split
    next isSlash =>
      exact Stands.withoutErrors ⟨counts.past (isSlash ▸ by decide) _, ⟨cs, isSlash ▸ rfl⟩, opens⟩
    split
    next isBreak =>
      subst isBreak
      exact Stands.withoutErrors ⟨counts.pastLine _, opens⟩
    next sameLine => exact Stands.withoutErrors ⟨counts.past sameLine _, opens⟩
  | escape start column read =>
    rw [isMode] at recalls
    obtain ⟨⟨before, rfl⟩, opens⟩ := recalls
    have behind := counts.step_escape opens isMode c isPrefix
    rwa [Lexer.step, isMode] at behind

/-- The end of the text. -/
theorem Stands.finish (stands : Stands cs errors at_) :
    AllPlaced cs errors (errorsOf at_.finish) := by
  obtain ⟨counts, recalls⟩ := stands
  have ofText : ∀ {start column : Nat}, Opens cs errors start column →
      AllPlaced cs errors [⟨.unterminatedText, at_.line, column, ⟨start, at_.offset⟩⟩] := by
    rintro start column ⟨before, inner, isRead, _, isStart, isColumn⟩
    exact ⟨⟨before, isRead ▸ List.prefix_append .., isStart, counts.line, isColumn⟩, trivial⟩
  unfold Lexer.finish
  cases isMode : at_.mode with
  | between | comment | word => trivial
  | slash =>
    rw [isMode] at recalls
    obtain ⟨before, rfl⟩ := recalls
    have isPlaced := counts.isPlaced_last (by decide) rfl (.unexpectedCharacter '/')
      (at_.offset - 1 + ('/' : Char).utf8Size)
    exact ⟨⟨before, List.prefix_append before _, isPlaced⟩, trivial⟩
  | text start column read =>
    rw [isMode] at recalls
    exact ofText recalls
  | escape start column read =>
    rw [isMode] at recalls
    exact ofText recalls.2

/-- A whole text: all errors in the rest of it have their places. -/
theorem Stands.run {rest : List Char} (stands : Stands cs errors at_) :
    AllPlaced (cs ++ rest) errors (errorsOf (at_.run rest)) := by
  induction rest generalizing cs errors at_ with
  | nil =>
    rw [List.append_nil]
    exact stands.finish
  | cons c rest ih =>
    obtain ⟨placed, next⟩ := stands.step c (List.prefix_append cs (c :: rest))
    have later := ih next
    rw [List.append_assoc, List.singleton_append] at later
    rw [run_cons, errorsOf_append]
    exact allPlaced_append.mpr ⟨placed, later⟩

end Steps

theorem stands_start : Stands [] [] {} where
  counts := ⟨rfl, rfl, Nat.le_refl _, iff_of_true rfl (fun _ isIn => nomatch isIn),
    fun _ isIn => nomatch isIn⟩
  recalls := trivial

end Lexer

/-! ### Whole scripts -/

theorem tokenize_eq_error_iff {source : String} {errors : List LexError} :
    tokenize source = .error errors ↔
      errors = Lexer.errorsOf (Lexer.run {} source.toList) ∧ errors ≠ [] := by
  show (if (Lexer.errorsOf (Lexer.run {} source.toList)).isEmpty then _ else _) = _ ↔ _
  split
  next isEmpty =>
    rw [List.isEmpty_iff] at isEmpty
    rw [isEmpty]
    exact iff_of_false nofun fun both => both.2 both.1
  next isError =>
    rw [List.isEmpty_iff] at isError
    rw [Except.error.injEq]
    exact ⟨fun same => ⟨same.symm, same ▸ isError⟩, fun both => both.1.symm⟩

/-- **The places of errors.** Every error has the line of its first character, or that of the end of
the source if it is a text that is never closed, less the line breaks that errors in front of it
take for escapes. It has the column of its first character unless such a break is in front of its
line. -/
theorem tokenize_isPlaced {source : String} {errors earlier later : List LexError}
    {error : LexError} (fails : tokenize source = .error errors)
    (isError : errors = earlier ++ error :: later) :
    ∃ before, before <+: source.toList ∧
      error.IsPlaced earlier before (error.counted before source.toList) ∧
      (error.IsTrue before ↔
        lineBreaks before + escapedBreaks earlier =
            lineBreaks (error.counted before source.toList) ∧
          NoneEnds earlier (lastLineStart before)) := by
  obtain ⟨rfl, -⟩ := tokenize_eq_error_iff.mp fails
  have placed := @Lexer.Stands.run _ _ _ source.toList Lexer.stands_start
  rw [List.nil_append, isError] at placed
  obtain ⟨before, isPrefix, isPlaced⟩ := placed.of_mem
  exact ⟨before, isPrefix, isPlaced, isPlaced.isTrue_iff⟩

/-- A text with a line break behind a backslash, a character that belongs to nothing and a text that
is never closed. -/
def misplacedSource : String := "\"a\\\nb\" #\"\n\n"

/-- The errors of the source: of the last two, the first character stands in line two. -/
def misplacedErrors : List LexError := [
  ⟨.unknownEscape '\n', 1, 3, ⟨2, 4⟩⟩,
  ⟨.unexpectedCharacter '#', 1, 8, ⟨7, 8⟩⟩,
  ⟨.unterminatedText, 3, 9, ⟨8, 11⟩⟩]

theorem tokenize_misplaced : tokenize misplacedSource = .error misplacedErrors := by
  decide +kernel

theorem tokenize_isPlaced_misplaced : tokenize misplacedSource = .error misplacedErrors ∧
    ∃ before, before <+: misplacedSource.toList ∧
      (⟨.unterminatedText, 3, 9, ⟨8, 11⟩⟩ : LexError).IsPlaced (misplacedErrors.take 2) before
        misplacedSource.toList := by
  have parts : misplacedErrors =
      misplacedErrors.take 2 ++ ⟨.unterminatedText, 3, 9, ⟨8, 11⟩⟩ :: [] := rfl
  obtain ⟨before, isPrefix, isPlaced, -⟩ := tokenize_isPlaced tokenize_misplaced parts
  exact ⟨tokenize_misplaced, before, isPrefix, isPlaced⟩

/-- Not every error has the line and the column of its first character. -/
theorem tokenize_misplaces : ¬ ∀ source errors, tokenize source = .error errors →
    ∀ error ∈ errors, ∃ before, before <+: source.toList ∧ error.IsTrue before := by
  intro allTrue
  obtain ⟨before, isPrefix, isTrue⟩ := allTrue misplacedSource misplacedErrors tokenize_misplaced
    ⟨.unexpectedCharacter '#', 1, 8, ⟨7, 8⟩⟩ (by simp [misplacedErrors])
  have otherLine : ∀ before ∈ misplacedSource.toList.inits,
      ¬ (7 = textBytes before ∧ 1 = lineBreaks before + 1) := by decide +kernel
  exact otherLine before ((List.mem_inits _ _).mpr isPrefix) ⟨isTrue.start, isTrue.line⟩

end Bindery.Script
