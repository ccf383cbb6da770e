/-
**The tokens of a source tile it.**

What the reader finds lies side by side in the source: each token is spelled by the characters of
its span, and between two of them there are blanks and comments only. The reader is followed once
from the source to the tiles, by what must still come in each of its modes, and once back along the
tiles.

* `Spells` — how tokens are spelled.
* `Tiles` — tokens, blanks and comments side by side.
* `LexMode.Continues` — what the rest of a source is when the reader finds no error in it.
* `tokenize_tiles` — a source has the tokens that tile it, and there are such if it has any.
-/

import Bindery.Proofs.Script.Concatenation

namespace Bindery.Script

/-! ### Spellings -/

/-- What stands between the quotes of a text, and the text. -/
inductive Unquotes : List Char → List Char → Prop
  | nil : Unquotes [] []
  | plain {c : Char} {inside value : List Char} (notQuote : c ≠ '"') (notSlash : c ≠ '\\')
      (rest : Unquotes inside value) : Unquotes (c :: inside) (c :: value)
  | escape {letter meant : Char} {inside value : List Char}
      (isEscape : Text.unescape? letter = some meant) (rest : Unquotes inside value) :
      Unquotes ('\\' :: letter :: inside) (meant :: value)

/-- How a token is spelled: an identifier or a truth value as a word, a mark as its character, and a
text between quotes. -/
inductive Spells : TokenKind → List Char → Prop
  | word {word : String} (isSpelled : isWord word = true) : Spells (wordKind word) word.toList
  | punct (mark : Punct) : Spells (.punct mark) [mark.char]
  | text {inside value : List Char} (unquotes : Unquotes inside value) :
      Spells (.text (String.ofList value)) ('"' :: inside ++ ['"'])

/-- Whether a token is spelled as a word. -/
def TokenKind.isWordlike : TokenKind → Bool
  | .identifier _ | .truth _ => true
  | _ => false

/-- Some characters do not go on with a word in front of them. -/
def EndsWord (rest : List Char) : Prop := ∀ c ∈ rest.head?, isWordPart c = false

/-- Some characters do not go on with a comment in front of them. -/
def EndsLine (rest : List Char) : Prop := ∀ c ∈ rest.head?, c = '\n'

/-- The characters from a byte offset on are blanks, comments up to the end of their lines, and
tokens with the spans that they take. No word could be longer. -/
inductive Tiles : Nat → List Char → List Token → Prop
  | nil (offset : Nat) : Tiles offset [] []
  | blank {offset : Nat} {c : Char} {rest : List Char} {tokens : List Token}
      (isBlank : Text.isBlank c = true) (tiles : Tiles (offset + c.utf8Size) rest tokens) :
      Tiles offset (c :: rest) tokens
  | comment {offset : Nat} {body rest : List Char} {tokens : List Token} (oneLine : '\n' ∉ body)
      (ends : EndsLine rest)
      (tiles : Tiles (offset + textBytes ('/' :: '/' :: body)) rest tokens) :
      Tiles offset ('/' :: '/' :: body ++ rest) tokens
  | token {offset : Nat} {kind : TokenKind} {spelling rest : List Char} {tokens : List Token}
      (spells : Spells kind spelling) (ends : kind.isWordlike = true → EndsWord rest)
      (tiles : Tiles (offset + textBytes spelling) rest tokens) :
      Tiles offset (spelling ++ rest)
        (⟨kind, ⟨offset, offset + textBytes spelling⟩⟩ :: tokens)

theorem Spells.textBytes_pos {kind : TokenKind} {spelling : List Char}
    (spells : Spells kind spelling) : 0 < textBytes spelling := by
  have notEmpty : ∃ c rest, spelling = c :: rest := by
    cases spells with
    | @word word isSpelled =>
      cases isCharacters : word.toList with
      | nil => simp [isWord, isCharacters] at isSpelled
      | cons c rest => exact ⟨c, rest, rfl⟩
    | punct mark => exact ⟨_, _, rfl⟩
    | text => exact ⟨_, _, rfl⟩
  obtain ⟨c, rest, rfl⟩ := notEmpty
  have isPositive := c.utf8Size_pos
  rw [textBytes, List.map_cons, List.sum_cons]
  omega

/-- A token stands in a source: its span are the bytes of its spelling there. -/
structure Token.StandsIn (token : Token) (source : List Char) (offset : Nat) : Prop where
  exists_spelling : ∃ before spelling after, source = before ++ spelling ++ after ∧
    token.span = ⟨offset + textBytes before, offset + textBytes (before ++ spelling)⟩ ∧
    Spells token.kind spelling ∧ (token.kind.isWordlike = true → EndsWord after)

/-- The span of a token is not empty. -/
theorem Token.StandsIn.span_lt {token : Token} {source : List Char} {offset : Nat}
    (stands : token.StandsIn source offset) : token.span.start < token.span.stop := by
  obtain ⟨before, spelling, after, -, isSpan, spells, -⟩ := stands
  have notEmpty := spells.textBytes_pos
  rw [isSpan, textBytes_append]
  dsimp only
  omega

theorem Token.StandsIn.behind {token : Token} {source : List Char} {offset : Nat}
    (front : List Char) (stands : token.StandsIn source (offset + textBytes front)) :
    token.StandsIn (front ++ source) offset := by
  obtain ⟨before, spelling, after, rfl, isSpan, spells, ends⟩ := stands
  refine ⟨front ++ before, spelling, after, by simp, ?_, spells, ends⟩
  rw [isSpan, List.append_assoc, textBytes_append front, textBytes_append front, Nat.add_assoc,
    Nat.add_assoc]

/-- The tokens of a tiling stand where their spans are, one behind the other. -/
theorem Tiles.stand {offset : Nat} {source : List Char} {tokens : List Token}
    (tiles : Tiles offset source tokens) :
    tokens.Pairwise (fun first second => first.span.stop ≤ second.span.start) ∧
      ∀ token ∈ tokens, offset ≤ token.span.start ∧ token.StandsIn source offset := by
  induction tiles with
  | nil => exact ⟨.nil, fun _ isIn => nomatch isIn⟩
  | @blank offset c rest tokens _ _ ih =>
    refine ⟨ih.1, fun token isToken => ?_⟩
    obtain ⟨isBehind, stands⟩ := ih.2 token isToken
    exact ⟨(Nat.le_add_right ..).trans isBehind, stands.behind [c]⟩
  | @comment offset body rest tokens _ _ _ ih =>
    refine ⟨ih.1, fun token isToken => ?_⟩
    obtain ⟨isBehind, stands⟩ := ih.2 token isToken
    exact ⟨(Nat.le_add_right ..).trans isBehind, stands.behind ('/' :: '/' :: body)⟩
  | @token offset kind spelling rest tokens spells ends _ ih =>
    refine ⟨.cons (fun token isToken => (ih.2 token isToken).1) ih.1, fun token isToken => ?_⟩
    rcases List.mem_cons.mp isToken with rfl | isLater
    · exact ⟨Nat.le_refl _, [], spelling, rest, rfl, by simp [textBytes], spells, ends⟩
    · obtain ⟨isBehind, stands⟩ := ih.2 token isLater
      exact ⟨(Nat.le_add_right ..).trans isBehind, stands.behind spelling⟩

/-! ### From the source to the tiles -/

/-- The characters inside a comment: the rest of its line, and tiles behind it. -/
def Comments (offset : Nat) (cs : List Char) (tokens : List Token) : Prop :=
  ∃ body rest, cs = body ++ rest ∧ '\n' ∉ body ∧ EndsLine rest ∧
    Tiles (offset + textBytes body) rest tokens

/-- The characters inside a text: the rest of it, a quote, and tiles behind it. -/
def Closes (start : Nat) (read : List Char) (offset : Nat) (cs : List Char)
    (tokens : List Token) : Prop :=
  ∃ inside value rest more, cs = inside ++ '"' :: rest ∧ Unquotes inside value ∧
    tokens = ⟨.text (String.ofList (read.reverse ++ value)),
      ⟨start, offset + textBytes inside + 1⟩⟩ :: more ∧
    Tiles (offset + textBytes inside + 1) rest more

/-- What the characters from a byte offset on are when a reader in some mode finds the tokens in
them and no error. -/
def LexMode.Continues (offset : Nat) (cs : List Char) (tokens : List Token) : LexMode → Prop
  | .between => Tiles offset cs tokens
  | .slash => ∃ rest, cs = '/' :: rest ∧ Comments (offset + 1) rest tokens
  | .comment => Comments offset cs tokens
  | .word start read => ∃ part rest more, cs = part ++ rest ∧ part.all isWordPart = true ∧
      EndsWord rest ∧ tokens = ⟨wordKind (String.ofList (read.reverse ++ part)),
        ⟨start, offset + textBytes part⟩⟩ :: more ∧ Tiles (offset + textBytes part) rest more
  | .text start _ read => Closes start read offset cs tokens
  | .escape start _ read => ∃ letter meant rest, cs = letter :: rest ∧
      Text.unescape? letter = some meant ∧
      Closes start (meant :: read) (offset + letter.utf8Size) rest tokens

theorem textBytes_cons (c : Char) (cs : List Char) :
    textBytes (c :: cs) = c.utf8Size + textBytes cs := by
  rw [textBytes, List.map_cons, List.sum_cons, textBytes]

theorem textBytes_quoted (inside : List Char) :
    textBytes ('"' :: inside ++ ['"']) = 1 + textBytes inside + 1 := by
  rw [textBytes_concat, textBytes_cons]
  rfl

/-- What was found begins with the first token. -/
theorem exists_of_ok_cons {token : Token} {found : List Finding} {tokens : List Token}
    (areTokens : .ok token :: found = tokens.map .ok) :
    ∃ more, tokens = token :: more ∧ found = more.map .ok := by
  obtain ⟨first, more, rfl, isFirst, isRest⟩ := List.map_eq_cons_iff.mp areTokens.symm
  exact ⟨more, Except.ok.inj isFirst ▸ rfl, isRest.symm⟩

/-- Tokens alone are no error. -/
theorem ne_of_error_cons {error : LexError} {found : List Finding} {tokens : List Token} :
    .error error :: found ≠ tokens.map .ok := by
  intro areTokens
  obtain ⟨_, _, _, isFirst, _⟩ := List.map_eq_cons_iff.mp areTokens.symm
  cases isFirst

/-- The text that is behind a quote is a tile with it. -/
theorem Closes.tiles {offset : Nat} {cs : List Char} {tokens : List Token}
    (closes : Closes offset [] (offset + 1) cs tokens) : Tiles offset ('"' :: cs) tokens := by
  obtain ⟨inside, value, rest, more, rfl, unquotes, rfl, tiles⟩ := closes
  have isStop : offset + 1 + textBytes inside + 1 =
      offset + textBytes ('"' :: inside ++ ['"']) := by
    rw [textBytes_quoted]
    omega
  rw [isStop] at tiles ⊢
  have whole : '"' :: (inside ++ '"' :: rest) = '"' :: inside ++ ['"'] ++ rest := by simp
  rw [whole, List.reverse_nil, List.nil_append]
  exact .token (.text unquotes) nofun tiles

/-- A character of a comment goes on with it. -/
theorem Comments.cons {offset : Nat} {cs : List Char} {tokens : List Token} {c : Char}
    (sameLine : c ≠ '\n') (comments : Comments (offset + c.utf8Size) cs tokens) :
    Comments offset (c :: cs) tokens := by
  obtain ⟨body, rest, rfl, oneLine, ends, tiles⟩ := comments
  refine ⟨c :: body, rest, rfl, ?_, ends, ?_⟩
  · rw [List.mem_cons, not_or]
    exact ⟨Ne.symm sameLine, oneLine⟩
  · rwa [textBytes_cons, ← Nat.add_assoc]

/-- A character of a word goes on with it. -/
theorem LexMode.continues_word {start offset : Nat} {read cs : List Char} {tokens : List Token}
    {c : Char} (isPart : isWordPart c = true)
    (continues : (word start (c :: read)).Continues (offset + c.utf8Size) cs tokens) :
    (word start read).Continues offset (c :: cs) tokens := by
  obtain ⟨part, rest, more, rfl, areParts, ends, rfl, tiles⟩ := continues
  have isStop : offset + textBytes (c :: part) = offset + c.utf8Size + textBytes part := by
    rw [textBytes_cons, ← Nat.add_assoc]
  refine ⟨c :: part, rest, more, rfl, by simp [isPart, areParts], ends, ?_, ?_⟩
  · rw [List.reverse_cons, List.append_assoc, List.singleton_append, isStop]
  · rwa [isStop]

/-- The quote at its end ends a text. -/
theorem Closes.quote {start offset : Nat} {read cs : List Char} {more : List Token}
    (tiles : Tiles (offset + 1) cs more) :
    Closes start read offset ('"' :: cs)
      (⟨.text (String.ofList read.reverse), ⟨start, offset + 1⟩⟩ :: more) := by
  refine ⟨[], [], cs, more, rfl, .nil, ?_, tiles⟩
  rw [List.append_nil]
  rfl

/-- A character of a text goes on with it. -/
theorem Closes.plain {start offset : Nat} {read cs : List Char} {tokens : List Token} {c : Char}
    (notQuote : c ≠ '"') (notSlash : c ≠ '\\')
    (closes : Closes start (c :: read) (offset + c.utf8Size) cs tokens) :
    Closes start read offset (c :: cs) tokens := by
  obtain ⟨inside, value, rest, more, rfl, unquotes, rfl, tiles⟩ := closes
  refine ⟨c :: inside, c :: value, rest, more, rfl, .plain notQuote notSlash unquotes, ?_, ?_⟩
  · rw [List.reverse_cons, List.append_assoc, List.singleton_append, textBytes_cons,
      Nat.add_assoc offset]
  · rwa [textBytes_cons, ← Nat.add_assoc offset]

/-- An escape goes on with a text. -/
theorem Closes.escape {start offset : Nat} {read cs : List Char} {tokens : List Token}
    {letter meant : Char} (isEscape : Text.unescape? letter = some meant)
    (closes : Closes start (meant :: read) (offset + 1 + letter.utf8Size) cs tokens) :
    Closes start read offset ('\\' :: letter :: cs) tokens := by
  obtain ⟨inside, value, rest, more, rfl, unquotes, rfl, tiles⟩ := closes
  have bytes : offset + textBytes ('\\' :: letter :: inside) =
      offset + 1 + letter.utf8Size + textBytes inside := by
    rw [textBytes_cons, textBytes_cons, ← Nat.add_assoc, ← Nat.add_assoc]
    rfl
  refine ⟨'\\' :: letter :: inside, meant :: value, rest, more, rfl, .escape isEscape unquotes,
    ?_, ?_⟩
  · rw [List.reverse_cons, List.append_assoc, List.singleton_append, bytes]
  · rwa [bytes]

theorem isWordlike_wordKind (word : String) : (wordKind word).isWordlike = true := by
  unfold wordKind
  split
  · rfl
  split <;> rfl

namespace Lexer

variable {at_ : Lexer} {c : Char} {cs : List Char} {tokens : List Token}

section Between

variable (continues : ∀ (at_ : Lexer) (tokens : List Token), at_.run cs = tokens.map .ok →
  at_.mode.Continues at_.offset cs tokens)

include continues

/-- A character between two tokens, when the reader goes on without an error. -/
theorem tiles_of_stepBetween
    (runs : (at_.stepBetween c).2 ++ (at_.stepBetween c).1.run cs = tokens.map .ok) :
    Tiles at_.offset (c :: cs) tokens := by
  unfold stepBetween at runs
  split at runs
  next isBreak =>
    subst isBreak
    exact .blank (by decide) (continues _ _ runs)
  split at runs
  next isBlank => exact .blank isBlank (continues _ _ runs)
  split at runs
  next isSlash =>
    subst isSlash
    obtain ⟨_, rfl, body, rest, rfl, oneLine, ends, tiles⟩ := continues _ _ runs
    refine .comment oneLine ends ?_
    rwa [textBytes_cons, textBytes_cons, ← Nat.add_assoc, ← Nat.add_assoc]
  split at runs
  next isQuote =>
    subst isQuote
    exact Closes.tiles (continues _ _ runs)
  split at runs
  next starts =>
    obtain ⟨part, rest, more, rfl, areParts, ends, rfl, tiles⟩ := continues _ _ runs
    have isSpelled : isWord (String.ofList (c :: part)) = true := by
      simp [isWord, starts, areParts]
    have spells := Spells.word isSpelled
    rw [String.toList_ofList] at spells
    have isStop : (at_.past c (.word at_.offset [c])).offset + textBytes part =
        at_.offset + textBytes (c :: part) := by
      rw [textBytes_cons, ← Nat.add_assoc]
      rfl
    rw [isStop] at tiles ⊢
    exact .token spells (fun _ => ends) tiles
  split at runs
  next mark isMark =>
    obtain ⟨more, rfl, later⟩ := exists_of_ok_cons runs
    obtain rfl : mark.char = c := by simpa using List.find?_some isMark
    exact .token (.punct mark) (fun isWordlike => absurd isWordlike Bool.false_ne_true)
      (continues _ _ later)
  next => exact absurd runs ne_of_error_cons

end Between

/-- At the end of a source, a reader that finds no error is not inside a text or a comment sign. -/
theorem continues_of_finish (runs : at_.finish = tokens.map .ok) :
    at_.mode.Continues at_.offset [] tokens := by
  rw [finish] at runs
  cases isMode : at_.mode with
  | between =>
    rw [isMode] at runs
    rw [List.map_eq_nil_iff.mp runs.symm]
    exact .nil _
  | comment =>
    rw [isMode] at runs
    rw [List.map_eq_nil_iff.mp runs.symm]
    exact ⟨[], [], rfl, by simp, by simp [EndsLine], .nil _⟩
  | word start read =>
    rw [isMode] at runs
    obtain ⟨more, rfl, isEnd⟩ := exists_of_ok_cons runs
    rw [List.map_eq_nil_iff.mp isEnd.symm]
    refine ⟨[], [], [], rfl, rfl, by simp [EndsWord], ?_, .nil _⟩
    rw [List.append_nil]
    rfl
  | slash | text | escape =>
    rw [isMode] at runs
    exact absurd runs ne_of_error_cons

/-- What the characters are in which a reader finds tokens and no error. -/
theorem continues_of_run (runs : at_.run cs = tokens.map .ok) :
    at_.mode.Continues at_.offset cs tokens := by
  induction cs generalizing at_ tokens with
  | nil => exact continues_of_finish (by rwa [run] at runs)
  | cons c cs ih =>
    have between := fun tokens => @tiles_of_stepBetween at_ c cs tokens fun _ _ runs => ih runs
    rw [run_cons, step] at runs
    cases isMode : at_.mode with
    | between =>
      rw [isMode] at runs
      exact between _ runs
    | slash =>
      rw [isMode] at runs
      dsimp only at runs
      split at runs
      next isSlash =>
        subst isSlash
        exact ⟨cs, rfl, ih runs⟩
      next => exact absurd runs ne_of_error_cons
    | comment =>
      rw [isMode] at runs
      dsimp only at runs
      split at runs
      next isBreak =>
        subst isBreak
        exact ⟨[], '\n' :: cs, rfl, by simp, by simp [EndsLine], .blank (by decide) (ih runs)⟩
      next sameLine => exact Comments.cons sameLine (ih runs)
    | word start read =>
      rw [isMode] at runs
      dsimp only at runs
      split at runs
      next isPart => exact LexMode.continues_word isPart (ih runs)
      next notPart =>
        obtain ⟨more, rfl, later⟩ := exists_of_ok_cons runs
        refine ⟨[], c :: cs, more, rfl, rfl, by simpa [EndsWord] using notPart, ?_,
          between _ later⟩
        rw [List.append_nil]
        rfl
    | text start column read =>
      rw [isMode] at runs
      dsimp only at runs
      split at runs
      next isQuote =>
        subst isQuote
        obtain ⟨more, rfl, later⟩ := exists_of_ok_cons runs
        exact Closes.quote (ih later)
      next notQuote =>
      split at runs
      next isSlash =>
        subst isSlash
        obtain ⟨letter, meant, rest, rfl, isEscape, closes⟩ := ih runs
        exact closes.escape isEscape
      next notSlash =>
      split at runs
      next isBreak =>
        subst isBreak
        exact Closes.plain notQuote notSlash (ih runs)
      next => exact Closes.plain notQuote notSlash (ih runs)
    | escape start column read =>
      rw [isMode] at runs
      dsimp only at runs
      split at runs
      next meant isEscape => exact ⟨c, meant, cs, rfl, isEscape, ih runs⟩
      next => exact absurd runs ne_of_error_cons

/-! ### From the tiles to the tokens -/

/-- Inside a comment, the rest of its line is passed over. -/
theorem run_comment {body rest : List Char} (oneLine : '\n' ∉ body) (ends : EndsLine rest)
    (isMode : at_.mode = .comment) :
    ∃ next : Lexer, next.mode = .between ∧ next.offset = at_.offset + textBytes body ∧
      at_.run (body ++ rest) = next.run rest := by
  induction body generalizing at_ with
  | nil =>
    refine ⟨{ at_ with mode := .between }, rfl, rfl, ?_⟩
    cases rest with
    | nil =>
      rw [List.append_nil, run, run, finish, isMode]
      rfl
    | cons c rest =>
      obtain rfl := ends c rfl
      rw [List.nil_append, run_cons, step, isMode]
      rfl
  | cons c body ih =>
    rw [List.mem_cons, not_or] at oneLine
    have isStep : at_.step c = (at_.past c .comment, []) := by
      rw [step, isMode]
      exact if_neg (Ne.symm oneLine.1)
    obtain ⟨next, isNext, isOffset, runs⟩ := @ih (at_.past c .comment) oneLine.2 rfl
    refine ⟨next, isNext, ?_, ?_⟩
    · rw [isOffset, textBytes_cons, ← Nat.add_assoc]
      rfl
    · rw [List.cons_append, run_cons, isStep, List.nil_append, runs]

/-- Inside a word, the rest of it is read and found. -/
theorem run_part {part rest : List Char} (areParts : part.all isWordPart = true)
    (ends : EndsWord rest) {start : Nat} {read : List Char} (isMode : at_.mode = .word start read) :
    ∃ next : Lexer, next.mode = .between ∧ next.offset = at_.offset + textBytes part ∧
      at_.run (part ++ rest) = .ok ⟨wordKind (String.ofList (read.reverse ++ part)),
        ⟨start, at_.offset + textBytes part⟩⟩ :: next.run rest := by
  induction part generalizing at_ read with
  | nil =>
    refine ⟨{ at_ with mode := .between }, rfl, rfl, ?_⟩
    rw [List.append_nil]
    cases rest with
    | nil =>
      rw [List.append_nil, run, finish, isMode]
      rfl
    | cons c rest =>
      have notPart : isWordPart c = false := ends c rfl
      rw [List.nil_append, run_cons, step, isMode, run_cons, ← stepBetween_eq]
      simp only [notPart, Bool.false_eq_true, if_false]
      rfl
  | cons c part ih =>
    rw [List.all_cons, Bool.and_eq_true] at areParts
    have isStep : at_.step c = (at_.past c (.word start (c :: read)), []) := by
      rw [step, isMode]
      exact if_pos areParts.1
    obtain ⟨next, isNext, isOffset, runs⟩ :=
      @ih (at_.past c (.word start (c :: read))) areParts.2 (c :: read) rfl
    have bytes : at_.offset + textBytes (c :: part) =
        (at_.past c (.word start (c :: read))).offset + textBytes part := by
      rw [textBytes_cons, ← Nat.add_assoc]
      rfl
    refine ⟨next, isNext, isOffset.trans bytes.symm, ?_⟩
    rw [List.cons_append, run_cons, isStep, List.nil_append, runs, bytes, List.reverse_cons,
      List.append_assoc, List.singleton_append]

/-- Inside a text, the rest of it is read and found. -/
theorem run_inside {inside value : List Char} (unquotes : Unquotes inside value)
    (rest : List Char) {start column : Nat} {read : List Char}
    (isMode : at_.mode = .text start column read) :
    ∃ next : Lexer, next.mode = .between ∧ next.offset = at_.offset + textBytes inside + 1 ∧
      at_.run (inside ++ '"' :: rest) = .ok ⟨.text (String.ofList (read.reverse ++ value)),
        ⟨start, at_.offset + textBytes inside + 1⟩⟩ :: next.run rest := by
  induction unquotes generalizing at_ read with
  | nil =>
    refine ⟨at_.past '"' .between, rfl, rfl, ?_⟩
    rw [List.nil_append, List.append_nil, run_cons, step, isMode]
    rfl
  | @plain c inside value notQuote notSlash _ ih =>
    have isStep : (at_.step c).2 = [] ∧ (at_.step c).1.mode = .text start column (c :: read) := by
      rw [step, isMode]
      simp only [notQuote, notSlash, if_false]
      split <;> exact ⟨rfl, rfl⟩
    obtain ⟨next, isNext, isOffset, runs⟩ := ih isStep.2
    rw [offset_step, Nat.add_assoc at_.offset, ← textBytes_cons] at isOffset runs
    refine ⟨next, isNext, isOffset, ?_⟩
    rw [List.cons_append, run_cons, isStep.1, List.nil_append, runs, List.reverse_cons,
      List.append_assoc, List.singleton_append]
  | @escape letter meant inside value isEscape _ ih =>
    have isSlash : at_.step '\\' = (at_.past '\\' (.escape start column read), []) := by
      rw [step, isMode]
      rfl
    have isLetter : (at_.past '\\' (.escape start column read)).step letter =
        ((at_.past '\\' (.escape start column read)).past letter
          (.text start column (meant :: read)), []) := by
      simp only [step, past, isEscape]
    obtain ⟨next, isNext, isOffset, runs⟩ := @ih ((at_.past '\\' (.escape start column read)).past
      letter (.text start column (meant :: read))) _ rfl
    have bytes : at_.offset + textBytes ('\\' :: letter :: inside) =
        at_.offset + 1 + letter.utf8Size + textBytes inside := by
      rw [textBytes_cons, textBytes_cons, ← Nat.add_assoc, ← Nat.add_assoc]
      rfl
    rw [bytes]
    refine ⟨next, isNext, isOffset, ?_⟩
    rw [List.cons_append, List.cons_append, run_cons, isSlash, List.nil_append, run_cons, isLetter,
      List.nil_append, runs, List.reverse_cons, List.append_assoc, List.singleton_append]
    rfl

/-- A blank leads from between two tokens to between two tokens. -/
theorem stepBetween_of_isBlank (isBlank : Text.isBlank c = true) (at_ : Lexer) :
    (at_.stepBetween c).2 = [] ∧ (at_.stepBetween c).1.mode = .between := by
  unfold stepBetween
  split
  next => exact ⟨rfl, rfl⟩
  next => exact ⟨rfl, rfl⟩

/-- A token is found at the end of its spelling, and the reader goes on between two tokens. -/
theorem run_token {kind : TokenKind} {spelling rest : List Char} (spells : Spells kind spelling)
    (ends : kind.isWordlike = true → EndsWord rest) (isMode : at_.mode = .between) :
    ∃ next : Lexer, next.mode = .between ∧ next.offset = at_.offset + textBytes spelling ∧
      at_.run (spelling ++ rest) =
        .ok ⟨kind, ⟨at_.offset, at_.offset + textBytes spelling⟩⟩ :: next.run rest := by
  cases spells with
  | @word word isSpelled =>
    cases isCharacters : word.toList with
    | nil => simp [isWord, isCharacters] at isSpelled
    | cons first part =>
      simp only [isWord, isCharacters, Bool.and_eq_true] at isSpelled
      have isEnd := ends (isWordlike_wordKind word)
      obtain ⟨next, isNext, isOffset, runs⟩ := @run_part
        (at_.past first (.word at_.offset [first])) part rest isSpelled.2 isEnd _ _ rfl
      have bytes : (at_.past first (.word at_.offset [first])).offset + textBytes part =
          at_.offset + textBytes (first :: part) := by
        rw [textBytes_cons, ← Nat.add_assoc]
        rfl
      refine ⟨next, isNext, isOffset.trans bytes, ?_⟩
      rw [List.cons_append, run_cons, step_of_isWordStart isMode isSpelled.1, List.nil_append,
        runs, bytes, List.reverse_singleton, List.singleton_append, ← isCharacters,
        String.ofList_toList]
  | punct mark =>
    refine ⟨at_.past mark.char .between, rfl, rfl, ?_⟩
    rw [List.singleton_append, run_cons, step_of_between isMode]
    cases mark <;> rfl
  | @text inside value unquotes =>
    obtain ⟨next, isNext, isOffset, runs⟩ := @run_inside
      (at_.past '"' (.text at_.offset (at_.columnOf at_.offset) [])) _ _ unquotes rest _ _ _ rfl
    have bytes : at_.offset + 1 + textBytes inside + 1 =
        at_.offset + textBytes ('"' :: inside ++ ['"']) := by
      rw [textBytes_quoted]
      omega
    have isStep : at_.step '"' =
        (at_.past '"' (.text at_.offset (at_.columnOf at_.offset) []), []) :=
      step_of_between isMode '"'
    refine ⟨next, isNext, isOffset.trans bytes, ?_⟩
    rw [List.append_assoc, List.cons_append, List.singleton_append, run_cons, isStep,
      List.nil_append, runs, List.reverse_nil, List.nil_append, ← bytes]
    rfl

/-- A reader between two tokens finds the tokens that tile the rest of the source. -/
theorem run_of_tiles {offset : Nat} (tiles : Tiles offset cs tokens) (isMode : at_.mode = .between)
    (isOffset : at_.offset = offset) : at_.run cs = tokens.map .ok := by
  induction tiles generalizing at_ with
  | nil => rw [run, finish, isMode]; rfl
  | @blank offset c rest tokens isBlank _ ih =>
    obtain ⟨noneFound, isNext⟩ := stepBetween_of_isBlank isBlank at_
    have isStep := step_of_between isMode c
    rw [run_cons, isStep, noneFound, List.nil_append]
    exact ih isNext (by rw [← isStep, offset_step, isOffset])
  | @comment offset body rest tokens oneLine ends _ ih =>
    obtain ⟨next, isNext, isBehind, runs⟩ := @run_comment
      ((at_.past '/' .slash).past '/' .comment) body rest oneLine ends rfl
    have isStep : at_.step '/' = (at_.past '/' .slash, []) := step_of_between isMode '/'
    rw [List.cons_append, List.cons_append, run_cons, isStep]
    refine runs.trans (ih isNext ?_)
    rw [isBehind, textBytes_cons, textBytes_cons, ← isOffset, ← Nat.add_assoc, ← Nat.add_assoc]
    rfl
  | @token offset kind spelling rest tokens spells ends _ ih =>
    obtain ⟨next, isNext, isBehind, runs⟩ := run_token spells ends isMode
    rw [runs, isOffset, ih isNext (by rw [isBehind, isOffset]), List.map_cons]

end Lexer

/-- **Tokens tile the source.** A source has exactly the tokens that tile it with blanks and
comments. Their spans are not empty and lie one behind the other in the source, and each token is
spelled by the characters of its span. -/
theorem tokenize_tiles (source : String) (tokens : List Token) :
    (tokenize source = .ok tokens ↔ Tiles 0 source.toList tokens) ∧
      (tokenize source = .ok tokens →
        tokens.Pairwise (fun first second => first.span.stop ≤ second.span.start) ∧
          ∀ token ∈ tokens, token.span.start < token.span.stop ∧
            token.StandsIn source.toList 0) := by
  have isTiled : tokenize source = .ok tokens ↔ Tiles 0 source.toList tokens := by
    rw [tokenize_eq_ok_iff]
    exact ⟨fun runs => Lexer.continues_of_run runs, fun tiles => Lexer.run_of_tiles tiles rfl rfl⟩
  refine ⟨isTiled, fun isRead => ?_⟩
  obtain ⟨ordered, stand⟩ := (isTiled.mp isRead).stand
  exact ⟨ordered, fun token isToken => ⟨(stand token isToken).2.span_lt, (stand token isToken).2⟩⟩

end Bindery.Script
