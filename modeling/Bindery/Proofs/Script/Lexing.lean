/-
**The text of phrases is read as the tokens of these phrases.**

`Reads cs kinds` says what the characters `cs` are between two tokens, whatever follows them: tokens
of the given kinds and nothing else. Such readings follow each other (`Reads.append`). A word needs
a character behind it that cannot belong to it, so what ends with a word `Fits` in front of such
characters only.

* `Phrase.kinds` — the tokens of a phrase, without their places.
* `Phrase.reads_render` — the text of a phrase is read as its tokens.
* `tokenize_of_reads` — a whole text that reads as tokens has just these tokens.
-/

import Bindery.Script.Lexer
import Bindery.Script.Phrase

namespace Bindery.Script

/-! ### Readings -/

/-- Between two tokens, the characters are read as tokens of these kinds, whatever follows. -/
def Reads (cs : List Char) (kinds : List TokenKind) : Prop :=
  ∀ (at_ : Lexer) (rest : List Char), at_.mode = .between →
    ∃ (next : Lexer) (tokens : List Token), next.mode = .between ∧
      tokens.map Token.kind = kinds ∧ at_.run (cs ++ rest) = tokens.map .ok ++ next.run rest

/-- The characters are read as tokens of these kinds in front of a character that ends words. -/
def Fits (cs : List Char) (kinds : List TokenKind) : Prop :=
  ∀ (c : Char) (more : List Char) (moreKinds : List TokenKind), isWordPart c = false →
    Reads (c :: more) moreKinds → Reads (cs ++ c :: more) (kinds ++ moreKinds)

namespace Lexer

theorem run_cons (at_ : Lexer) (c : Char) (cs : List Char) :
    at_.run (c :: cs) = (at_.step c).2 ++ (at_.step c).1.run cs :=
  rfl

theorem step_of_between {at_ : Lexer} (isBetween : at_.mode = .between) (c : Char) :
    at_.step c = at_.stepBetween c := by
  rw [step, isBetween]

/-- What a character between two tokens does, whatever the reader was in the middle of. -/
theorem stepBetween_eq (at_ : Lexer) (c : Char) :
    at_.stepBetween c = ({ at_ with mode := .between } : Lexer).step c :=
  rfl

end Lexer

namespace Reads

variable {cs ds : List Char} {kinds more : List TokenKind}

theorem nil : Reads [] [] := fun at_ _ isBetween => ⟨at_, [], isBetween, rfl, rfl⟩

theorem append (first : Reads cs kinds) (second : Reads ds more) :
    Reads (cs ++ ds) (kinds ++ more) := by
  intro at_ rest isBetween
  obtain ⟨middle, tokens, isMiddle, areKinds, runFirst⟩ := first at_ (ds ++ rest) isBetween
  obtain ⟨next, others, isNext, areMore, runSecond⟩ := second middle rest isMiddle
  refine ⟨next, tokens ++ others, isNext, by rw [List.map_append, areKinds, areMore], ?_⟩
  rw [List.append_assoc, runFirst, runSecond, List.map_append, List.append_assoc]

/-- One character that leads from between two tokens to between two tokens. -/
theorem single {c : Char} {kinds : List TokenKind}
    (steps : ∀ at_ : Lexer, ∃ tokens : List Token, (at_.stepBetween c).1.mode = .between ∧
      tokens.map Token.kind = kinds ∧ (at_.stepBetween c).2 = tokens.map .ok) :
    Reads [c] kinds := by
  intro at_ rest isBetween
  obtain ⟨tokens, isNext, areKinds, found⟩ := steps at_
  refine ⟨(at_.stepBetween c).1, tokens, isNext, areKinds, ?_⟩
  rw [List.singleton_append, Lexer.run_cons, Lexer.step_of_between isBetween, found]

theorem lineBreak : Reads ['\n'] [] := single fun _ => ⟨[], rfl, rfl, rfl⟩

theorem space : Reads [' '] [] := single fun _ => ⟨[], rfl, rfl, rfl⟩

theorem spaces (n : Nat) : Reads (List.replicate n ' ') [] := by
  induction n with
  | zero => exact nil
  | succ n ih => exact space.append ih

theorem punct (mark : Punct) : Reads [mark.char] [.punct mark] := by
  refine single fun at_ => ⟨[⟨.punct mark, ⟨at_.offset, at_.offset + mark.char.utf8Size⟩⟩], ?_⟩
  cases mark <;> exact ⟨rfl, rfl, rfl⟩

theorem fits (reads : Reads cs kinds) : Fits cs kinds :=
  fun _ _ _ _ readsMore => reads.append readsMore

end Reads

/-! ### Comments -/

/-- A comment and the line break behind it are no tokens. -/
theorem Reads.comment {cs : List Char} (oneLine : '\n' ∉ cs) :
    Reads ('/' :: '/' :: cs ++ ['\n']) [] := by
  have inComment : ∀ (cs : List Char) (at_ : Lexer) (rest : List Char), '\n' ∉ cs →
      at_.mode = .comment → ∃ next : Lexer, next.mode = .between ∧
        at_.run (cs ++ '\n' :: rest) = next.run rest := by
    intro cs
    induction cs with
    | nil =>
      intro at_ rest _ isComment
      refine ⟨at_.pastLine .between, rfl, ?_⟩
      rw [List.nil_append, Lexer.run_cons, Lexer.step, isComment]
      rfl
    | cons c others ih =>
      intro at_ rest oneLine isComment
      rw [List.mem_cons, not_or] at oneLine
      obtain ⟨next, isNext, runs⟩ := ih (at_.past c .comment) rest oneLine.2 rfl
      refine ⟨next, isNext, ?_⟩
      rw [List.cons_append, Lexer.run_cons, Lexer.step, isComment]
      simp only [Ne.symm oneLine.1, if_false]
      exact runs
  intro at_ rest isBetween
  obtain ⟨next, isNext, runs⟩ :=
    inComment cs ((at_.past '/' .slash).past '/' .comment) rest oneLine rfl
  refine ⟨next, [], isNext, rfl, ?_⟩
  rw [List.append_assoc, List.cons_append, List.cons_append, List.singleton_append,
    Lexer.run_cons, Lexer.step_of_between isBetween]
  exact runs

/-! ### Texts -/

/-- Inside a text, its escaped characters and a quote complete it. -/
theorem Lexer.run_text (cs : List Char) {at_ : Lexer} {start column : Nat} {read : List Char}
    (inText : at_.mode = .text start column read) (rest : List Char) :
    ∃ (next : Lexer) (token : Token), next.mode = .between ∧
      token.kind = .text (String.ofList (read.reverse ++ cs)) ∧
      at_.run (cs.flatMap Text.escape ++ '"' :: rest) = .ok token :: next.run rest := by
  induction cs generalizing at_ read with
  | nil =>
    refine ⟨at_.past '"' .between,
      ⟨.text (String.ofList read.reverse), ⟨start, at_.offset + 1⟩⟩, rfl, by simp, ?_⟩
    rw [List.flatMap_nil, List.nil_append, run_cons, step, inText]
    rfl
  | cons c others ih =>
    rw [List.flatMap_cons, List.append_assoc]
    have reversed : (c :: read).reverse ++ others = read.reverse ++ c :: others := by simp
    cases isEscaped : Text.escapeLetter? c with
    | some letter =>
      obtain ⟨next, token, isNext, isToken, runs⟩ :=
        @ih ((at_.past '\\' (.escape start column read)).past letter
          (.text start column (c :: read))) (c :: read) rfl
      refine ⟨next, token, isNext, reversed ▸ isToken, ?_⟩
      have afterSlash : at_.step '\\' = (at_.past '\\' (.escape start column read), []) := by
        rw [step, inText]
        rfl
      have afterLetter : (at_.past '\\' (.escape start column read)).step letter =
          ((at_.past '\\' (.escape start column read)).past letter
            (.text start column (c :: read)), []) := by
        simp only [step, past, Text.unescape?_escapeLetter? isEscaped]
      rw [Text.escape, isEscaped]
      show at_.run ('\\' :: letter :: _) = _
      rw [run_cons, afterSlash, run_cons, afterLetter]
      exact runs
    | none =>
      obtain ⟨next, token, isNext, isToken, runs⟩ :=
        @ih (at_.past c (.text start column (c :: read))) (c :: read) rfl
      refine ⟨next, token, isNext, reversed ▸ isToken, ?_⟩
      have isPlain : c ≠ '"' ∧ c ≠ '\\' ∧ c ≠ '\n' := by
        refine ⟨?_, ?_, ?_⟩ <;> rintro rfl <;> simp [Text.escapeLetter?] at isEscaped
      have afterChar : at_.step c = (at_.past c (.text start column (c :: read)), []) := by
        rw [step, inText]
        simp only [isPlain.1, isPlain.2.1, isPlain.2.2, if_false]
      rw [Text.escape, isEscaped]
      show at_.run (c :: _) = _
      rw [run_cons, afterChar]
      exact runs

theorem Reads.text (value : String) : Reads (renderText value) [.text value] := by
  intro at_ rest isBetween
  obtain ⟨next, token, isNext, isToken, runs⟩ := @Lexer.run_text value.toList
    (at_.past '"' (.text at_.offset (at_.columnOf at_.offset) [])) _ _ _ rfl rest
  refine ⟨next, [token], isNext, by simpa using isToken, ?_⟩
  rw [renderText, Text.quote, List.append_assoc, List.cons_append, List.singleton_append,
    Lexer.run_cons, Lexer.step_of_between isBetween]
  exact runs

/-! ### Words -/

/-- A word: a letter or a low line, and then letters, digits and low lines. -/
def isWord (word : String) : Bool :=
  match word.toList with
  | [] => false
  | c :: cs => isWordStart c && cs.all isWordPart

/-- A word that is neither of the two truth values. -/
def isIdentifier (word : String) : Bool :=
  isWord word && decide (wordKind word = .identifier word)

theorem isBlank_of_isWordStart {c : Char} (starts : isWordStart c = true) :
    Text.isBlank c = false := by
  have inRange : 65 ≤ c.toNat ∧ c.toNat ≤ 122 := by
    delta isWordStart Char.isAlpha Char.isUpper Char.isLower at starts
    simp only [Bool.or_eq_true, Bool.and_eq_true, decide_eq_true_eq, beq_iff_eq, ge_iff_le,
      UInt32.le_iff_toNat_le] at starts
    rcases starts with (isUpper | isLower) | rfl
    · simp at isUpper
      omega
    · simp at isLower
      omega
    · decide
  rw [Bool.eq_false_iff]
  intro isBlank
  simp only [Text.isBlank, Bool.or_eq_true, Bool.and_eq_true, decide_eq_true_eq, beq_iff_eq,
    UInt32.le_iff_toNat_le, ← UInt32.toNat_inj] at isBlank
  simp at isBlank
  omega

/-- Inside a word, the rest of it is read up to a character that cannot belong to it. -/
theorem Lexer.run_word {cs : List Char} (areParts : cs.all isWordPart = true) {at_ : Lexer}
    {start : Nat} {read : List Char} (inWord : at_.mode = .word start read) {c : Char}
    (ends : isWordPart c = false) (rest : List Char) :
    ∃ (next : Lexer) (token : Token), next.mode = .between ∧
      token.kind = wordKind (String.ofList (read.reverse ++ cs)) ∧
      at_.run (cs ++ c :: rest) = .ok token :: next.run (c :: rest) := by
  induction cs generalizing at_ read with
  | nil =>
    refine ⟨{ at_ with mode := .between },
      ⟨wordKind (String.ofList read.reverse), ⟨start, at_.offset⟩⟩, rfl, by simp, ?_⟩
    have afterWord : at_.step c = ((at_.stepBetween c).1,
        at_.wordToken start read :: (at_.stepBetween c).2) := by
      rw [step, inWord]
      simp only [ends, Bool.false_eq_true, if_false]
    rw [List.nil_append, run_cons, afterWord, run_cons, ← stepBetween_eq]
    rfl
  | cons part others ih =>
    rw [List.all_cons, Bool.and_eq_true] at areParts
    obtain ⟨next, token, isNext, isToken, runs⟩ :=
      @ih areParts.2 (at_.past part (.word start (part :: read))) (part :: read) rfl
    have afterPart : at_.step part = (at_.past part (.word start (part :: read)), []) := by
      rw [step, inWord]
      simp only [areParts.1, if_true]
    refine ⟨next, token, isNext, by simpa using isToken, ?_⟩
    rw [List.cons_append, run_cons, afterPart]
    exact runs

/-- The first character of a word. -/
theorem Lexer.step_of_isWordStart {at_ : Lexer} (isBetween : at_.mode = .between) {c : Char}
    (starts : isWordStart c = true) : at_.step c = (at_.past c (.word at_.offset [c]), []) := by
  have isPlain : c ≠ '\n' ∧ c ≠ '/' ∧ c ≠ '"' := by
    refine ⟨?_, ?_, ?_⟩ <;> rintro rfl <;> exact absurd starts (by decide)
  rw [step_of_between isBetween, stepBetween]
  simp only [isPlain.1, isPlain.2.1, isPlain.2.2, isBlank_of_isWordStart starts, starts,
    Bool.false_eq_true, if_false, if_true]

theorem Fits.word {word : String} (spelled : isWord word = true) :
    Fits word.toList [wordKind word] := by
  intro c more moreKinds ends readsMore at_ rest isBetween
  cases isCharacters : word.toList with
  | nil => simp [isWord, isCharacters] at spelled
  | cons first others =>
    simp only [isWord, isCharacters, Bool.and_eq_true] at spelled
    obtain ⟨starts, areParts⟩ := spelled
    obtain ⟨middle, token, isMiddle, isToken, runWord⟩ := @Lexer.run_word others areParts
      (at_.past first (.word at_.offset [first])) _ _ rfl c ends (more ++ rest)
    obtain ⟨next, tokens, isNext, areKinds, runMore⟩ := readsMore middle rest isMiddle
    have isWhole : token.kind = wordKind word := by
      rw [isToken, ← word.ofList_toList, isCharacters]
      rfl
    refine ⟨next, token :: tokens, isNext, by simp [isWhole, areKinds], ?_⟩
    rw [List.append_assoc, List.cons_append, List.cons_append, Lexer.run_cons,
      Lexer.step_of_isWordStart isBetween starts]
    rw [List.cons_append] at runMore
    simp only [runMore] at runWord
    exact runWord

/-! ### The tokens of a phrase -/

/-- Tokens with a comma between two groups of them. -/
def commaKinds (groups : List (List TokenKind)) : List TokenKind :=
  [.punct .comma].intercalate groups

/-- The tokens of a value. -/
def Value.kinds : Value → List TokenKind
  | .text value => [.text value]
  | .truth value => [.truth value]
  | .list items =>
    .punct .openBracket :: commaKinds (items.map ([.text ·])) ++ [.punct .closeBracket]

/-- The tokens of an argument with a name. -/
def namedKinds (argument : String × Value) : List TokenKind :=
  .identifier argument.1 :: .punct .equals :: argument.2.kinds

namespace Phrase

/-- The tokens of the name and the arguments of a phrase. -/
def headKinds (name : String) (unnamed : List String) (named : List (String × Value)) :
    List TokenKind :=
  .identifier name :: .punct .openParen ::
    commaKinds (unnamed.map ([.text ·]) ++ named.map namedKinds) ++ [.punct .closeParen]

mutual

/-- The tokens of a phrase. -/
def kinds : Phrase → List TokenKind
  | mk name unnamed named block =>
    headKinds name unnamed named ++
      match block with
      | [] => [.punct .semicolon]
      | first :: rest =>
        .punct .openBrace :: kinds first ++ kindsOfAll rest ++ [.punct .closeBrace]

/-- The tokens of some phrases. -/
def kindsOfAll : List Phrase → List TokenKind
  | [] => []
  | phrase :: rest => kinds phrase ++ kindsOfAll rest

end

/-- The names of a phrase, of its arguments and of the phrases inside it are identifiers. -/
inductive Spelled : Phrase → Prop
  | mk (name : String) (unnamed : List String) (named : List (String × Value))
      (block : List Phrase) (ownName : isIdentifier name = true)
      (argumentNames : ∀ argument ∈ named, isIdentifier argument.1 = true)
      (inside : ∀ phrase ∈ block, Spelled phrase) : Spelled (.mk name unnamed named block)

end Phrase

/-! ### The text of a phrase -/

theorem Fits.identifier {word : String} (isName : isIdentifier word = true) :
    Fits word.toList [.identifier word] := by
  rw [isIdentifier, Bool.and_eq_true, decide_eq_true_eq] at isName
  exact isName.2 ▸ Fits.word isName.1

/-- Pieces with commas between them, each of which fits in front of a comma. -/
theorem Fits.separated {pieces : List (List Char × List TokenKind)}
    (fit : ∀ piece ∈ pieces, Fits piece.1 piece.2) :
    Fits (commaSeparated (pieces.map Prod.fst)) (commaKinds (pieces.map Prod.snd)) := by
  induction pieces with
  | nil => exact fun _ _ _ _ readsMore => readsMore
  | cons piece rest ih =>
    have fitsFirst := fit piece (List.mem_cons_self ..)
    have fitsRest := ih fun other isLater => fit other (List.mem_cons_of_mem _ isLater)
    cases rest with
    | nil => simpa [commaSeparated, commaKinds] using fitsFirst
    | cons second others =>
      intro c more moreKinds ends readsMore
      have behindComma := (Reads.punct .comma).append (Reads.space.append
        (fitsRest c more moreKinds ends readsMore))
      have whole := fitsFirst ',' _ _ (by decide) behindComma
      simp only [commaSeparated, commaKinds, List.map_cons, List.intercalate_cons_cons] at whole ⊢
      simpa [Punct.char] using whole

theorem Fits.value (value : Value) : Fits value.render value.kinds := by
  cases value with
  | text value => exact (Reads.text value).fits
  | truth value => cases value <;> exact Fits.word (by decide)
  | list items =>
    have fitItems : Fits (commaSeparated (items.map renderText))
        (commaKinds (items.map ([.text ·]))) := by
      have := @Fits.separated (items.map fun item => (renderText item, [.text item]))
        fun piece isPiece => by
          obtain ⟨item, _, rfl⟩ := List.mem_map.mp isPiece
          exact (Reads.text item).fits
      simpa [List.map_map, Function.comp_def] using this
    have closed := fitItems ']' [] _ (by decide) (Reads.punct .closeBracket)
    exact ((Reads.punct .openBracket).append closed).fits

theorem Fits.named {argument : String × Value} (isName : isIdentifier argument.1 = true) :
    Fits (argument.1.toList ++ " = ".toList ++ argument.2.render) (namedKinds argument) := by
  intro c more moreKinds ends readsMore
  have readsValue := Fits.value argument.2 c more moreKinds ends readsMore
  have readsEquals := (Reads.punct .equals).append (Reads.space.append readsValue)
  have whole := Fits.identifier isName ' ' _ _ (by decide) (Reads.space.append readsEquals)
  simpa [namedKinds, Punct.char, List.append_assoc] using whole

namespace Phrase

theorem reads_renderHead {name : String} (ownName : isIdentifier name = true)
    (unnamed : List String) {named : List (String × Value)}
    (argumentNames : ∀ argument ∈ named, isIdentifier argument.1 = true) :
    Reads (renderHead name unnamed named) (headKinds name unnamed named) := by
  let pieces := unnamed.map (fun text => (renderText text, [TokenKind.text text])) ++
    named.map fun argument =>
      (argument.1.toList ++ " = ".toList ++ argument.2.render, namedKinds argument)
  have fit : ∀ piece ∈ pieces, Fits piece.1 piece.2 := by
    intro piece isPiece
    rcases List.mem_append.mp isPiece with isText | isNamed
    · obtain ⟨text, _, rfl⟩ := List.mem_map.mp isText
      exact (Reads.text text).fits
    · obtain ⟨argument, isArgument, rfl⟩ := List.mem_map.mp isNamed
      exact Fits.named (argumentNames argument isArgument)
  have closed := Fits.separated fit ')' [] _ (by decide) (Reads.punct .closeParen)
  have opened := Fits.identifier ownName '(' _ _ (by decide)
    ((Reads.punct .openParen).append closed)
  simpa [pieces, renderHead, headKinds, Function.comp_def, Punct.char] using opened

mutual

/-- The text of a phrase is read as its tokens. -/
theorem reads_render (depth : Nat) : ∀ {phrase : Phrase}, phrase.Spelled →
    Reads (phrase.render depth) phrase.kinds
  | .mk name unnamed named block, .mk _ _ _ _ ownName argumentNames inside => by
    have readsHead := (Reads.spaces (4 * depth)).append
      (reads_renderHead ownName unnamed argumentNames)
    cases block with
    | nil =>
      have ended := (Reads.punct .semicolon).append Reads.lineBreak
      simpa [render, kinds, indentation, Punct.char] using readsHead.append ended
    | cons first rest =>
      have readsFirst := reads_render (depth + 1) (inside first (List.mem_cons_self ..))
      have readsRest := reads_renderAll (depth + 1)
        fun phrase isLater => inside phrase (List.mem_cons_of_mem _ isLater)
      have opened := Reads.space.append ((Reads.punct .openBrace).append Reads.lineBreak)
      have closed := (Reads.spaces (4 * depth)).append
        ((Reads.punct .closeBrace).append Reads.lineBreak)
      have inBlock := opened.append (readsFirst.append (readsRest.append closed))
      simpa [render, kinds, indentation, Punct.char] using readsHead.append inBlock

/-- The text of some phrases is read as their tokens. -/
theorem reads_renderAll (depth : Nat) : ∀ {phrases : List Phrase},
    (∀ phrase ∈ phrases, phrase.Spelled) → Reads (renderAll depth phrases) (kindsOfAll phrases)
  | [], _ => Reads.nil
  | first :: rest, spelled => by
    rw [renderAll, kindsOfAll]
    exact (reads_render depth (spelled first (List.mem_cons_self ..))).append
      (reads_renderAll depth fun phrase isLater => spelled phrase (List.mem_cons_of_mem _ isLater))

end

end Phrase

/-! ### Whole scripts -/

/-- A text that is read as tokens has just these tokens and no errors. -/
theorem tokenize_of_reads {cs : List Char} {kinds : List TokenKind} (reads : Reads cs kinds) :
    ∃ tokens, tokens.map Token.kind = kinds ∧ tokenize (String.ofList cs) = .ok tokens := by
  obtain ⟨next, tokens, isNext, areKinds, runs⟩ := reads {} [] rfl
  have found : Lexer.run {} (String.ofList cs).toList = tokens.map .ok := by
    rw [String.toList_ofList]
    simpa [Lexer.run, Lexer.finish, isNext] using runs
  refine ⟨tokens, areKinds, ?_⟩
  have filtered : ∀ {α : Type} (read : Except LexError Token → Option α),
      (tokens.map Except.ok).filterMap read = tokens.filterMap fun token => read (.ok token) :=
    fun _ => List.filterMap_map
  have noErrors : tokens.filterMap (fun _ => (none : Option LexError)) = [] :=
    List.filterMap_eq_nil_iff.mpr fun _ _ => rfl
  rw [tokenize, found, filtered, filtered, noErrors, List.filterMap_some]
  rfl

end Bindery.Script
