/-
**The text of a JSON document is read back as its value.**

The text of a value is read as the tokens of this value, whatever container it stands in, and the
tokens of a value put just this value into the containers around them. Numbers are left out: no
document of a cache holds one.

* `Json.tokens` — the tokens of a value.
* `LexMode.Reads` — characters that are read as tokens, whatever follows; `LexMode.Fits` asks for a
  character behind them that ends words.
* `Parser.run_tokens` — what the tokens of a value do to the parser.
* `parse?_document` — both together.
-/

import Mathlib.Tactic.SplitIfs
import Bindery.Json.Read
import Bindery.Json.Write

namespace Bindery.Json

/-! ### The tokens of a value -/

mutual

/-- The tokens of a value. -/
def tokens : Json → List Token
  | null => [.leaf .null]
  | bool value => [.leaf (.bool value)]
  | number spelling => [.leaf (.number spelling)]
  | string text => [.string text]
  | array [] => [.openBracket, .closeBracket]
  | array (item :: rest) => .openBracket :: tokens item ++ tokensOfItems rest ++ [.closeBracket]
  | object [] => [.openBrace, .closeBrace]
  | object ((key, value) :: rest) =>
    [.openBrace, .string key, .colon] ++ tokens value ++ tokensOfMembers rest ++ [.closeBrace]

/-- The tokens of the items behind the first one. -/
def tokensOfItems : List Json → List Token
  | [] => []
  | item :: rest => .comma :: tokens item ++ tokensOfItems rest

/-- The tokens of the members behind the first one. -/
def tokensOfMembers : List (Option String × Json) → List Token
  | [] => []
  | (key, value) :: rest =>
    [.comma, .string key, .colon] ++ tokens value ++ tokensOfMembers rest

end

/-- Whether a value has a text if it is a string, and is no number. -/
def isTextual : Json → Bool
  | string text => text.isSome
  | number _ => false
  | _ => true

/-! ### From characters to tokens -/

namespace LexMode

theorem run_cons_of_step {mode next : LexMode} {c : Char} {completed : List Token}
    (steps : mode.step c = some (next, completed)) (cs : List Char) :
    mode.run (c :: cs) = (next.run cs).map (completed ++ ·) := by
  rw [run, steps]
  cases behind : next.run cs <;> simp [behind]

/-- A character that completes no token. -/
theorem run_cons_to {mode : LexMode} (next : LexMode) {c : Char}
    (steps : mode.step c = some (next, [])) (cs : List Char) :
    mode.run (c :: cs) = next.run cs := by
  rw [run_cons_of_step steps]
  simp

theorem map_append_map (first second : List Token) (behind : Option (List Token)) :
    (behind.map (second ++ ·)).map (first ++ ·) = behind.map (first ++ second ++ ·) := by
  cases behind <;> simp

/-- Between two tokens, the characters are read as these tokens, whatever follows. -/
def Reads (cs : List Char) (read : List Token) : Prop :=
  ∀ rest, LexMode.between.run (cs ++ rest) = (LexMode.between.run rest).map (read ++ ·)

/-- The characters are read as these tokens in front of a character that ends words. -/
def Fits (cs : List Char) (read : List Token) : Prop :=
  ∀ c rest, c.isAlpha = false →
    LexMode.between.run (cs ++ c :: rest) = (LexMode.between.run (c :: rest)).map (read ++ ·)

/-- The characters do not go on with a word. -/
def EndsWord (cs : List Char) : Prop := ∀ c ∈ cs.head?, c.isAlpha = false

namespace Reads

variable {cs ds : List Char} {read others : List Token}

theorem nil : Reads [] [] := by
  intro rest
  simp

theorem append (first : Reads cs read) (second : Reads ds others) :
    Reads (cs ++ ds) (read ++ others) := by
  intro rest
  rw [List.append_assoc, first, second, map_append_map]

theorem fits (reads : Reads cs read) : Fits cs read := fun c rest _ => reads (c :: rest)

/-- What is read whatever follows may stand in front of what needs an end. -/
theorem append_fits (first : Reads cs read) (second : Fits ds others) :
    Fits (cs ++ ds) (read ++ others) := by
  intro c rest ends
  rw [List.append_assoc, first, second c rest ends, map_append_map]

/-- A character that is a token by itself, or none. -/
theorem single {c : Char} {completed : List Token}
    (steps : stepBetween c = some (.between, completed)) : Reads [c] completed :=
  fun rest => @run_cons_of_step .between _ _ _ steps rest

theorem newLine (depth : Nat) : Reads (Json.newLine depth) [] := by
  have blanks : ∀ n, Reads (List.replicate n ' ') [] := by
    intro n
    induction n with
    | zero => exact nil
    | succ n ih => exact (single rfl : Reads [' '] []).append ih
  exact (single rfl : Reads ['\n'] []).append (blanks _)

end Reads

/-- What needs an end may stand in front of what does not start with a letter. -/
theorem Fits.append {cs ds : List Char} {read others : List Token} (first : Fits cs read)
    (second : Fits ds others) (ends : EndsWord ds) :
    Fits (cs ++ ds) (read ++ others) := by
  intro c rest endsAll
  have behind := second c rest endsAll
  cases ds with
  | nil =>
    rw [List.nil_append] at behind
    rw [List.append_nil, first c rest endsAll, ← map_append_map, ← behind]
  | cons d more =>
    rw [List.append_assoc, List.cons_append, first d _ (ends d rfl), ← List.cons_append, behind,
      map_append_map]

/-! ### Strings -/

theorem hexDigit?_hexDigit : ∀ n < 16, hexDigit? (hexDigit n) = some n := by decide

/-- The escaped form of a character is read as the character. -/
theorem run_escapeChar (read : List StringPart) (c : Char) (rest : List Char) :
    (LexMode.string read).run (escapeChar c ++ rest) =
      (LexMode.string (.char c :: read)).run rest := by
  have named : ∀ letter, letter ≠ 'u' → escapedChar? letter = some c →
      (LexMode.string read).run ('\\' :: letter :: rest) =
        (LexMode.string (.char c :: read)).run rest := by
    intro letter isNoCode isLetter
    rw [run_cons_to (.escape read) rfl]
    refine run_cons_to _ ?_ _
    rw [step, if_neg isNoCode, isLetter]
    rfl
  unfold escapeChar
  split_ifs with isQuote isSlash isBack isFeed isLine isReturn isTab isControl
  · subst isQuote
    exact named '"' (by decide) rfl
  · subst isSlash
    exact named '\\' (by decide) rfl
  · exact named 'b' (by decide) (isBack ▸ rfl)
  · exact named 'f' (by decide) (isFeed ▸ rfl)
  · exact named 'n' (by decide) (isLine ▸ rfl)
  · exact named 'r' (by decide) (isReturn ▸ rfl)
  · exact named 't' (by decide) (isTab ▸ rfl)
  · -- the four digits of the code of a control character
    have first : (LexMode.code read 2 0).step (hexDigit (c.toNat / 16)) =
        some (.code read 1 (c.toNat / 16), []) := by
      rw [step, hexDigit?_hexDigit _ (by omega)]
      simp
    have second : (LexMode.code read 1 (c.toNat / 16)).step (hexDigit (c.toNat % 16)) =
        some (.string (.char c :: read), []) := by
      have sameCode : 16 * (c.toNat / 16) + c.toNat % 16 = c.toNat := by omega
      have noSurrogate : ¬(0xD800 ≤ c.toNat ∧ c.toNat ≤ 0xDFFF) := by omega
      rw [step, hexDigit?_hexDigit _ (by omega)]
      simp [sameCode, codePart, noSurrogate]
    show (LexMode.string read).run ('\\' :: 'u' :: '0' :: '0' :: hexDigit (c.toNat / 16) ::
      hexDigit (c.toNat % 16) :: rest) = _
    rw [run_cons_to (.escape read) rfl, run_cons_to (.code read 4 0) rfl,
      run_cons_to (.code read 3 0) rfl, run_cons_to (.code read 2 0) rfl, run_cons_to _ first,
      run_cons_to _ second]
  · refine run_cons_to _ ?_ _
    rw [step, if_neg isQuote, if_neg isSlash, if_neg isControl]

theorem stringChars?_map_char (cs : List Char) : stringChars? (cs.map .char) = some cs := by
  induction cs with
  | nil => rfl
  | cons c rest ih =>
    rw [List.map_cons, stringChars?, ih]
    rfl

theorem Reads.string (text : String) : Reads (renderString (some text)) [.string (some text)] := by
  intro rest
  have inside : ∀ (cs : List Char) (read : List StringPart),
      (LexMode.string read).run (cs.flatMap escapeChar ++ '"' :: rest) =
        (LexMode.string ((cs.map .char).reverse ++ read)).run ('"' :: rest) := by
    intro cs
    induction cs with
    | nil => exact fun _ => rfl
    | cons c others ih =>
      intro read
      rw [List.flatMap_cons, List.append_assoc, run_escapeChar, ih, List.map_cons,
        List.reverse_cons, List.append_assoc, List.singleton_append]
  have closed : (LexMode.string ((text.toList.map .char).reverse ++ [])).step '"' =
      some (.between, [.string (some text)]) := by
    rw [step, if_pos rfl, List.append_nil, List.reverse_reverse, stringChars?_map_char,
      Option.map_some, String.ofList_toList]
  show LexMode.between.run ('"' :: (text.toList.flatMap escapeChar ++ ['"']) ++ rest) = _
  rw [List.cons_append, List.append_assoc, List.singleton_append,
    run_cons_to (.string []) rfl, inside, run_cons_of_step closed]

/-! ### Words -/

/-- A word is over in front of a character that cannot belong to it. -/
theorem run_word_of_ends {read : List Char} {value : Json}
    (means : wordValue? read.reverse = some value) {c : Char} (ends : c.isAlpha = false)
    (rest : List Char) :
    (LexMode.word read).run (c :: rest) =
      (LexMode.between.run (c :: rest)).map ([.leaf value] ++ ·) := by
  have isOver : (LexMode.word read).step c = step.endBefore (.word read) c := by
    rw [step, if_neg (by simp [ends])]
  cases behind : stepBetween c with
  | none =>
    rw [run, isOver, run, step, step.endBefore, pending?, means, behind]
    rfl
  | some result =>
    obtain ⟨next, completed⟩ := result
    rw [step.endBefore, pending?, means, behind] at isOver
    rw [run_cons_of_step isOver, @run_cons_of_step .between _ _ _ behind, map_append_map]

theorem Fits.word {first : Char} {others : List Char} {value : Json}
    (starts : stepBetween first = some (.word [first], []))
    (areLetters : others.all Char.isAlpha = true)
    (means : wordValue? (first :: others) = some value) : Fits (first :: others) [.leaf value] := by
  intro c rest ends
  have inWord : ∀ (cs read : List Char), (∀ d ∈ cs, d.isAlpha = true) →
      (LexMode.word read).run (cs ++ c :: rest) =
        (LexMode.word (cs.reverse ++ read)).run (c :: rest) := by
    intro cs
    induction cs with
    | nil => exact fun _ _ => rfl
    | cons d more ih =>
      intro read areLetters
      have isNext : (LexMode.word read).step d = some (.word (d :: read), []) := by
        rw [step, if_pos (areLetters d (List.mem_cons_self ..))]
      rw [List.cons_append, run_cons_to _ isNext,
        ih _ fun e isLater => areLetters e (List.mem_cons_of_mem _ isLater), List.reverse_cons,
        List.append_assoc, List.singleton_append]
  rw [List.cons_append, @run_cons_to .between _ _ starts,
    inWord _ _ (List.all_eq_true.mp areLetters)]
  exact run_word_of_ends (by simpa using means) ends rest

theorem Fits.null : Fits "null".toList [.leaf .null] :=
  @Fits.word 'n' ['u', 'l', 'l'] _ rfl (by decide) rfl

theorem Fits.bool (value : Bool) :
    Fits (if value then "true" else "false").toList [.leaf (.bool value)] := by
  cases value with
  | true => exact @Fits.word 't' ['r', 'u', 'e'] _ rfl (by decide) rfl
  | false => exact @Fits.word 'f' ['a', 'l', 's', 'e'] _ rfl (by decide) rfl

/-! ### Values -/

theorem endsWord_newLine (depth : Nat) (cs : List Char) : EndsWord (Json.newLine depth ++ cs) := by
  rintro c ⟨rfl⟩
  rfl

theorem EndsWord.renderItems {cs : List Char} (ends : EndsWord cs) (depth : Nat)
    (items : List Json) : EndsWord (Json.renderItems depth items ++ cs) := by
  cases items with
  | nil => exact ends
  | cons item rest =>
    rintro c ⟨rfl⟩
    rfl

theorem EndsWord.renderMembers {cs : List Char} (ends : EndsWord cs) (depth : Nat)
    (members : List (Option String × Json)) :
    EndsWord (Json.renderMembers depth members ++ cs) := by
  cases members with
  | nil => exact ends
  | cons member rest =>
    rintro c ⟨rfl⟩
    rfl

theorem Reads.key {key : Option String} (isText : isTextual (.string key) = true) :
    Reads (renderString key ++ ": ".toList) [.string key, .colon] := by
  obtain ⟨text, rfl⟩ := Option.isSome_iff_exists.mp isText
  exact (Reads.string text).append ((single rfl : Reads [':'] [.colon]).append (single rfl))

mutual

/-- The text of a value is read as its tokens. -/
theorem fits_render (depth : Nat) (value : Json) (textual : value.everywhere isTextual = true) :
    Fits (render depth value) value.tokens := by
  match value with
  | .null => exact .null
  | .bool value => exact .bool value
  | .number spelling => simp [everywhere, isTextual] at textual
  | .string none => simp [everywhere, isTextual] at textual
  | .string (some text) => exact (Reads.string text).fits
  | .array [] => exact ((Reads.single rfl : Reads ['['] [.openBracket]).append (.single rfl)).fits
  | .array (item :: rest) =>
    simp only [everywhere, everywhereInItems, Bool.and_eq_true] at textual
    have opening : Reads ('[' :: Json.newLine (depth + 1)) [.openBracket] :=
      (Reads.single rfl : Reads ['['] [.openBracket]).append (.newLine _)
    have closing : Reads (Json.newLine depth ++ [']']) [.closeBracket] :=
      (Reads.newLine depth).append (.single rfl)
    have ofRest := (fits_renderItems (depth + 1) rest textual.2.2).append closing.fits
      (endsWord_newLine _ _)
    have ofAll := opening.append_fits ((fits_render (depth + 1) item textual.2.1).append ofRest
      ((endsWord_newLine _ _).renderItems _ _))
    simpa only [render, tokens, List.append_assoc, List.cons_append, List.nil_append] using ofAll
  | .object [] => exact ((Reads.single rfl : Reads ['\x7b'] [.openBrace]).append (.single rfl)).fits
  | .object ((key, value) :: rest) =>
    simp only [everywhere, everywhereInMembers, Bool.and_eq_true] at textual
    have opening : Reads ('\x7b' :: Json.newLine (depth + 1)) [.openBrace] :=
      (Reads.single rfl : Reads ['\x7b'] [.openBrace]).append (.newLine _)
    have closing : Reads (Json.newLine depth ++ ['\x7d']) [.closeBrace] :=
      (Reads.newLine depth).append (.single rfl)
    have ofRest := (fits_renderMembers (depth + 1) rest textual.2.2).append closing.fits
      (endsWord_newLine _ _)
    have ofAll := (opening.append (.key textual.2.1.1)).append_fits
      ((fits_render (depth + 1) value textual.2.1.2).append ofRest
        ((endsWord_newLine _ _).renderMembers _ _))
    simpa only [render, tokens, List.append_assoc, List.cons_append, List.nil_append] using ofAll

/-- The text of further items is read as their tokens. -/
theorem fits_renderItems (depth : Nat) (items : List Json)
    (textual : everywhereInItems isTextual items = true) :
    Fits (renderItems depth items) (tokensOfItems items) := by
  match items with
  | [] => exact Reads.nil.fits
  | item :: rest =>
    simp only [everywhereInItems, Bool.and_eq_true] at textual
    have opening : Reads (',' :: Json.newLine depth) [.comma] :=
      (Reads.single rfl : Reads [','] [.comma]).append (.newLine _)
    have ofAll := opening.append_fits ((fits_render depth item textual.1).append
      (fits_renderItems depth rest textual.2)
      (by simpa using (show EndsWord [] by simp [EndsWord]).renderItems depth rest))
    simpa only [renderItems, tokensOfItems, List.append_assoc, List.cons_append,
      List.nil_append] using ofAll

/-- The text of further members is read as their tokens. -/
theorem fits_renderMembers (depth : Nat) (members : List (Option String × Json))
    (textual : everywhereInMembers isTextual members = true) :
    Fits (renderMembers depth members) (tokensOfMembers members) := by
  match members with
  | [] => exact Reads.nil.fits
  | (key, value) :: rest =>
    simp only [everywhereInMembers, Bool.and_eq_true] at textual
    have opening : Reads (',' :: Json.newLine depth) [.comma] :=
      (Reads.single rfl : Reads [','] [.comma]).append (.newLine _)
    have ofAll := (opening.append (.key textual.1.1)).append_fits
      ((fits_render depth value textual.1.2).append (fits_renderMembers depth rest textual.2)
        (by simpa using (show EndsWord [] by simp [EndsWord]).renderMembers depth rest))
    simpa only [renderMembers, tokensOfMembers, List.append_assoc, List.cons_append,
      List.nil_append] using ofAll

end

end LexMode

/-! ### From tokens to a value -/

namespace Parser

theorem run_cons_to {at_ : Parser} (next : Parser) {token : Token}
    (steps : at_.step token = some next) (rest : List Token) :
    at_.run (token :: rest) = next.run rest := by
  rw [run, steps]
  rfl

/-- The first token of a value closes no array. -/
theorem run_tokens_of_firstItem (value : Json) (stack : List Frame) (rest : List Token) :
    run ⟨stack, .firstItem⟩ (value.tokens ++ rest) =
      run ⟨stack, .value⟩ (value.tokens ++ rest) := by
  match value with
  | .null | .bool _ | .number _ | .string _ | .array [] | .array (_ :: _) | .object []
  | .object ((_, _) :: _) => rfl

mutual

/-- The tokens of a value put the value into the containers around it. -/
theorem run_tokens (value : Json) (stack : List Frame) (rest : List Token) :
    run ⟨stack, .value⟩ (value.tokens ++ rest) = (put value stack).run rest := by
  match value with
  | .null | .bool _ | .number _ | .string _ | .array [] | .object [] => rfl
  | .array (item :: others) =>
    rw [tokens, List.append_assoc, List.append_assoc, List.cons_append,
      run_cons_to ⟨.array [] :: stack, .firstItem⟩ rfl, run_tokens_of_firstItem, run_tokens]
    exact run_tokensOfItems others [item] stack rest
  | .object ((key, value) :: others) =>
    rw [tokens, List.append_assoc, List.append_assoc, List.append_assoc, List.cons_append,
      run_cons_to ⟨stack, .firstKey⟩ rfl, List.cons_append,
      run_cons_to ⟨.object [] key :: stack, .colon⟩ rfl, List.singleton_append,
      run_cons_to ⟨.object [] key :: stack, .value⟩ rfl, run_tokens]
    exact run_tokensOfMembers others [(key, value)] key stack rest

/-- Further items and a bracket complete an array. -/
theorem run_tokensOfItems (items read : List Json) (outer : List Frame) (rest : List Token) :
    run ⟨.array read :: outer, .behind⟩ (tokensOfItems items ++ .closeBracket :: rest) =
      (put (.array (read.reverse ++ items)) outer).run rest := by
  match items with
  | [] =>
    rw [List.append_nil]
    rfl
  | item :: others =>
    have behind := run_tokensOfItems others (item :: read) outer rest
    rw [List.reverse_cons, List.append_assoc, List.singleton_append] at behind
    rw [tokensOfItems, List.append_assoc, List.cons_append,
      run_cons_to ⟨.array read :: outer, .value⟩ rfl, run_tokens]
    exact behind

/-- Further members and a brace complete an object. -/
theorem run_tokensOfMembers (members read : List (Option String × Json)) (last : Option String)
    (outer : List Frame) (rest : List Token) :
    run ⟨.object read last :: outer, .behind⟩ (tokensOfMembers members ++ .closeBrace :: rest) =
      (put (.object (read.reverse ++ members)) outer).run rest := by
  match members with
  | [] =>
    rw [List.append_nil]
    rfl
  | (key, value) :: others =>
    have behind := run_tokensOfMembers others ((key, value) :: read) key outer rest
    rw [List.reverse_cons, List.append_assoc, List.singleton_append] at behind
    rw [tokensOfMembers, List.append_assoc, List.append_assoc, List.cons_append,
      run_cons_to ⟨outer, .key read⟩ rfl, List.cons_append,
      run_cons_to ⟨.object read key :: outer, .colon⟩ rfl, List.singleton_append,
      run_cons_to ⟨.object read key :: outer, .value⟩ rfl, run_tokens]
    exact behind

end

end Parser

/-! ### Documents -/

/-- A document of texts and truth values is read as its value. -/
theorem parse?_document {value : Json} (textual : value.everywhere isTextual = true) :
    parse? value.document = some value := by
  have asTokens : LexMode.between.run (render 0 value ++ ['\n']) = some (value.tokens ++ []) :=
    LexMode.fits_render 0 value textual '\n' [] rfl
  have asValue : Parser.run {} (value.tokens ++ []) = some { position := .complete value } :=
    Parser.run_tokens value [] []
  rw [parse?, document, String.toList_ofList, asTokens]
  show (Parser.run {} (value.tokens ++ [])).bind _ = _
  rw [asValue]
  rfl

end Bindery.Json
