/-
**A syntax error points at the first token with which no script goes on.**

Wherever the parser stands, some marks lead it to the end of a script (`Parser.exists_end`). So the
tokens that it reads are those with which a script can begin (`isViable_iff`), and the marks that it
expects are those that such tokens can go on with.

* `parse_eq_error_of_not_isScript` — the error of tokens that are no script.
-/

import Bindery.Proofs.Script.Recognition

namespace Bindery.Script

/-! ### Beginnings of scripts -/

/-- A script begins with the tokens. -/
def IsViable (tokens : List Token) : Prop := ∃ more, IsScript (tokens ++ more)

/-- No more than the first so many of the tokens are the beginning of a script. -/
structure IsLongestViable (tokens : List Token) (length : Nat) : Prop where
  inside : length ≤ tokens.length
  viable : IsViable (tokens.take length)
  longest : ∀ longer ≤ tokens.length, IsViable (tokens.take longer) → longer ≤ length

/-- The span behind the last token. -/
def endSpan (tokens : List Token) : Span :=
  let stop := (tokens.getLast?.map (·.span.stop)).getD 0
  ⟨stop, stop + 1⟩

namespace Parser

/-! ### Ends of scripts -/

/-- Marks that lead to the end of the call at a position. -/
def missingMarks : Position → List Punct
  | .statement => []
  | .opening _ => [.openParen, .closeParen, .semicolon]
  | .argument _ => [.closeParen, .semicolon]
  | .naming .. => [.equals, .openBracket, .closeBracket, .closeParen, .semicolon]
  | .value .. => [.openBracket, .closeBracket, .closeParen, .semicolon]
  | .item .. | .itemEnd .. => [.closeBracket, .closeParen, .semicolon]
  | .argumentEnd _ => [.closeParen, .semicolon]
  | .ending _ => [.semicolon]

theorem feed_missingMarks (at_ : Parser) :
    ∃ next, at_.feed ((missingMarks at_.position).map fun mark => ⟨.punct mark, default⟩) =
      some next ∧ next.position = .statement ∧ next.stack = at_.stack := by
  obtain ⟨stack, calls, position⟩ := at_
  cases position <;> exact ⟨_, rfl, rfl, rfl⟩

/-- Behind a call, as many braces as there are open calls lead to the end. -/
theorem feed_closeBraces {at_ : Parser} (isStatement : at_.position = .statement) :
    ∃ next, at_.feed (at_.stack.map fun _ => ⟨.punct .closeBrace, default⟩) = some next ∧
      next.IsDone := by
  obtain ⟨stack, calls, position⟩ := at_
  simp only at isStatement
  subst isStatement
  induction stack generalizing calls with
  | nil => exact ⟨_, rfl, rfl, rfl⟩
  | cons parent outer ih =>
    rw [List.map_cons, feed_cons]
    exact ih _

/-- Wherever the parser stands, the script can come to an end. -/
theorem exists_end (at_ : Parser) : ∃ more next, at_.feed more = some next ∧ next.IsDone := by
  obtain ⟨middle, fed, isStatement, -⟩ := at_.feed_missingMarks
  obtain ⟨next, fedBraces, done⟩ := feed_closeBraces isStatement
  have fedBoth := at_.feed_append
    ((missingMarks at_.position).map fun mark => ⟨.punct mark, default⟩)
    (middle.stack.map fun _ => ⟨.punct .closeBrace, default⟩)
  rw [fed, Option.bind_some, fedBraces] at fedBoth
  exact ⟨_, next, fedBoth, done⟩

/-! ### Errors -/

/-- The expected marks are those that may come, in the order of their characters. -/
theorem mem_expected_iff (at_ : Parser) (mark : Punct) (place : Span) :
    mark ∈ at_.expected ↔ ∃ next, at_.step ⟨.punct mark, place⟩ = some next := by
  obtain ⟨stack, calls, position⟩ := at_
  cases position with
  | statement => cases stack <;> cases mark <;> simp [expected, step]
  | _ => cases mark <;> simp [expected, step, CallHead.afterValue]

theorem expected_pairwise (at_ : Parser) :
    at_.expected.Pairwise fun first second => first.char < second.char := by
  obtain ⟨stack, calls, position⟩ := at_
  cases position with
  | statement => cases stack <;> simp [expected]
  | _ => simp [expected]; try decide

/-- Either all tokens may come, or there is a first one that may not. -/
theorem feed_cases (at_ : Parser) (tokens : List Token) :
    (∃ next, at_.feed tokens = some next) ∨
      ∃ read token rest middle, tokens = read ++ token :: rest ∧ at_.feed read = some middle ∧
        middle.step token = none := by
  induction tokens generalizing at_ with
  | nil => exact .inl ⟨at_, rfl⟩
  | cons token tokens ih =>
    cases stepped : at_.step token with
    | none => exact .inr ⟨[], token, tokens, at_, rfl, rfl, stepped⟩
    | some next =>
      rcases ih next with ⟨last, fed⟩ | ⟨read, other, rest, middle, rfl, fed, refused⟩
      · exact .inl ⟨last, by rw [feed_cons, stepped]; exact fed⟩
      · exact .inr ⟨token :: read, other, rest, middle, rfl,
          by rw [feed_cons, stepped]; exact fed, refused⟩

theorem run_append {at_ middle : Parser} {read : List Token} (fed : at_.feed read = some middle)
    (stop : Nat) (rest : List Token) :
    at_.run stop (read ++ rest) =
      middle.run ((read.getLast?.map (·.span.stop)).getD stop) rest := by
  induction read generalizing at_ stop with
  | nil =>
    obtain rfl : at_ = middle := Option.some.inj fed
    rfl
  | cons token read ih =>
    rw [feed_cons] at fed
    obtain ⟨next, stepped, fedRest⟩ := Option.bind_eq_some_iff.mp fed
    rw [List.cons_append, run, stepped]
    simp only [ih fedRest, List.getLast?_cons]
    cases read.getLast? <;> rfl

end Parser

/-- The parser reads just the beginnings of scripts. -/
theorem isViable_iff {tokens : List Token} :
    IsViable tokens ↔ ∃ next, Parser.feed {} tokens = some next := by
  constructor
  · rintro ⟨more, isScript⟩
    obtain ⟨last, fed, -⟩ := isScript_iff.mp isScript
    rw [Parser.feed_append] at fed
    obtain ⟨next, fed, -⟩ := Option.bind_eq_some_iff.mp fed
    exact ⟨next, fed⟩
  · rintro ⟨next, fed⟩
    obtain ⟨more, last, fedMore, done⟩ := next.exists_end
    refine ⟨more, isScript_iff.mpr ⟨last, ?_, done⟩⟩
    rw [Parser.feed_append, fed]
    exact fedMore

section Read

variable {read : List Token} {middle : Parser} (fed : Parser.feed {} read = some middle)

include fed

/-- The expected marks are those with which the tokens go on. -/
theorem mem_expected_iff_isViable (mark : Punct) (place : Span) :
    mark ∈ middle.expected ↔ IsViable (read ++ [⟨.punct mark, place⟩]) := by
  rw [isViable_iff, Parser.feed_append, fed, Option.bind_some, Parser.feed_cons,
    middle.mem_expected_iff mark place]
  cases middle.step ⟨.punct mark, place⟩ <;> simp

/-- In front of a token that may not come stand as many tokens as can begin a script. -/
theorem isLongestViable_of_refused {token : Token} (refused : middle.step token = none)
    (rest : List Token) : IsLongestViable (read ++ token :: rest) read.length where
  inside := by simp
  viable := by
    rw [List.take_left]
    exact isViable_iff.mpr ⟨middle, fed⟩
  longest := by
    intro longer _ isViable
    by_contra isLonger
    obtain ⟨extra, rfl⟩ := Nat.exists_eq_add_of_lt (Nat.lt_of_not_le isLonger)
    rw [Nat.add_assoc, List.take_length_add_append, List.take_succ_cons] at isViable
    obtain ⟨next, fedLonger⟩ := isViable_iff.mp isViable
    rw [Parser.feed_append, fed, Option.bind_some, Parser.feed_cons, refused] at fedLonger
    cases fedLonger

theorem parse_of_refused {token : Token} (refused : middle.step token = none)
    (rest : List Token) :
    parse (read ++ token :: rest) = .error ⟨some token.kind, middle.expected, token.span⟩ := by
  rw [parse, Parser.run_append fed, Parser.run, refused]

theorem parse_of_not_isDone (notDone : ¬ middle.IsDone) :
    parse read = .error ⟨none, middle.expected, endSpan read⟩ := by
  have ran := Parser.run_append fed 0 []
  rw [List.append_nil] at ran
  rw [parse, ran, Parser.run, Parser.finish_of_not_isDone notDone]
  rfl

end Read

/-- **Tokens that are no script have one error.** It is at the first token with which they are no
beginning of a script any more, or behind the last one if there is no such token, and it expects the
marks that would make a beginning of a script there. -/
theorem parse_eq_error_of_not_isScript {tokens : List Token} (noScript : ¬ IsScript tokens) :
    ∃ error length, parse tokens = .error error ∧ IsLongestViable tokens length ∧
      error.found = tokens[length]?.map Token.kind ∧
      error.span = (tokens[length]?.map Token.span).getD (endSpan tokens) ∧
      (∀ mark place,
        mark ∈ error.expected ↔ IsViable (tokens.take length ++ [⟨.punct mark, place⟩])) ∧
      error.expected.Pairwise fun first second => first.char < second.char := by
  rcases Parser.feed_cases {} tokens with ⟨last, fed⟩ |
    ⟨read, token, rest, middle, rfl, fed, refused⟩
  · have notDone : ¬ last.IsDone := fun done => noScript (isScript_iff.mpr ⟨last, fed, done⟩)
    refine ⟨_, tokens.length, parse_of_not_isDone fed notDone, ⟨Nat.le_refl _, ?_, ?_⟩, ?_, ?_, ?_,
      last.expected_pairwise⟩
    · rw [List.take_length]
      exact isViable_iff.mpr ⟨last, fed⟩
    · exact fun _ isInside _ => isInside
    · simp
    · simp
    · intro mark place
      rw [List.take_length]
      exact mem_expected_iff_isViable fed mark place
  · refine ⟨_, read.length, parse_of_refused fed refused rest,
      isLongestViable_of_refused fed refused rest, ?_, ?_, ?_, middle.expected_pairwise⟩
    · simp
    · simp
    · intro mark place
      rw [List.take_left]
      exact mem_expected_iff_isViable fed mark place

/-- The tokens of `f(a)`, whose `a` is neither a value nor the name of one. -/
def namelessArgument : List Token :=
  [⟨.identifier "f", ⟨0, 1⟩⟩, ⟨.punct .openParen, ⟨1, 2⟩⟩, ⟨.identifier "a", ⟨2, 3⟩⟩,
    ⟨.punct .closeParen, ⟨3, 4⟩⟩]

theorem not_isScript_namelessArgument : ¬ IsScript namelessArgument := by
  intro isScript
  obtain ⟨last, fed, -⟩ := isScript_iff.mp isScript
  have stopped : Parser.feed {} namelessArgument = none := rfl
  rw [stopped] at fed
  cases fed

theorem parse_namelessArgument :
    ¬ IsScript namelessArgument ∧
      ∃ error length, parse namelessArgument = .error error ∧
        IsLongestViable namelessArgument length ∧
        error.found = namelessArgument[length]?.map Token.kind ∧
        error.span = (namelessArgument[length]?.map Token.span).getD (endSpan namelessArgument) ∧
        (∀ mark place, mark ∈ error.expected ↔
          IsViable (namelessArgument.take length ++ [⟨.punct mark, place⟩])) ∧
        error.expected.Pairwise fun first second => first.char < second.char :=
  ⟨not_isScript_namelessArgument, parse_eq_error_of_not_isScript not_isScript_namelessArgument⟩

end Bindery.Script
