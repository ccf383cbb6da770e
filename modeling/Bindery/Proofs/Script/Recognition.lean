/-
**The parser accepts just the scripts of the grammar.**

`Parser.HasRead` says of which parts of derivations the tokens up to some point consist when the
parser stands there. A step keeps it (`Parser.HasRead.step`), so a run does (`Parser.HasRead.feed`),
and at the end of a script it gives a derivation (`Parser.HasRead.exists_tree`).

* `Parser.step_cases` — what one token can do.
* `isScript_iff` — scripts are the tokens that lead the parser to an end.
* `parse_eq_ok_iff` — parsing gives some calls just when a derivation of the tokens stands for them.
-/

import Bindery.Proofs.Script.Feeding

namespace Bindery.Script

/-! ### Parts of derivations -/

section Read

variable {α : Type}

/-- The tokens of items with a comma behind each of them. -/
def tokensWithCommas (spell : α → List Token) (read : List (α × Span)) : List Token :=
  read.flatMap fun (item, comma) => spell item ++ [⟨.punct .comma, comma⟩]

/-- Items with a comma behind each, and perhaps one more item, are separated items. -/
theorem Separated.exists_of_read (spell : α → List Token) (read : List (α × Span))
    (last : Option α) :
    ∃ items : Separated α, items.items = read.map Prod.fst ++ last.toList ∧
      items.tokens spell = tokensWithCommas spell read ++ last.toList.flatMap spell := by
  induction read with
  | nil =>
    cases last with
    | none => exact ⟨.none, rfl, rfl⟩
    | some item =>
      exact ⟨.some item [] .none, rfl, by simp [tokens, tokensBehind, tokensWithCommas]⟩
  | cons pair read ih =>
    obtain ⟨item, comma⟩ := pair
    obtain ⟨items, areItems, areTokens⟩ := ih
    cases items with
    | none =>
      refine ⟨.some item [] (.some comma), by simpa [Separated.items] using areItems, ?_⟩
      rw [tokensWithCommas, List.flatMap_cons, ← tokensWithCommas, List.append_assoc, ← areTokens]
      simp [tokens, tokensBehind]
    | some first others trailing =>
      refine ⟨.some item ((comma, first) :: others) trailing,
        by simpa [Separated.items] using areItems, ?_⟩
      rw [tokensWithCommas, List.flatMap_cons, ← tokensWithCommas, List.append_assoc, ← areTokens]
      simp [tokens, tokensBehind]

end Read

/-- The tokens are a call up to its arguments, some of which are read with the commas behind
them. -/
inductive HeadRead : List Token → CallHead → Prop
  | mk (name : String) (place opening : Span) (read : List (ArgumentTree × Span)) :
    HeadRead
      (⟨.identifier name, place⟩ :: ⟨.punct .openParen, opening⟩ ::
        tokensWithCommas ArgumentTree.tokens read)
      ⟨name, place, (read.map (·.1.argument)).reverse⟩

/-- The tokens are the part of a call that the parser has read at the position. -/
inductive PositionRead : List Token → Position → Prop
  | statement : PositionRead [] .statement
  | opening (name : String) (place : Span) :
    PositionRead [⟨.identifier name, place⟩] (.opening { name, nameSpan := place })
  | argument {tokens : List Token} {head : CallHead} (read : HeadRead tokens head) :
    PositionRead tokens (.argument head)
  | naming {tokens : List Token} {head : CallHead} (read : HeadRead tokens head) (name : String)
      (place : Span) :
    PositionRead (tokens ++ [⟨.identifier name, place⟩]) (.naming head ⟨some name, place.start⟩)
  | value {tokens : List Token} {head : CallHead} (read : HeadRead tokens head) (label : Label) :
    PositionRead (tokens ++ label.tokens) (.value head ⟨some label.name, label.place.start⟩)
  | item {tokens : List Token} {head : CallHead} (read : HeadRead tokens head)
      (label : Option Label) (opening : Span) (items : List ((String × Span) × Span)) :
    PositionRead
      (tokens ++ (label.toList.flatMap Label.tokens ++
        ⟨.punct .openBracket, opening⟩ :: tokensWithCommas textToken items))
      (.item head (argumentHead label opening) (items.map (·.1.1)).reverse)
  | itemEnd {tokens : List Token} {head : CallHead} (read : HeadRead tokens head)
      (label : Option Label) (opening : Span) (items : List ((String × Span) × Span))
      (last : String × Span) :
    PositionRead
      (tokens ++ (label.toList.flatMap Label.tokens ++
        ⟨.punct .openBracket, opening⟩ :: (tokensWithCommas textToken items ++ textToken last)))
      (.itemEnd head (argumentHead label opening) (last.1 :: (items.map (·.1.1)).reverse))
  | argumentEnd {tokens : List Token} {head : CallHead} (read : HeadRead tokens head)
      (tree : ArgumentTree) :
    PositionRead (tokens ++ tree.tokens) (.argumentEnd (head.add tree.argument))
  | ending (tree : HeadTree) : PositionRead tree.tokens (.ending tree.head)

/-- The tokens are the calls that are open, each with the calls in front of it and its brace. -/
inductive StackRead : List Token → List OpenCall → Prop
  | nil : StackRead [] []
  | cons {tokens : List Token} {outer : List OpenCall} (read : StackRead tokens outer)
      (before : ScriptTree) (head : HeadTree) (opening : Span) :
    StackRead
      (tokens ++ ScriptTree.tokens before ++ head.tokens ++ [⟨.punct .openBrace, opening⟩])
      (⟨(ScriptTree.calls before).reverse, head.head⟩ :: outer)

/-- A token that starts a value is the whole value or the bracket of a list. -/
theorem CallHead.afterValue_cases {head : CallHead} {argument : ArgumentHead} {token : Token}
    {position : Position} (found : head.afterValue argument token = some position) :
    (∃ tree : ValueTree, tree.tokens = [token] ∧ tree.place = token.span ∧
      position = .argumentEnd (head.push argument tree.value tree.lastPlace)) ∨
    token.kind = .punct .openBracket ∧ position = .item head argument [] := by
  obtain ⟨kind, place⟩ := token
  unfold afterValue at found
  split at found
  · rename_i text isText
    obtain rfl : kind = .text text := isText
    exact .inl ⟨.text text place, rfl, rfl, (Option.some.inj found).symm⟩
  · rename_i truth isTruth
    obtain rfl : kind = .truth truth := isTruth
    exact .inl ⟨.truth truth place, rfl, rfl, (Option.some.inj found).symm⟩
  · rename_i isBracket
    exact .inr ⟨isBracket, (Option.some.inj found).symm⟩
  · cases found

namespace HeadRead

variable {tokens : List Token} {head : CallHead}

/-- One more argument with a comma behind it. -/
theorem comma (read : HeadRead tokens head) (tree : ArgumentTree) (place : Span) :
    HeadRead (tokens ++ tree.tokens ++ [⟨.punct .comma, place⟩]) (head.add tree.argument) := by
  obtain ⟨name, start, opening, arguments⟩ := read
  have longer := HeadRead.mk name start opening (arguments ++ [(tree, place)])
  simpa [tokensWithCommas, CallHead.add] using longer

/-- The parenthesis behind the arguments, of which the last one may have no comma behind it. -/
theorem exists_tree (read : HeadRead tokens head) (last : Option ArgumentTree) (closing : Span) :
    ∃ tree : HeadTree,
      tree.tokens = tokens ++ last.toList.flatMap ArgumentTree.tokens ++
        [⟨.punct .closeParen, closing⟩] ∧
      tree.head = (last.map fun tree => head.add tree.argument).getD head := by
  obtain ⟨name, start, opening, arguments⟩ := read
  obtain ⟨items, areItems, areTokens⟩ :=
    Separated.exists_of_read ArgumentTree.tokens arguments last
  refine ⟨⟨name, start, opening, items, closing⟩, ?_, ?_⟩
  · simp [HeadTree.tokens, areTokens]
  · cases last <;> simp [HeadTree.head, areItems, CallHead.add]

/-- A whole argument. -/
theorem value (read : HeadRead tokens head) (label : Option Label) (tree : ValueTree) :
    PositionRead (tokens ++ (label.toList.flatMap Label.tokens ++ tree.tokens))
      (.argumentEnd
        (head.push (argumentHead label tree.place) tree.value tree.lastPlace)) := by
  have whole := PositionRead.argumentEnd read ⟨label, tree⟩
  rwa [← ArgumentTree.push_eq] at whole

/-- A list whose last string may have no comma behind it. -/
theorem list (read : HeadRead tokens head) (label : Option Label) (opening : Span)
    (items : List ((String × Span) × Span)) (last : Option (String × Span)) (closing : Span) :
    PositionRead
      (tokens ++ (label.toList.flatMap Label.tokens ++ ⟨.punct .openBracket, opening⟩ ::
        (tokensWithCommas textToken items ++ last.toList.flatMap textToken ++
          [⟨.punct .closeBracket, closing⟩])))
      (.argumentEnd (head.push (argumentHead label opening)
        (.list (items.map (·.1.1) ++ last.toList.map Prod.fst)) closing)) := by
  obtain ⟨separated, areItems, areTokens⟩ := Separated.exists_of_read textToken items last
  have whole := read.value label (.list opening separated closing)
  simpa [ValueTree.tokens, ValueTree.value, ValueTree.place, ValueTree.lastPlace, areItems,
    areTokens, Function.comp_def] using whole

/-- A token that starts the value of an argument. -/
theorem afterValue (read : HeadRead tokens head) (label : Option Label) {token : Token}
    {position : Position}
    (found : head.afterValue (argumentHead label token.span) token = some position) :
    PositionRead (tokens ++ (label.toList.flatMap Label.tokens ++ [token])) position := by
  obtain ⟨kind, place⟩ := token
  rcases CallHead.afterValue_cases found with ⟨tree, areTokens, rfl, rfl⟩ | ⟨isBracket, rfl⟩
  · rw [← areTokens]
    exact read.value label tree
  · obtain rfl : kind = _ := isBracket
    exact .item read label place []

/-- The end of the arguments. -/
theorem ending (read : HeadRead tokens head) (last : Option ArgumentTree) (closing : Span) :
    PositionRead
      (tokens ++ last.toList.flatMap ArgumentTree.tokens ++ [⟨.punct .closeParen, closing⟩])
      (.ending ((last.map fun tree => head.add tree.argument).getD head)) := by
  obtain ⟨tree, areTokens, isHead⟩ := read.exists_tree last closing
  rw [← areTokens, ← isHead]
  exact .ending tree

end HeadRead

namespace Parser

/-- Behind the tokens the parser stands where it does: they are its open calls, the complete calls
behind them, and the part of a call at its position. -/
inductive HasRead : List Token → Parser → Prop
  | mk {outer inner : List Token} {stack : List OpenCall} {position : Position}
      (opened : StackRead outer stack) (calls : ScriptTree) (part : PositionRead inner position) :
    HasRead (outer ++ ScriptTree.tokens calls ++ inner)
      ⟨stack, (ScriptTree.calls calls).reverse, position⟩

/-- What a step does, told by the part of a call in front of it: it leads to a longer part, ends the
call, opens its block or closes the block of the innermost open call. -/
theorem step_cases {at_ next : Parser} {token : Token} {inner : List Token}
    (part : PositionRead inner at_.position) (stepped : at_.step token = some next) :
    (∃ position, next = at_.moveTo position ∧ PositionRead (inner ++ [token]) position) ∨
    (∃ head : HeadTree, inner = head.tokens ∧ token.kind = .punct .semicolon ∧
      next = at_.finishCall (head.head.close none token.span)) ∨
    (∃ head : HeadTree, inner = head.tokens ∧ token.kind = .punct .openBrace ∧
      next = { stack := ⟨at_.calls, head.head⟩ :: at_.stack }) ∨
    (∃ parent outer, inner = [] ∧ token.kind = .punct .closeBrace ∧ at_.stack = parent :: outer ∧
      next = finishCall { stack := outer, calls := parent.before }
        (parent.head.close (some at_.calls.reverse) token.span)) := by
  obtain ⟨kind, place⟩ := token
  dsimp only [step] at stepped
  split at stepped
  · -- a name behind a call
    rename_i name isPosition
    rw [isPosition] at part
    cases part
    exact .inl ⟨_, (Option.some.inj stepped).symm, .opening name place⟩
  · -- a brace behind a block
    rename_i isPosition
    rw [isPosition] at part
    cases part
    split at stepped
    · cases stepped
    · rename_i parent outer isStack
      exact .inr (.inr (.inr ⟨parent, outer, rfl, rfl, isStack, (Option.some.inj stepped).symm⟩))
  · -- the parenthesis in front of the arguments
    rename_i head isPosition
    rw [isPosition] at part
    cases part with
    | opening name start =>
      exact .inl ⟨_, (Option.some.inj stepped).symm, .argument (.mk name start place [])⟩
  · -- the parenthesis behind a comma or in place of arguments
    rename_i head isPosition
    rw [isPosition] at part
    cases part with
    | argument read =>
      refine .inl ⟨_, (Option.some.inj stepped).symm, ?_⟩
      simpa using read.ending none place
  · -- the name of an argument
    rename_i head name isPosition
    rw [isPosition] at part
    cases part with
    | argument read => exact .inl ⟨_, (Option.some.inj stepped).symm, .naming read name place⟩
  · -- an argument without a name
    rename_i kind _ _ head isPosition _ _
    rw [isPosition] at part
    obtain ⟨position, found, rfl⟩ := Option.map_eq_some_iff.mp stepped
    cases part with
    | argument read => exact .inl ⟨position, rfl, read.afterValue none found⟩
  · -- the `=` behind the name of an argument
    rename_i head argument isPosition
    rw [isPosition] at part
    cases part with
    | naming read name start =>
      refine .inl ⟨_, (Option.some.inj stepped).symm, ?_⟩
      simpa [Label.tokens] using PositionRead.value read ⟨name, start, place⟩
  · -- a value behind a name
    rename_i kind _ _ head argument isPosition
    rw [isPosition] at part
    obtain ⟨position, found, rfl⟩ := Option.map_eq_some_iff.mp stepped
    cases part with
    | value read label =>
      refine .inl ⟨position, rfl, ?_⟩
      simpa using read.afterValue (some label) found
  · -- a string of a list
    rename_i head argument items text isPosition
    rw [isPosition] at part
    cases part with
    | item read label opening items =>
      refine .inl ⟨_, (Option.some.inj stepped).symm, ?_⟩
      simpa [textToken] using PositionRead.itemEnd read label opening items (text, place)
  · -- a comma in a list
    rename_i head argument items isPosition
    rw [isPosition] at part
    cases part with
    | itemEnd read label opening items last =>
      refine .inl ⟨_, (Option.some.inj stepped).symm, ?_⟩
      simpa [tokensWithCommas] using
        PositionRead.item read label opening (items ++ [(last, place)])
  · -- the bracket behind a comma or in place of strings
    rename_i head argument items isPosition
    rw [isPosition] at part
    cases part with
    | item read label opening items =>
      refine .inl ⟨_, (Option.some.inj stepped).symm, ?_⟩
      simpa using read.list label opening items none place
  · -- the bracket behind a string
    rename_i head argument items isPosition
    rw [isPosition] at part
    cases part with
    | itemEnd read label opening items last =>
      refine .inl ⟨_, (Option.some.inj stepped).symm, ?_⟩
      simpa using read.list label opening items (some last) place
  · -- a comma behind an argument
    rename_i head isPosition
    rw [isPosition] at part
    cases part with
    | argumentEnd read tree =>
      exact .inl ⟨_, (Option.some.inj stepped).symm, .argument (read.comma tree place)⟩
  · -- the parenthesis behind an argument
    rename_i head isPosition
    rw [isPosition] at part
    cases part with
    | argumentEnd read last =>
      refine .inl ⟨_, (Option.some.inj stepped).symm, ?_⟩
      simpa using read.ending (some last) place
  · -- the semicolon behind a call
    rename_i head isPosition
    rw [isPosition] at part
    cases part with
    | ending tree => exact .inr (.inl ⟨tree, rfl, rfl, (Option.some.inj stepped).symm⟩)
  · -- the brace in front of a block
    rename_i head isPosition
    rw [isPosition] at part
    cases part with
    | ending tree => exact .inr (.inr (.inl ⟨tree, rfl, rfl, (Option.some.inj stepped).symm⟩))
  · cases stepped

/-- A step reads one more token. -/
theorem HasRead.step {tokens : List Token} {at_ next : Parser} {token : Token}
    (read : HasRead tokens at_) (stepped : at_.step token = some next) :
    HasRead (tokens ++ [token]) next := by
  obtain ⟨opened, calls, part⟩ := read
  rcases step_cases part stepped with ⟨position, rfl, longer⟩ | ⟨head, rfl, isMark, rfl⟩ |
    ⟨head, rfl, isMark, rfl⟩ | ⟨parent, outer, rfl, isMark, isStack, rfl⟩ <;>
    obtain ⟨kind, place⟩ := token
  · simpa [moveTo] using HasRead.mk opened calls longer
  · obtain rfl : kind = _ := isMark
    have longer := HasRead.mk opened (calls ++ [.leaf head place]) .statement
    simpa [ScriptTree.tokens_append_singleton, ScriptTree.calls_eq_map, CallTree.tokens,
      CallTree.call_leaf, finishCall] using longer
  · obtain rfl : kind = _ := isMark
    simpa [ScriptTree.tokens, ScriptTree.calls] using
      HasRead.mk (opened.cons calls head place) [] .statement
  · obtain rfl : kind = _ := isMark
    simp only at isStack
    subst isStack
    cases opened with
    | cons opened before head opening =>
      have longer := HasRead.mk opened (before ++ [.block head opening calls place]) .statement
      simpa [ScriptTree.tokens_append_singleton, ScriptTree.calls_eq_map, CallTree.tokens,
        CallTree.call_block, finishCall] using longer

/-- Tokens that may all come have been read behind them. -/
theorem HasRead.feed {tokens more : List Token} {at_ next : Parser} (read : HasRead tokens at_)
    (fed : at_.feed more = some next) : HasRead (tokens ++ more) next := by
  induction more generalizing tokens at_ with
  | nil =>
    obtain rfl : at_ = next := Option.some.inj fed
    simpa using read
  | cons token more ih =>
    rw [feed_cons] at fed
    obtain ⟨middle, stepped, fedRest⟩ := Option.bind_eq_some_iff.mp fed
    simpa using ih (read.step stepped) fedRest

/-- The parser stands behind a whole script. -/
structure IsDone (at_ : Parser) : Prop where
  isStatement : at_.position = .statement
  noneOpen : at_.stack = []

/-- At the end of a script the calls are those of a derivation. -/
theorem HasRead.exists_tree {tokens : List Token} {at_ : Parser} (read : HasRead tokens at_)
    (done : at_.IsDone) :
    ∃ tree : ScriptTree, ScriptTree.tokens tree = tokens ∧
      ScriptTree.calls tree = at_.calls.reverse := by
  obtain ⟨opened, calls, part⟩ := read
  obtain ⟨isStatement, noneOpen⟩ := done
  simp only at isStatement noneOpen
  subst isStatement noneOpen
  cases opened
  cases part
  exact ⟨calls, by simp, by simp⟩

theorem finish_of_isDone {at_ : Parser} (done : at_.IsDone) (stop : Nat) :
    at_.finish stop = .ok at_.calls.reverse := by
  rw [finish, done.isStatement, done.noneOpen]

theorem finish_of_not_isDone {at_ : Parser} (notDone : ¬ at_.IsDone) (stop : Nat) :
    at_.finish stop = .error ⟨none, at_.expected, ⟨stop, stop + 1⟩⟩ := by
  unfold finish
  split
  · rename_i isStatement noneOpen
    exact absurd ⟨isStatement, noneOpen⟩ notDone
  · rfl

theorem finish_eq_ok_iff {at_ : Parser} {stop : Nat} {calls : List Call} :
    at_.finish stop = .ok calls ↔ at_.IsDone ∧ at_.calls.reverse = calls := by
  by_cases done : at_.IsDone
  · simp [finish_of_isDone done, done]
  · simp [finish_of_not_isDone done, done]

/-- A run succeeds if all tokens may come and the script may end behind them. -/
theorem run_eq_ok_iff {at_ : Parser} {stop : Nat} {tokens : List Token} {calls : List Call} :
    at_.run stop tokens = .ok calls ↔
      ∃ next, at_.feed tokens = some next ∧ next.IsDone ∧ next.calls.reverse = calls := by
  induction tokens generalizing at_ stop with
  | nil => simp [run, finish_eq_ok_iff]
  | cons token rest ih =>
    rw [run, feed_cons]
    cases at_.step token with
    | none => simp
    | some next => exact ih

/-- The ends of scripts are the ends of derivations. -/
theorem feed_isDone_iff {tokens : List Token} {calls : List Call} :
    (∃ next, feed {} tokens = some next ∧ next.IsDone ∧ next.calls.reverse = calls) ↔
      ∃ tree : ScriptTree, ScriptTree.tokens tree = tokens ∧ ScriptTree.calls tree = calls := by
  constructor
  · rintro ⟨next, fed, done, rfl⟩
    have start : HasRead [] {} := .mk .nil [] .statement
    exact (start.feed fed).exists_tree done
  · rintro ⟨tree, rfl, rfl⟩
    exact ⟨_, feed_script tree rfl, ⟨rfl, rfl⟩, by simp⟩

end Parser

/-- Scripts are the tokens that lead the parser to an end. -/
theorem isScript_iff {tokens : List Token} :
    IsScript tokens ↔ ∃ next, Parser.feed {} tokens = some next ∧ next.IsDone := by
  constructor
  · rintro ⟨tree, areTokens⟩
    obtain ⟨next, fed, done, -⟩ := Parser.feed_isDone_iff.mpr ⟨tree, areTokens, rfl⟩
    exact ⟨next, fed, done⟩
  · rintro ⟨next, fed, done⟩
    obtain ⟨tree, areTokens, -⟩ := Parser.feed_isDone_iff.mp ⟨next, fed, done, rfl⟩
    exact ⟨tree, areTokens⟩

/-- **The parser accepts exactly the scripts, and builds the calls of their one derivation.** -/
theorem parse_eq_ok_iff (tokens : List Token) :
    (∀ calls, parse tokens = .ok calls ↔
      ∃ tree : ScriptTree, ScriptTree.tokens tree = tokens ∧ ScriptTree.calls tree = calls) ∧
    ∀ tree other : ScriptTree, ScriptTree.tokens tree = tokens → ScriptTree.tokens other = tokens →
      tree = other := by
  refine ⟨fun calls => Parser.run_eq_ok_iff.trans Parser.feed_isDone_iff, ?_⟩
  rintro tree other rfl same
  exact ScriptTree.tokens_inj same.symm

end Bindery.Script
