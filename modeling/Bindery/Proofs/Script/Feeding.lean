/-
**Along a derivation the parser comes to the calls that it stands for.**

The tokens of each part of a derivation lead the parser from where the part may start to where it
ends, and what it keeps of them on the way is what the part stands for.

* `Parser.feed_separated` — items with commas between them, be they arguments or strings.
* `Parser.feed_call`, `Parser.feed_script` — behind the tokens of calls stand these calls.
-/

import Bindery.Proofs.Script.Grammar
import Bindery.Proofs.Script.Parsing

namespace Bindery.Script

/-! ### Places -/

theorem spanOfTokens_eq {tokens : List Token} {first last : Span}
    (isFirst : tokens.head?.map (·.span) = some first)
    (isLast : tokens.getLast?.map (·.span) = some last) : spanOfTokens tokens = first.to last := by
  obtain ⟨token, isHead, rfl⟩ := Option.map_eq_some_iff.mp isFirst
  obtain ⟨other, isEnd, rfl⟩ := Option.map_eq_some_iff.mp isLast
  rw [spanOfTokens, isHead, isEnd]
  rfl

/-- Where the first token of a value stands. -/
def ValueTree.place : ValueTree → Span
  | text _ place => place
  | truth _ place => place
  | list opening _ _ => opening

/-- Where the last token of a value stands. -/
def ValueTree.lastPlace : ValueTree → Span
  | text _ place => place
  | truth _ place => place
  | list _ _ closing => closing

theorem ValueTree.head?_tokens (value : ValueTree) :
    value.tokens.head?.map (·.span) = some value.place := by
  cases value <;> rfl

theorem ValueTree.getLast?_tokens (value : ValueTree) :
    value.tokens.getLast?.map (·.span) = some value.lastPlace := by
  cases value with
  | text value place => rfl
  | truth value place => rfl
  | list opening items closing => simp [tokens, lastPlace, List.getLast?_cons]

/-- What the parser keeps of an argument in front of its value, where that may start. -/
def argumentHead (label : Option Label) (value : Span) : ArgumentHead :=
  ⟨label.map Label.name, ((label.map Label.place).getD value).start⟩

/-- The head with one more argument. -/
def CallHead.add (head : CallHead) (argument : Argument) : CallHead :=
  { head with arguments := argument :: head.arguments }

theorem ArgumentTree.push_eq (tree : ArgumentTree) (head : CallHead) :
    head.push (argumentHead tree.label tree.value.place) tree.value.value tree.value.lastPlace =
      head.add tree.argument := by
  obtain ⟨label, value⟩ := tree
  have isFirst : (ArgumentTree.tokens ⟨label, value⟩).head?.map (·.span) =
      some ((label.map Label.place).getD value.place) := by
    cases label with
    | none => exact value.head?_tokens
    | some label => rfl
  have isLast : (ArgumentTree.tokens ⟨label, value⟩).getLast?.map (·.span) =
      some value.lastPlace := by
    obtain ⟨last, isLast, isPlace⟩ := Option.map_eq_some_iff.mp value.getLast?_tokens
    simp [tokens, List.getLast?_append, isLast, isPlace]
  rw [CallHead.push, CallHead.add, argument, spanOfTokens_eq isFirst isLast]
  rfl

/-- What the parser keeps of a call behind its arguments. -/
def HeadTree.head (tree : HeadTree) : CallHead where
  name := tree.name
  nameSpan := tree.place
  arguments := (tree.arguments.items.map ArgumentTree.argument).reverse

/-- The span of a call that ends with the given tokens. -/
theorem HeadTree.spanOfTokens_append (tree : HeadTree) {tokens : List Token} {last : Span}
    (isLast : tokens.getLast?.map (·.span) = some last) :
    spanOfTokens (tree.tokens ++ tokens) = tree.place.to last := by
  obtain ⟨token, isToken, isPlace⟩ := Option.map_eq_some_iff.mp isLast
  exact spanOfTokens_eq rfl (by simp [List.getLast?_append, isToken, isPlace])

namespace CallTree

theorem call_leaf (head : HeadTree) (semicolon : Span) :
    (leaf head semicolon).call = head.head.close none semicolon := by
  rw [call, tokens, head.spanOfTokens_append rfl]
  simp [CallHead.close, HeadTree.head]

theorem call_block (head : HeadTree) (opening : Span) (body : ScriptTree) (closing : Span) :
    (block head opening body closing).call =
      head.head.close (some (ScriptTree.calls body)) closing := by
  have isLast : (⟨.punct .openBrace, opening⟩ ::
      (ScriptTree.tokens body ++ [⟨.punct .closeBrace, closing⟩]) : List Token).getLast?.map
        (·.span) = some closing := by simp [List.getLast?_cons]
  rw [call, tokens, head.spanOfTokens_append isLast]
  simp [CallHead.close, HeadTree.head]

end CallTree

namespace ScriptTree

theorem tokens_append_singleton (tree : ScriptTree) (call : CallTree) :
    ScriptTree.tokens (tree ++ [call]) = ScriptTree.tokens tree ++ call.tokens := by
  induction tree with
  | nil => simp [tokens]
  | cons first tree ih => rw [List.cons_append, tokens, ih, tokens, List.append_assoc]

theorem calls_eq_map (tree : ScriptTree) : ScriptTree.calls tree = tree.map CallTree.call := by
  induction tree with
  | nil => rfl
  | cons first tree ih => rw [calls, ih, List.map_cons]

end ScriptTree

/-! ### Feeding -/

namespace Parser

@[simp] theorem feed_nil (at_ : Parser) : at_.feed [] = some at_ := rfl

theorem feed_cons (at_ : Parser) (token : Token) (rest : List Token) :
    at_.feed (token :: rest) = (at_.step token).bind (·.feed rest) := by
  rw [feed, List.foldlM_cons]
  rfl

theorem feed_append (at_ : Parser) (tokens more : List Token) :
    at_.feed (tokens ++ more) = (at_.feed tokens).bind (·.feed more) := by
  rw [feed, List.foldlM_append]
  rfl

/-- Separated items and the mark behind them, where an item leads from before it to behind it, a
comma back again, and the mark away from both. -/
theorem feed_separated {α β : Type} (spell : α → List Token) (mark : Token)
    (before behind after : β → Parser) (add : β → α → β)
    (item : ∀ read item, (before read).feed (spell item) = some (behind (add read item)))
    (comma : ∀ read place, (behind read).step ⟨.punct .comma, place⟩ = some (before read))
    (markBefore : ∀ read, (before read).step mark = some (after read))
    (markBehind : ∀ read, (behind read).step mark = some (after read))
    (items : Separated α) (read : β) :
    (before read).feed (items.tokens spell ++ [mark]) =
      some (after (items.items.foldl add read)) := by
  have others : ∀ (others : List (Span × α)) trailing read,
      (behind read).feed (Separated.tokensBehind spell trailing others ++ [mark]) =
        some (after ((others.map Prod.snd).foldl add read)) := by
    intro others trailing
    induction others with
    | nil =>
      intro read
      cases trailing with
      | none => simp [Separated.tokensBehind, feed_cons, markBehind]
      | some place => simp [Separated.tokensBehind, feed_cons, comma, markBefore]
    | cons other others ih =>
      intro read
      simp [Separated.tokensBehind, feed_cons, comma, feed_append _ (spell _), item, ih]
  cases items with
  | none => simp [Separated.tokens, Separated.items, feed_cons, markBefore]
  | some first rest trailing =>
    simp [Separated.tokens, Separated.items, feed_append _ (spell _), item, others]

theorem feed_items (at_ : Parser) (head : CallHead) (argument : ArgumentHead)
    (items : Separated (String × Span)) (closing : Span) :
    (at_.moveTo (.item head argument [])).feed
        (items.tokens textToken ++ [⟨.punct .closeBracket, closing⟩]) =
      some (at_.moveTo (.argumentEnd
        (head.push argument (.list (items.items.map Prod.fst)) closing))) := by
  have fed := feed_separated textToken ⟨.punct .closeBracket, closing⟩
    (fun read => at_.moveTo (.item head argument read))
    (fun read => at_.moveTo (.itemEnd head argument read))
    (fun read => at_.moveTo (.argumentEnd (head.push argument (.list read.reverse) closing)))
    (fun read item => item.1 :: read) (fun _ _ => rfl) (fun _ _ => rfl) (fun _ => rfl)
    (fun _ => rfl) items []
  rw [List.foldl_flip_cons_eq_append] at fed
  simpa using fed

theorem feed_value (at_ : Parser) (head : CallHead) (argument : ArgumentHead) (tree : ValueTree) :
    (at_.moveTo (.value head argument)).feed tree.tokens =
      some (at_.moveTo (.argumentEnd (head.push argument tree.value tree.lastPlace))) := by
  cases tree with
  | text value place => rfl
  | truth value place => rfl
  | list opening items closing =>
    exact feed_items at_ head argument items closing

/-- A value that is an argument without a name. -/
theorem feed_unnamed (at_ : Parser) (head : CallHead) (tree : ValueTree) :
    (at_.moveTo (.argument head)).feed tree.tokens =
      some (at_.moveTo
        (.argumentEnd (head.push (argumentHead none tree.place) tree.value tree.lastPlace))) := by
  cases tree with
  | text value place => rfl
  | truth value place => rfl
  | list opening items closing =>
    exact feed_items at_ head ⟨none, opening.start⟩ items closing

theorem feed_argument (at_ : Parser) (head : CallHead) (tree : ArgumentTree) :
    (at_.moveTo (.argument head)).feed tree.tokens =
      some (at_.moveTo (.argumentEnd (head.add tree.argument))) := by
  rw [← tree.push_eq]
  obtain ⟨label, value⟩ := tree
  cases label with
  | none => exact feed_unnamed at_ head value
  | some label => exact feed_value at_ head (argumentHead (some label) value.place) value

theorem feed_head {at_ : Parser} (isStatement : at_.position = .statement) (tree : HeadTree) :
    at_.feed tree.tokens = some (at_.moveTo (.ending tree.head)) := by
  have fed := feed_separated ArgumentTree.tokens ⟨.punct .closeParen, tree.closing⟩
    (fun head => at_.moveTo (.argument head)) (fun head => at_.moveTo (.argumentEnd head))
    (fun head => at_.moveTo (.ending head)) (fun head tree => head.add tree.argument)
    (feed_argument at_) (fun _ _ => rfl) (fun _ => rfl) (fun _ => rfl) tree.arguments
    { name := tree.name, nameSpan := tree.place }
  have collected : ∀ (trees : List ArgumentTree) (head : CallHead),
      trees.foldl (fun head tree => head.add tree.argument) head =
        { head with arguments := (trees.map ArgumentTree.argument).reverse ++ head.arguments } := by
    intro trees
    induction trees with
    | nil => intro head; rfl
    | cons tree trees ih =>
      intro head
      rw [List.foldl_cons, ih]
      simp [CallHead.add]
  rw [collected] at fed
  have named : at_.step ⟨.identifier tree.name, tree.place⟩ =
      some (at_.moveTo (.opening { name := tree.name, nameSpan := tree.place })) := by
    simp only [step, isStatement]
  have opened : (at_.moveTo (.opening { name := tree.name, nameSpan := tree.place })).step
      ⟨.punct .openParen, tree.opening⟩ =
        some (at_.moveTo (.argument { name := tree.name, nameSpan := tree.place })) := rfl
  rw [HeadTree.tokens, feed_cons, named, Option.bind_some, feed_cons, opened, Option.bind_some, fed]
  simp [HeadTree.head]

mutual

/-- Behind the tokens of a call stands one more call. -/
theorem feed_call : ∀ (tree : CallTree) {at_ : Parser}, at_.position = .statement →
    at_.feed tree.tokens = some (at_.finishCall tree.call)
  | .leaf head semicolon, at_, isStatement => by
    have closed : (at_.moveTo (.ending head.head)).step ⟨.punct .semicolon, semicolon⟩ =
        some (at_.finishCall (head.head.close none semicolon)) := rfl
    rw [CallTree.tokens, feed_append, feed_head isStatement, Option.bind_some, feed_cons, closed,
      CallTree.call_leaf]
    rfl
  | .block head opening body closing, at_, isStatement => by
    have opened : (at_.moveTo (.ending head.head)).step ⟨.punct .openBrace, opening⟩ =
        some { stack := ⟨at_.calls, head.head⟩ :: at_.stack } := rfl
    have inside := @feed_script body { stack := ⟨at_.calls, head.head⟩ :: at_.stack } rfl
    have closed : Parser.step ⟨⟨at_.calls, head.head⟩ :: at_.stack,
          (ScriptTree.calls body).reverse ++ [], .statement⟩ ⟨.punct .closeBrace, closing⟩ =
        some (at_.finishCall (head.head.close (some (ScriptTree.calls body)) closing)) := by
      simp [step, finishCall]
    rw [CallTree.tokens, feed_append, feed_head isStatement, Option.bind_some, feed_cons, opened,
      Option.bind_some, feed_append, inside, Option.bind_some, feed_cons, closed,
      CallTree.call_block]
    rfl

/-- Behind the tokens of some calls stand as many calls more. -/
theorem feed_script : ∀ (tree : ScriptTree) {at_ : Parser}, at_.position = .statement →
    at_.feed (ScriptTree.tokens tree) =
      some { at_ with calls := (ScriptTree.calls tree).reverse ++ at_.calls }
  | [], at_, _ => by simp [ScriptTree.tokens, ScriptTree.calls]
  | call :: calls, at_, isStatement => by
    have rest := @feed_script calls (at_.finishCall call.call) rfl
    rw [ScriptTree.tokens, feed_append, feed_call call isStatement, Option.bind_some, rest]
    simp [ScriptTree.calls, finishCall, isStatement]

end

end Parser

end Bindery.Script
