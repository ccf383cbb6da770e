/-
**The grammar of definition scripts.**

A script is a list of tokens that the following rules derive from `program`; a comma may stand
behind the last argument and the last string, but not alone.

```
program   = call*
call      = identifier '(' arguments ')' (';' | '{' call* '}')
arguments = empty | argument (',' argument)* [',']
argument  = identifier '=' value | value
value     = string | boolean | '[' strings ']'
strings   = empty | string (',' string)* [',']
```

A derivation is a tree of the type of its symbol, with the places of all tokens at its leaves:
`ScriptTree.tokens` is what it derives, and `ScriptTree.calls` are the calls that it stands for.

* `IsScript` — the lists of tokens that have a derivation.
* `ScriptTree.tokens_inj` — no list of tokens has two of them.
-/

import Bindery.Script.Call
import Bindery.Script.Token

namespace Bindery.Script

/-! ### Derivations -/

/-- Items with a comma in front of each but the first, and perhaps one behind the last; of a comma
only its place is known. -/
inductive Separated (α : Type) where
  | none
  | some (first : α) (others : List (Span × α)) (trailing : Option Span)

/-- A derivation from `value`. -/
inductive ValueTree where
  | text (value : String) (place : Span)
  | truth (value : Bool) (place : Span)
  | list (opening : Span) (items : Separated (String × Span)) (closing : Span)

/-- The name of an argument with the `=` behind it. -/
structure Label where
  name : String
  place : Span
  equals : Span

/-- A derivation from `argument`. -/
structure ArgumentTree where
  label : Option Label
  value : ValueTree

/-- The part of a derivation from `call` up to the parenthesis behind the arguments. -/
structure HeadTree where
  name : String
  place : Span
  opening : Span
  arguments : Separated ArgumentTree
  closing : Span

/-- A derivation from `call`. -/
inductive CallTree where
  | leaf (head : HeadTree) (semicolon : Span)
  | block (head : HeadTree) (opening : Span) (body : List CallTree) (closing : Span)

/-- A derivation from `program`. -/
abbrev ScriptTree := List CallTree

/-! ### The tokens of a derivation -/

namespace Separated

variable {α : Type}

/-- The items in order. -/
def items : Separated α → List α
  | none => []
  | some first others _ => first :: others.map Prod.snd

/-- The tokens behind the first item, where `spell` gives those of an item. -/
def tokensBehind (spell : α → List Token) (trailing : Option Span) : List (Span × α) → List Token
  | [] => trailing.toList.map fun comma => ⟨.punct .comma, comma⟩
  | (comma, item) :: others =>
    ⟨.punct .comma, comma⟩ :: (spell item ++ tokensBehind spell trailing others)

/-- The tokens of the items and of the commas. -/
def tokens (spell : α → List Token) : Separated α → List Token
  | none => []
  | some first others trailing => spell first ++ tokensBehind spell trailing others

end Separated

/-- The token of a string. -/
def textToken (item : String × Span) : List Token := [⟨.text item.1, item.2⟩]

def ValueTree.tokens : ValueTree → List Token
  | text value place => [⟨.text value, place⟩]
  | truth value place => [⟨.truth value, place⟩]
  | list opening items closing =>
    ⟨.punct .openBracket, opening⟩ :: (items.tokens textToken ++ [⟨.punct .closeBracket, closing⟩])

def Label.tokens (label : Label) : List Token :=
  [⟨.identifier label.name, label.place⟩, ⟨.punct .equals, label.equals⟩]

def ArgumentTree.tokens (argument : ArgumentTree) : List Token :=
  argument.label.toList.flatMap Label.tokens ++ argument.value.tokens

def HeadTree.tokens (head : HeadTree) : List Token :=
  ⟨.identifier head.name, head.place⟩ :: ⟨.punct .openParen, head.opening⟩ ::
    (head.arguments.tokens ArgumentTree.tokens ++ [⟨.punct .closeParen, head.closing⟩])

mutual

def CallTree.tokens : CallTree → List Token
  | .leaf head semicolon => head.tokens ++ [⟨.punct .semicolon, semicolon⟩]
  | .block head opening body closing =>
    head.tokens ++
      ⟨.punct .openBrace, opening⟩ :: (ScriptTree.tokens body ++ [⟨.punct .closeBrace, closing⟩])

/-- The tokens of calls behind each other. -/
def ScriptTree.tokens : List CallTree → List Token
  | [] => []
  | call :: calls => call.tokens ++ ScriptTree.tokens calls

end

/-- The tokens can be derived from `program`. -/
def IsScript (tokens : List Token) : Prop := ∃ tree : ScriptTree, ScriptTree.tokens tree = tokens

/-! ### The calls of a derivation -/

/-- From the start of the first token to the end of the last one. -/
def spanOfTokens (tokens : List Token) : Span :=
  ⟨(tokens.head?.map (·.span.start)).getD 0, (tokens.getLast?.map (·.span.stop)).getD 0⟩

def ValueTree.value : ValueTree → Value
  | text value _ => .text value
  | truth value _ => .truth value
  | list _ items _ => .list (items.items.map Prod.fst)

def ArgumentTree.argument (argument : ArgumentTree) : Argument where
  name := argument.label.map Label.name
  value := argument.value.value
  span := spanOfTokens argument.tokens

mutual

def CallTree.call : CallTree → Call
  | .leaf head semicolon =>
    .mk head.name head.place (head.arguments.items.map ArgumentTree.argument) none
      (spanOfTokens (CallTree.leaf head semicolon).tokens)
  | .block head opening body closing =>
    .mk head.name head.place (head.arguments.items.map ArgumentTree.argument)
      (some (ScriptTree.calls body))
      (spanOfTokens (CallTree.block head opening body closing).tokens)

def ScriptTree.calls : List CallTree → List Call
  | [] => []
  | tree :: trees => tree.call :: ScriptTree.calls trees

end

/-! ### No list of tokens has two derivations -/

/-- Items can be read off in front of a mark: what they spell tells where they end, and none of them
starts with the mark. -/
structure Readable {α : Type} (spell : α → List Token) (mark : Punct) : Prop where
  unique : ∀ (item other : α) {rest more : List Token},
    spell item ++ rest = spell other ++ more → item = other ∧ rest = more
  starts : ∀ (item : α) (place : Span) (rest more : List Token),
    spell item ++ rest ≠ ⟨.punct mark, place⟩ :: more

namespace Separated

variable {α : Type} {spell : α → List Token} {mark : Punct}

theorem tokensBehind_append_inj (readable : Readable spell mark) (notComma : mark ≠ .comma)
    {others items : List (Span × α)} {trailing last : Option Span} {closing place : Span}
    {rest more : List Token}
    (same : tokensBehind spell trailing others ++ ⟨.punct mark, closing⟩ :: rest =
      tokensBehind spell last items ++ ⟨.punct mark, place⟩ :: more) :
    others = items ∧ trailing = last ∧ closing = place ∧ rest = more := by
  have commaFirst := Ne.symm notComma
  induction others generalizing items with
  | nil =>
    cases items with
    | nil =>
      cases trailing <;> cases last <;> simp [tokensBehind, notComma, commaFirst] at same ⊢ <;>
        exact same
    | cons item items =>
      -- a comma behind which the mark stands is no comma in front of an item
      cases trailing with
      | none => simp [tokensBehind, notComma] at same
      | some comma =>
        simp only [tokensBehind, Option.toList_some, List.map_cons, List.map_nil, List.cons_append,
          List.nil_append, List.append_assoc, List.cons.injEq] at same
        exact absurd same.2.symm (readable.starts _ _ _ _)
  | cons item others ih =>
    cases items with
    | nil =>
      cases last with
      | none => simp [tokensBehind, commaFirst] at same
      | some comma =>
        simp only [tokensBehind, Option.toList_some, List.map_cons, List.map_nil, List.cons_append,
          List.nil_append, List.append_assoc, List.cons.injEq] at same
        exact absurd same.2 (readable.starts _ _ _ _)
    | cons other items =>
      simp only [tokensBehind, List.cons_append, List.append_assoc, List.cons.injEq, Token.mk.injEq,
        true_and] at same
      obtain ⟨sameComma, behind⟩ := same
      obtain ⟨sameItem, behind⟩ := readable.unique _ _ behind
      obtain ⟨rfl, rfl, rfl, rfl⟩ := ih behind
      exact ⟨by rw [Prod.ext sameComma sameItem], rfl, rfl, rfl⟩

/-- Separated items can be read off in front of a mark that is no comma. -/
theorem tokens_append_inj (readable : Readable spell mark) (notComma : mark ≠ .comma)
    {items others : Separated α} {closing place : Span} {rest more : List Token}
    (same : items.tokens spell ++ ⟨.punct mark, closing⟩ :: rest =
      others.tokens spell ++ ⟨.punct mark, place⟩ :: more) :
    items = others ∧ closing = place ∧ rest = more := by
  cases items with
  | none =>
    cases others with
    | none => simpa [tokens] using same
    | some first others trailing =>
      rw [tokens, tokens, List.append_assoc] at same
      exact absurd same.symm (readable.starts _ _ _ _)
  | some first items trailing =>
    cases others with
    | none =>
      rw [tokens, tokens, List.append_assoc] at same
      exact absurd same (readable.starts _ _ _ _)
    | some second others last =>
      rw [tokens, tokens, List.append_assoc, List.append_assoc] at same
      obtain ⟨rfl, behind⟩ := readable.unique _ _ same
      obtain ⟨rfl, rfl, rfl, rfl⟩ := tokensBehind_append_inj readable notComma behind
      exact ⟨rfl, rfl, rfl⟩

end Separated

theorem readable_textToken : Readable textToken .closeBracket where
  unique := by
    rintro ⟨text, place⟩ ⟨other, elsewhere⟩ rest more same
    simpa [textToken, and_assoc] using same
  starts := by simp [textToken]

namespace ValueTree

theorem tokens_append_inj (value other : ValueTree) {rest more : List Token}
    (same : value.tokens ++ rest = other.tokens ++ more) : value = other ∧ rest = more := by
  cases value with
  | text value place =>
    cases other <;> simp [tokens] at same ⊢
    exact ⟨same.1, same.2⟩
  | truth value place =>
    cases other <;> simp [tokens] at same ⊢
    exact ⟨same.1, same.2⟩
  | list opening items closing =>
    cases other with
    | text value place => simp [tokens] at same
    | truth value place => simp [tokens] at same
    | list opening' others place =>
      simp only [tokens, List.cons_append, List.append_assoc, List.nil_append, List.cons.injEq,
        Token.mk.injEq, true_and] at same
      obtain ⟨rfl, behind⟩ := same
      obtain ⟨rfl, rfl, rfl⟩ :=
        Separated.tokens_append_inj readable_textToken (by decide) behind
      exact ⟨rfl, rfl⟩

/-- A value starts neither with a name nor with a mark other than a bracket. -/
theorem tokens_append_ne (value : ValueTree) (place : Span) (rest more : List Token) :
    (∀ name, value.tokens ++ rest ≠ ⟨.identifier name, place⟩ :: more) ∧
      ∀ mark ≠ Punct.openBracket, value.tokens ++ rest ≠ ⟨.punct mark, place⟩ :: more := by
  cases value with
  | text value place => simp [tokens]
  | truth value place => simp [tokens]
  | list opening items closing => simp +contextual [tokens, eq_comm]

end ValueTree

theorem readable_argument : Readable ArgumentTree.tokens .closeParen where
  unique := by
    rintro ⟨label, value⟩ ⟨other, second⟩ rest more same
    simp only [ArgumentTree.tokens, List.append_assoc] at same
    cases label with
    | none =>
      cases other with
      | none =>
        obtain ⟨rfl, behind⟩ := ValueTree.tokens_append_inj _ _ same
        exact ⟨rfl, behind⟩
      | some other => exact absurd same ((value.tokens_append_ne _ _ _).1 _)
    | some label =>
      cases other with
      | none => exact absurd same.symm ((second.tokens_append_ne _ _ _).1 _)
      | some other =>
        obtain ⟨name, place, equals⟩ := label
        obtain ⟨name', place', equals'⟩ := other
        simp only [Option.toList_some, List.flatMap_singleton, Label.tokens, List.cons_append,
          List.nil_append, List.cons.injEq, Token.mk.injEq, TokenKind.identifier.injEq,
          true_and] at same
        obtain ⟨⟨rfl, rfl⟩, rfl, sameValue⟩ := same
        obtain ⟨rfl, behind⟩ := ValueTree.tokens_append_inj _ _ sameValue
        exact ⟨rfl, behind⟩
  starts := by
    rintro ⟨label, value⟩ place rest more
    cases label with
    | none => exact (value.tokens_append_ne _ _ _).2 _ (by decide)
    | some label => simp [ArgumentTree.tokens, Label.tokens]

theorem HeadTree.tokens_append_inj (head other : HeadTree) {rest more : List Token}
    (same : head.tokens ++ rest = other.tokens ++ more) : head = other ∧ rest = more := by
  obtain ⟨name, place, opening, arguments, closing⟩ := head
  obtain ⟨name', place', opening', arguments', closing'⟩ := other
  simp only [tokens, List.cons_append, List.append_assoc, List.nil_append, List.cons.injEq,
    Token.mk.injEq, TokenKind.identifier.injEq, true_and] at same
  obtain ⟨⟨rfl, rfl⟩, rfl, behind⟩ := same
  obtain ⟨rfl, rfl, rfl⟩ := Separated.tokens_append_inj readable_argument (by decide) behind
  exact ⟨rfl, rfl⟩

/-- The tokens do not start like a call. -/
def StartsNoCall (tokens : List Token) : Prop :=
  ∀ name place more, tokens ≠ ⟨.identifier name, place⟩ :: more

theorem CallTree.tokens_append_cons (tree : CallTree) (rest : List Token) :
    ∃ name place more, tree.tokens ++ rest = ⟨.identifier name, place⟩ :: more := by
  cases tree <;> exact ⟨_, _, _, rfl⟩

mutual

theorem CallTree.tokens_append_inj : ∀ (tree other : CallTree) {rest more : List Token},
    tree.tokens ++ rest = other.tokens ++ more → tree = other ∧ rest = more
  | .leaf head semicolon, .leaf head' semicolon', rest, more, same => by
    simp only [CallTree.tokens, List.append_assoc] at same
    obtain ⟨rfl, ending⟩ := HeadTree.tokens_append_inj _ _ same
    simp only [List.cons_append, List.nil_append, List.cons.injEq, Token.mk.injEq,
      true_and] at ending
    obtain ⟨rfl, behind⟩ := ending
    exact ⟨rfl, behind⟩
  | .leaf head semicolon, .block head' opening body closing, rest, more, same => by
    simp only [CallTree.tokens, List.append_assoc] at same
    have ending := (HeadTree.tokens_append_inj _ _ same).2
    simp at ending
  | .block head opening body closing, .leaf head' semicolon, rest, more, same => by
    simp only [CallTree.tokens, List.append_assoc] at same
    have ending := (HeadTree.tokens_append_inj _ _ same).2
    simp at ending
  | .block head opening body closing, .block head' opening' body' closing', rest, more, same => by
    simp only [CallTree.tokens, List.append_assoc] at same
    obtain ⟨rfl, ending⟩ := HeadTree.tokens_append_inj _ _ same
    simp only [List.cons_append, List.append_assoc, List.nil_append, List.cons.injEq,
      Token.mk.injEq, true_and] at ending
    obtain ⟨rfl, inside⟩ := ending
    -- the brace behind the block starts no call, so the block ends there
    obtain ⟨rfl, last⟩ := ScriptTree.tokens_append_inj body body'
      (by simp [StartsNoCall]) (by simp [StartsNoCall]) inside
    simp only [List.cons.injEq, Token.mk.injEq, true_and] at last
    obtain ⟨rfl, behind⟩ := last
    exact ⟨rfl, behind⟩

theorem ScriptTree.tokens_append_inj : ∀ (tree other : ScriptTree) {rest more : List Token},
    StartsNoCall rest → StartsNoCall more →
      ScriptTree.tokens tree ++ rest = ScriptTree.tokens other ++ more → tree = other ∧ rest = more
  | [], [], rest, more, _, _, same => ⟨rfl, same⟩
  | [], call :: calls, rest, more, noCall, _, same => by
    rw [ScriptTree.tokens, ScriptTree.tokens, List.append_assoc] at same
    obtain ⟨name, place, others, isCall⟩ :=
      call.tokens_append_cons (ScriptTree.tokens calls ++ more)
    exact absurd (same.trans isCall) (noCall name place others)
  | call :: calls, [], rest, more, _, noCall, same => by
    rw [ScriptTree.tokens, ScriptTree.tokens, List.append_assoc] at same
    obtain ⟨name, place, others, isCall⟩ :=
      call.tokens_append_cons (ScriptTree.tokens calls ++ rest)
    exact absurd (same.symm.trans isCall) (noCall name place others)
  | call :: calls, call' :: calls', rest, more, noCall, noCall', same => by
    rw [ScriptTree.tokens, ScriptTree.tokens, List.append_assoc, List.append_assoc] at same
    obtain ⟨rfl, sameRest⟩ := CallTree.tokens_append_inj _ _ same
    obtain ⟨rfl, behind⟩ := ScriptTree.tokens_append_inj _ _ noCall noCall' sameRest
    exact ⟨rfl, behind⟩

end

/-- **A script has one derivation.** -/
theorem ScriptTree.tokens_inj {tree other : ScriptTree}
    (same : ScriptTree.tokens tree = ScriptTree.tokens other) : tree = other := by
  have noCall : StartsNoCall [] := by simp [StartsNoCall]
  exact (ScriptTree.tokens_append_inj tree other noCall noCall (congrArg (· ++ []) same)).1

end Bindery.Script
