/-
**The tokens of phrases are parsed into calls that say the same.**

A call `Says` a phrase when it has its name, its arguments and, inside its block, calls that say the
phrases of the block. The parser is fed tokens of known kinds and unknown places; `Leads` says where
it stands behind them, and such facts follow each other (`Leads.append`).

* `Parser.leads_phrase` — behind the tokens of a phrase stands one more call, which says it.
* `parse_of_kinds` — the tokens of phrases are a script, and its calls say the phrases.
-/

import Mathlib.Data.List.Forall2
import Bindery.Proofs.Script.Lexing
import Bindery.Script.Parser
import Bindery.Script.Statement

namespace Bindery.Script

/-! ### What calls say -/

/-- An argument without its place. -/
def Argument.given (argument : Argument) : Option String × Value := (argument.name, argument.value)

/-- The arguments of a head in order, without their places. -/
def CallHead.given (head : CallHead) : List (Option String × Value) :=
  head.arguments.reverse.map Argument.given

/-- The arguments of a phrase, the unnamed ones first. -/
def Phrase.givens (unnamed : List String) (named : List (String × Value)) :
    List (Option String × Value) :=
  unnamed.map (fun text => (none, .text text)) ++ named.map fun (name, value) => (some name, value)

/-- The call has the name and the arguments of the phrase, and its block says that of the phrase;
for an empty block there is none. -/
inductive Says : Call → Phrase → Prop
  | mk {call : Call} {name : String} {unnamed : List String} {named : List (String × Value)}
      {block : List Phrase} (ownName : call.name = name)
      (ownArguments : call.arguments.map Argument.given = Phrase.givens unnamed named)
      (leaf : block = [] → call.body = none) (inside : List.Forall₂ Says call.block block) :
      Says call (.mk name unnamed named block)

/-! ### Feeding tokens -/

namespace Parser

/-- The parser behind some tokens, if all of them may come. -/
def feed (at_ : Parser) (tokens : List Token) : Option Parser := tokens.foldlM step at_

/-- Behind all tokens of these kinds, wherever they stand, the parser is as described. -/
def Leads (at_ : Parser) (kinds : List TokenKind) (reached : Parser → Prop) : Prop :=
  ∀ tokens : List Token, tokens.map Token.kind = kinds →
    ∃ next, at_.feed tokens = some next ∧ reached next

/-- Tokens that may all come are read to the end of the script. -/
theorem run_of_feed {tokens : List Token} {at_ next : Parser} (fed : at_.feed tokens = some next)
    (stop : Nat) : ∃ last, at_.run stop tokens = next.finish last := by
  induction tokens generalizing at_ stop with
  | nil =>
    refine ⟨stop, ?_⟩
    rw [← Option.some.inj fed]
    rfl
  | cons token rest ih =>
    rw [feed, List.foldlM_cons] at fed
    obtain ⟨middle, stepped, fedRest⟩ := Option.bind_eq_some_iff.mp fed
    obtain ⟨last, ran⟩ := ih fedRest token.span.stop
    refine ⟨last, ?_⟩
    rw [run, stepped]
    exact ran

namespace Leads

variable {at_ : Parser} {kinds more : List TokenKind} {reached final : Parser → Prop}

theorem nil (isThere : reached at_) : Leads at_ [] reached := by
  intro tokens areKinds
  rw [List.map_eq_nil_iff.mp areKinds]
  exact ⟨at_, rfl, isThere⟩

theorem append (first : Leads at_ kinds reached)
    (second : ∀ next, reached next → Leads next more final) : Leads at_ (kinds ++ more) final := by
  intro tokens areKinds
  obtain ⟨early, late, rfl, areFirst, areSecond⟩ := List.map_eq_append_iff.mp areKinds
  obtain ⟨middle, fedEarly, isReached⟩ := first early areFirst
  obtain ⟨next, fedLate, isFinal⟩ := second middle isReached late areSecond
  refine ⟨next, ?_, isFinal⟩
  rw [feed, List.foldlM_append]
  exact Option.bind_eq_some_iff.mpr ⟨middle, fedEarly, fedLate⟩

theorem single {kind : TokenKind}
    (steps : ∀ token : Token, token.kind = kind →
      ∃ next, at_.step token = some next ∧ reached next) : Leads at_ [kind] reached := by
  intro tokens areKinds
  obtain ⟨token, rfl, isKind⟩ := List.map_eq_singleton_iff.mp areKinds
  obtain ⟨next, stepped, isReached⟩ := steps token isKind
  exact ⟨next, by simpa [feed] using stepped, isReached⟩

theorem cons {kind : TokenKind}
    (steps : ∀ token : Token, token.kind = kind →
      ∃ next, at_.step token = some next ∧ Leads next more final) :
    Leads at_ (kind :: more) final :=
  append (single steps) fun _ leads => leads

theorem imp (leads : Leads at_ kinds reached) (weaker : ∀ next, reached next → final next) :
    Leads at_ kinds final := by
  intro tokens areKinds
  obtain ⟨next, fed, isReached⟩ := leads tokens areKinds
  exact ⟨next, fed, weaker next isReached⟩

end Leads

/-! ### Arguments -/

/-- The parser stands behind an argument, with one more argument than a head had. -/
def BehindArgument (at_ : Parser) (head : CallHead) (argument : Option String × Value)
    (next : Parser) : Prop :=
  ∃ longer : CallHead, next = at_.moveTo (.argumentEnd longer) ∧ longer.name = head.name ∧
    longer.given = head.given ++ [argument]

/-- The parser stands behind the arguments, with some more arguments than a head had. -/
def BehindArguments (at_ : Parser) (head : CallHead) (arguments : List (Option String × Value))
    (next : Parser) : Prop :=
  ∃ longer : CallHead, next = at_.moveTo (.ending longer) ∧ longer.name = head.name ∧
    longer.given = head.given ++ arguments

theorem behindArgument_push (at_ : Parser) (head : CallHead) (argument : ArgumentHead)
    (value : Value) (last : Span) :
    BehindArgument at_ head (argument.name, value)
      (at_.moveTo (.argumentEnd (head.push argument value last))) :=
  ⟨head.push argument value last, rfl, rfl, by simp [CallHead.given, CallHead.push, Argument.given]⟩

/-- The items of a list that is not empty and the bracket behind them. -/
theorem leads_items (at_ : Parser) (head : CallHead) (argument : ArgumentHead)
    (first : String) (rest read : List String) :
    Leads (at_.moveTo (.item head argument read))
      (commaKinds ((first :: rest).map ([.text ·])) ++ [.punct .closeBracket])
      (BehindArgument at_ head (argument.name, .list (read.reverse ++ first :: rest))) := by
  induction rest generalizing first read with
  | nil =>
    refine Leads.cons fun token isText =>
      ⟨at_.moveTo (.itemEnd head argument (first :: read)), by simp [step, isText, moveTo], ?_⟩
    refine Leads.single fun last isBracket =>
      ⟨at_.moveTo (.argumentEnd (head.push argument (.list (first :: read).reverse) last.span)),
        by simp [step, isBracket, moveTo], ?_⟩
    simpa using behindArgument_push at_ head argument (.list (first :: read).reverse) last.span
  | cons second others ih =>
    simp only [List.map_cons, commaKinds, List.intercalate_cons_cons]
    refine Leads.cons fun token isText =>
      ⟨at_.moveTo (.itemEnd head argument (first :: read)), by simp [step, isText, moveTo], ?_⟩
    refine Leads.cons fun comma isComma =>
      ⟨at_.moveTo (.item head argument (first :: read)), by simp [step, isComma, moveTo], ?_⟩
    simpa [commaKinds] using ih second (first :: read)

/-- A value behind the name of its argument. -/
theorem leads_value (at_ : Parser) (head : CallHead) (argument : ArgumentHead) (value : Value) :
    Leads (at_.moveTo (.value head argument)) value.kinds
      (BehindArgument at_ head (argument.name, value)) := by
  cases value with
  | text value =>
    exact Leads.single fun token isText =>
      ⟨_, by simp [step, isText, moveTo, CallHead.afterValue],
        behindArgument_push at_ head argument (.text value) token.span⟩
  | truth value =>
    exact Leads.single fun token isTruth =>
      ⟨_, by simp [step, isTruth, moveTo, CallHead.afterValue],
        behindArgument_push at_ head argument (.truth value) token.span⟩
  | list items =>
    refine Leads.cons fun token isBracket =>
      ⟨at_.moveTo (.item head argument []),
        by simp [step, isBracket, moveTo, CallHead.afterValue], ?_⟩
    cases items with
    | nil =>
      exact Leads.single fun last isBracket =>
        ⟨_, by simp [step, isBracket, moveTo],
          behindArgument_push at_ head argument (.list []) last.span⟩
    | cons first rest => exact leads_items at_ head argument first rest []

/-- An argument of a phrase: a text without a name, or a value behind its name. -/
theorem leads_argument (at_ : Parser) (head : CallHead) :
    (∀ text : String, Leads (at_.moveTo (.argument head)) [.text text]
      (BehindArgument at_ head (none, .text text))) ∧
    ∀ argument : String × Value, Leads (at_.moveTo (.argument head)) (namedKinds argument)
      (BehindArgument at_ head (some argument.1, argument.2)) := by
  constructor
  · intro text
    exact Leads.single fun token isText =>
      ⟨_, by simp [step, isText, moveTo, CallHead.afterValue],
        behindArgument_push at_ head ⟨none, token.span.start⟩ (.text text) token.span⟩
  · intro (name, value)
    refine Leads.cons fun token isName =>
      ⟨at_.moveTo (.naming head ⟨some name, token.span.start⟩),
        by simp [step, isName, moveTo], ?_⟩
    refine Leads.cons fun equals isEquals =>
      ⟨at_.moveTo (.value head ⟨some name, token.span.start⟩),
        by simp [step, isEquals, moveTo], ?_⟩
    exact leads_value at_ head ⟨some name, token.span.start⟩ value

/-- Arguments with the tokens of each, and the parenthesis behind them. -/
theorem leads_arguments (at_ : Parser) (head : CallHead)
    {arguments : List ((Option String × Value) × List TokenKind)}
    (each : ∀ argument ∈ arguments, ∀ head : CallHead,
      Leads (at_.moveTo (.argument head)) argument.2 (BehindArgument at_ head argument.1)) :
    Leads (at_.moveTo (.argument head))
      (commaKinds (arguments.map Prod.snd) ++ [.punct .closeParen])
      (BehindArguments at_ head (arguments.map Prod.fst)) := by
  induction arguments generalizing head with
  | nil =>
    exact Leads.single fun token isParen =>
      ⟨at_.moveTo (.ending head), by simp [step, isParen, moveTo], head, rfl, rfl, by simp⟩
  | cons argument rest ih =>
    have readsFirst := each argument (List.mem_cons_self ..) head
    cases rest with
    | nil =>
      simp only [List.map_cons, List.map_nil, commaKinds, List.intercalate_singleton]
      refine readsFirst.append ?_
      rintro next ⟨longer, isNext, sameName, grown⟩
      exact Leads.single fun token isParen =>
        ⟨at_.moveTo (.ending longer), by simp [isNext, step, isParen, moveTo], longer, rfl,
          sameName, grown⟩
    | cons second others =>
      simp only [List.map_cons, commaKinds, List.intercalate_cons_cons, List.append_assoc]
      refine readsFirst.append ?_
      rintro next ⟨longer, isNext, sameName, grown⟩
      refine Leads.cons fun comma isComma =>
        ⟨at_.moveTo (.argument longer), by simp [isNext, step, isComma, moveTo], ?_⟩
      have readsRest := ih longer fun other isLater => each other (List.mem_cons_of_mem _ isLater)
      refine readsRest.imp ?_
      rintro last ⟨longest, isLast, sameNameRest, grownRest⟩
      exact ⟨longest, isLast, sameNameRest.trans sameName, by simp [grownRest, grown]⟩

/-! ### Phrases -/

/-- The name and the arguments of a phrase lead to where its block or a semicolon may come. -/
theorem leads_head {at_ : Parser} (isStatement : at_.position = .statement) (name : String)
    (unnamed : List String) (named : List (String × Value)) :
    Leads at_ (Phrase.headKinds name unnamed named) fun next =>
      ∃ head : CallHead, next = at_.moveTo (.ending head) ∧ head.name = name ∧
        head.given = Phrase.givens unnamed named := by
  refine Leads.cons fun token isName =>
    ⟨at_.moveTo (.opening { name, nameSpan := token.span }),
      by simp [step, isStatement, isName, moveTo], ?_⟩
  refine Leads.cons fun paren isParen =>
    ⟨at_.moveTo (.argument { name, nameSpan := token.span }),
      by simp [step, isParen, moveTo], ?_⟩
  have all := @leads_arguments at_ { name, nameSpan := token.span }
    (unnamed.map (fun text => ((none, .text text), [.text text])) ++
      named.map fun argument => ((some argument.1, argument.2), namedKinds argument)) ?_
  · refine Leads.imp (by simpa [Function.comp_def] using all) ?_
    rintro next ⟨head, isNext, sameName, grown⟩
    refine ⟨head, isNext, sameName, ?_⟩
    simpa [Phrase.givens, Function.comp_def, CallHead.given] using grown
  · intro argument isArgument head
    rcases List.mem_append.mp isArgument with isText | isNamed
    · obtain ⟨text, _, rfl⟩ := List.mem_map.mp isText
      exact (leads_argument at_ head).1 text
    · obtain ⟨pair, _, rfl⟩ := List.mem_map.mp isNamed
      exact (leads_argument at_ head).2 pair

mutual

/-- Behind the tokens of a phrase stands one more call, which says it. -/
theorem leads_phrase : ∀ (phrase : Phrase) {at_ : Parser}, at_.position = .statement →
    Leads at_ phrase.kinds fun next => ∃ call, next = at_.finishCall call ∧ Says call phrase
  | .mk name unnamed named [], at_, isStatement => by
    simp only [Phrase.kinds]
    refine (leads_head isStatement name unnamed named).append ?_
    rintro next ⟨head, rfl, ownName, ownArguments⟩
    refine Leads.single fun token isSemicolon =>
      ⟨at_.finishCall (head.close none token.span), by simp [step, isSemicolon, moveTo, finishCall],
        head.close none token.span, rfl, ?_⟩
    exact .mk ownName ownArguments (fun _ => rfl) .nil
  | .mk name unnamed named (first :: rest), at_, isStatement => by
    simp only [Phrase.kinds]
    refine (leads_head isStatement name unnamed named).append ?_
    rintro next ⟨head, rfl, ownName, ownArguments⟩
    refine Leads.cons fun opening isOpening =>
      ⟨{ stack := ⟨at_.calls, head⟩ :: at_.stack }, by simp [step, isOpening, moveTo], ?_⟩
    have inBlock := @leads_phrases (first :: rest) { stack := ⟨at_.calls, head⟩ :: at_.stack } rfl
    rw [Phrase.kindsOfAll] at inBlock
    refine inBlock.append ?_
    rintro next ⟨calls, rfl, sayAll⟩
    refine Leads.single fun closing isClosing =>
      ⟨at_.finishCall (head.close (some calls) closing.span),
        by simp [step, isClosing, finishCall], head.close (some calls) closing.span, rfl, ?_⟩
    exact .mk ownName ownArguments (fun isEmpty => absurd isEmpty (List.cons_ne_nil _ _)) sayAll

/-- Behind the tokens of some phrases stand as many calls more, which say them. -/
theorem leads_phrases : ∀ (phrases : List Phrase) {at_ : Parser}, at_.position = .statement →
    Leads at_ (Phrase.kindsOfAll phrases) fun next =>
      ∃ calls, next = { at_ with calls := calls.reverse ++ at_.calls, position := .statement } ∧
        List.Forall₂ Says calls phrases
  | [], at_, isStatement => by
    refine Leads.nil ⟨[], ?_, .nil⟩
    cases at_
    simp_all
  | first :: rest, at_, isStatement => by
    simp only [Phrase.kindsOfAll]
    refine (leads_phrase first isStatement).append ?_
    rintro next ⟨call, rfl, saysFirst⟩
    refine (leads_phrases rest rfl).imp ?_
    rintro next ⟨calls, rfl, sayRest⟩
    exact ⟨call :: calls, by simp [finishCall], .cons saysFirst sayRest⟩

end

end Parser

/-- The tokens of phrases are a script, and its calls say the phrases. -/
theorem parse_of_kinds {tokens : List Token} {phrases : List Phrase}
    (areKinds : tokens.map Token.kind = Phrase.kindsOfAll phrases) :
    ∃ calls, parse tokens = .ok calls ∧ List.Forall₂ Says calls phrases := by
  obtain ⟨next, fed, calls, rfl, sayAll⟩ := @Parser.leads_phrases phrases {} rfl tokens areKinds
  obtain ⟨last, ran⟩ := Parser.run_of_feed fed 0
  refine ⟨calls, ?_, sayAll⟩
  rw [parse, ran]
  simp [Parser.finish]

end Bindery.Script
