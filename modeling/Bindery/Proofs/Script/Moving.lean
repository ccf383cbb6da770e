/-
**Scripts that stand in a longer text.**

A script behind other characters has the tokens and the calls that it has alone. All that changes is
where they stand: every span is moved by the bytes in front, every line by the line breaks there. A
reader that starts at the beginning is followed beside one that starts further on.

* `Lexer.step_moved`, `Lexer.run_moved` — what the two readers of characters find.
* `Parser.step_moved`, `Parser.feed_moved` — where the two parsers stand.
-/

import Bindery.Proofs.Script.Feeding
import Bindery.Proofs.Script.Positions

namespace Bindery

/-- The span with so many bytes more in front of it. -/
def Span.moved (distance : Nat) (span : Span) : Span :=
  ⟨span.start + distance, span.stop + distance⟩

namespace Script

/-! ### Characters -/

/-- The token further on in a text. -/
def Token.moved (distance : Nat) (token : Token) : Token :=
  { token with span := token.span.moved distance }

/-- The error further on in a text, where its line begins with the same characters. -/
def LexError.moved (distance lines : Nat) (error : LexError) : LexError :=
  { error with line := error.line + lines, span := error.span.moved distance }

/-- What is found further on in a text. -/
def Finding.moved (distance lines : Nat) : Finding → Finding
  | .ok token => .ok (token.moved distance)
  | .error error => .error (error.moved distance lines)

/-- The mode of a reader further on in a text. -/
def LexMode.moved (distance : Nat) : LexMode → LexMode
  | .word start read => .word (start + distance) read
  | .text start column read => .text (start + distance) column read
  | .escape start column read => .escape (start + distance) column read
  | other => other

namespace Lexer

/-- The reader further on in a text. -/
def moved (distance lines : Nat) (at_ : Lexer) : Lexer where
  mode := at_.mode.moved distance
  offset := at_.offset + distance
  line := at_.line + lines
  lineStart := at_.lineStart + distance

section Moved

variable (distance lines : Nat) (at_ : Lexer) (c : Char)

theorem past_moved (mode : LexMode) :
    (at_.moved distance lines).past c (mode.moved distance) =
      (at_.past c mode).moved distance lines := by
  simp only [past, moved, Nat.add_right_comm]

theorem pastLine_moved (mode : LexMode) :
    (at_.moved distance lines).pastLine (mode.moved distance) =
      (at_.pastLine mode).moved distance lines := by
  simp only [pastLine, moved, Nat.add_right_comm]

theorem columnOf_moved (offset : Nat) :
    (at_.moved distance lines).columnOf (offset + distance) = at_.columnOf offset := by
  rw [columnOf, columnOf, moved, Nat.add_sub_add_right]

theorem unexpected_moved {back : Nat} (isRead : back ≤ at_.offset) :
    (at_.moved distance lines).unexpected c back =
      Finding.moved distance lines (at_.unexpected c back) := by
  have start : at_.offset + distance - back = at_.offset - back + distance := by omega
  simp only [unexpected, Finding.moved, LexError.moved, Span.moved]
  rw [show (at_.moved distance lines).offset - back = at_.offset - back + distance from start,
    columnOf_moved, Nat.add_right_comm]
  rfl

/-- A character between two tokens is read alike. -/
theorem stepBetween_moved :
    (at_.moved distance lines).stepBetween c =
      ((at_.stepBetween c).1.moved distance lines,
        (at_.stepBetween c).2.map (Finding.moved distance lines)) := by
  have past := past_moved distance lines at_ c
  have pastLine := pastLine_moved distance lines at_ .between
  have column := columnOf_moved distance lines at_ at_.offset
  unfold stepBetween
  split
  next => rw [← pastLine]; rfl
  split
  next => rw [← past]; rfl
  split
  next => rw [← past]; rfl
  split
  next =>
    rw [← past, ← column]
    rfl
  split
  next => rw [← past]; rfl
  split
  next =>
    rw [← past, List.map_singleton, Finding.moved, Token.moved, Span.moved, Nat.add_right_comm]
    rfl
  next =>
    rw [← past, List.map_singleton, ← unexpected_moved distance lines at_ c (Nat.zero_le _)]
    rfl

/-- Inside a token, the reader is not at the beginning of the text. -/
def HasBegun (at_ : Lexer) : Prop := at_.mode ≠ .between → 0 < at_.offset

variable {at_} in
/-- One character is read alike. -/
theorem step_moved (hasBegun : at_.HasBegun) :
    (at_.moved distance lines).step c =
      ((at_.step c).1.moved distance lines,
        (at_.step c).2.map (Finding.moved distance lines)) := by
  have past := past_moved distance lines at_ c
  have pastLine := pastLine_moved distance lines at_
  have between := stepBetween_moved distance lines at_ c
  have isMoved : (at_.moved distance lines).mode = at_.mode.moved distance := rfl
  unfold step
  rw [isMoved]
  cases isMode : at_.mode with
  | between => exact between
  | slash =>
    have isRead : 1 ≤ at_.offset := hasBegun (by simp [isMode])
    dsimp only [LexMode.moved]
    split
    next => rw [← past]; rfl
    next => rw [between, List.map_cons, ← unexpected_moved distance lines at_ '/' isRead]
  | comment =>
    dsimp only [LexMode.moved]
    split
    next => rw [← pastLine]; rfl
    next => rw [← past]; rfl
  | word start read =>
    dsimp only [LexMode.moved]
    split
    next => rw [← past]; rfl
    next =>
      rw [between, List.map_cons]
      rfl
  | text start column read =>
    dsimp only [LexMode.moved]
    split
    next =>
      rw [← past, List.map_singleton, Finding.moved, Token.moved, Span.moved, Nat.add_right_comm]
      rfl
    split
    next => rw [← past]; rfl
    split
    next => rw [← pastLine]; rfl
    next => rw [← past]; rfl
  | escape start column read =>
    have isRead : 1 ≤ at_.offset := hasBegun (by simp [isMode])
    have start : at_.offset + distance - 1 = at_.offset - 1 + distance := by omega
    dsimp only [LexMode.moved]
    split
    next => rw [← past]; rfl
    next =>
      rw [← past, List.map_singleton, Finding.moved, LexError.moved, Span.moved,
        ← columnOf_moved distance lines at_ (at_.offset - 1), ← start, Nat.add_right_comm]
      rfl

theorem finish_moved {at_ : Lexer} (hasBegun : at_.HasBegun) :
    (at_.moved distance lines).finish = at_.finish.map (Finding.moved distance lines) := by
  have isMoved : (at_.moved distance lines).mode = at_.mode.moved distance := rfl
  unfold finish
  rw [isMoved]
  cases isMode : at_.mode with
  | slash =>
    have isRead : 1 ≤ at_.offset := hasBegun (by simp [isMode])
    exact congrArg (fun found => [found]) (unexpected_moved distance lines at_ '/' isRead)
  | _ => rfl

theorem offset_step : (at_.step c).1.offset = at_.offset + c.utf8Size := by
  have between : (at_.stepBetween c).1.offset = at_.offset + c.utf8Size := by
    unfold stepBetween
    split
    next isBreak => rw [isBreak]; rfl
    repeat' split
    all_goals rfl
  unfold step
  split
  next => exact between
  next => split <;> first | exact between | rfl
  next =>
    split
    next isBreak => rw [isBreak]; rfl
    next => rfl
  next => split <;> first | exact between | rfl
  next =>
    split
    next => rfl
    split
    next => rfl
    split
    next isBreak => rw [isBreak]; rfl
    next => rfl
  next => split <;> rfl

variable {at_} in
/-- A text is read alike. -/
theorem run_moved {cs : List Char} (hasBegun : at_.HasBegun) :
    (at_.moved distance lines).run cs = (at_.run cs).map (Finding.moved distance lines) := by
  induction cs generalizing at_ with
  | nil => exact finish_moved distance lines hasBegun
  | cons c cs ih =>
    have begun : (at_.step c).1.HasBegun := fun _ => by
      rw [offset_step]
      exact Nat.add_pos_right _ c.utf8Size_pos
    rw [run_cons, run_cons, step_moved distance lines c hasBegun, ih begun, List.map_append]

end Moved

end Lexer

/-! ### Tokens -/

/-- The argument further on in a text. -/
def Argument.moved (distance : Nat) (argument : Argument) : Argument :=
  { argument with span := argument.span.moved distance }

namespace Call

mutual

/-- The call further on in a text, with all calls inside it. -/
def moved (distance : Nat) : Call → Call
  | .mk name nameSpan arguments body span =>
    .mk name (nameSpan.moved distance) (arguments.map (Argument.moved distance))
      (movedBlock distance body) (span.moved distance)

/-- The block of a call further on in a text. -/
def movedBlock (distance : Nat) : Option (List Call) → Option (List Call)
  | none => none
  | some calls => some (movedAll distance calls)

/-- The calls further on in a text. -/
def movedAll (distance : Nat) : List Call → List Call
  | [] => []
  | call :: rest => moved distance call :: movedAll distance rest

end

theorem movedAll_eq_map (distance : Nat) (calls : List Call) :
    movedAll distance calls = calls.map (moved distance) := by
  induction calls with
  | nil => rw [movedAll, List.map_nil]
  | cons call rest ih => rw [movedAll, List.map_cons, ih]

theorem movedBlock_eq_map (distance : Nat) (body : Option (List Call)) :
    movedBlock distance body = body.map (·.map (moved distance)) := by
  cases body with
  | none => rw [movedBlock, Option.map_none]
  | some calls => rw [movedBlock, movedAll_eq_map, Option.map_some]

end Call

/-- What is kept of a call in front of its block, further on in a text. -/
def CallHead.moved (distance : Nat) (head : CallHead) : CallHead where
  name := head.name
  nameSpan := head.nameSpan.moved distance
  arguments := head.arguments.map (Argument.moved distance)

/-- What is kept of an argument in front of its value, further on in a text. -/
def ArgumentHead.moved (distance : Nat) (argument : ArgumentHead) : ArgumentHead :=
  { argument with start := argument.start + distance }

/-- The position of a parser further on in a text. -/
def Position.moved (distance : Nat) : Position → Position
  | .statement => .statement
  | .opening head => .opening (head.moved distance)
  | .argument head => .argument (head.moved distance)
  | .naming head label => .naming (head.moved distance) (label.moved distance)
  | .value head label => .value (head.moved distance) (label.moved distance)
  | .item head label items => .item (head.moved distance) (label.moved distance) items
  | .itemEnd head label items => .itemEnd (head.moved distance) (label.moved distance) items
  | .argumentEnd head => .argumentEnd (head.moved distance)
  | .ending head => .ending (head.moved distance)

/-- The open call further on in a text. -/
def OpenCall.moved (distance : Nat) (opened : OpenCall) : OpenCall where
  before := opened.before.map (Call.moved distance)
  head := opened.head.moved distance

section Moved

variable (distance : Nat)

theorem CallHead.close_moved (head : CallHead) (body : Option (List Call)) (last : Span) :
    (head.moved distance).close (body.map (·.map (Call.moved distance))) (last.moved distance) =
      (head.close body last).moved distance := by
  rw [close, close, Call.moved, Call.movedBlock_eq_map, List.map_reverse]
  rfl

namespace Parser

/-- The parser further on in a text. -/
def moved (at_ : Parser) : Parser where
  stack := at_.stack.map (OpenCall.moved distance)
  calls := at_.calls.map (Call.moved distance)
  position := at_.position.moved distance

variable (at_ : Parser)

/-- A token leads alike. -/
theorem step_moved (token : Token) :
    (at_.moved distance).step (token.moved distance) =
      (at_.step token).map (Parser.moved distance) := by
  obtain ⟨stack, calls, position⟩ := at_
  obtain ⟨kind, place⟩ := token
  have close := CallHead.close_moved distance
  cases position with
  | statement =>
    cases kind with
    | punct mark =>
      cases mark with
      | closeBrace =>
        cases stack with
        | nil => rfl
        | cons parent outer =>
          have closed := close parent.head (some calls.reverse) place
          rw [Option.map_some, List.map_reverse] at closed
          exact congrArg (fun call => some (finishCall _ call)) closed
      | _ => rfl
    | _ => rfl
  | argument head =>
    cases kind with
    | identifier name => rfl
    | punct mark => cases mark <;> rfl
    | _ => rfl
  | value head label =>
    cases kind with
    | punct mark => cases mark <;> rfl
    | _ => rfl
  | ending head =>
    cases kind with
    | punct mark =>
      cases mark with
      | semicolon => exact congrArg (fun call => some (finishCall _ call)) (close head none place)
      | _ => rfl
    | _ => rfl
  | opening | naming | item | itemEnd | argumentEnd =>
    cases kind with
    | punct mark => cases mark <;> rfl
    | _ => rfl

/-- Tokens lead alike. -/
theorem feed_moved (tokens : List Token) :
    (at_.moved distance).feed (tokens.map (Token.moved distance)) =
      (at_.feed tokens).map (Parser.moved distance) := by
  induction tokens generalizing at_ with
  | nil => rfl
  | cons token rest ih =>
    rw [List.map_cons, feed_cons, feed_cons, step_moved]
    cases at_.step token with
    | none => rfl
    | some next => exact ih next

end Parser

end Moved

end Script

end Bindery
