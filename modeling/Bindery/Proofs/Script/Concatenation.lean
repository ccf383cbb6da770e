/-
**Scripts one behind the other.**

Two scripts with a line break between them are a script again. Its tokens, its calls and its edits
are those of the first one and behind them those of the second, so that the second script goes on
with the table of the first: it extends scopes that are there, replaces what has a known name and
switches headers once more.

* `tokenize_append`, `parse_append`, `readCalls_append` — one stage of the reader after the other.
* `read_append` — the table of two scripts.
-/

import Bindery.Proofs.Returns
import Bindery.Proofs.Script.MovedCalls
import Bindery.Proofs.Script.Recognition
import Bindery.Proofs.Symbols.Overlay
import Bindery.Script.Read

namespace Bindery.Script

open Symbols

/-! ### Characters -/

namespace Lexer

/-- The reader behind some characters. -/
def reach (at_ : Lexer) : List Char → Lexer
  | [] => at_
  | c :: cs => (at_.step c).1.reach cs

/-- What is found up to the end of some characters that go on. -/
def found (at_ : Lexer) : List Char → List Finding
  | [] => []
  | c :: cs => (at_.step c).2 ++ (at_.step c).1.found cs

theorem run_append (at_ : Lexer) (cs ds : List Char) :
    at_.run (cs ++ ds) = at_.found cs ++ (at_.reach cs).run ds := by
  induction cs generalizing at_ with
  | nil => rfl
  | cons c cs ih => rw [List.cons_append, run_cons, ih, ← List.append_assoc]; rfl

theorem run_eq (at_ : Lexer) (cs : List Char) :
    at_.run cs = at_.found cs ++ (at_.reach cs).finish := by
  have whole := at_.run_append cs []
  rwa [List.append_nil] at whole

theorem offset_reach (at_ : Lexer) (cs : List Char) :
    (at_.reach cs).offset = at_.offset + textBytes cs := by
  induction cs generalizing at_ with
  | nil => rfl
  | cons c cs ih =>
    rw [reach, ih, offset_step, Nat.add_assoc]
    rfl

/-- Outside texts, a line break shows what the end of the source would show, and the reader goes on
between two tokens. -/
theorem run_lineBreak {at_ : Lexer} (noError : ∀ error, .error error ∉ at_.finish)
    (cs : List Char) :
    at_.run ('\n' :: cs) = at_.finish ++ (at_.pastLine .between).run cs := by
  rw [run_cons, step, finish]
  rw [finish] at noError
  cases isMode : at_.mode with
  | between | slash | comment | word => rfl
  | text start column read | escape start column read =>
    rw [isMode] at noError
    exact absurd (List.mem_singleton.mpr rfl) (noError _)

/-- The reader in a new line reads as it does at the beginning, further on. -/
theorem pastLine_eq_moved (at_ : Lexer) :
    at_.pastLine .between = ({} : Lexer).moved (at_.offset + 1) at_.line := by
  simp only [pastLine, moved, LexMode.moved, Nat.zero_add, Nat.add_comm]

/-- The tokens among what was found. -/
def tokensOf (found : List Finding) : List Token :=
  found.filterMap fun
    | .ok token => some token
    | .error _ => none

end Lexer

/-- A source has the tokens that are found in it, if no error is. -/
theorem tokenize_eq_ok_iff {source : String} {tokens : List Token} :
    tokenize source = .ok tokens ↔ Lexer.run {} source.toList = tokens.map .ok := by
  have filtered : ∀ found : List Finding, Lexer.errorsOf found = [] →
      found = (Lexer.tokensOf found).map .ok := by
    intro found noErrors
    induction found with
    | nil => rfl
    | cons one rest ih =>
      cases one with
      | error error => cases noErrors
      | ok token => exact congrArg (Except.ok token :: ·) (ih noErrors)
  have apart : Function.Injective (List.map (Except.ok : Token → Finding)) :=
    List.map_injective_iff.mpr fun _ _ => Except.ok.inj
  have noErrors : ∀ tokens : List Token, Lexer.errorsOf (tokens.map .ok) = [] := by
    intro tokens
    induction tokens with
    | nil => rfl
    | cons token rest ih => exact ih
  show (if (Lexer.errorsOf (Lexer.run {} source.toList)).isEmpty then _ else _) = _ ↔ _
  split
  next isClean =>
    have isFound := filtered _ (List.isEmpty_iff.mp isClean)
    rw [Except.ok.injEq]
    refine ⟨fun same => same ▸ isFound, fun same => apart ?_⟩
    exact isFound.symm.trans same
  next isError =>
    refine iff_of_false (fun same => ?_) fun same => isError ?_
    · cases same
    · rw [same, noErrors]
      rfl

/-- The tokens of two sources are those of the first one and, further on, those of the second. -/
theorem tokenize_append {first second : String} {tokens others : List Token}
    (ofFirst : tokenize first = .ok tokens) (ofSecond : tokenize second = .ok others) :
    tokenize (first ++ "\n" ++ second) =
      .ok (tokens ++ others.map (Token.moved (textBytes first.toList + 1))) := by
  rw [tokenize_eq_ok_iff] at ofFirst ofSecond ⊢
  let last := Lexer.reach {} first.toList
  have isLast : last.offset = textBytes first.toList :=
    (Lexer.offset_reach {} first.toList).trans (Nat.zero_add _)
  have noError : ∀ error, .error error ∉ last.finish := by
    intro error isError
    have isFound : .error error ∈ Lexer.run {} first.toList := by
      rw [Lexer.run_eq]
      exact List.mem_append_right _ isError
    rw [ofFirst, List.mem_map] at isFound
    obtain ⟨_, _, isToken⟩ := isFound
    cases isToken
  have behind : (last.pastLine .between).run second.toList =
      (others.map (Token.moved (textBytes first.toList + 1))).map .ok := by
    rw [Lexer.pastLine_eq_moved, Lexer.run_moved _ _ (fun isInside => absurd rfl isInside),
      ofSecond, isLast, List.map_map, List.map_map]
    rfl
  calc Lexer.run {} (first ++ "\n" ++ second).toList
      = Lexer.run {} (first.toList ++ '\n' :: second.toList) := by simp
    _ = Lexer.found {} first.toList ++
          (last.finish ++ (last.pastLine .between).run second.toList) := by
        rw [Lexer.run_append, Lexer.run_lineBreak noError]
    _ = Lexer.run {} first.toList ++ (last.pastLine .between).run second.toList := by
        rw [← List.append_assoc, ← Lexer.run_eq]
    _ = (tokens ++ others.map (Token.moved (textBytes first.toList + 1))).map .ok := by
        rw [ofFirst, behind, List.map_append]

/-! ### Tokens -/

/-- A script that is moved has its calls moved. -/
theorem parse_moved {tokens : List Token} {calls : List Call} (isParsed : parse tokens = .ok calls)
    (distance : Nat) :
    parse (tokens.map (Token.moved distance)) = .ok (calls.map (Call.moved distance)) := by
  obtain ⟨next, fed, done, rfl⟩ := Parser.run_eq_ok_iff.mp isParsed
  refine Parser.run_eq_ok_iff.mpr ⟨next.moved distance, ?_, ⟨?_, ?_⟩, ?_⟩
  · exact (Parser.feed_moved distance {} tokens).trans (congrArg _ fed)
  · rw [Parser.moved, done.isStatement]
    rfl
  · rw [Parser.moved, done.noneOpen]
    rfl
  · rw [Parser.moved, List.map_reverse]

theorem ScriptTree.tokens_append (tree other : ScriptTree) :
    ScriptTree.tokens (tree ++ other) = ScriptTree.tokens tree ++ ScriptTree.tokens other := by
  induction tree with
  | nil => rw [List.nil_append, tokens, List.nil_append]
  | cons call tree ih => rw [List.cons_append, tokens, ih, tokens, List.append_assoc]

/-- The calls of two scripts. -/
theorem parse_append {tokens others : List Token} {calls otherCalls : List Call}
    (ofFirst : parse tokens = .ok calls) (ofSecond : parse others = .ok otherCalls) :
    parse (tokens ++ others) = .ok (calls ++ otherCalls) := by
  obtain ⟨tree, rfl, rfl⟩ := ((parse_eq_ok_iff tokens).1 calls).mp ofFirst
  obtain ⟨other, rfl, rfl⟩ := ((parse_eq_ok_iff others).1 otherCalls).mp ofSecond
  refine ((parse_eq_ok_iff _).1 _).mpr ⟨tree ++ other, ScriptTree.tokens_append tree other, ?_⟩
  rw [ScriptTree.calls_eq_map, ScriptTree.calls_eq_map, ScriptTree.calls_eq_map, List.map_append]

/-! ### Whole scripts -/

theorem readCalls_eq_ok_iff {source : String} {calls : List Call} :
    readCalls source = .ok calls ↔ ∃ tokens, tokenize source = .ok tokens ∧
      parse tokens = .ok calls := by
  unfold readCalls
  cases isRead : tokenize source with
  | error errors => exact iff_of_false nofun fun ⟨_, isOk, _⟩ => nomatch isOk
  | ok tokens =>
    show (parse tokens).mapError ScriptError.syntactic = _ ↔ _
    cases isParsed : parse tokens with
    | error error =>
      refine iff_of_false nofun fun ⟨_, isTokens, isOk⟩ => ?_
      rw [← Except.ok.inj isTokens, isParsed] at isOk
      cases isOk
    | ok found =>
      refine ⟨fun same => ⟨tokens, rfl, isParsed.trans ?_⟩, fun ⟨_, isTokens, isOk⟩ => ?_⟩
      · exact congrArg _ (Except.ok.inj same)
      · rw [← Except.ok.inj isTokens, isParsed] at isOk
        exact congrArg _ (Except.ok.inj isOk)

theorem read_eq_ok_iff {source : String} {policy : DuplicatePolicy} {table : Table} :
    read source policy = .ok table ↔ ∃ calls steps, readCalls source = .ok calls ∧
      edits policy calls = .ok steps ∧ Table.empty.applyAll steps = table := by
  unfold read
  cases readCalls source with
  | error error => exact iff_of_false nofun fun ⟨_, _, isOk, _⟩ => nomatch isOk
  | ok calls =>
    show (buildTable policy calls).mapError ScriptError.statement = _ ↔ _
    unfold buildTable
    cases isEdits : edits policy calls with
    | error error =>
      refine iff_of_false nofun fun ⟨_, _, isCalls, isOk, _⟩ => ?_
      rw [← Except.ok.inj isCalls, isEdits] at isOk
      cases isOk
    | ok steps =>
      refine ⟨fun same => ⟨calls, steps, rfl, isEdits, Except.ok.inj same⟩, ?_⟩
      rintro ⟨_, _, isCalls, isOk, isTable⟩
      rw [← Except.ok.inj isCalls, isEdits] at isOk
      obtain rfl := Except.ok.inj isOk
      exact congrArg _ isTable

/-- The calls of two scripts are those of the first one and, further on, those of the second. -/
theorem readCalls_append {first second : String} {calls others : List Call}
    (ofFirst : readCalls first = .ok calls) (ofSecond : readCalls second = .ok others) :
    readCalls (first ++ "\n" ++ second) =
      .ok (calls ++ others.map (Call.moved (textBytes first.toList + 1))) := by
  obtain ⟨tokens, areTokens, isParsed⟩ := readCalls_eq_ok_iff.mp ofFirst
  obtain ⟨otherTokens, areOthers, isOther⟩ := readCalls_eq_ok_iff.mp ofSecond
  exact readCalls_eq_ok_iff.mpr
    ⟨_, tokenize_append areTokens areOthers, parse_append isParsed (parse_moved isOther _)⟩

/-- **Scripts compose.** The script of two scripts with a line break between them is read, and its
table is what the edits of the second one make of the table of the first. That is the overlay of the
two tables; of the switches of a header the last one counts. -/
theorem read_append {first second : String} {policy : DuplicatePolicy} {below above : Table}
    (ofFirst : read first policy = .ok below) (ofSecond : read second policy = .ok above) :
    ∃ calls steps, readCalls second = .ok calls ∧ edits policy calls = .ok steps ∧
      read (first ++ "\n" ++ second) policy = .ok (below.applyAll steps) ∧
      Table.IsOverlay below above (below.applyAll steps) ∧
      ∀ header, (below.applyAll steps).enabled? header =
        ((steps.filterMap (Edit.switch? header)).getLast?).or
          ((below.enabled? header).or (above.enabled? header)) := by
  obtain ⟨firstCalls, firstSteps, areFirst, isFirst, rfl⟩ := read_eq_ok_iff.mp ofFirst
  obtain ⟨calls, steps, areCalls, areSteps, rfl⟩ := read_eq_ok_iff.mp ofSecond
  have allSteps : edits policy
      (firstCalls ++ calls.map (Call.moved (textBytes first.toList + 1))) =
        .ok (firstSteps ++ steps) := by
    have isMoved := edits_moved (textBytes first.toList + 1) policy calls
    rw [areSteps] at isMoved
    unfold edits at isFirst isMoved ⊢
    rw [List.mapM_append, isFirst, isMoved]
    rfl
  refine ⟨calls, steps, areCalls, areSteps, ?_, Table.isOverlay_applyAll _ steps,
    Table.enabled?_applyAll _ steps⟩
  exact read_eq_ok_iff.mpr ⟨_, _, readCalls_append areFirst areCalls, allSteps,
    Table.applyAll_append ..⟩

/-- A script that ends in a comment. -/
def lowerSample : String :=
  "include(\"a.h\", enabled = false);\nconstant(\"a.h\", \"m\", \"LIMIT\", value = \"4\"); // four"

/-- A script that gives the constant another value and switches the header on. -/
def upperSample : String :=
  "constant(\"a.h\", \"m\", \"LIMIT\", value = \"5\"); include(\"a.h\");"

theorem read_append_samples : ∃ below above steps,
    read lowerSample .reject = .ok below ∧ read upperSample .reject = .ok above ∧
      read (lowerSample ++ "\n" ++ upperSample) .reject = .ok (below.applyAll steps) ∧
      Table.IsOverlay below above (below.applyAll steps) := by
  have isOk : (read lowerSample .reject).isOk = true := by decide +kernel
  have isOkOther : (read upperSample .reject).isOk = true := by decide +kernel
  obtain ⟨below, ofFirst⟩ := exists_of_isOk isOk
  obtain ⟨above, ofSecond⟩ := exists_of_isOk isOkOther
  obtain ⟨_, steps, _, _, isRead, overlays, _⟩ := read_append ofFirst ofSecond
  exact ⟨below, above, steps, ofFirst, ofSecond, isRead, overlays⟩

end Bindery.Script
