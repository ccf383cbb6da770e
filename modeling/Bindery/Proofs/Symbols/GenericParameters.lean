/-
**Class names with generic parameters.**

A class name may be followed by its generic parameters, in angle brackets and with commas between
them. A reader cuts them apart with one count for brackets of all kinds, which stops at zero. What
a parameter is needs no reader: how many brackets open and close in front of each character.

* `nesting` — how many more brackets open than close in a text.
* `IsParameter` — a text that stands for one parameter.
* `IsSpelled` — a class name with its parameters, and blanks wherever they may stand.
* `commaPieces_append` — the reader passes over a text that keeps its commas inside brackets.
* `splitGenerics_intercalate`, `splitGenerics_of_isPadded` — parameters between commas are read
  back, whatever blanks are around them.
* `Class.named_splitsSuffix` — a class gets the name and the parameters that are spelled, and its
  name alone declares it without parameters.
-/

import Mathlib.Data.List.Infix
import Bindery.Proofs.Symbols.Names

namespace Bindery

/-! ### Blanks around a text -/

namespace Text

/-- A text with blanks around it. -/
def IsPadded (cs padded : List Char) : Prop :=
  ∃ lead tail, padded = lead ++ (cs ++ tail) ∧
    (∀ c ∈ lead, isBlank c = true) ∧ ∀ c ∈ tail, isBlank c = true

section Blanks

variable {blanks : List Char} (areBlank : ∀ c ∈ blanks, isBlank c = true)

include areBlank

theorem trim_blanks_append (cs : List Char) : trim (blanks ++ cs) = trim cs := by
  show trimEnd ((blanks ++ cs).dropWhile isBlank) = trim cs
  rw [List.dropWhile_append_of_pos areBlank]
  rfl

theorem trim_append_blanks (cs : List Char) : trim (cs ++ blanks) = trim cs := by
  have started : trimStart (cs ++ blanks) =
      if (trimStart cs).isEmpty then trimStart blanks else trimStart cs ++ blanks :=
    List.dropWhile_append
  unfold trim
  rw [started]
  split
  next isEmpty =>
    have noneLeft : trimStart blanks = [] := List.dropWhile_eq_nil_iff.mpr areBlank
    rw [noneLeft, List.isEmpty_iff.mp isEmpty]
  next => exact trimEnd_append_blanks areBlank _

end Blanks

namespace IsPadded

variable {cs padded : List Char} (isPadded : IsPadded cs padded)

include isPadded

theorem trim_eq : trim padded = trim cs := by
  obtain ⟨lead, tail, rfl, areLead, areTail⟩ := isPadded
  rw [trim_blanks_append areLead, trim_append_blanks areTail]

/-- Blanks bring no other character in. -/
theorem notMem {c : Char} (notBlank : isBlank c = false) (notIn : c ∉ cs) : c ∉ padded := by
  obtain ⟨lead, tail, rfl, areLead, areTail⟩ := isPadded
  have apart : ∀ {blanks : List Char}, (∀ d ∈ blanks, isBlank d = true) → c ∉ blanks := by
    intro blanks areBlank isIn
    rw [areBlank c isIn] at notBlank
    cases notBlank
  simp only [List.mem_append, not_or]
  exact ⟨apart areLead, notIn, apart areTail⟩

end IsPadded

/-- In front of a character that is not blank, a text is trimmed at its start for itself. -/
theorem trimStart_append_cons {c : Char} (notBlank : isBlank c = false) (front rest : List Char) :
    trimStart (front ++ c :: rest) = trimStart front ++ c :: rest := by
  have stays : trimStart (c :: rest) = c :: rest := trimStart_of_head (by simpa using notBlank)
  have started : trimStart (front ++ c :: rest) =
      if (trimStart front).isEmpty then trimStart (c :: rest) else trimStart front ++ c :: rest :=
    List.dropWhile_append
  rw [started]
  split
  next isEmpty => rw [stays, List.isEmpty_iff.mp isEmpty, List.nil_append]
  next => rfl

theorem trimEnd_concat {c : Char} (notBlank : isBlank c = false) (cs : List Char) :
    trimEnd (cs ++ [c]) = cs ++ [c] :=
  List.rdropWhile_concat_neg isBlank cs c (by simp [notBlank])

end Text

namespace Symbols

open Text (IsPadded)

/-! ### Parameters -/

/-- The brackets that open. -/
def isOpening (c : Char) : Bool := c == '<' || c == '(' || c == '['

/-- The brackets that close. -/
def isClosing (c : Char) : Bool := c == '>' || c == ')' || c == ']'

/-- How many more brackets open than close in a text, of all kinds together. -/
def nesting (cs : List Char) : Int := cs.countP isOpening - cs.countP isClosing

/-- A generic parameter: its brackets are closed again, none is closed before it is open, and there
is no comma outside brackets. -/
structure IsParameter (cs : List Char) : Prop where
  notEmpty : cs ≠ []
  trimmed : Text.trim cs = cs
  neverBelow : ∀ front, front <+: cs → 0 ≤ nesting front
  closed : nesting cs = 0
  commasInside : ∀ front, front ++ [','] <+: cs → nesting front ≠ 0

instance (cs : List Char) : Decidable (IsParameter cs) :=
  decidable_of_iff (cs ≠ [] ∧ Text.trim cs = cs ∧ (∀ front ∈ cs.inits, 0 ≤ nesting front) ∧
    nesting cs = 0 ∧ ∀ front ∈ cs.inits, front ++ [','] <+: cs → nesting front ≠ 0) <| by
  simp only [List.mem_inits]
  constructor
  · rintro ⟨notEmpty, trimmed, neverBelow, closed, commasInside⟩
    exact ⟨notEmpty, trimmed, neverBelow, closed, fun front isComma =>
      commasInside front ((List.prefix_append ..).trans isComma) isComma⟩
  · rintro ⟨notEmpty, trimmed, neverBelow, closed, commasInside⟩
    exact ⟨notEmpty, trimmed, neverBelow, closed, fun front _ => commasInside front⟩

/-- A text spells a class name with generic parameters: the name, and the parameters in angle
brackets with commas between them. Blanks may stand around each of them, around the list and around
the whole. -/
def IsSpelled (name : List Char) (parameters : List (List Char)) (text : List Char) : Prop :=
  ∃ front pieces inner, IsPadded name front ∧ List.Forall₂ IsPadded parameters pieces ∧
    IsPadded ([','].intercalate pieces) inner ∧ IsPadded (front ++ '<' :: (inner ++ ['>'])) text

theorem nesting_cons (c : Char) (cs : List Char) :
    nesting (c :: cs) = nesting [c] + nesting cs := by
  simp only [nesting, List.countP_cons, List.countP_nil]
  omega

/-- Everything but brackets leaves the nesting as it is. -/
theorem nesting_of_plain {c : Char} (notOpening : ¬ (c = '<' ∨ c = '(' ∨ c = '['))
    (notClosing : ¬ (c = '>' ∨ c = ')' ∨ c = ']')) : nesting [c] = 0 := by
  simp only [not_or] at notOpening notClosing
  simp [nesting, isOpening, isClosing, notOpening, notClosing]

theorem nesting_blanks {blanks : List Char} (areBlank : ∀ c ∈ blanks, Text.isBlank c = true) :
    nesting blanks = 0 := by
  induction blanks with
  | nil => rfl
  | cons blank rest ih =>
    rw [List.forall_mem_cons] at areBlank
    have isPlain : nesting [blank] = 0 := by
      apply nesting_of_plain <;> rintro (rfl | rfl | rfl) <;>
        exact absurd areBlank.1 (by decide)
    rw [nesting_cons, isPlain, ih areBlank.2]
    rfl

/-- Where nothing is closed that is not open, the count of the reader is the nesting. -/
theorem bracketDepth_eq {depth : Nat} {c : Char} (neverBelow : 0 ≤ depth + nesting [c]) :
    (bracketDepth depth c : Int) = depth + nesting [c] := by
  by_cases opens : c = '<' ∨ c = '(' ∨ c = '['
  · have one : nesting [c] = 1 := by obtain rfl | rfl | rfl := opens <;> rfl
    rw [bracketDepth, if_pos opens, one]
    rfl
  by_cases closes : c = '>' ∨ c = ')' ∨ c = ']'
  · have one : nesting [c] = -1 := by obtain rfl | rfl | rfl := closes <;> rfl
    rw [bracketDepth, if_neg opens, if_pos closes]
    omega
  · rw [bracketDepth, if_neg opens, if_neg closes, nesting_of_plain opens closes, Int.add_zero]

/-! ### Reading the parameters -/

/-- Behind `depth` open brackets, a text closes none too many and has no comma outside. -/
structure StaysInside (depth : Nat) (cs : List Char) : Prop where
  neverBelow : ∀ front, front <+: cs → 0 ≤ depth + nesting front
  commasInside : ∀ front, front ++ [','] <+: cs → depth + nesting front ≠ 0

/-- Behind one character the reader has counted the brackets that are open, and it has not cut
there. -/
theorem StaysInside.step {depth : Nat} {c : Char} {cs : List Char}
    (inside : StaysInside depth (c :: cs)) :
    (bracketDepth depth c : Int) = depth + nesting [c] ∧ ¬ (c = ',' ∧ depth = 0) ∧
      StaysInside (bracketDepth depth c) cs := by
  have counted : (bracketDepth depth c : Int) = depth + nesting [c] :=
    bracketDepth_eq (inside.neverBelow [c] ⟨cs, rfl⟩)
  refine ⟨counted, ?_, fun front isFront => ?_, fun front isComma => ?_⟩
  · rintro ⟨rfl, rfl⟩
    exact inside.commasInside [] ⟨cs, rfl⟩ rfl
  · have above := inside.neverBelow (c :: front) (List.cons_prefix_cons.mpr ⟨rfl, isFront⟩)
    rwa [nesting_cons, ← Int.add_assoc, ← counted] at above
  · have apart := inside.commasInside (c :: front) (List.cons_prefix_cons.mpr ⟨rfl, isComma⟩)
    rwa [nesting_cons, ← Int.add_assoc, ← counted] at apart

/-- The reader passes over a text that stays inside. -/
theorem commaPieces_append {depth behind : Nat} {cs : List Char} (inside : StaysInside depth cs)
    (isBehind : (behind : Int) = depth + nesting cs) (piece rest : List Char) :
    commaPieces depth piece (cs ++ rest) = commaPieces behind (piece ++ cs) rest := by
  induction cs generalizing depth piece with
  | nil =>
    have same : behind = depth := Int.ofNat.inj (isBehind.trans (Int.add_zero _))
    rw [same, List.nil_append, List.append_nil]
  | cons c cs ih =>
    obtain ⟨counted, notCut, insideRest⟩ := inside.step
    rw [nesting_cons, ← Int.add_assoc, ← counted] at isBehind
    rw [List.cons_append, commaPieces, if_neg notCut, ih insideRest isBehind, List.append_assoc]
    rfl

/-- Blanks stay wherever they are. -/
theorem staysInside_blanks {blanks : List Char} (areBlank : ∀ c ∈ blanks, Text.isBlank c = true)
    (depth : Nat) : StaysInside depth blanks where
  neverBelow front isFront := by
    rw [nesting_blanks fun c isIn => areBlank c (isFront.subset isIn)]
    omega
  commasInside front isComma := by
    have isIn : ',' ∈ blanks := isComma.subset (by simp)
    exact absurd (areBlank _ isIn) (by decide)

theorem commaPieces_blanks {blanks : List Char} (areBlank : ∀ c ∈ blanks, Text.isBlank c = true)
    (depth : Nat) (piece rest : List Char) :
    commaPieces depth piece (blanks ++ rest) = commaPieces depth (piece ++ blanks) rest :=
  commaPieces_append (staysInside_blanks areBlank depth)
    (by rw [nesting_blanks areBlank, Int.add_zero]) piece rest

/-- A text of which the reader makes one piece, together with what it has in front. -/
def IsOnePiece (cs : List Char) : Prop :=
  ∀ piece rest, commaPieces 0 piece (cs ++ rest) = commaPieces 0 (piece ++ cs) rest

theorem IsParameter.isOnePiece {cs : List Char} (isParameter : IsParameter cs) : IsOnePiece cs := by
  have inside : StaysInside 0 cs := by
    refine ⟨fun front isFront => ?_, fun front isComma => ?_⟩
    · simpa using isParameter.neverBelow front isFront
    · simpa using isParameter.commasInside front isComma
  exact commaPieces_append inside (by simp [isParameter.closed])

theorem IsOnePiece.of_isPadded {cs padded : List Char} (isOnePiece : IsOnePiece cs)
    (isPadded : IsPadded cs padded) : IsOnePiece padded := by
  obtain ⟨lead, tail, rfl, areLead, areTail⟩ := isPadded
  intro piece rest
  rw [List.append_assoc, List.append_assoc, commaPieces_blanks areLead, isOnePiece,
    commaPieces_blanks areTail]
  simp only [List.append_assoc]

/-- The reader keeps pieces apart that have commas between them. -/
theorem commaPieces_intercalate {pieces : List (List Char)} (isList : pieces ≠ [])
    (each : ∀ piece ∈ pieces, IsOnePiece piece) :
    commaPieces 0 [] ([','].intercalate pieces) = pieces := by
  induction pieces with
  | nil => exact absurd rfl isList
  | cons piece others ih =>
    have isOnePiece : IsOnePiece piece := each piece List.mem_cons_self
    cases others with
    | nil =>
      have whole := isOnePiece [] []
      rw [List.append_nil] at whole
      rw [List.intercalate_singleton, whole]
      rfl
    | cons next others =>
      have ofOthers := ih (List.cons_ne_nil _ _) fun other isOther =>
        each other (List.mem_cons_of_mem _ isOther)
      rw [List.intercalate_cons_cons, List.append_assoc, isOnePiece, List.singleton_append,
        commaPieces, if_pos ⟨rfl, rfl⟩, ofOthers, List.nil_append]

/-- Padded parameters are pieces of the reader, and trimmed they are themselves. -/
theorem pieces_of_arePadded {parameters pieces : List (List Char)}
    (areParameters : ∀ parameter ∈ parameters, IsParameter parameter)
    (arePadded : List.Forall₂ IsPadded parameters pieces) :
    (∀ piece ∈ pieces, IsOnePiece piece) ∧ pieces.map Text.trim = parameters := by
  induction arePadded with
  | nil => exact ⟨nofun, rfl⟩
  | cons isPadded _ ih =>
    rw [List.forall_mem_cons] at areParameters
    obtain ⟨isParameter, areOthers⟩ := areParameters
    obtain ⟨ofOthers, trimmedOthers⟩ := ih areOthers
    refine ⟨List.forall_mem_cons.mpr ⟨isParameter.isOnePiece.of_isPadded isPadded, ofOthers⟩, ?_⟩
    rw [List.map_cons, isPadded.trim_eq, isParameter.trimmed, trimmedOthers]

/-- Parameters are read back from what stands between the commas. -/
theorem splitGenerics_intercalate {parameters pieces : List (List Char)}
    (areParameters : ∀ parameter ∈ parameters, IsParameter parameter)
    (arePadded : List.Forall₂ IsPadded parameters pieces) :
    splitGenerics ([','].intercalate pieces) = parameters.map String.ofList := by
  by_cases isList : pieces = []
  · -- between `<` and `>` alone the reader has one piece, and it is empty
    subst isList
    cases arePadded
    rfl
  obtain ⟨arePieces, trimmed⟩ := pieces_of_arePadded areParameters arePadded
  have kept : ∀ parameter ∈ parameters,
      (if parameter.isEmpty then none else some (String.ofList parameter)) =
        some (String.ofList parameter) := fun parameter isIn =>
    if_neg (by simpa using (areParameters parameter isIn).notEmpty)
  rw [splitGenerics, commaPieces_intercalate isList arePieces, trimmed, List.filterMap_congr kept]
  exact congrFun List.filterMap_eq_map parameters

section Blanks

variable {blanks : List Char} (areBlank : ∀ c ∈ blanks, Text.isBlank c = true)

include areBlank

/-- Blanks in front of the first piece are trimmed away. -/
theorem map_trim_commaPieces_lead (depth : Nat) (piece cs : List Char) :
    (commaPieces depth (blanks ++ piece) cs).map Text.trim =
      (commaPieces depth piece cs).map Text.trim := by
  induction cs generalizing depth piece with
  | nil =>
    show [Text.trim (blanks ++ piece)] = [Text.trim piece]
    rw [Text.trim_blanks_append areBlank]
  | cons c cs ih =>
    rw [commaPieces, commaPieces]
    split
    · -- behind a comma the two runs are one
      rw [List.map_cons, List.map_cons, Text.trim_blanks_append areBlank]
    · rw [List.append_assoc, ih]

/-- Blanks behind the last piece are trimmed away. -/
theorem map_trim_commaPieces_tail (depth : Nat) (piece cs : List Char) :
    (commaPieces depth piece (cs ++ blanks)).map Text.trim =
      (commaPieces depth piece cs).map Text.trim := by
  induction cs generalizing depth piece with
  | nil =>
    have passed := commaPieces_blanks areBlank depth piece []
    rw [List.append_nil] at passed
    rw [List.nil_append, passed]
    show [Text.trim (piece ++ blanks)] = [Text.trim piece]
    rw [Text.trim_append_blanks areBlank]
  | cons c cs ih =>
    rw [List.cons_append, commaPieces, commaPieces]
    split
    · rw [List.map_cons, List.map_cons, ih]
    · rw [ih]

end Blanks

/-- Blanks around a list of parameters do not change it. -/
theorem splitGenerics_of_isPadded {cs padded : List Char} (isPadded : IsPadded cs padded) :
    splitGenerics padded = splitGenerics cs := by
  obtain ⟨lead, tail, rfl, areLead, areTail⟩ := isPadded
  have ofLead := map_trim_commaPieces_lead areLead 0 [] (cs ++ tail)
  rw [List.append_nil] at ofLead
  rw [splitGenerics, commaPieces_blanks areLead, List.nil_append, ofLead,
    map_trim_commaPieces_tail areTail]
  rfl

/-! ### Reading the name -/

namespace Class

/-- What stands in front of the first `<` is the name, and the parameters reach to the `>` at the
end. -/
theorem named_of_suffix {text : String} {front inner : List Char} (notOpened : '<' ∉ front)
    (isPadded : IsPadded (front ++ '<' :: (inner ++ ['>'])) text.toList) :
    named text =
      { name := String.ofList (Text.trim front), generics := splitGenerics inner } := by
  have whole : Text.trim text.toList = Text.trimStart front ++ '<' :: (inner ++ ['>']) := by
    have started := Text.trimStart_append_cons (c := '<') rfl front (inner ++ ['>'])
    rw [isPadded.trim_eq, Text.trim, started]
    have ended := Text.trimEnd_concat (c := '>') rfl (Text.trimStart front ++ '<' :: inner)
    simpa using ended
  have plain : (Text.trimStart front ++ '<' :: (inner ++ ['>'])).takeWhile (· ≠ '<') =
      Text.trimStart front := by
    rw [List.takeWhile_append_of_pos, List.takeWhile_cons_of_neg (by simp), List.append_nil]
    intro c isIn
    have isOther : c ≠ '<' := fun isOpening =>
      notOpened (isOpening ▸ (List.dropWhile_suffix _).subset isIn)
    simpa using isOther
  have closing : dropClosing (Text.trimEnd (inner ++ ['>'])) = inner := by
    rw [Text.trimEnd_concat rfl, dropClosing, if_pos List.getLast?_concat, List.dropLast_concat]
  have isTrimmed : Text.trim (Text.trimStart front) = Text.trim front :=
    congrArg Text.trimEnd (List.dropWhile_idempotent ..)
  simp only [named, whole, plain, List.drop_left, closing, isTrimmed]

/-- **Generic suffixes are split exactly.** A text declares a class with the name and just the
parameters that it spells, and the name of any class declares the class without parameters. -/
theorem named_splitsSuffix :
    (∀ {name text : String} {parameters : List String},
      Text.trim name.toList = name.toList → '<' ∉ name.toList →
      (∀ parameter ∈ parameters, IsParameter parameter.toList) →
      IsSpelled name.toList (parameters.map String.toList) text.toList →
        named text = { name := name, generics := parameters }) ∧
    ∀ text : String, named (named text).name = { name := (named text).name } := by
  refine ⟨?_, named_name⟩
  rintro name text parameters trimmed plain areParameters
    ⟨front, pieces, inner, ofName, ofPieces, ofInner, ofText⟩
  have areEach : ∀ parameter ∈ parameters.map String.toList, IsParameter parameter :=
    List.forall_mem_map.mpr areParameters
  have isName : String.ofList (Text.trim front) = name := by
    rw [ofName.trim_eq, trimmed, String.ofList_toList]
  have areGenerics : splitGenerics inner = parameters := by
    rw [splitGenerics_of_isPadded ofInner, splitGenerics_intercalate areEach ofPieces,
      List.map_map]
    simp
  rw [named_of_suffix (ofName.notMem rfl plain) ofText, isName, areGenerics]

/-- Commas inside brackets of any kind separate no parameters. -/
theorem named_map_of_pair :
    Text.trim "Map".toList = "Map".toList ∧ '<' ∉ "Map".toList ∧
      (∀ parameter ∈ ["K", "pair<A, f(x[1, 2])>"], IsParameter parameter.toList) ∧
      IsSpelled "Map".toList (["K", "pair<A, f(x[1, 2])>"].map String.toList)
        "\tMap < K ,pair<A, f(x[1, 2])>\n> ".toList ∧
      named "\tMap < K ,pair<A, f(x[1, 2])>\n> " =
        { name := "Map", generics := ["K", "pair<A, f(x[1, 2])>"] } := by
  have trimmed : Text.trim "Map".toList = "Map".toList := by decide
  have plain : '<' ∉ "Map".toList := by decide
  have areParameters : ∀ parameter ∈ ["K", "pair<A, f(x[1, 2])>"],
      IsParameter parameter.toList := by decide
  have isSpelled : IsSpelled "Map".toList (["K", "pair<A, f(x[1, 2])>"].map String.toList)
      "\tMap < K ,pair<A, f(x[1, 2])>\n> ".toList := by
    have noBlanks : ∀ c ∈ ([] : List Char), Text.isBlank c = true := nofun
    have oneSpace : ∀ c ∈ [' '], Text.isBlank c = true := List.forall_mem_singleton.mpr rfl
    refine ⟨"Map ".toList, [" K ".toList, "pair<A, f(x[1, 2])>".toList],
      " K ,pair<A, f(x[1, 2])>\n".toList, ?name, ?parameters, ?list, ?whole⟩
    case name => exact ⟨[], [' '], by decide, noBlanks, oneSpace⟩
    case parameters =>
      exact .cons ⟨[' '], [' '], by decide, oneSpace, oneSpace⟩
        (.cons ⟨[], [], by decide, noBlanks, noBlanks⟩ .nil)
    case list => exact ⟨[], ['\n'], by decide, noBlanks, List.forall_mem_singleton.mpr rfl⟩
    case whole => exact ⟨['\t'], [' '], by decide, List.forall_mem_singleton.mpr rfl, oneSpace⟩
  exact ⟨trimmed, plain, areParameters, isSpelled,
    named_splitsSuffix.1 trimmed plain areParameters isSpelled⟩

end Class

end Symbols

end Bindery
