/-
**Placeholders between plain texts.**

A template is a row of plain texts and placeholders. A placeholder gives way to the text of its key
and nothing else, whatever braces that text has. Only a brace right in front of a placeholder
changes its meaning: the first two of three braces are the pair that opens it, and the third one is
read as a part of the key.

* `exists_parts` — a template is filled part by part.
* `substitute_append`, `substitute_append_brace` — a placeholder behind a text.
* `substitute_placeholder_iff` — when the text in front of a placeholder is kept.
-/

import Bindery.Proofs.Wrapper.Template

namespace Bindery.Wrapper

/-! ### Parts of templates -/

/-- The characters of a placeholder. -/
def placeholder (key : List Char) : List Char :=
  '\x7b' :: '\x7b' :: (key ++ ['\x7d', '\x7d'])

/-- The text that is filled in for a key; blanks around the key do not count. -/
def Values.filling (values : Values) (key : List Char) : List Char :=
  (values.textOf (String.ofList (Text.trim key))).toList

/-- A part of a template. -/
inductive TemplatePart where
  | plain (text : List Char)
  | placeholder (key : List Char)

namespace TemplatePart

/-- The characters of a part. -/
def text : TemplatePart → List Char
  | plain text => text
  | placeholder key => Wrapper.placeholder key

/-- What a part is filled with. -/
def filled (values : Values) : TemplatePart → List Char
  | plain text => text
  | placeholder key => values.filling key

end TemplatePart

/-- Some parts make a template, and are filled one by one whatever the values are. -/
structure ArePartsOf (parts : List TemplatePart) (text : List Char) : Prop where
  spell : parts.flatMap TemplatePart.text = text
  fill : ∀ values, substitute values text = parts.flatMap (TemplatePart.filled values)

theorem ArePartsOf.plain {text : List Char} (unchanged : ∀ values, substitute values text = text) :
    ArePartsOf [.plain text] text where
  spell := List.flatMap_singleton ..
  fill values := by rw [unchanged values, List.flatMap_singleton]; rfl

/-- Every template is filled part by part: what is filled in is not read again. -/
theorem exists_parts (text : List Char) : ∃ parts, ArePartsOf parts text := by
  induction text using substitute.induct with
  | case1 text noPair => exact ⟨_, .plain (substitute_of_none noPair)⟩
  | case2 text before behind opens unclosed =>
    exact ⟨_, .plain (substitute_of_unclosed opens unclosed)⟩
  | case3 text before behind opens key rest closes ih =>
    obtain ⟨parts, spell, fill⟩ := ih
    refine ⟨.plain before :: .placeholder key :: parts, ?_, fun values => ?_⟩
    · rw [eq_of_cutAtPair? opens, eq_of_cutAtPair? closes]
      simp [TemplatePart.text, placeholder, spell]
    · rw [substitute_of_placeholder opens closes, fill values]
      simp [TemplatePart.filled, Values.filling]

/-! ### A placeholder behind a text -/

/-- A placeholder is filled behind a text that makes no pair with its first brace. -/
theorem substitute_append {before key : List Char}
    (first : ¬ Text.HasPair '\x7b' (before ++ ['\x7b'])) (noClose : '\x7d' ∉ key)
    (values : Values) (rest : List Char) :
    substitute values (before ++ placeholder key ++ rest) =
      before ++ values.filling key ++ substitute values rest := by
  have opens : cutAtPair? '\x7b' (before ++ placeholder key ++ rest) =
      some (before, key ++ '\x7d' :: '\x7d' :: rest) := by
    have cut := cutAtPair?_of_first first (key ++ '\x7d' :: '\x7d' :: rest)
    simpa [placeholder] using cut
  exact substitute_of_placeholder opens (cutAtPair?_append noClose rest) values

/-- A brace in front of a placeholder opens it one character earlier, and is read as a part of the
key. -/
theorem substitute_append_brace {front key : List Char}
    (noPair : ¬ Text.HasPair '\x7b' (front ++ ['\x7b'])) (noClose : '\x7d' ∉ key) (values : Values)
    (rest : List Char) :
    substitute values (front ++ ['\x7b'] ++ placeholder key ++ rest) =
      front ++ values.filling ('\x7b' :: key) ++ substitute values rest := by
  have shifted : ['\x7b'] ++ placeholder key = placeholder ('\x7b' :: key) := rfl
  have noClose : '\x7d' ∉ '\x7b' :: key := by simpa using noClose
  rw [List.append_assoc front, shifted]
  exact substitute_append noPair noClose values rest

/-- **Placeholders behind plain text.** A text without an opening pair is kept in front of a
placeholder exactly if it does not end with a brace, the value of a key that starts with one apart;
such a brace belongs to the key. A text without an opening pair alone is kept as it is, and every
template is filled part by part. -/
theorem substitute_placeholder_iff {before key : List Char} (noPair : ¬ Text.HasPair '\x7b' before)
    (noClose : '\x7d' ∉ key) (values : Values) (rest : List Char) :
    (substitute values (before ++ placeholder key ++ rest) =
        before ++ values.filling key ++ substitute values rest ↔
      (before.getLast? = some '\x7b' →
        values.filling ('\x7b' :: key) = '\x7b' :: values.filling key)) ∧
      (∀ front, before = front ++ ['\x7b'] →
        substitute values (before ++ placeholder key ++ rest) =
          front ++ values.filling ('\x7b' :: key) ++ substitute values rest) ∧
      (∀ text, ¬ Text.HasPair '\x7b' text → substitute values text = text) ∧
      ∀ text, ∃ parts, ArePartsOf parts text := by
  have shifted : ∀ front, before = front ++ ['\x7b'] →
      substitute values (before ++ placeholder key ++ rest) =
        front ++ values.filling ('\x7b' :: key) ++ substitute values rest := by
    rintro front rfl
    exact substitute_append_brace noPair noClose values rest
  refine ⟨?_, shifted, fun text isPlain =>
    substitute_of_none (cutAtPair?_eq_none_iff.mpr isPlain) values, exists_parts⟩
  by_cases ends : before.getLast? = some '\x7b'
  · obtain ⟨front, isFront⟩ := List.getLast?_eq_some_iff.mp ends
    have regrouped : before ++ values.filling key ++ substitute values rest =
        front ++ ('\x7b' :: values.filling key) ++ substitute values rest := by
      rw [isFront, List.append_assoc front, List.singleton_append]
    rw [shifted front isFront, regrouped, List.append_left_inj, List.append_right_inj]
    exact ⟨fun same _ => same, fun law => law ends⟩
  · have first : ¬ Text.HasPair '\x7b' (before ++ ['\x7b']) := fun pair =>
      ends (Text.getLast?_of_hasPair_concat noPair pair)
    exact ⟨fun _ isEnd => absurd isEnd ends, fun _ => substitute_append first noClose values rest⟩

/-- Values of which one is spelled as the placeholder of the other. -/
def nestedValues : Values := Values.set .empty [("name", "Add"), ("total", "\x7b\x7bname\x7d\x7d")]

theorem substitute_total :
    ¬ Text.HasPair '\x7b' "\x7b x".toList ∧ '\x7d' ∉ " total ".toList ∧
      substitute nestedValues ("\x7b x".toList ++ placeholder " total ".toList ++ ['\x7d']) =
        "\x7b x".toList ++ nestedValues.filling " total ".toList ++ ['\x7d'] := by
  have noPair : ¬ Text.HasPair '\x7b' "\x7b x".toList := by decide
  have noClose : '\x7d' ∉ " total ".toList := by decide
  obtain ⟨kept, -, unchanged, -⟩ :=
    substitute_placeholder_iff noPair noClose nestedValues ['\x7d']
  refine ⟨noPair, noClose, (kept.mpr fun isEnd => absurd isEnd (by decide)).trans ?_⟩
  rw [unchanged ['\x7d'] (by decide)]

/-- A brace in front of a placeholder takes the value away. -/
theorem substitute_brace_name :
    ¬ Text.HasPair '\x7b' ['\x7b'] ∧ '\x7b' ∉ "name".toList ∧ '\x7d' ∉ "name".toList ∧
      substitute nestedValues (['\x7b'] ++ placeholder "name".toList ++ ['\x7d']) = ['\x7d'] ∧
      ['\x7b'] ++ nestedValues.filling "name".toList ++ substitute nestedValues ['\x7d'] =
        "\x7bAdd\x7d".toList := by
  have noPair : ¬ Text.HasPair '\x7b' ['\x7b'] := by decide
  have noClose : '\x7d' ∉ "name".toList := by decide
  have isPlain : substitute nestedValues ['\x7d'] = ['\x7d'] :=
    substitute_of_none rfl nestedValues
  have taken : substitute nestedValues (['\x7b'] ++ placeholder "name".toList ++ ['\x7d']) =
      nestedValues.filling ('\x7b' :: "name".toList) ++ substitute nestedValues ['\x7d'] :=
    @substitute_append_brace [] _ noPair noClose nestedValues ['\x7d']
  refine ⟨noPair, by decide, noClose, taken.trans ?_, ?_⟩
  · rw [isPlain]
    decide
  · rw [isPlain]
    decide

end Bindery.Wrapper
