/-
**Laws of templates.**

A text is cut at its first pair of a sign. What stands between an opening and a closing pair is the
key of a placeholder, and the text behind it is filled in the same way.

* `cutAtPair?_eq_none_iff`, `cutAtPair?_of_first` — where a text is cut.
* `substitute_of_placeholder`, `substitute_of_unclosed` — a text with an opening pair.
-/

import Bindery.Proofs.Text.Pairs
import Bindery.Wrapper.Template

namespace Bindery.Wrapper

/-! ### Cuts -/

/-- A text is not cut exactly when it has no pair. -/
theorem cutAtPair?_eq_none_iff {sign : Char} {text : List Char} :
    cutAtPair? sign text = none ↔ ¬ Text.HasPair sign text := by
  fun_induction cutAtPair? sign text with
  | case1 => simp [Text.HasPair]
  | case2 c => simp [Text.not_hasPair_singleton]
  | case3 c d rest isPair => simp [Text.hasPair_cons_cons_iff, isPair]
  | case4 c d rest noPair ih =>
    rw [Option.map_eq_none_iff, ih, Text.hasPair_cons_cons_iff, or_iff_right noPair]

theorem cutAtPair?_of_notMem {sign : Char} {text : List Char} (notThere : sign ∉ text) :
    cutAtPair? sign text = none :=
  cutAtPair?_eq_none_iff.mpr fun pair => notThere (pair.subset (by simp))

/-- What is cut away is the pair. -/
theorem eq_of_cutAtPair? {sign : Char} {text before behind : List Char}
    (cut : cutAtPair? sign text = some (before, behind)) :
    text = before ++ sign :: sign :: behind := by
  fun_induction cutAtPair? sign text generalizing before behind with
  | case1 => cases cut
  | case2 => cases cut
  | case3 c d rest isPair =>
    cases cut
    rw [isPair.1, isPair.2]
    rfl
  | case4 c d rest noPair ih =>
    obtain ⟨⟨inner, outer⟩, found, same⟩ := Option.map_eq_some_iff.mp cut
    cases same
    rw [ih found]
    rfl

/-- A text is cut at the first one of its pairs. -/
theorem cutAtPair?_of_first {sign : Char} {before : List Char}
    (first : ¬ Text.HasPair sign (before ++ [sign])) (behind : List Char) :
    cutAtPair? sign (before ++ sign :: sign :: behind) = some (before, behind) := by
  induction before with
  | nil => simp [cutAtPair?]
  | cons c rest ih =>
    cases rest with
    | nil =>
      rw [List.singleton_append, Text.hasPair_cons_cons_iff, not_or] at first
      have notHere : c ≠ sign := fun same => first.1 ⟨same, rfl⟩
      simp [cutAtPair?, notHere]
    | cons d more =>
      rw [List.cons_append, List.cons_append, Text.hasPair_cons_cons_iff, not_or] at first
      have later := ih first.2
      rw [List.cons_append] at later
      rw [List.cons_append, List.cons_append, cutAtPair?, if_neg first.1, later]
      rfl

theorem cutAtPair?_append {sign : Char} {before : List Char} (notThere : sign ∉ before)
    (behind : List Char) :
    cutAtPair? sign (before ++ sign :: sign :: behind) = some (before, behind) :=
  cutAtPair?_of_first (Text.not_hasPair_concat_of_notMem notThere) behind

/-! ### Placeholders -/

/-- A text without an opening pair stays as it is. -/
theorem substitute_of_none {text : List Char} (noPair : cutAtPair? '\x7b' text = none)
    (values : Values) : substitute values text = text := by
  rw [substitute]
  split
  next => rfl
  next isPair => cases noPair.symm.trans isPair

/-- The value of its key stands for a placeholder. -/
theorem substitute_of_placeholder {text before behind key rest : List Char}
    (opens : cutAtPair? '\x7b' text = some (before, behind))
    (closes : cutAtPair? '\x7d' behind = some (key, rest)) (values : Values) :
    substitute values text =
      before ++ (values.textOf (String.ofList (Text.trim key))).toList ++
        substitute values rest := by
  rw [substitute]
  split
  next isNone => cases opens.symm.trans isNone
  next isPair =>
    cases opens.symm.trans isPair
    split
    next isNone => cases closes.symm.trans isNone
    next isPair =>
      cases closes.symm.trans isPair
      rfl

/-- An opening pair that is never closed is plain text. -/
theorem substitute_of_unclosed {text before behind : List Char}
    (opens : cutAtPair? '\x7b' text = some (before, behind))
    (unclosed : cutAtPair? '\x7d' behind = none) (values : Values) :
    substitute values text = text := by
  rw [substitute]
  split
  next => rfl
  next isPair =>
    cases opens.symm.trans isPair
    split
    next => rfl
    next isPair => cases unclosed.symm.trans isPair

end Bindery.Wrapper
