/-
**A sign twice in a row.**

Texts are cut at such pairs: at the first one, or at the last one. In front of the first pair the
text with one more sign has no pair, and behind the last one the text with one more sign has none.

* `HasPair` — a sign stands twice in a row in a text.
* `getLast?_of_hasPair_concat` — one more sign makes a pair behind itself only.
-/

import Mathlib.Data.List.Infix

namespace Bindery.Text

/-- Whether a sign stands twice in a row in a text. -/
def HasPair (sign : Char) (text : List Char) : Prop := [sign, sign] <:+: text

instance (sign : Char) (text : List Char) : Decidable (HasPair sign text) :=
  inferInstanceAs (Decidable (_ <:+: _))

theorem hasPair_cons_cons_iff {sign c d : Char} {rest : List Char} :
    HasPair sign (c :: d :: rest) ↔ c = sign ∧ d = sign ∨ HasPair sign (d :: rest) := by
  rw [HasPair, List.infix_cons_iff, List.cons_prefix_cons, List.cons_prefix_cons, eq_comm,
    @eq_comm _ sign d]
  simp [HasPair]

theorem not_hasPair_singleton (sign c : Char) : ¬ HasPair sign [c] := by
  simp [HasPair, List.infix_cons_iff, List.cons_prefix_cons]

/-- One more sign makes a pair where the last character is one. -/
theorem getLast?_of_hasPair_concat {sign : Char} {text : List Char} (noPair : ¬ HasPair sign text)
    (pair : HasPair sign (text ++ [sign])) : text.getLast? = some sign := by
  rcases List.infix_concat_iff.mp pair with isEnd | isInside
  · exact List.singleton_suffix_iff_getLast?_eq_some.mp
      ((@List.suffix_append_inj_of_length_eq _ [sign] text [sign] [sign] rfl).mp isEnd).1
  · exact absurd isInside noPair

/-- A sign that does not stand in a text makes no pair with one more sign. -/
theorem not_hasPair_concat_of_notMem {sign : Char} {text : List Char} (notThere : sign ∉ text) :
    ¬ HasPair sign (text ++ [sign]) := by
  intro pair
  have noPair : ¬ HasPair sign text := fun inside => notThere (inside.subset (by simp))
  exact notThere (List.mem_of_getLast? (getLast?_of_hasPair_concat noPair pair))

end Bindery.Text
