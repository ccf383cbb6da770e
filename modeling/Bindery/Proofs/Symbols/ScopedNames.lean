/-
**Names with scopes and template arguments.**

A name is parted where its first template argument list starts, and what is in front of that is cut
at its last `::`. The own name of a type is what stands behind the cut, arguments included.

* `afterLastScope?_eq_none_iff`, `afterLastScope?_of_last` — where a text is cut.
* `unqualifiedName_suffix` — the own name is what stands at the end.
* `IsParted` — a name is parted in front of its template arguments.
* `IsParted.unqualifiedName_append` — template arguments are a part of the own name.
-/

import Mathlib.Data.List.TakeWhile
import Bindery.Proofs.Symbols.TypeWords
import Bindery.Proofs.Text.Pairs

namespace Bindery.Symbols

/-! ### The last separator of a text -/

theorem afterLastScope?_eq_none_iff {cs : List Char} :
    afterLastScope? cs = none ↔ ¬ Text.HasPair ':' cs := by
  induction cs with
  | nil => simp [afterLastScope?, Text.HasPair]
  | cons c cs ih =>
    cases cs with
    | nil =>
      have noPair := Text.not_hasPair_singleton ':' c
      simp [afterLastScope?, noPair, Text.dropStart?]
    | cons d rest =>
      rw [Text.hasPair_cons_cons_iff, not_or, ← ih, afterLastScope?]
      cases afterLastScope? (d :: rest) with
      | some behind => simp
      | none => by_cases isColon : d = ':' <;> simp [Text.dropStart?, isColon, Ne.symm]

/-- A text is cut at a `::` behind which no other one starts. -/
theorem afterLastScope?_of_last {behind : List Char} (last : ¬ Text.HasPair ':' (':' :: behind))
    (before : List Char) : afterLastScope? (before ++ ':' :: ':' :: behind) = some behind := by
  induction before with
  | nil =>
    have noLater := afterLastScope?_eq_none_iff.mpr last
    rw [List.nil_append, afterLastScope?, noLater]
    simp [Text.dropStart?]
  | cons c before ih => rw [List.cons_append, afterLastScope?, ih]

theorem afterLastScope?_suffix {cs behind : List Char} (cut : afterLastScope? cs = some behind) :
    behind <:+ cs := by
  induction cs with
  | nil => cases cut
  | cons c cs ih =>
    rw [afterLastScope?] at cut
    split at cut
    · next rest isLater =>
      obtain rfl := Option.some.inj cut
      exact (ih isLater).trans (List.suffix_cons ..)
    · split at cut
      · unfold Text.dropStart? at cut
        split at cut
        · obtain rfl := Option.some.inj cut
          exact (List.drop_suffix ..).trans (List.suffix_cons ..)
        · cases cut
      · cases cut

/-- The own name is the end of a name. -/
theorem unqualifiedName_suffix (name : List Char) : unqualifiedName name <:+ name := by
  unfold unqualifiedName
  dsimp only
  cases cut : afterLastScope? (name.takeWhile (· ≠ '<')) with
  | none => exact List.suffix_refl name
  | some behind =>
    obtain ⟨before, isPlain⟩ := afterLastScope?_suffix cut
    have whole := List.prefix_append_drop (List.takeWhile_prefix (l := name) (· ≠ '<'))
    refine ⟨before, ?_⟩
    rw [← List.append_assoc, isPlain]
    exact whole.symm

/-! ### The part in front of template arguments -/

theorem templateDepth_of_notOpen {c : Char} (notOpen : c ≠ '<') : templateDepth 0 c = 0 := by
  rw [templateDepth, if_neg notOpen]
  split <;> rfl

/-- No list of template arguments is open in front of the first one. -/
theorem depthBehind_of_notOpened {cs : List Char} (notOpened : '<' ∉ cs) :
    depthBehind 0 cs = 0 := by
  induction cs with
  | nil => rfl
  | cons c cs ih =>
    rw [List.mem_cons, not_or] at notOpened
    rw [depthBehind_cons, templateDepth_of_notOpen (Ne.symm notOpened.1)]
    exact ih notOpened.2

/-- In front of template arguments every character stands outside. -/
theorem outside_of_notOpened {cs : List Char} (notOpened : '<' ∉ cs) : outside 0 cs = cs := by
  induction cs with
  | nil => rfl
  | cons c cs ih =>
    rw [List.mem_cons, not_or] at notOpened
    rw [outside, if_pos rfl, templateDepth_of_notOpen (Ne.symm notOpened.1), ih notOpened.2]

/-- A name is parted in front of its first template argument list, if it has one. -/
structure IsParted (plain arguments : List Char) : Prop where
  notOpened : '<' ∉ plain
  opens : ∀ c ∈ arguments.head?, c = '<'

theorem exists_isParted (name : List Char) :
    ∃ plain arguments, name = plain ++ arguments ∧ IsParted plain arguments := by
  refine ⟨name.takeWhile (· ≠ '<'), name.dropWhile (· ≠ '<'),
    (List.takeWhile_append_dropWhile ..).symm, fun isIn => ?_, fun c isHead => ?_⟩
  · simpa using List.mem_takeWhile_imp isIn
  · have stopped := List.head?_dropWhile_not (· ≠ '<') name
    rw [isHead] at stopped
    simpa using stopped

namespace IsParted

variable {plain arguments : List Char} (isParted : IsParted plain arguments)

include isParted

theorem takeWhile_eq : (plain ++ arguments).takeWhile (· ≠ '<') = plain := by
  have allPlain : ∀ c ∈ plain, decide (c ≠ '<') = true := fun c isIn =>
    decide_eq_true fun isOpening => isParted.notOpened (isOpening ▸ isIn)
  have noMore : arguments.takeWhile (· ≠ '<') = [] := by
    cases arguments with
    | nil => rfl
    | cons c rest => simp [isParted.opens c rfl]
  rw [List.takeWhile_append_of_pos allPlain, noMore, List.append_nil]

omit isParted in
theorem of_notOpened (notOpened : '<' ∉ plain) : IsParted plain [] where
  notOpened := notOpened
  opens := nofun

/-- Template arguments are a part of the own name. -/
theorem unqualifiedName_append :
    unqualifiedName (plain ++ arguments) = unqualifiedName plain ++ arguments := by
  have ofPlain := (of_notOpened isParted.notOpened).takeWhile_eq
  rw [List.append_nil] at ofPlain
  simp only [unqualifiedName, isParted.takeWhile_eq, ofPlain, List.drop_left, List.drop_length]
  cases afterLastScope? plain with
  | none => rfl
  | some behind => simp

/-- The own name is parted where the whole name is. -/
theorem ofUnqualified : IsParted (unqualifiedName plain) arguments where
  notOpened isIn := isParted.notOpened ((unqualifiedName_suffix plain).subset isIn)
  opens := isParted.opens

end IsParted

end Bindery.Symbols
