/-
**Trimmed texts and the names of classes.**

* `Text.trim_trim` — a trimmed text stays as it is.
* `Class.named_name` — the name of a class declares a class without generic parameters, so that the
  name alone gives the class back.
-/

import Mathlib.Data.List.DropRight
import Mathlib.Data.List.TakeWhile
import Bindery.Symbols.Class

namespace Bindery

/-! ### Trimming -/

namespace Text

/-- What is left at the end of a text starts as the text does. -/
theorem isPrefix_trimEnd (cs : List Char) : trimEnd cs <+: cs := by
  have isSuffix := (List.dropWhile_suffix (l := cs.reverse) isBlank)
  simpa [trimEnd] using List.reverse_prefix.mpr isSuffix

theorem trimEnd_trimEnd (cs : List Char) : trimEnd (trimEnd cs) = trimEnd cs := by
  rw [trimEnd, trimEnd, List.reverse_reverse, List.dropWhile_idempotent]

theorem trimEnd_append_blanks {blanks : List Char} (areBlank : ∀ c ∈ blanks, isBlank c = true)
    (cs : List Char) : trimEnd (cs ++ blanks) = trimEnd cs := by
  have allBlank : ∀ c ∈ blanks.reverse, isBlank c = true := fun c isIn =>
    areBlank c (List.mem_reverse.mp isIn)
  rw [trimEnd, List.reverse_append, List.dropWhile_append_of_pos allBlank]
  rfl

/-- A text that does not start with a blank loses nothing at its start. -/
theorem trimStart_of_head {cs : List Char} (head : ∀ c ∈ cs.head?, isBlank c = false) :
    trimStart cs = cs := by
  cases cs with
  | nil => rfl
  | cons c rest => exact List.dropWhile_cons_of_neg (by simp [head c rfl])

theorem head_trimStart (cs : List Char) : ∀ c ∈ (trimStart cs).head?, isBlank c = false := by
  intro c isHead
  have := List.head?_dropWhile_not isBlank cs
  rw [show cs.dropWhile isBlank = trimStart cs from rfl, isHead] at this
  simpa using this

theorem trimStart_trim (cs : List Char) : trimStart (trim cs) = trim cs := by
  apply trimStart_of_head
  intro c isHead
  have isPrefix : trim cs <+: trimStart cs := isPrefix_trimEnd _
  obtain ⟨rest, whole⟩ := isPrefix
  apply head_trimStart cs c
  cases found : trim cs with
  | nil => simp [found] at isHead
  | cons first others => simp_all [← whole]

theorem trim_trim (cs : List Char) : trim (trim cs) = trim cs := by
  rw [trim, trimStart_trim, trim, trimEnd_trimEnd]

/-- Trimming only takes characters away. -/
theorem mem_of_mem_trim {c : Char} {cs : List Char} (isIn : c ∈ trim cs) : c ∈ cs :=
  (List.dropWhile_suffix _).subset ((isPrefix_trimEnd _).subset isIn)

theorem length_trim_le (cs : List Char) : (trim cs).length ≤ cs.length :=
  (isPrefix_trimEnd _).length_le.trans (List.dropWhile_suffix _).length_le

end Text

/-! ### Names of classes -/

namespace Symbols.Class

/-- A trimmed name without an opening bracket declares a class of just that name. -/
theorem named_of_plain {cs : List Char} (trimmed : Text.trim cs = cs) (plain : '<' ∉ cs) :
    named (String.ofList cs) = { name := String.ofList cs } := by
  have all : cs.takeWhile (· ≠ '<') = cs := by
    rw [List.takeWhile_eq_self_iff]
    intro c isIn
    have isOther : c ≠ '<' := fun isOpening => plain (isOpening ▸ isIn)
    simpa using isOther
  simp only [named, String.toList_ofList, trimmed, all, List.drop_length]

/-- A name that declares a class of just that name is trimmed and has no opening bracket. -/
theorem plain_of_named {name : String} (own : (named name).name = name) :
    Text.trim name.toList = name.toList ∧ '<' ∉ name.toList := by
  unfold named at own
  extract_lets raw plain at own
  have isPrefix : plain <+: raw := List.takeWhile_prefix _
  split at own
  next noSuffix =>
    have isName : raw = name.toList := by rw [← own, String.toList_ofList]
    have whole : plain = raw := isPrefix.eq_of_length_le (List.drop_eq_nil_iff.mp noSuffix)
    refine ⟨isName, fun isIn => ?_⟩
    rw [← isName, ← whole] at isIn
    simpa using List.mem_takeWhile_imp isIn
  next opening rest isSuffix =>
    -- A suffix makes the name shorter than itself.
    have isName : Text.trim plain = name.toList := by rw [← own, String.toList_ofList]
    have shorter : plain.length < raw.length := by
      have notEmpty : raw.drop plain.length ≠ [] := by simp [isSuffix]
      exact Nat.lt_of_not_le fun isLong => notEmpty (List.drop_eq_nil_iff.mpr isLong)
    have ofName := Text.length_trim_le name.toList
    have ofPlain := Text.length_trim_le plain
    rw [isName] at ofPlain
    exact absurd (ofPlain.trans_lt shorter) (Nat.not_lt.mpr ofName)

/-- The name of a class declares a class without generic parameters. -/
theorem named_name (name : String) : named (named name).name = { name := (named name).name } := by
  have plainPart : '<' ∉ (Text.trim name.toList).takeWhile (· ≠ '<') := by
    intro isIn
    have := List.mem_takeWhile_imp isIn
    simp at this
  cases suffix : (Text.trim name.toList).drop
      ((Text.trim name.toList).takeWhile (· ≠ '<')).length with
  | nil =>
    have whole : (Text.trim name.toList).takeWhile (· ≠ '<') = Text.trim name.toList := by
      exact (List.takeWhile_prefix _).eq_of_length_le (List.drop_eq_nil_iff.mp suffix)
    have isName : (named name).name = String.ofList (Text.trim name.toList) := by
      simp only [named, suffix]
    rw [isName]
    exact named_of_plain (Text.trim_trim _) (whole ▸ plainPart)
  | cons opening rest =>
    have isName : (named name).name =
        String.ofList (Text.trim ((Text.trim name.toList).takeWhile (· ≠ '<'))) := by
      simp only [named, suffix]
    rw [isName]
    exact named_of_plain (Text.trim_trim _) fun isIn => plainPart (Text.mem_of_mem_trim isIn)

end Symbols.Class

end Bindery
