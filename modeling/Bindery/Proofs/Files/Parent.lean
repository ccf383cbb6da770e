/-
**What stands before the last part of a path.**

A path that ends in a name has the other parts in front of it. They are the parts of the path that
`parent?` gives, which is spelt as the start of the whole one and so is no longer.

* `Path.joinPieces_pieces`, `Path.pieces_joinPieces` — a path and its pieces.
* `Path.parent?_of_name` — the path in front of the last name.
-/

import Mathlib.Data.List.Infix
import Bindery.Files.Tree
import Bindery.Proofs.Files.Path

namespace Bindery.Path

/-! ### Pieces put together again -/

theorem joinPieces_cons (piece : List Char) {rest : List (List Char)} (isAny : rest ≠ []) :
    joinPieces (piece :: rest) = piece ++ '/' :: joinPieces rest := by
  obtain ⟨next, others, rfl⟩ := List.exists_cons_of_ne_nil isAny
  simp [joinPieces, List.intercalate]

theorem joinPieces_piecesFrom (path piece : List Char) :
    joinPieces (piecesFrom piece path) = piece ++ path := by
  induction path generalizing piece with
  | nil => simp [piecesFrom, joinPieces, List.intercalate]
  | cons c rest ih =>
    rw [piecesFrom]
    split
    next isSlash =>
      have isAny : piecesFrom [] rest ≠ [] := pieces_ne_nil rest
      rw [joinPieces_cons _ isAny, ih, isSlash, List.nil_append]
    next => rw [ih, List.append_assoc, List.singleton_append]

/-- The pieces of a path make up the path. -/
theorem joinPieces_pieces (path : List Char) : joinPieces (pieces path) = path :=
  joinPieces_piecesFrom path []

/-- Pieces without slashes are the pieces of the path that they make up. -/
theorem pieces_joinPieces {parts : List (List Char)} (isAny : parts ≠ [])
    (noSlash : ∀ piece ∈ parts, '/' ∉ piece) : pieces (joinPieces parts) = parts := by
  induction parts with
  | nil => exact absurd rfl isAny
  | cons piece rest ih =>
    rw [List.forall_mem_cons] at noSlash
    have isPiece : pieces piece = [piece] := piecesFrom_of_noSlash noSlash.1 []
    cases rest with
    | nil => simpa [joinPieces, List.intercalate] using isPiece
    | cons next others =>
      rw [joinPieces_cons _ (List.cons_ne_nil _ _), pieces_append, isPiece,
        ih (List.cons_ne_nil _ _) noSlash.2]
      rfl

theorem noSlash_of_mem_pieces {path piece : List Char} (isPiece : piece ∈ pieces path) :
    '/' ∉ piece := by
  have ofPiece : ∀ (path first piece : List Char), '/' ∉ first →
      piece ∈ piecesFrom first path → '/' ∉ piece := by
    intro path
    induction path with
    | nil =>
      intro first piece noSlash isPiece
      exact List.mem_singleton.mp isPiece ▸ noSlash
    | cons c rest ih =>
      intro first piece noSlash isPiece
      rw [piecesFrom] at isPiece
      split at isPiece
      next =>
        rcases List.mem_cons.mp isPiece with rfl | isLater
        · exact noSlash
        · exact ih [] piece List.not_mem_nil isLater
      next notSlash => exact ih _ piece (by simp [noSlash, Ne.symm notSlash]) isPiece
  exact ofPiece path [] piece List.not_mem_nil isPiece

theorem joinPieces_append {parts others : List (List Char)} (isAny : parts ≠ [])
    (isMore : others ≠ []) :
    joinPieces (parts ++ others) = joinPieces parts ++ '/' :: joinPieces others := by
  induction parts with
  | nil => exact absurd rfl isAny
  | cons piece rest ih =>
    by_cases isLast : rest = []
    · subst isLast
      rw [List.singleton_append, joinPieces_cons _ isMore]
      simp [joinPieces, List.intercalate]
    · rw [List.cons_append, joinPieces_cons _ (by simp [isLast]), joinPieces_cons _ isLast,
        ih isLast, List.append_assoc, List.cons_append]

/-- Fewer pieces make up the start of a path. -/
theorem joinPieces_isStart {parts others : List (List Char)} (isAny : parts ≠ [])
    (isStart : parts <+: others) : joinPieces parts <+: joinPieces others := by
  obtain ⟨more, rfl⟩ := isStart
  by_cases isAll : more = []
  · rw [isAll, List.append_nil]
  · rw [joinPieces_append isAny isAll]
    exact List.prefix_append ..

/-! ### Pieces that count for nothing -/

theorem dropVoidEnd_isStart (parts : List (List Char)) : dropVoidEnd parts <+: parts := by
  cases parts with
  | nil => exact List.prefix_rfl
  | cons first rest =>
    have isEnd := List.dropWhile_suffix isVoidPiece (l := rest.reverse)
    rw [← List.reverse_prefix, List.reverse_reverse] at isEnd
    exact List.prefix_cons_inj first |>.mpr isEnd

theorem filterMap_dropVoid (parts : List (List Char)) :
    ((parts.reverse.dropWhile isVoidPiece).reverse).filterMap component? =
      parts.filterMap component? := by
  induction parts using List.reverseRecOn with
  | nil => rfl
  | append_singleton parts last ih =>
    rw [List.reverse_concat, List.dropWhile_cons]
    split
    next isVoid => rw [ih, List.filterMap_append]; simp [component?, isVoid]
    next => simp

/-- The parts of a path do not depend on pieces at its end that count for nothing, unless nothing
but the root is left. -/
theorem componentsOf_dropVoidEnd {parts : List (List Char)} (isMore : dropVoidEnd parts ≠ [[]]) :
    componentsOf (dropVoidEnd parts) = componentsOf parts := by
  cases parts with
  | nil => rfl
  | cons first rest =>
    rw [dropVoidEnd] at isMore ⊢
    rw [componentsOf, componentsOf, filterMap_dropVoid]
    congr 1
    by_cases isEmpty : first = []
    · subst isEmpty
      have isAny : (rest.reverse.dropWhile isVoidPiece).reverse ≠ [] :=
        fun isNil => isMore (by rw [isNil])
      have isAnyRest : rest ≠ [] := by
        rintro rfl
        exact isAny rfl
      rw [List.isEmpty_eq_false_iff.mpr isAny, List.isEmpty_eq_false_iff.mpr isAnyRest]
    · simp [firstComponents, isEmpty]

/-- Behind a slash that is all of a path, pieces that count for nothing add nothing. -/
theorem componentsOf_of_root {parts : List (List Char)} (isRoot : dropVoidEnd parts = [[]])
    (isMore : parts ≠ [[]]) : componentsOf parts = [.root] := by
  cases parts with
  | nil => cases isRoot
  | cons first rest =>
    rw [dropVoidEnd] at isRoot
    obtain ⟨rfl, isVoid⟩ := List.cons.inj isRoot
    rw [componentsOf_root (by rintro rfl; exact isMore rfl), ← filterMap_dropVoid, isVoid]
    rfl

/-! ### The path in front -/

theorem length_firstComponents_le (first : List Char) (isOnly : Bool) :
    (firstComponents first isOnly).length ≤ 1 := by
  unfold firstComponents
  split
  · split <;> simp
  · split
    · simp
    · cases component? first <;> simp

/-- Only the first part of a path may be the root. -/
theorem root_notMem_tail (path : String) : .root ∉ (components path).tail := by
  have isLater (rest : List (List Char)) : .root ∉ rest.filterMap component? := by
    intro isPart
    obtain ⟨piece, -, isRoot⟩ := List.mem_filterMap.mp isPart
    unfold component? at isRoot
    split at isRoot
    next => cases isRoot
    next => split at isRoot <;> cases isRoot
  rw [components_eq]
  cases pieces path.toList with
  | nil => simp [componentsOf]
  | cons first rest =>
    have short := length_firstComponents_le first rest.isEmpty
    rw [componentsOf]
    rcases starts : firstComponents first rest.isEmpty with _ | ⟨part, _ | ⟨other, more⟩⟩
    · exact fun isRoot => isLater rest (List.mem_of_mem_tail isRoot)
    · exact isLater rest
    · rw [starts] at short
      simp at short

theorem dropVoidEnd_of_last {front : List (List Char)} {last : List Char} (isAny : front ≠ [])
    (counts : isVoidPiece last = false) : dropVoidEnd (front ++ [last]) = front ++ [last] := by
  obtain ⟨first, rest, rfl⟩ := List.exists_cons_of_ne_nil isAny
  rw [List.cons_append, dropVoidEnd, List.reverse_concat,
    List.dropWhile_cons_of_neg (by simp [counts]), List.reverse_cons, List.reverse_reverse]

/-- The path in front of a piece that counts. -/
theorem parent?_of_pieces {path : String} {front : List (List Char)} {last : List Char}
    (parts : pieces path.toList = front ++ [last]) (isAny : front ≠ [])
    (counts : isVoidPiece last = false) :
    parent? path = some (if dropVoidEnd front = [[]] then "/"
      else String.ofList (joinPieces (dropVoidEnd front))) := by
  obtain ⟨first, rest, rfl⟩ := List.exists_cons_of_ne_nil isAny
  obtain ⟨second, others, isNext⟩ := List.exists_cons_of_ne_nil (show rest ++ [last] ≠ [] by simp)
  have isFront : (first :: second :: others).dropLast = first :: rest := by
    rw [← isNext, ← List.cons_append, List.dropLast_concat]
  unfold parent?
  rw [parts, dropVoidEnd_of_last isAny counts, List.cons_append, isNext]
  simp only [isFront]
  split
  next isRoot => rw [if_pos isRoot]
  next kept notRoot => rw [if_neg notRoot]

/-- What stands in front of a piece that counts, in parts. -/
theorem componentsOf_of_last {front : List (List Char)} {last : List Char} {name : String}
    {before : List Component} (isAny : front ≠ []) (counts : isVoidPiece last = false)
    (areParts : componentsOf (front ++ [last]) = before ++ [.name name]) :
    before = if dropVoidEnd front = [[]] then [.root] else componentsOf front := by
  obtain ⟨part, isPart⟩ : ∃ part, component? last = some part := by
    rw [component?, if_neg (by simp [counts])]
    split <;> exact ⟨_, rfl⟩
  by_cases isSlash : front = [[]]
  · subst isSlash
    rw [List.singleton_append, componentsOf_root (List.cons_ne_nil _ _),
      List.filterMap_cons_some isPart] at areParts
    have ends : [Component.root] ++ [part] = before ++ [.name name] := areParts
    exact ((List.append_inj' ends rfl).1).symm
  · rw [componentsOf_append isAny isSlash, List.filterMap_cons_some isPart] at areParts
    rw [← (List.append_inj' areParts rfl).1]
    split
    next isRoot => exact componentsOf_of_root isRoot isSlash
    next => rfl

/-- In front of a path of one piece there is the empty path. -/
theorem parent?_of_piece {path name : String} {before : List Component} {only : List Char}
    (parts : pieces path.toList = [only]) (areParts : components path = before ++ [.name name]) :
    before = [] ∧ parent? path = some "" := by
  rw [components_eq, parts, componentsOf, List.filterMap_nil, List.append_nil,
    List.isEmpty_nil] at areParts
  have noParts : before.length = 0 := by
    have short := length_firstComponents_le only true
    rw [areParts, List.length_append, List.length_singleton] at short
    omega
  have notEmpty : only.isEmpty = false := by
    rw [List.isEmpty_eq_false_iff]
    rintro rfl
    simp [firstComponents] at areParts
  exact ⟨List.length_eq_zero_iff.mp noParts, by simp [parent?, parts, dropVoidEnd, notEmpty]⟩

/-- A path that ends in a name has a path with its other parts in front of it, its own start. -/
theorem parent?_of_name {path name : String} {before : List Component}
    (noFolder : asksForFolder path = false)
    (areParts : components path = before ++ [.name name]) :
    ∃ parent, parent? path = some parent ∧ components parent = before ∧
      parent.toList <+: path.toList := by
  obtain ⟨front, last, parts⟩ :=
    (List.eq_nil_or_concat (pieces path.toList)).resolve_left (pieces_ne_nil _)
  rw [List.concat_eq_append] at parts
  by_cases isOnly : front = []
  · obtain ⟨rfl, isParent⟩ := parent?_of_piece (by rw [parts, isOnly, List.nil_append]) areParts
    exact ⟨"", isParent, by decide, List.nil_prefix⟩
  -- the last piece counts, so it alone is left out
  have counts : isVoidPiece last = false := by
    obtain ⟨others, other, rfl⟩ := (List.eq_nil_or_concat front).resolve_left isOnly
    rw [asksForFolder, parts, List.concat_eq_append] at noFolder
    simpa using noFolder
  rw [components_eq, parts] at areParts
  have whole := joinPieces_pieces path.toList
  rw [parts] at whole
  obtain ⟨first, rest, rfl⟩ := List.exists_cons_of_ne_nil isOnly
  have isAny : dropVoidEnd (first :: rest) ≠ [] := List.cons_ne_nil _ _
  refine ⟨_, parent?_of_pieces parts isOnly counts, ?_, ?_⟩
  · rw [componentsOf_of_last isOnly counts areParts]
    split
    next => decide
    next notRoot =>
      rw [components_eq, String.toList_ofList, pieces_joinPieces isAny,
        componentsOf_dropVoidEnd notRoot]
      intro piece isPiece
      refine @noSlash_of_mem_pieces path.toList _ ?_
      rw [parts]
      exact List.mem_append_left _ ((dropVoidEnd_isStart _).subset isPiece)
  · rw [← whole]
    split
    next isRoot =>
      obtain ⟨rfl, -⟩ := List.cons.inj isRoot
      rw [List.cons_append, joinPieces_cons _ (by simp)]
      exact ⟨_, rfl⟩
    next =>
      rw [String.toList_ofList]
      exact joinPieces_isStart isAny ((dropVoidEnd_isStart _).trans (List.prefix_append ..))

end Bindery.Path

namespace Bindery.FileTree

/-- The start of a path may be a path. -/
theorem isPath_of_isStart {path start : String} (isStart : start.toList <+: path.toList)
    (accepted : isPath path = true) : isPath start = true := by
  obtain ⟨rest, whole⟩ := isStart
  have isAppend : path = start ++ String.ofList rest := by
    rw [← String.toList_inj, String.toList_append, String.toList_ofList, whole]
  simp only [isPath, Bool.and_eq_true, decide_eq_true_eq, Bool.not_eq_true', isAppend,
    String.utf8ByteSize_append, String.toList_append, List.contains_append,
    Bool.or_eq_false_iff] at accepted ⊢
  exact ⟨by omega, accepted.2.1⟩

end Bindery.FileTree
