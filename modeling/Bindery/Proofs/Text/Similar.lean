/-
**The distance of two texts counts the edits between them, and a suggestion is a nearest name.**

An edit inserts, deletes or exchanges one character anywhere. What edits leave of a text can be read
off an alignment of the two texts, which is walked from their starts: an edit more costs an
alignment at most one. The rows of distances hold the least costs of alignments of beginnings, read
backwards.

* `Edits` — so many edits lead from one text to another.
* `Alignment` — two texts side by side, with the number of differences.
* `leastCost_isLeast` — the recursive minimum is the least number of edits.
* `foldl_nextDistanceRow`, `editDistance_isLeast` — the rows compute the recursive minimum.
* `closestName_eq` — the first of the nearest other candidates is suggested if it is in reach.
-/

import Mathlib.Data.List.MinMax
import Mathlib.Order.Bounds.Basic
import Mathlib.Order.MinMax
import Bindery.Text.Similar

namespace Bindery.Text

/-! ### Edits -/

/-- One character is inserted, deleted or exchanged. -/
inductive OneEdit : List Char → List Char → Prop
  | insert (before behind : List Char) (c : Char) :
      OneEdit (before ++ behind) (before ++ c :: behind)
  | delete (before behind : List Char) (c : Char) :
      OneEdit (before ++ c :: behind) (before ++ behind)
  | exchange (before behind : List Char) (c d : Char) :
      OneEdit (before ++ c :: behind) (before ++ d :: behind)

/-- So many edits lead from a text to another one. -/
inductive Edits : Nat → List Char → List Char → Prop
  | refl (text : List Char) : Edits 0 text text
  | step {count : Nat} {source middle target : List Char} (first : OneEdit source middle)
      (rest : Edits count middle target) : Edits (count + 1) source target

theorem OneEdit.cons {source target : List Char} (edit : OneEdit source target) (c : Char) :
    OneEdit (c :: source) (c :: target) := by
  cases edit with
  | insert before behind d => exact .insert (c :: before) behind d
  | delete before behind d => exact .delete (c :: before) behind d
  | exchange before behind d e => exact .exchange (c :: before) behind d e

theorem OneEdit.reverse {source target : List Char} (edit : OneEdit source target) :
    OneEdit source.reverse target.reverse := by
  cases edit with
  | insert before behind c => simpa using OneEdit.insert behind.reverse before.reverse c
  | delete before behind c => simpa using OneEdit.delete behind.reverse before.reverse c
  | exchange before behind c d => simpa using OneEdit.exchange behind.reverse before.reverse c d

/-- An edit that leaves a character in front inserted it, deleted or exchanged something in front of
it, or is further behind. -/
theorem OneEdit.cases_cons {source rest : List Char} {c : Char}
    (edit : OneEdit source (c :: rest)) :
    source = rest ∨ (∃ d, source = d :: c :: rest) ∨ (∃ d, source = d :: rest) ∨
      ∃ inner, source = c :: inner ∧ OneEdit inner rest := by
  generalize isTarget : c :: rest = target at edit
  cases edit with
  | insert before behind d =>
    cases before with
    | nil =>
      obtain ⟨rfl, rfl⟩ := List.cons.inj isTarget
      exact .inl rfl
    | cons e before =>
      obtain ⟨rfl, rfl⟩ := List.cons.inj isTarget
      exact .inr (.inr (.inr ⟨_, rfl, .insert before behind d⟩))
  | delete before behind d =>
    cases before with
    | nil =>
      obtain rfl : c :: rest = behind := isTarget
      exact .inr (.inl ⟨d, rfl⟩)
    | cons e before =>
      obtain ⟨rfl, rfl⟩ := List.cons.inj isTarget
      exact .inr (.inr (.inr ⟨_, rfl, .delete before behind d⟩))
  | exchange before behind d e =>
    cases before with
    | nil =>
      obtain ⟨rfl, rfl⟩ := List.cons.inj isTarget
      exact .inr (.inr (.inl ⟨d, rfl⟩))
    | cons f before =>
      obtain ⟨rfl, rfl⟩ := List.cons.inj isTarget
      exact .inr (.inr (.inr ⟨_, rfl, .exchange before behind d e⟩))

/-- An edit that leaves nothing deleted the only character. -/
theorem OneEdit.eq_of_nil {source : List Char} (edit : OneEdit source []) : ∃ c, source = [c] := by
  generalize isTarget : [] = target at edit
  cases edit with
  | insert before => cases before <;> cases isTarget
  | delete before behind c =>
    obtain ⟨rfl, rfl⟩ := List.append_eq_nil_iff.mp isTarget.symm
    exact ⟨c, rfl⟩
  | exchange before => cases before <;> cases isTarget

namespace Edits

variable {count : Nat} {source target : List Char}

theorem cons (edits : Edits count source target) (c : Char) :
    Edits count (c :: source) (c :: target) := by
  induction edits with
  | refl text => exact .refl _
  | step first _ ih => exact .step (first.cons c) ih

theorem reverse (edits : Edits count source target) :
    Edits count source.reverse target.reverse := by
  induction edits with
  | refl text => exact .refl _
  | step first _ ih => exact .step first.reverse ih

theorem reverse_iff : Edits count source.reverse target.reverse ↔ Edits count source target := by
  refine ⟨fun edits => ?_, reverse⟩
  simpa only [List.reverse_reverse] using edits.reverse

end Edits

/-! ### Alignments -/

/-- Two texts side by side: each character is deleted, inserted, kept or exchanged, and all but the
kept ones count. -/
inductive Alignment : List Char → List Char → Nat → Prop
  | nil : Alignment [] [] 0
  | delete {source target : List Char} {cost : Nat} (c : Char)
      (rest : Alignment source target cost) : Alignment (c :: source) target (cost + 1)
  | insert {source target : List Char} {cost : Nat} (d : Char)
      (rest : Alignment source target cost) : Alignment source (d :: target) (cost + 1)
  | keep {source target : List Char} {cost : Nat} (c : Char)
      (rest : Alignment source target cost) : Alignment (c :: source) (c :: target) cost
  | exchange {source target : List Char} {cost : Nat} (c d : Char)
      (rest : Alignment source target cost) : Alignment (c :: source) (d :: target) (cost + 1)

namespace Alignment

variable {source target : List Char} {cost : Nat}

theorem refl (text : List Char) : Alignment text text 0 := by
  induction text with
  | nil => exact .nil
  | cons c rest ih => exact .keep c ih

theorem ofInsertions (target : List Char) : Alignment [] target target.length := by
  induction target with
  | nil => exact .nil
  | cons d rest ih => exact .insert d ih

theorem ofDeletions (source : List Char) : Alignment source [] source.length := by
  induction source with
  | nil => exact .nil
  | cons c rest ih => exact .delete c ih

/-- An alignment is carried out edit by edit. -/
theorem edits (alignment : Alignment source target cost) : Edits cost source target := by
  induction alignment with
  | nil => exact .refl []
  | @delete source _ _ c _ ih => exact .step (.delete [] source c) ih
  | @insert source _ _ d _ ih => exact .step (.insert [] source d) (ih.cons d)
  | keep c _ ih => exact ih.cons c
  | @exchange source _ _ c d _ ih => exact .step (.exchange [] source c d) (ih.cons d)

/-- An edit in front of an alignment costs at most one. The induction is on the alignment: it shows
what became of the character at the start, and the edit is there or further behind. -/
theorem behind_edit {first : List Char} (alignment : Alignment source target cost)
    (edit : OneEdit first source) : ∃ least ≤ cost + 1, Alignment first target least := by
  induction alignment generalizing first with
  | nil =>
    obtain ⟨c, rfl⟩ := edit.eq_of_nil
    exact ⟨1, le_rfl, .delete c .nil⟩
  | @delete source target cost c rest ih =>
    obtain rfl | ⟨d, rfl⟩ | ⟨d, rfl⟩ | ⟨inner, rfl, isWithin⟩ := edit.cases_cons
    · exact ⟨cost, by omega, rest⟩
    · exact ⟨cost + 2, le_rfl, .delete d (.delete c rest)⟩
    · exact ⟨cost + 1, by omega, .delete d rest⟩
    · obtain ⟨least, isLess, alignment⟩ := ih isWithin
      exact ⟨least + 1, by omega, .delete c alignment⟩
  | @insert source target cost d rest ih =>
    obtain ⟨least, isLess, alignment⟩ := ih edit
    exact ⟨least + 1, by omega, .insert d alignment⟩
  | @keep source target cost c rest ih =>
    obtain rfl | ⟨d, rfl⟩ | ⟨d, rfl⟩ | ⟨inner, rfl, isWithin⟩ := edit.cases_cons
    · exact ⟨cost + 1, le_rfl, .insert c rest⟩
    · exact ⟨cost + 1, le_rfl, .delete d (.keep c rest)⟩
    · exact ⟨cost + 1, le_rfl, .exchange d c rest⟩
    · obtain ⟨least, isLess, alignment⟩ := ih isWithin
      exact ⟨least, isLess, .keep c alignment⟩
  | @exchange source target cost c e rest ih =>
    obtain rfl | ⟨d, rfl⟩ | ⟨d, rfl⟩ | ⟨inner, rfl, isWithin⟩ := edit.cases_cons
    · exact ⟨cost + 1, by omega, .insert e rest⟩
    · exact ⟨cost + 2, le_rfl, .delete d (.exchange c e rest)⟩
    · exact ⟨cost + 1, by omega, .exchange d e rest⟩
    · obtain ⟨least, isLess, alignment⟩ := ih isWithin
      exact ⟨least + 1, by omega, .exchange c e alignment⟩

end Alignment

/-- Edits in a row are no cheaper than an alignment. -/
theorem Edits.exists_alignment {count : Nat} {source target : List Char}
    (edits : Edits count source target) : ∃ cost ≤ count, Alignment source target cost := by
  induction edits with
  | refl text => exact ⟨0, le_rfl, .refl text⟩
  | step first _ ih =>
    obtain ⟨cost, isLess, alignment⟩ := ih
    obtain ⟨least, isLeast, aligned⟩ := alignment.behind_edit first
    exact ⟨least, by omega, aligned⟩

/-! ### The recursive minimum -/

/-- The least cost of an alignment: the first characters are deleted, inserted, or stand side by
side. -/
def leastCost : List Char → List Char → Nat
  | [], target => target.length
  | source, [] => source.length
  | c :: source, d :: target =>
    min (min (leastCost source (d :: target) + 1) (leastCost (c :: source) target + 1))
      (leastCost source target + if c = d then 0 else 1)

theorem leastCost_nil_right (source : List Char) : leastCost source [] = source.length := by
  cases source <;> simp [leastCost]

theorem leastCost_cons_le (c : Char) (source target : List Char) :
    leastCost (c :: source) target ≤ leastCost source target + 1 := by
  cases target with
  | nil => simp [leastCost_nil_right]
  | cons d target =>
    rw [leastCost]
    omega

theorem leastCost_le_cons (d : Char) (source target : List Char) :
    leastCost source (d :: target) ≤ leastCost source target + 1 := by
  cases source with
  | nil => simp [leastCost]
  | cons c source =>
    rw [leastCost]
    omega

theorem Alignment.leastCost_le {source target : List Char} {cost : Nat}
    (alignment : Alignment source target cost) : leastCost source target ≤ cost := by
  induction alignment with
  | nil => exact (leastCost_nil_right []).le
  | delete c _ ih => exact (leastCost_cons_le ..).trans (Nat.succ_le_succ ih)
  | insert d _ ih => exact (leastCost_le_cons ..).trans (Nat.succ_le_succ ih)
  | keep c _ ih =>
    rw [leastCost, if_pos rfl]
    omega
  | exchange c d _ ih =>
    rw [leastCost]
    split <;> omega

/-- Some alignment costs no more than the minimum. -/
theorem alignment_leastCost (source target : List Char) :
    Alignment source target (leastCost source target) := by
  fun_induction leastCost source target with
  | case1 target => exact .ofInsertions target
  | case2 source _ => exact .ofDeletions source
  | case3 c source d target deleted inserted besides =>
    rcases min_choice _ (leastCost source target + if c = d then 0 else 1) with isEdit | isBeside
    · rw [isEdit]
      rcases min_choice (leastCost source (d :: target) + 1) _ with isDeleted | isInserted
      · rw [isDeleted]
        exact .delete c deleted
      · rw [isInserted]
        exact .insert d inserted
    · rw [isBeside]
      by_cases same : c = d
      · rw [if_pos same, same]
        exact .keep d besides
      · rw [if_neg same]
        exact .exchange c d besides

/-- The recursive minimum is the least number of edits. -/
theorem leastCost_isLeast (source target : List Char) :
    IsLeast {count | Edits count source target} (leastCost source target) := by
  refine ⟨(alignment_leastCost source target).edits, fun count edits => ?_⟩
  obtain ⟨cost, isLess, alignment⟩ := edits.exists_alignment
  exact alignment.leastCost_le.trans isLess

/-! ### Rows of distances -/

/-- The costs from a text to another one that grows character by character; both are read
backwards. -/
def growingCosts (source done : List Char) : List Char → List Nat
  | [] => []
  | d :: target => leastCost source (d :: done) :: growingCosts source (d :: done) target

/-- The row of a text: the costs to all beginnings of the target. -/
def costRow (source target : List Char) : List Nat :=
  leastCost source [] :: growingCosts source [] target

/-- A row follows from the one before it. -/
theorem distanceRow_growingCosts (c : Char) (source done target : List Char) :
    distanceRow c (leastCost source done) (leastCost (c :: source) done) target
      (growingCosts source done target) = growingCosts (c :: source) done target := by
  induction target generalizing done with
  | nil => rfl
  | cons d target ih =>
    simp only [growingCosts, distanceRow]
    refine List.cons_eq_cons.mpr ⟨by rw [leastCost], ?_⟩
    rw [← leastCost]
    exact ih (d :: done)

theorem nextDistanceRow_costRow (c : Char) (source target : List Char) :
    nextDistanceRow target (costRow source target) c = costRow (c :: source) target := by
  have first : leastCost source [] + 1 = leastCost (c :: source) [] := by
    rw [leastCost_nil_right, leastCost_nil_right, List.length_cons]
  rw [costRow, nextDistanceRow, first, distanceRow_growingCosts, costRow]

/-- The first row counts insertions. -/
theorem range_eq_costRow (target : List Char) :
    List.range (target.length + 1) = costRow [] target := by
  have rest : ∀ done, growingCosts [] done target =
      List.range' (done.length + 1) target.length := by
    induction target with
    | nil => exact fun _ => rfl
    | cons d target ih =>
      intro done
      rw [growingCosts, ih, List.length_cons, List.length_cons, List.range'_succ, leastCost,
        List.length_cons]
  rw [costRow, rest, List.range_eq_range', List.range'_succ, leastCost_nil_right]
  rfl

/-- Behind all characters of a text stands its row. -/
theorem foldl_nextDistanceRow (source done target : List Char) :
    source.foldl (nextDistanceRow target) (costRow done target) =
      costRow (source.reverse ++ done) target := by
  induction source generalizing done with
  | nil => rfl
  | cons c source ih =>
    rw [List.foldl_cons, nextDistanceRow_costRow, ih, List.reverse_cons, List.append_assoc]
    rfl

theorem getLastD_growingCosts (source done target : List Char) :
    (growingCosts source done target).getLastD (leastCost source done) =
      leastCost source (target.reverse ++ done) := by
  induction target generalizing done with
  | nil => rfl
  | cons d target ih =>
    rw [growingCosts, List.getLastD_cons, ih, List.reverse_cons, List.append_assoc]
    rfl

/-- The distance is the recursive minimum for the texts read backwards. -/
theorem editDistance_eq (source target : List Char) :
    editDistance source target = leastCost source.reverse target.reverse := by
  rw [editDistance, range_eq_costRow, foldl_nextDistanceRow, List.append_nil, costRow,
    List.getLastD_cons, getLastD_growingCosts, List.append_nil]

/-- The distance of two texts is the least number of edits from one to the other. -/
theorem editDistance_isLeast (source target : List Char) :
    IsLeast {count | Edits count source target} (editDistance source target) := by
  have reversed := leastCost_isLeast source.reverse target.reverse
  simpa only [Edits.reverse_iff, ← editDistance_eq] using reversed

/-! ### The nearest candidate -/

/-- How far a candidate lies from a name. -/
def distance (name candidate : String) : Nat := editDistance name.toList candidate.toList

/-- The first of the candidates other than a name that are nearest to it. -/
def nearestOther (name : String) (candidates : List String) : Option String :=
  (candidates.filter (· ≠ name)).argmin (distance name)

/-- One more candidate counts if it is another name and nearer than all before it. -/
theorem nearestOther_concat (name : String) (candidates : List String) (last : String) :
    nearestOther name (candidates ++ [last]) =
      if last = name then nearestOther name candidates
      else match nearestOther name candidates with
        | none => some last
        | some best =>
          if distance name last < distance name best then some last else some best := by
  rw [nearestOther, List.filter_append]
  by_cases isName : last = name
  · simp [isName, nearestOther]
  · rw [List.filter_cons_of_pos (by simpa using isName), List.filter_nil, List.argmin_concat,
      if_neg isName, ← nearestOther]
    cases nearestOther name candidates <;> rfl

/-- The fold keeps the nearest of the candidates so far, as long as it is in reach. -/
theorem foldl_nearerName (name : String) (candidates : List String) :
    candidates.foldl (nearerName name) none =
      ((nearestOther name candidates).filter fun best =>
        distance name best ≤ suggestionReach name).map fun best => (distance name best, best) := by
  induction candidates using List.reverseRecOn with
  | nil => rfl
  | append_singleton candidates last ih =>
    rw [List.foldl_append, List.foldl_cons, List.foldl_nil, ih, nearestOther_concat, nearerName,
      ← distance]
    by_cases isName : last = name
    · rw [if_pos isName, if_pos isName]
    · rw [if_neg isName, if_neg isName]
      cases nearestOther name candidates with
      | none => grind
      | some best => grind

/-- The first of the nearest other candidates is suggested if it is in reach, and else none. -/
theorem closestName_eq (name : String) (candidates : List String) :
    closestName name candidates =
      (nearestOther name candidates).filter fun best =>
        distance name best ≤ suggestionReach name := by
  rw [closestName, foldl_nearerName, Option.map_map]
  exact Option.map_id' ..

end Bindery.Text
