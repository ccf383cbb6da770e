/-
**The suggestion for an unknown type is the least of the nearest class names.**

Candidates are sorted before the first of the nearest ones is taken. So the suggestion is told by
the set of the class names alone, and this set is told by which classes were added, in whatever
order.

* `IsLeastNearest` — of some names, the nearest to a name, and of these the least.
* `KnownTypes.suggestion?_eq_some_iff` — what is suggested for a name.
* `Table.hasClassNamed_applyAll_iff` — the names of the classes of a table.
* `suggestions_areNearest` — from the distance of texts to suggestions.
-/

import Mathlib.Data.String.Basic
import Bindery.Proofs.Symbols.LookUps
import Bindery.Proofs.Text.Similar
import Bindery.Proofs.Wrapper.EqualTables

namespace Bindery.Symbols

/-! ### The names of classes -/

namespace Table

/-- A class of the name stands in some scope of a table. -/
def HasClassNamed (table : Table) (name : String) : Prop := ∃ self ∈ table.classes, self.name = name

/-- The classes of a table stand in its slots. -/
theorem mem_classes_iff (table : Table) (self : Class) :
    self ∈ table.classes ↔ ∃ header key name,
      table.find? ⟨header, key, .classDefinition, name⟩ = some (.classDefinition self) := by
  simp only [classes, scopes, headerList, List.mem_flatMap, List.mem_map, OrderedMap.mem_values,
    find?, scopeAt?, header?, Scope.find?, Option.bind_eq_some_iff, Option.map_eq_some_iff,
    Element.classDefinition.injEq, exists_eq_right]
  constructor
  · rintro ⟨_, ⟨holder, ⟨header, isHolder⟩, scope, ⟨key, isScope⟩, rfl⟩, name, isSelf⟩
    exact ⟨header, key, name, scope, ⟨holder, isHolder, isScope⟩, isSelf⟩
  · rintro ⟨header, key, name, scope, ⟨holder, isHolder, isScope⟩, isSelf⟩
    exact ⟨(holder, scope), ⟨holder, ⟨header, isHolder⟩, scope, ⟨key, isScope⟩, rfl⟩, name, isSelf⟩

/-- A slot is filled exactly when something was added to it. -/
theorem isSome_find?_applyAll_iff (log : Log) (slot : Slot) :
    ((Table.empty.applyAll log).find? slot).isSome = true ↔
      ∃ header spelling element, .add header spelling element ∈ log ∧
        element.slotIn header spelling = slot := by
  induction log using List.reverseRecOn with
  | nil =>
    have isEmpty : Table.empty.find? slot = none := rfl
    simp [applyAll, isEmpty]
  | append_singleton log edit ih =>
    rw [applyAll_append]
    show ((Table.apply _ edit).find? slot).isSome = true ↔ _
    cases edit with
    | enable header enabled =>
      rw [apply, find?_setEnabled, ih]
      simp
    | add header spelling element =>
      rw [apply, find?_add]
      by_cases isHere : element.slotIn header spelling = slot
      · rw [if_pos isHere]
        exact iff_of_true rfl ⟨header, spelling, element, by simp, isHere⟩
      · rw [if_neg isHere, ih]
        constructor
        · rintro ⟨holder, other, added, isAdded, isSlot⟩
          exact ⟨holder, other, added, List.mem_append_left _ isAdded, isSlot⟩
        · rintro ⟨holder, other, added, isAdded, isSlot⟩
          rcases List.mem_append.mp isAdded with isBefore | isLast
          · exact ⟨holder, other, added, isBefore, isSlot⟩
          · obtain ⟨rfl, rfl, rfl⟩ := Edit.add.inj (List.mem_singleton.mp isLast)
            exact absurd isSlot isHere

/-- A class stands in a slot of its own name. -/
theorem name_of_find?_applyAll {log : Log} {slot : Slot} {self : Class}
    (found : (Table.empty.applyAll log).find? slot = some (.classDefinition self)) :
    self.name = slot.name := by
  induction log using List.reverseRecOn with
  | nil => cases found
  | append_singleton log edit ih =>
    rw [applyAll_append] at found
    change (Table.apply _ edit).find? slot = _ at found
    cases edit with
    | enable header enabled =>
      rw [apply, find?_setEnabled] at found
      exact ih found
    | add header spelling element =>
      rw [apply, find?_add] at found
      split at found
      next isHere =>
        cases element with
        | classDefinition added =>
          obtain rfl := Element.classDefinition.inj (Option.some.inj found)
          exact congrArg Slot.name isHere
        | _ => cases found
      next => exact ih found

/-- The names of the classes that were added are the names of the classes of the table, whatever
else was added and in whatever order. -/
theorem hasClassNamed_applyAll_iff (log : Log) (name : String) :
    (Table.empty.applyAll log).HasClassNamed name ↔
      ∃ header scope self, .add header scope (.classDefinition self) ∈ log ∧ self.name = name := by
  constructor
  · rintro ⟨self, isClass, rfl⟩
    obtain ⟨header, key, name, found⟩ := (mem_classes_iff ..).mp isClass
    have isFilled := (isSome_find?_applyAll_iff log _).mp (Option.isSome_of_mem found)
    obtain ⟨holder, spelling, element, isAdded, isSlot⟩ := isFilled
    cases element with
    | classDefinition added =>
      exact ⟨holder, spelling, added, isAdded,
        (congrArg Slot.name isSlot).trans (name_of_find?_applyAll found).symm⟩
    | _ => cases congrArg Slot.kind isSlot
  · rintro ⟨header, scope, self, isAdded, rfl⟩
    have isFilled := (isSome_find?_applyAll_iff log _).mpr ⟨header, scope, _, isAdded, rfl⟩
    obtain ⟨element, found⟩ := Option.isSome_iff_exists.mp isFilled
    obtain ⟨inner, isScope, isThere⟩ := Option.bind_eq_some_iff.mp found
    obtain ⟨kept, isKept, rfl⟩ := Option.map_eq_some_iff.mp isThere
    exact ⟨kept, (mem_classes_iff ..).mpr ⟨_, _, _, found⟩, name_of_find?_applyAll found⟩

end Table

end Bindery.Symbols

namespace Bindery.Wrapper

open Symbols Text

/-! ### The least of the nearest names -/

/-- Of some names, the nearest to a name, and of these the least in the order of code points. -/
structure IsLeastNearest (name : String) (names : Set String) (best : String) : Prop where
  isName : best ∈ names
  nearest : ∀ other ∈ names, distance name best ≤ distance name other
  least : ∀ other ∈ names, distance name other = distance name best → best ≤ other

/-- In a sorted list the first places of names are in the order of the names. -/
theorem idxOf_le_idxOf_iff {names : List String} (sorted : names.Pairwise (· ≤ ·))
    {first second : String} (isFirst : first ∈ names) (isSecond : second ∈ names) :
    names.idxOf first ≤ names.idxOf second ↔ first ≤ second := by
  have inOrder : ∀ {one two : String}, one ∈ names → two ∈ names →
      names.idxOf one < names.idxOf two → one ≤ two := by
    intro one two isOne isTwo before
    have ordered := List.pairwise_iff_getElem.mp sorted _ _ (List.idxOf_lt_length_of_mem isOne)
      (List.idxOf_lt_length_of_mem isTwo) before
    rwa [List.getElem_idxOf, List.getElem_idxOf] at ordered
  constructor
  · intro notBehind
    rcases notBehind.lt_or_eq with before | same
    · exact inOrder isFirst isSecond before
    · exact ((List.idxOf_inj isFirst).mp same).le
  · intro ordered
    by_contra before
    have reversed := inOrder isSecond isFirst (not_le.mp before)
    exact before (ordered.antisymm reversed ▸ le_rfl)

/-- In a sorted list the first of the nearest names is the least of them. -/
theorem nearestOther_eq_some_iff {names : List String} (sorted : names.Pairwise (· ≤ ·))
    (name best : String) :
    nearestOther name names = some best ↔
      IsLeastNearest name {other | other ∈ names ∧ other ≠ name} best := by
  have isIn (other : String) :
      other ∈ names.filter (· ≠ name) ↔ other ∈ names ∧ other ≠ name := by
    simp [List.mem_filter]
  have places {one two : String} (isOne : one ∈ names.filter (· ≠ name))
      (isTwo : two ∈ names.filter (· ≠ name)) :=
    idxOf_le_idxOf_iff (sorted.filter _) isOne isTwo
  rw [nearestOther, List.argmin_eq_some_iff]
  constructor
  · rintro ⟨isBest, nearest, first⟩
    refine ⟨(isIn best).mp isBest, ?_, ?_⟩
    · exact fun other isOther => nearest other ((isIn other).mpr isOther)
    intro other isOther same
    have isCandidate := (isIn other).mpr isOther
    exact (places isBest isCandidate).mp (first other isCandidate same.le)
  · rintro ⟨isBest, nearest, least⟩
    have isCandidate := (isIn best).mpr isBest
    refine ⟨isCandidate, fun other isOther => nearest other ((isIn other).mp isOther), ?_⟩
    intro other isOther notFarther
    have isName := (isIn other).mp isOther
    exact (places isCandidate isOther).mpr
      (least other isName (notFarther.antisymm (nearest other isName)))

namespace KnownTypes

/-- What is suggested for a name is the least of the nearest classes of other names, if it is in
reach. -/
theorem suggestion?_eq_some_iff (known : KnownTypes) (name best : String) :
    known.suggestion? name = some best ↔
      IsLeastNearest name {other | other ∈ known.classes ∧ other ≠ name} best ∧
        distance name best ≤ suggestionReach name := by
  have sameNames : {other | other ∈ known.classes.mergeSort (fun first second => first ≤ second) ∧
      other ≠ name} = {other | other ∈ known.classes ∧ other ≠ name} := by
    simp only [List.mem_mergeSort]
  rw [suggestion?, closestName_eq, Option.filter_eq_some_iff,
    nearestOther_eq_some_iff (pairwise_mergeSort known.classes), sameNames, decide_eq_true_eq]

end KnownTypes

theorem KnownTypes.mem_classes_ofTable (table : Table) (name : String) :
    name ∈ (ofTable table).classes ↔ table.HasClassNamed name :=
  List.mem_map

/-- The name under which the base of an unknown type was looked up. -/
def UnknownName.lookedUp (unknown : UnknownName) : String :=
  String.ofList (withoutArguments (unqualifiedName unknown.name.toList))

/-- The suggestion for an unknown type is made for the name that was looked up, which is the name of
no class. -/
theorem KnownTypes.suggestion_of_unknown {known : KnownTypes} {type : TypeShape}
    {unknown : UnknownName} (isUnknown : (known.classify type).unknown = some unknown) :
    unknown.suggestion = known.suggestion? unknown.lookedUp ∧ unknown.lookedUp ∉ known.classes := by
  have ofElement : (known.classifyElement type).unknown = some unknown := by
    rw [classify_eq] at isUnknown
    split at isUnknown <;> exact isUnknown
  unfold classifyElement classifyResolved at ofElement
  split at ofElement
  next => cases ofElement
  next =>
    dsimp only at ofElement
    split at ofElement
    next => cases ofElement
    next =>
      split at ofElement
      next => cases ofElement
      next noClass =>
        obtain rfl := Option.some.inj ofElement
        exact ⟨rfl, fun isClass => noClass (List.contains_iff_mem.mpr isClass)⟩

/-! ### From the distance to the suggestion -/

/-- **Suggestions are true nearest names.** The distance of two texts is the least number of edits
between them. Of some candidates the first of those nearest to a name is taken, the name itself
apart, if it is in reach. So the suggestion for an unknown type is the least of the class names of
the table that are nearest to it, and tables to which the same was added in another order suggest
the same. -/
theorem suggestions_areNearest :
    (∀ source target,
      IsLeast {count | Edits count source target} (editDistance source target)) ∧
    (∀ name candidates, closestName name candidates =
      ((candidates.filter (· ≠ name)).argmin fun other =>
        editDistance name.toList other.toList).filter fun best =>
          editDistance name.toList best.toList ≤ if name.utf8ByteSize < 4 then 1 else 2) ∧
    (∀ (table : Table) (type : TypeShape) (unknown : UnknownName),
      ((KnownTypes.ofTable table).classify type).unknown = some unknown →
      ∀ best, unknown.suggestion = some best ↔
        IsLeastNearest unknown.lookedUp {name | table.HasClassNamed name} best ∧
          distance unknown.lookedUp best ≤ suggestionReach unknown.lookedUp) ∧
    ∀ (log other : Log), log.Perm other → ∀ name,
      (KnownTypes.ofTable (Table.empty.applyAll log)).suggestion? name =
        (KnownTypes.ofTable (Table.empty.applyAll other)).suggestion? name := by
  refine ⟨editDistance_isLeast, closestName_eq, ?_, ?_⟩
  · intro table type unknown isUnknown best
    obtain ⟨isSuggested, noClass⟩ := KnownTypes.suggestion_of_unknown isUnknown
    have sameNames : {name | name ∈ (KnownTypes.ofTable table).classes ∧ name ≠ unknown.lookedUp} =
        {name | table.HasClassNamed name} := by
      ext name
      rw [Set.mem_ofPred_eq, Set.mem_ofPred_eq, ← KnownTypes.mem_classes_ofTable]
      exact ⟨And.left, fun isClass => ⟨isClass, fun same => noClass (same ▸ isClass)⟩⟩
    rw [isSuggested, KnownTypes.suggestion?_eq_some_iff, sameNames]
  · intro log other perm name
    refine Option.ext fun best => ?_
    rw [KnownTypes.suggestion?_eq_some_iff, KnownTypes.suggestion?_eq_some_iff]
    have sameNames : ∀ known, known ∈ (KnownTypes.ofTable (Table.empty.applyAll log)).classes ↔
        known ∈ (KnownTypes.ofTable (Table.empty.applyAll other)).classes := by
      intro known
      rw [KnownTypes.mem_classes_ofTable, KnownTypes.mem_classes_ofTable,
        Table.hasClassNamed_applyAll_iff, Table.hasClassNamed_applyAll_iff]
      simp only [perm.mem_iff]
    simp only [sameNames]

/-- A log that adds three classes with names that are alike. -/
def gadgetLog : Log :=
  ["Widget", "Gadget", "Midget"].map fun name => .add "ui.h" "ui" (.classDefinition { name })

/-- Of two names that are equally near the lesser one is suggested, though it was added later. -/
theorem suggestion_fidget :
    ∃ unknown : UnknownName,
      ((KnownTypes.ofTable (Table.empty.applyAll gadgetLog)).classify (.parse "Fidget")).unknown =
        some unknown ∧ unknown.lookedUp = "Fidget" ∧ unknown.suggestion = some "Midget" := by
  have isUnknown : ((KnownTypes.ofTable (Table.empty.applyAll gadgetLog)).classify
      (.parse "Fidget")).unknown = some ⟨"Fidget",
        (KnownTypes.ofTable (Table.empty.applyAll gadgetLog)).suggestion? "Fidget"⟩ := by
    rfl
  have isLookedUp : UnknownName.lookedUp ⟨"Fidget",
      (KnownTypes.ofTable (Table.empty.applyAll gadgetLog)).suggestion? "Fidget"⟩ = "Fidget" := by
    rfl
  have classNames : {name | (Table.empty.applyAll gadgetLog).HasClassNamed name} =
      {name | name ∈ ["Widget", "Gadget", "Midget"]} :=
    Set.ext fun name => (KnownTypes.mem_classes_ofTable _ name).symm
  have nearest : IsLeastNearest "Fidget" {name | name ∈ ["Widget", "Gadget", "Midget"]} "Midget" :=
    ⟨(by decide : "Midget" ∈ ["Widget", "Gadget", "Midget"]),
      (by decide : ∀ other ∈ ["Widget", "Gadget", "Midget"],
        distance "Fidget" "Midget" ≤ distance "Fidget" other),
      (by decide : ∀ other ∈ ["Widget", "Gadget", "Midget"],
        distance "Fidget" other = distance "Fidget" "Midget" → "Midget" ≤ other)⟩
  refine ⟨_, isUnknown, isLookedUp, ?_⟩
  rw [suggestions_areNearest.2.2.1 _ _ _ isUnknown, isLookedUp, classNames]
  exact ⟨nearest, by decide⟩

end Bindery.Wrapper
