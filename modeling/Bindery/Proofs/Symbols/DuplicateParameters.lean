/-
**Parameters whose names are taken.**

The parameters of an overload are added one after the other to an overload that has none. As long
as no name comes again both policies do the same; the first name that does comes to nothing or
ends it all.

* `firstOfEach` — the parameters whose names do not stand before them.
* `IsFirstRepeat` — where the first name stands that stood before.
* `Overload.addParameters_ignore` — what is left when repeated names are dropped.
* `Overload.addParameters_reject_eq_error_iff` — which parameter is refused.
-/

import Mathlib.Data.List.Nodup
import Bindery.Proofs.Symbols.Overloads

namespace Bindery.Symbols

/-! ### Names that come again -/

/-- The parameters whose names do not stand before them. -/
def firstOfEach : List Parameter → List Parameter
  | [] => []
  | parameter :: rest => parameter :: (firstOfEach rest).filter (·.name ≠ parameter.name)

theorem mem_names_firstOfEach {parameters : List Parameter} {name : String} :
    name ∈ (firstOfEach parameters).map Parameter.name ↔ name ∈ parameters.map Parameter.name := by
  induction parameters with
  | nil => rfl
  | cons parameter rest ih =>
    simp only [List.mem_map] at ih
    simp only [firstOfEach, List.map_cons, List.mem_cons, List.mem_map, List.mem_filter,
      decide_eq_true_eq, ← ih]
    constructor
    · rintro (isHead | ⟨other, ⟨isOther, _⟩, isName⟩)
      · exact .inl isHead
      · exact .inr ⟨other, isOther, isName⟩
    · rintro (isHead | ⟨other, isOther, rfl⟩)
      · exact .inl isHead
      · by_cases same : other.name = parameter.name
        · exact .inl same
        · exact .inr ⟨other, ⟨isOther, same⟩, rfl⟩

/-- A further parameter is dropped or stands behind the others. -/
theorem firstOfEach_concat (parameters : List Parameter) (last : Parameter) :
    firstOfEach (parameters ++ [last]) =
      if last.name ∈ parameters.map Parameter.name then firstOfEach parameters
      else firstOfEach parameters ++ [last] := by
  induction parameters with
  | nil => rfl
  | cons parameter rest ih =>
    rw [List.cons_append, firstOfEach, firstOfEach, ih, List.map_cons]
    by_cases same : last.name = parameter.name
    · rw [if_pos (List.mem_cons.mpr (.inl same))]
      split
      · rfl
      · simp [List.filter_append, same]
    · by_cases isTaken : last.name ∈ rest.map Parameter.name
      · rw [if_pos isTaken, if_pos (List.mem_cons_of_mem _ isTaken)]
      · rw [if_neg isTaken, if_neg (by simp [same, isTaken])]
        simp [List.filter_append, same]

/-- The name at the index is the first one that stands before itself. -/
structure IsFirstRepeat (names : List String) (index : Nat) (name : String) : Prop where
  atIndex : names[index]? = some name
  again : name ∈ names.take index
  distinct : (names.take index).Nodup

/-- Names are distinct, or one of them is the first that comes again. -/
theorem nodup_or_isFirstRepeat (names : List String) :
    names.Nodup ∨ ∃ index name, IsFirstRepeat names index name := by
  induction names using List.reverseRecOn with
  | nil => exact .inl .nil
  | append_singleton names last ih =>
    rcases ih with distinct | ⟨index, name, first⟩
    · by_cases again : last ∈ names
      · exact .inr ⟨names.length, last, by simp, by simpa using again, by simpa using distinct⟩
      · refine .inl ?_
        rw [← List.concat_eq_append]
        exact List.Nodup.concat again distinct
    · obtain ⟨inside, _⟩ := List.getElem?_eq_some_iff.mp first.atIndex
      have sameTake : (names ++ [last]).take index = names.take index :=
        List.take_append_of_le_length inside.le
      refine .inr ⟨index, name, ?_, sameTake ▸ first.again, sameTake ▸ first.distinct⟩
      rw [List.getElem?_append_left inside, first.atIndex]

/-! ### Both policies -/

namespace Overload

theorem addParameters_append (overload : Overload) (parameters others : List Parameter)
    (policy : DuplicatePolicy) :
    overload.addParameters (parameters ++ others) policy =
      (overload.addParameters parameters policy).bind (·.addParameters others policy) :=
  List.foldlM_append

theorem addParameter_of_taken {overload : Overload} {parameter : Parameter}
    (isTaken : parameter.name ∈ overload.parameters.map Parameter.name)
    (policy : DuplicatePolicy) :
    overload.addParameter parameter policy = match policy with
      | .ignore => .ok (overload, false)
      | .reject => .error ⟨overload.function, parameter.name⟩ := by
  have isThere := (hasParameter_eq_true_iff ..).mpr isTaken
  cases policy <;> simp [addParameter, isThere]

variable {bare : Overload} {parameters : List Parameter}

/-- Repeated names are dropped. -/
theorem addParameters_ignore (isBare : bare.parameters = []) (parameters : List Parameter) :
    bare.addParameters parameters .ignore =
      .ok { bare with parameters := firstOfEach parameters } := by
  induction parameters using List.reverseRecOn with
  | nil =>
    show Except.ok bare = .ok { bare with parameters := [] }
    rw [← isBare]
  | append_singleton parameters last ih =>
    rw [addParameters_append, ih, firstOfEach_concat]
    have step : ∀ built : Overload, built.addParameters [last] .ignore =
        (built.addParameter last .ignore).map (·.1) := by
      intro built
      rw [addParameters, List.foldlM_cons]
      cases built.addParameter last .ignore <;> rfl
    simp only [Except.bind, step]
    by_cases isTaken : last.name ∈ parameters.map Parameter.name
    · rw [if_pos isTaken, addParameter_of_taken (mem_names_firstOfEach.mpr isTaken)]
      rfl
    · rw [if_neg isTaken, addParameter_of_new (mt mem_names_firstOfEach.mp isTaken)]
      rfl

/-- Distinct names are all taken in, under either policy. -/
theorem addParameters_of_nodup (isBare : bare.parameters = [])
    (distinct : (parameters.map Parameter.name).Nodup) (policy : DuplicatePolicy) :
    bare.addParameters parameters policy = .ok { bare with parameters } := by
  have added := @addParameters_of_distinct bare parameters (by rwa [isBare]) policy
  rwa [isBare, List.nil_append] at added

/-- The first name that comes again is refused. -/
theorem addParameters_reject_of_isFirstRepeat (isBare : bare.parameters = []) {index : Nat}
    {name : String} (first : IsFirstRepeat (parameters.map Parameter.name) index name) :
    bare.addParameters parameters .reject = .error ⟨bare.function, name⟩ := by
  obtain ⟨inside, isName⟩ := List.getElem?_eq_some_iff.mp first.atIndex
  rw [List.length_map] at inside
  rw [List.getElem_map] at isName
  have again := first.again
  have distinct := first.distinct
  rw [← List.map_take] at again distinct
  have split : parameters =
      parameters.take index ++ parameters[index] :: parameters.drop (index + 1) := by simp
  rw [split, addParameters_append, addParameters_of_nodup isBare distinct, ← isName]
  rw [← isName] at again
  simp only [Except.bind]
  rw [addParameters, List.foldlM_cons, addParameter_of_taken again]
  rfl

theorem addParameters_reject_eq_ok_iff (isBare : bare.parameters = []) :
    (∃ built, bare.addParameters parameters .reject = .ok built) ↔
      (parameters.map Parameter.name).Nodup := by
  constructor
  · rintro ⟨built, isBuilt⟩
    rcases nodup_or_isFirstRepeat (parameters.map Parameter.name) with distinct | ⟨_, _, first⟩
    · exact distinct
    · cases (addParameters_reject_of_isFirstRepeat isBare first).symm.trans isBuilt
  · exact fun distinct => ⟨_, addParameters_of_nodup isBare distinct _⟩

/-- Parameters are refused for the first name that comes again. -/
theorem addParameters_reject_eq_error_iff (isBare : bare.parameters = [])
    (duplicate : DuplicateParameter) :
    bare.addParameters parameters .reject = .error duplicate ↔
      duplicate.function = bare.function ∧
        ∃ index, IsFirstRepeat (parameters.map Parameter.name) index duplicate.parameter := by
  constructor
  · intro refused
    rcases nodup_or_isFirstRepeat (parameters.map Parameter.name) with
      distinct | ⟨index, name, first⟩
    · cases (addParameters_of_nodup isBare distinct _).symm.trans refused
    · obtain rfl := Except.error.inj
        ((addParameters_reject_of_isFirstRepeat isBare first).symm.trans refused)
      exact ⟨rfl, index, first⟩
  · rintro ⟨ofFunction, index, first⟩
    rw [addParameters_reject_of_isFirstRepeat isBare first, ← ofFunction]

end Overload

end Bindery.Symbols
