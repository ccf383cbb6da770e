/-
**Maps with related values under the same names.**

Two maps match when each name has related values in both, or no value in either. In which order the
names arrived does not count, as it does not for the equality of maps.

* `PairsMatch` — the same for lists of pairs with distinct names, from which maps are made.
* `PairsMatch.read` — matching pairs are read into matching pairs.
* `OrderedMap.beq_of_matches` — maps whose values are equal are equal.
-/

import Mathlib.Data.List.Basic
import Mathlib.Data.List.Perm.Basic
import Bindery.Proofs.OrderedMap

namespace Bindery

variable {α β γ δ : Type}

/-! ### Optional values -/

theorem optionRel_iff {related : α → β → Prop} {first : Option α} {second : Option β} :
    Option.Rel related first second ↔
      (∀ value, first = some value → ∃ other, second = some other ∧ related value other) ∧
        ∀ other, second = some other → ∃ value, first = some value ∧ related value other := by
  constructor
  · rintro (isRelated | _)
    · exact ⟨fun _ isValue => ⟨_, rfl, Option.some.inj isValue ▸ isRelated⟩,
        fun _ isOther => ⟨_, rfl, Option.some.inj isOther ▸ isRelated⟩⟩
    · exact ⟨nofun, nofun⟩
  · rintro ⟨forth, back⟩
    cases first with
    | some value =>
      obtain ⟨other, rfl, isRelated⟩ := forth value rfl
      exact .some isRelated
    | none =>
      cases second with
      | none => exact .none
      | some other =>
        obtain ⟨_, isNone, _⟩ := back other rfl
        cases isNone

theorem optionRel_bind {related : α → β → Prop} {target : γ → δ → Prop} {first : Option α}
    {second : Option β} (isRelated : Option.Rel related first second) {next : α → Option γ}
    {otherNext : β → Option δ}
    (each : ∀ value other, related value other → Option.Rel target (next value) (otherNext other)) :
    Option.Rel target (first.bind next) (second.bind otherNext) := by
  cases isRelated with
  | some isRelated => exact each _ _ isRelated
  | none => exact .none

theorem optionRel_bind_same {target : γ → δ → Prop} (found : Option α) {next : α → Option γ}
    {otherNext : α → Option δ} (each : ∀ value, Option.Rel target (next value) (otherNext value)) :
    Option.Rel target (found.bind next) (found.bind otherNext) := by
  cases found with
  | some value => exact each value
  | none => exact .none

theorem optionRel_map {related : α → β → Prop} {target : γ → δ → Prop} {first : Option α}
    {second : Option β} (isRelated : Option.Rel related first second) {change : α → γ}
    {otherChange : β → δ}
    (each : ∀ value other, related value other → target (change value) (otherChange other)) :
    Option.Rel target (first.map change) (second.map otherChange) := by
  cases isRelated with
  | some isRelated => exact .some (each _ _ isRelated)
  | none => exact .none

theorem optionRel_imp {related target : α → β → Prop} {first : Option α} {second : Option β}
    (isRelated : Option.Rel related first second)
    (each : ∀ value other, related value other → target value other) :
    Option.Rel target first second := by
  cases isRelated with
  | some isRelated => exact .some (each _ _ isRelated)
  | none => exact .none

theorem optionRel_of_eq {first second : Option α} (same : first = second) :
    Option.Rel (· = ·) first second := by
  subst same
  cases first with
  | some value => exact .some rfl
  | none => exact .none

theorem eq_of_optionRel {first second : Option α} (same : Option.Rel (· = ·) first second) :
    first = second := by
  cases same with
  | some same => rw [same]
  | none => rfl

theorem eq_none_iff_of_optionRel {related : α → β → Prop} {first : Option α} {second : Option β}
    (isRelated : Option.Rel related first second) : first = none ↔ second = none := by
  cases isRelated <;> simp

/-! ### Pairs -/

theorem lookupPair_filter (isKept : String → Bool) (key : String) (pairs : List (String × α)) :
    lookupPair key (pairs.filter fun pair => isKept pair.1) =
      if isKept key then lookupPair key pairs else none := by
  induction pairs with
  | nil => simp [lookupPair]
  | cons pair rest ih =>
    obtain ⟨name, value⟩ := pair
    by_cases isName : name = key
    · subst isName
      by_cases keeps : isKept name = true <;> simp [lookupPair, keeps, ih]
    · by_cases keeps : isKept name = true <;> simp [lookupPair, keeps, isName, ih]

/-- Distinct names with related values, in whatever order. -/
structure PairsMatch (related : α → β → Prop) (pairs : List (String × α))
    (others : List (String × β)) : Prop where
  distinct : (pairs.map Prod.fst).Nodup
  otherDistinct : (others.map Prod.fst).Nodup
  each : ∀ key, Option.Rel related (lookupPair key pairs) (lookupPair key others)

/-- Each pair is read with its name. -/
def readPairs (read : String → α → Option γ) (pairs : List (String × α)) :
    Option (List (String × γ)) :=
  pairs.mapM fun pair => (read pair.1 pair.2).map fun item => (pair.1, item)

theorem readPairs_cons (read : String → α → Option γ) (pair : String × α)
    (rest : List (String × α)) :
    readPairs read (pair :: rest) = (read pair.1 pair.2).bind fun item =>
      (readPairs read rest).map fun items => (pair.1, item) :: items := by
  rw [readPairs, List.mapM_cons]
  cases read pair.1 pair.2 with
  | none => rfl
  | some item =>
    show Option.bind (readPairs read rest) _ = _
    cases readPairs read rest <;> rfl

/-- The results stand under the names of what they were read from. -/
theorem keys_readPairs {read : String → α → Option γ} {pairs : List (String × α)}
    {results : List (String × γ)} (areRead : readPairs read pairs = some results) :
    results.map Prod.fst = pairs.map Prod.fst ∧
      ∀ key, lookupPair key results = (lookupPair key pairs).bind (read key) := by
  induction pairs generalizing results with
  | nil =>
    obtain rfl := Option.some.inj areRead
    exact ⟨rfl, fun _ => rfl⟩
  | cons pair rest ih =>
    obtain ⟨name, value⟩ := pair
    simp only [readPairs_cons, Option.bind_eq_some_iff, Option.map_eq_some_iff] at areRead
    obtain ⟨item, isItem, items, areItems, rfl⟩ := areRead
    obtain ⟨sameKeys, lookups⟩ := ih areItems
    refine ⟨congrArg (name :: ·) sameKeys, fun key => ?_⟩
    rw [lookupPair, lookupPair]
    by_cases isName : name = key
    · subst isName
      rw [if_pos rfl, if_pos rfl, Option.bind_some, isItem]
    · rw [if_neg isName, if_neg isName, lookups]

/-- Reading fails where it fails for one of the pairs. -/
theorem readPairs_eq_none_iff {read : String → α → Option γ} {pairs : List (String × α)} :
    readPairs read pairs = none ↔ ∃ pair ∈ pairs, read pair.1 pair.2 = none := by
  induction pairs with
  | nil =>
    constructor
    · intro isNone
      cases isNone
    · rintro ⟨_, isIn, _⟩
      cases isIn
  | cons pair rest ih =>
    rw [readPairs_cons]
    cases isRead : read pair.1 pair.2 with
    | none => simp [isRead]
    | some item => simp [isRead, ih]

namespace PairsMatch

variable {related : α → β → Prop} {target : γ → δ → Prop} {pairs : List (String × α)}
  {others : List (String × β)}

theorem symm (same : PairsMatch related pairs others) :
    PairsMatch (fun other value => related value other) others pairs :=
  ⟨same.otherDistinct, same.distinct, fun key =>
    optionRel_iff.mpr (optionRel_iff.mp (same.each key)).symm⟩

/-- What one list holds has a related value in the other. -/
theorem exists_of_mem (same : PairsMatch related pairs others) {key : String} {value : α}
    (isPair : (key, value) ∈ pairs) : ∃ other, (key, other) ∈ others ∧ related value other := by
  obtain ⟨other, isOther, isRelated⟩ :=
    (optionRel_iff.mp (same.each key)).1 value (lookupPair_of_mem same.distinct isPair)
  exact ⟨other, mem_of_lookupPair isOther, isRelated⟩

/-- Pairs match when each of them has a related one on the other side. -/
theorem of_mem (distinct : (pairs.map Prod.fst).Nodup) (otherDistinct : (others.map Prod.fst).Nodup)
    (forth : ∀ key value, (key, value) ∈ pairs →
      ∃ other, (key, other) ∈ others ∧ related value other)
    (back : ∀ key other, (key, other) ∈ others →
      ∃ value, (key, value) ∈ pairs ∧ related value other) :
    PairsMatch related pairs others := by
  refine ⟨distinct, otherDistinct, fun key => optionRel_iff.mpr ⟨fun value found => ?_, ?_⟩⟩
  · obtain ⟨other, isOther, isRelated⟩ := forth key value (mem_of_lookupPair found)
    exact ⟨other, lookupPair_of_mem otherDistinct isOther, isRelated⟩
  · intro other found
    obtain ⟨value, isPair, isRelated⟩ := back key other (mem_of_lookupPair found)
    exact ⟨value, lookupPair_of_mem distinct isPair, isRelated⟩

theorem filter (same : PairsMatch related pairs others) (isKept : String → Bool) :
    PairsMatch related (pairs.filter fun pair => isKept pair.1)
      (others.filter fun pair => isKept pair.1) := by
  refine ⟨same.distinct.sublist (List.filter_sublist.map _),
    same.otherDistinct.sublist (List.filter_sublist.map _), fun key => ?_⟩
  rw [lookupPair_filter, lookupPair_filter]
  split
  · exact same.each key
  · exact .none

theorem read_eq_none (same : PairsMatch related pairs others) {read : String → α → Option γ}
    {otherRead : String → β → Option δ}
    (each : ∀ key value other, related value other →
      read key value = none → otherRead key other = none)
    (isNone : readPairs read pairs = none) : readPairs otherRead others = none := by
  obtain ⟨⟨key, value⟩, isPair, isUnread⟩ := readPairs_eq_none_iff.mp isNone
  obtain ⟨other, isOther, isRelated⟩ := same.exists_of_mem isPair
  exact readPairs_eq_none_iff.mpr
    ⟨(key, other), isOther, each key value other isRelated isUnread⟩

/-- Matching pairs are read into matching pairs, or neither list can be read. -/
theorem read (same : PairsMatch related pairs others) {read : String → α → Option γ}
    {otherRead : String → β → Option δ}
    (each : ∀ key value other, related value other →
      Option.Rel target (read key value) (otherRead key other)) :
    Option.Rel (PairsMatch target) (readPairs read pairs) (readPairs otherRead others) := by
  have noneBoth : ∀ key value other, related value other →
      (read key value = none ↔ otherRead key other = none) :=
    fun key value other isRelated => eq_none_iff_of_optionRel (each key value other isRelated)
  cases areRead : readPairs read pairs with
  | none =>
    rw [same.read_eq_none (fun key value other isRelated =>
      (noneBoth key value other isRelated).mp) areRead]
    exact .none
  | some results =>
    cases areOthers : readPairs otherRead others with
    | none =>
      rw [same.symm.read_eq_none (fun key other value isRelated =>
        (noneBoth key value other isRelated).mpr) areOthers] at areRead
      cases areRead
    | some otherResults =>
      obtain ⟨sameKeys, lookups⟩ := keys_readPairs areRead
      obtain ⟨sameOtherKeys, otherLookups⟩ := keys_readPairs areOthers
      refine .some ⟨sameKeys ▸ same.distinct, sameOtherKeys ▸ same.otherDistinct, fun key => ?_⟩
      rw [lookups, otherLookups]
      exact optionRel_bind (same.each key) (each key)

end PairsMatch

/-! ### Maps -/

namespace OrderedMap

/-- Two maps have related values under the same names. -/
def Matches (related : α → β → Prop) (m : OrderedMap α) (n : OrderedMap β) : Prop :=
  ∀ key, Option.Rel related (m.get? key) (n.get? key)

theorem Matches.of_pairs {related : α → β → Prop} {pairs : List (String × α)}
    {others : List (String × β)} (same : PairsMatch related pairs others) :
    (ofList pairs).Matches related (ofList others) := by
  intro key
  rw [get?, get?, entries_ofList same.distinct, entries_ofList same.otherDistinct]
  exact same.each key

theorem Matches.symm {related : α → β → Prop} {m : OrderedMap α} {n : OrderedMap β}
    (same : m.Matches related n) : n.Matches (fun other value => related value other) m :=
  fun key => optionRel_iff.mpr (optionRel_iff.mp (same key)).symm

theorem Matches.imp {related target : α → β → Prop} {m : OrderedMap α} {n : OrderedMap β}
    (same : m.Matches related n) (each : ∀ value other, related value other → target value other) :
    m.Matches target n :=
  fun key => optionRel_imp (same key) each

/-- Maps with equal values under the same names are equal. -/
theorem beq_of_matches [BEq α] {m n : OrderedMap α}
    (same : m.Matches (fun value other => (other == value) = true) n) : (m == n) = true := by
  have sameKeys : m.keys.Perm n.keys := by
    refine (List.perm_ext_iff_of_nodup m.distinct n.distinct).mpr fun key => ?_
    show key ∈ m.keys ↔ key ∈ n.keys
    rw [m.mem_keys, n.mem_keys]
    obtain ⟨forth, back⟩ := optionRel_iff.mp (same key)
    constructor
    · rintro ⟨value, found⟩
      obtain ⟨other, isOther, _⟩ := forth value found
      exact ⟨other, isOther⟩
    · rintro ⟨other, found⟩
      obtain ⟨value, isValue, _⟩ := back other found
      exact ⟨value, isValue⟩
  have sameSize : m.size = n.size := by
    have sameLength := sameKeys.length_eq
    rwa [keys, keys, List.length_map, List.length_map] at sameLength
  exact beq_of_get? sameSize fun key value found => (optionRel_iff.mp (same key)).1 value found

theorem beq_of_get?_eq [BEq α] [ReflBEq α] {m n : OrderedMap α}
    (same : ∀ key, m.get? key = n.get? key) : (m == n) = true := by
  refine beq_of_matches fun key => ?_
  rw [← same key]
  cases m.get? key with
  | none => exact .none
  | some value => exact .some (beq_self_eq_true value)

end OrderedMap

end Bindery
