/-
**Items in the order in which passes meet them.**

Some passes go over the same items, and each pass meets those with a property of its own. The first
pass that meets an item decides where it stands; inside one pass the items keep their order.

* `arrange` — that order; it is a rearrangement (`arrange_perm`).
* `names_foldl_insert_passes` — a set of names that is filled pass by pass has that order.
* `arrange_eq_self_iff` — when it is the order in which the items stood before.
-/

import Mathlib.Data.List.Nodup
import Bindery.Proofs.OrderedMap

namespace Bindery

variable {α : Type}

/-- The items that the first pass meets, then those that the second one meets first, and so on;
items that no pass meets stand last. -/
def arrange : List (α → Bool) → List α → List α
  | [], items => items
  | isMet :: later, items => items.filter isMet ++ arrange later (items.filter (!isMet ·))

theorem arrange_perm (passes : List (α → Bool)) (items : List α) :
    (arrange passes items).Perm items := by
  induction passes generalizing items with
  | nil => exact .refl _
  | cons isMet later ih =>
    have parts := List.filter_append_perm isMet items
    exact ((ih _).append_left _).trans parts

theorem arrange_map {β : Type} (change : β → α) (passes : List (α → Bool)) (items : List β) :
    arrange passes (items.map change) = (arrange (passes.map (· ∘ change)) items).map change := by
  induction passes generalizing items with
  | nil => rfl
  | cons isMet later ih =>
    rw [List.map_cons, arrange, arrange, List.map_append, ← ih, List.filter_map, List.filter_map]
    rfl

/-! ### Arrival -/

/-- A set that is filled pass by pass with the names of the items that each pass meets. -/
theorem names_foldl_insert_passes {passes : List (α → Bool)} {items : List α} {key : α → String}
    (distinct : (items.map key).Nodup) {s : NameSet}
    (met : ∀ item ∈ items, key item ∉ s.names → passes.any (· item) = true) :
    ((passes.flatMap fun isMet => (items.filter isMet).map key).foldl NameSet.insert s).names =
      s.names ++ (arrange passes (items.filter fun item => key item ∉ s.names)).map key := by
  induction passes generalizing s with
  | nil =>
    have none : items.filter (fun item => key item ∉ s.names) = [] := by
      rw [List.filter_eq_nil_iff]
      intro item isItem isNew
      simpa using met item isItem (by simpa using isNew)
    rw [none]
    simp [arrange]
  | cons isMet later ih =>
    have distinctMet : ((items.filter isMet).map key).Nodup :=
      distinct.sublist ((List.filter_sublist).map key)
    have behind := NameSet.names_foldl_insert_of_nodup (s := s) distinctMet
    have injective := List.inj_on_of_nodup_map distinct
    rw [List.flatMap_cons, List.foldl_append]
    generalize ((items.filter isMet).map key).foldl NameSet.insert s = filled at behind ⊢
    have isThere : ∀ item ∈ items,
        (key item ∈ filled.names ↔ key item ∈ s.names ∨ isMet item = true) := by
      intro item isItem
      rw [behind, List.mem_append]
      refine or_congr_right' fun isNew => ?_
      simp only [List.mem_filter, List.mem_map, decide_eq_true_eq]
      constructor
      · rintro ⟨⟨other, ⟨isOther, isMetOther⟩, same⟩, _⟩
        exact injective isOther isItem same ▸ isMetOther
      · exact fun isMetItem => ⟨⟨item, ⟨isItem, isMetItem⟩, rfl⟩, isNew⟩
    have metLater : ∀ item ∈ items, key item ∉ filled.names → later.any (· item) = true := by
      intro item isItem isNew
      rw [isThere item isItem, not_or] at isNew
      simpa [isNew.2] using met item isItem isNew.1
    have sameMet : ((items.filter isMet).map key).filter (· ∉ s.names) =
        ((items.filter fun item => key item ∉ s.names).filter isMet).map key := by
      rw [List.filter_map, List.filter_filter, List.filter_filter]
      exact congrArg _ (List.filter_congr fun item _ => Bool.and_comm ..)
    have sameRest : items.filter (fun item => key item ∉ filled.names) =
        (items.filter fun item => key item ∉ s.names).filter (!isMet ·) := by
      rw [List.filter_filter]
      refine List.filter_congr fun item isItem => ?_
      rw [Bool.eq_iff_iff]
      simp [isThere item isItem, and_comm]
    rw [ih metLater, sameRest, behind, sameMet, arrange, List.map_append, List.append_assoc]

/-- Writing a name once for each item of a group is writing it once, if there is an item. -/
theorem foldl_insert_groups {β : Type} (s : NameSet) (items : List α) (key : α → String)
    (group : α → List β) :
    ((items.flatMap fun item => (group item).map (key item, ·)).map Prod.fst).foldl
        NameSet.insert s =
      ((items.filter fun item => !(group item).isEmpty).map key).foldl NameSet.insert s := by
  induction items generalizing s with
  | nil => rfl
  | cons item rest ih =>
    rw [List.flatMap_cons, List.map_append, List.foldl_append, ih]
    cases isGroup : group item with
    | nil => simp [isGroup]
    | cons first others =>
      have onlyKey : ∀ name ∈ (others.map (key item, ·)).map Prod.fst,
          name ∈ (s.insert (key item)).names := by
        intro name isName
        simp only [List.mem_map] at isName
        obtain ⟨pair, ⟨_, _, rfl⟩, rfl⟩ := isName
        exact (NameSet.mem_insert ..).mpr (.inl rfl)
      rw [List.map_cons, List.map_cons, List.foldl_cons, NameSet.foldl_insert_of_subset onlyKey,
        List.filter_cons_of_pos (by simp [isGroup]), List.map_cons, List.foldl_cons]

/-- Pass by pass, writing the names of groups is writing those of the groups with an item. -/
theorem foldl_insert_passes {β π : Type} (s : NameSet) (passes : List π) (items : List α)
    (key : α → String) (group : π → α → List β) :
    ((passes.flatMap fun pass => items.flatMap fun item =>
        (group pass item).map (key item, ·)).map Prod.fst).foldl NameSet.insert s =
      ((passes.map fun pass item => !(group pass item).isEmpty).flatMap fun isMet =>
        (items.filter isMet).map key).foldl NameSet.insert s := by
  induction passes generalizing s with
  | nil => rfl
  | cons pass later ih =>
    rw [List.flatMap_cons, List.map_append, List.foldl_append, foldl_insert_groups, ih,
      List.map_cons, List.flatMap_cons, List.foldl_append]

/-- Passes behind those that meet every item move nothing. -/
theorem arrange_append_of_met {first : List (α → Bool)} {items : List α}
    (met : ∀ item ∈ items, first.any (· item) = true) (later : List (α → Bool)) :
    arrange (first ++ later) items = arrange first items := by
  induction first generalizing items with
  | nil =>
    have none : items = [] := by
      rw [List.eq_nil_iff_forall_not_mem]
      intro item isItem
      simpa using met item isItem
    subst none
    exact List.perm_nil.mp (arrange_perm later [])
  | cons isMet others ih =>
    rw [List.cons_append, arrange, arrange, ih]
    intro item isItem
    obtain ⟨isOld, notMet⟩ := List.mem_filter.mp isItem
    simpa [show isMet item = false by simpa using notMet] using met item isOld

namespace OrderedMap

/-- The map with its pairs in the order in which passes over the values meet them. -/
def arrange (passes : List (α → Bool)) (m : OrderedMap α) : OrderedMap α :=
  ⟨Bindery.arrange (passes.map (· ∘ Prod.snd)) m.entries,
    ((arrange_perm _ m.entries).map Prod.fst).nodup_iff.mpr m.distinct⟩

theorem get?_arrange (passes : List (α → Bool)) (m : OrderedMap α) (key : String) :
    (m.arrange passes).get? key = m.get? key := by
  refine Option.ext fun value => ?_
  rw [get?_eq_some_iff, get?_eq_some_iff]
  exact (arrange_perm _ m.entries).mem_iff

theorem values_arrange (passes : List (α → Bool)) (m : OrderedMap α) :
    (m.arrange passes).values = Bindery.arrange passes m.values :=
  (arrange_map Prod.snd passes m.entries).symm

/-- Passes that meet every value fill a set with the names in the order of the passes. -/
theorem Forall.foldl_insert_passes {m : OrderedMap α} {nameOf : α → String}
    (named : m.Forall fun key value => nameOf value = key) {passes : List (α → Bool)}
    (met : ∀ value ∈ m.values, passes.any (· value) = true) :
    (passes.flatMap fun isMet => (m.values.filter isMet).map nameOf).foldl NameSet.insert .empty =
      (m.arrange passes).nameSet := by
  apply NameSet.ext
  have distinct : (m.values.map nameOf).Nodup := named.map_values ▸ m.distinct
  rw [names_foldl_insert_passes distinct fun value isValue _ => met value isValue]
  have all : m.values.filter (fun value => nameOf value ∉ NameSet.empty.names) =
      m.entries.map Prod.snd :=
    List.filter_eq_self.mpr fun _ _ => by simp [NameSet.empty]
  rw [all, arrange_map, List.map_map]
  refine List.map_congr_left fun pair isPair => ?_
  exact named.of_mem (show (pair.1, pair.2) ∈ m.entries from (arrange_perm _ _).subset isPair)

end OrderedMap

/-! ### When nothing moves -/

/-- The number of passes before the first one that meets an item. -/
def firstPass (passes : List (α → Bool)) (item : α) : Nat := passes.findIdx (· item)

theorem firstPass_cons_of_met {isMet : α → Bool} {item : α} (met : isMet item = true)
    (later : List (α → Bool)) : firstPass (isMet :: later) item = 0 := by
  simp [firstPass, List.findIdx_cons, met]

theorem firstPass_cons_of_not_met {isMet : α → Bool} {item : α} (notMet : isMet item = false)
    (later : List (α → Bool)) : firstPass (isMet :: later) item = firstPass later item + 1 := by
  simp [firstPass, List.findIdx_cons, notMet]

theorem pairwise_arrange (passes : List (α → Bool)) (items : List α) :
    (arrange passes items).Pairwise fun a b => firstPass passes a ≤ firstPass passes b := by
  induction passes generalizing items with
  | nil => exact List.pairwise_of_forall fun _ _ => Nat.le_refl _
  | cons isMet later ih =>
    rw [arrange, List.pairwise_append]
    have notMet : ∀ item ∈ arrange later (items.filter (!isMet ·)), isMet item = false := by
      intro item isItem
      simpa using (List.mem_filter.mp ((arrange_perm _ _).subset isItem)).2
    refine ⟨?_, ?_, ?_⟩
    · rw [List.pairwise_iff_forall_sublist]
      intro a b isSublist
      have isIn : a ∈ items.filter isMet := isSublist.subset (List.mem_cons_self ..)
      rw [firstPass_cons_of_met (List.mem_filter.mp isIn).2]
      exact Nat.zero_le _
    · refine (ih _).imp_of_mem fun isFirst isSecond ordered => ?_
      rw [firstPass_cons_of_not_met (notMet _ isFirst),
        firstPass_cons_of_not_met (notMet _ isSecond)]
      exact Nat.succ_le_succ ordered
    · intro a isIn b _
      rw [firstPass_cons_of_met (List.mem_filter.mp isIn).2]
      exact Nat.zero_le _

/-- Items that already stand by their first pass fall apart where the first pass ends. -/
theorem filter_append_filter_of_pairwise {isMet : α → Bool} {later : List (α → Bool)}
    {items : List α} (ordered : items.Pairwise fun a b =>
      firstPass (isMet :: later) a ≤ firstPass (isMet :: later) b) :
    items.filter isMet ++ items.filter (!isMet ·) = items := by
  induction items with
  | nil => rfl
  | cons item rest ih =>
    rw [List.pairwise_cons] at ordered
    cases met : isMet item with
    | true => simpa [met] using ih ordered.2
    | false =>
      have noneMet : rest.filter isMet = [] := by
        rw [List.filter_eq_nil_iff]
        intro other isLater isMetOther
        have := ordered.1 other isLater
        rw [firstPass_cons_of_not_met met, firstPass_cons_of_met isMetOther] at this
        omega
      have allLater : rest.filter (!isMet ·) = rest := by
        simpa [noneMet] using ih ordered.2
      simp [met, noneMet, allLater]

/-- Nothing moves exactly when the items already stand by the first pass that meets them. -/
theorem arrange_eq_self_iff (passes : List (α → Bool)) (items : List α) :
    arrange passes items = items ↔
      items.Pairwise fun a b => firstPass passes a ≤ firstPass passes b := by
  constructor
  · exact fun same => same ▸ pairwise_arrange passes items
  · intro ordered
    induction passes generalizing items with
    | nil => rfl
    | cons isMet later ih =>
      rw [arrange, ih, filter_append_filter_of_pairwise ordered]
      refine (ordered.filter _).imp_of_mem fun {a b} isFirst isSecond inOrder => ?_
      have firstNotMet : isMet a = false := by simpa using (List.mem_filter.mp isFirst).2
      have secondNotMet : isMet b = false := by simpa using (List.mem_filter.mp isSecond).2
      rw [firstPass_cons_of_not_met firstNotMet, firstPass_cons_of_not_met secondNotMet] at inOrder
      exact Nat.le_of_succ_le_succ inOrder

theorem OrderedMap.arrange_eq_self_iff (passes : List (α → Bool)) (m : OrderedMap α) :
    m.arrange passes = m ↔
      m.values.Pairwise fun a b => firstPass passes a ≤ firstPass passes b := by
  have sameMaps : m.arrange passes = m ↔
      Bindery.arrange (passes.map (· ∘ Prod.snd)) m.entries = m.entries := by
    constructor
    · exact fun same => congrArg OrderedMap.entries same
    · intro same
      cases m
      exact OrderedMap.mk.injEq .. ▸ same
  have sameFirst : ∀ pair : String × α,
      firstPass (passes.map (· ∘ Prod.snd)) pair = firstPass passes pair.2 := by
    intro pair
    simp [firstPass, List.findIdx_map, Function.comp_def]
  rw [sameMaps, Bindery.arrange_eq_self_iff, values, List.pairwise_map]
  simp only [sameFirst]

end Bindery
