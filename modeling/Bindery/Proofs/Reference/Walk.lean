/-
**The walk over the compounds of a folder.**

Namespaces come first, then files, classes and structs, each kind in the order of the index. A
member takes effect where its identifier comes first; what comes first is asked of the whole walk,
not of a set that grows along it.

* `IsWalk` — compounds with their definitions, in that order.
* `effects` — the compounds with the members that take effect in them.
* `extract_eq_ok` — a successful extraction is the contributions of these members.
-/

import Bindery.Reference.Extract

namespace Bindery.Reference

open Symbols Xml

/-! ### Visits -/

/-- A compound with the definition in its document. -/
structure Visit where
  compound : Compound
  definition : Xml.Element

namespace Visit

/-- The name of the compound, which its document may give anew. -/
def name (visit : Visit) : String :=
  (visit.definition.childText? "compoundname").getD visit.compound.name

/-- The header of a member of the compound that gives none itself. -/
def header (visit : Visit) (options : Options) : String :=
  headerOf options visit.definition visit.compound.name

/-- The scope of the members of a namespace or a file. -/
def scope? (visit : Visit) : Option String :=
  match visit.compound.kind with
  | .scope => some visit.name
  | .file => some rootScope
  | .classKind | .structKind => none

/-- The members in document order. -/
def members (visit : Visit) : List Xml.Element := membersOf visit.definition

end Visit

/-- The compounds of the index by kind, each with the definition in its document. -/
structure IsWalk (folder : String) (tree : FileTree) (visits : List Visit) : Prop where
  order : ∃ index, readIndex folder tree = .ok index ∧
    visits.map Visit.compound =
      index.filter (·.kind = .scope) ++ index.filter (·.kind = .file) ++
        index.filter (·.kind = .classKind) ++ index.filter (·.kind = .structKind)
  definitions : ∀ visit ∈ visits, readDefinition folder tree visit.compound = .ok visit.definition

/-- There is one walk at most. -/
theorem IsWalk.unique {folder : String} {tree : FileTree} {visits others : List Visit}
    (isWalk : IsWalk folder tree visits) (isOther : IsWalk folder tree others) :
    visits = others := by
  obtain ⟨index, isIndex, order⟩ := isWalk.order
  obtain ⟨same, isSame, otherOrder⟩ := isOther.order
  obtain rfl := Except.ok.inj (isIndex.symm.trans isSame)
  have byCompound : ∀ visits : List Visit, (∀ visit ∈ visits,
      readDefinition folder tree visit.compound = .ok visit.definition) →
      visits.map (fun visit => Except.ok visit) =
        (visits.map Visit.compound).map fun compound =>
          (readDefinition folder tree compound).map (Visit.mk compound) := by
    intro visits definitions
    rw [List.map_map]
    refine List.map_congr_left fun visit isVisit => ?_
    rw [Function.comp_apply, definitions visit isVisit]
    rfl
  have sameReadings := byCompound visits isWalk.definitions
  rw [order, ← otherOrder, ← byCompound others isOther.definitions] at sameReadings
  exact (List.map_inj_right fun _ _ => Except.ok.inj).mp sameReadings

/-! ### Members that take effect -/

/-- The identifier of a member; it is empty when there is none. -/
def memberId (member : Xml.Element) : String := (member.attribute? "id").getD ""

/-- The members whose identifier is empty or belongs neither to one before them nor to one of
`before`. -/
def firstMembers (before members : List Xml.Element) : List Xml.Element :=
  (members.zipIdx.filter fun (member, i) =>
    memberId member == "" ||
      !(before ++ members.take i).any (memberId · == memberId member)).map Prod.fst

/-- The visits of a walk, each with the members that take effect in it when `before` comes before
all of them: no member before, in the same compound or an earlier one, has the identifier. -/
def effectsFrom (before : List Xml.Element) (visits : List Visit) :
    List (Visit × List Xml.Element) :=
  visits.zipIdx.map fun (visit, i) =>
    (visit, firstMembers (before ++ (visits.take i).flatMap Visit.members) visit.members)

/-- The visits of a whole walk, each with the members that take effect in it. -/
def effects (visits : List Visit) : List (Visit × List Xml.Element) := effectsFrom [] visits

theorem firstMembers_cons (before : List Xml.Element) (member : Xml.Element)
    (rest : List Xml.Element) :
    firstMembers before (member :: rest) =
      (if memberId member = "" ∨ memberId member ∉ before.map memberId then [member] else []) ++
        firstMembers (before ++ [member]) rest := by
  have isFirst : (memberId member == "" || !before.any (memberId · == memberId member)) =
      decide (memberId member = "" ∨ memberId member ∉ before.map memberId) := by
    rw [Bool.eq_iff_iff]
    simp [List.mem_map]
  rw [firstMembers, List.zipIdx_cons, List.zipIdx_succ, List.filter_cons, List.filter_map]
  simp only [List.take_zero, List.append_nil, isFirst, decide_eq_true_eq, Function.comp_def,
    List.take_succ_cons, firstMembers, List.append_assoc, List.singleton_append]
  split <;> simp [Function.comp_def]

theorem effectsFrom_cons (before : List Xml.Element) (visit : Visit) (rest : List Visit) :
    effectsFrom before (visit :: rest) =
      (visit, firstMembers before visit.members) :: effectsFrom (before ++ visit.members) rest := by
  simp [effectsFrom, List.zipIdx_cons, List.zipIdx_succ, Function.comp_def]

theorem freshMembers_cons (seen : List String) (member : Xml.Element) (rest : List Xml.Element) :
    freshMembers seen (member :: rest) =
      if memberId member = "" then
        (member :: (freshMembers seen rest).1, (freshMembers seen rest).2)
      else if memberId member ∈ seen then freshMembers seen rest
      else
        (member :: (freshMembers (memberId member :: seen) rest).1,
          (freshMembers (memberId member :: seen) rest).2) := by
  simp only [freshMembers, String.isEmpty_iff, List.contains_iff_mem]
  rfl

/-- A set that holds the identifiers of what comes before lets the members that come first pass, and
holds their identifiers afterwards. -/
theorem freshMembers_eq {seen : List String} {before : List Xml.Element}
    (known : ∀ id, id ≠ "" → (id ∈ seen ↔ id ∈ before.map memberId)) (members : List Xml.Element) :
    (freshMembers seen members).1 = firstMembers before members ∧
      ∀ id, id ≠ "" → (id ∈ (freshMembers seen members).2 ↔
        id ∈ (before ++ members).map memberId) := by
  induction members generalizing seen before with
  | nil => exact ⟨rfl, by rwa [List.append_nil]⟩
  | cons member rest ih =>
    rw [firstMembers_cons, freshMembers_cons, List.append_cons before member rest]
    by_cases isEmpty : memberId member = ""
    · have stillKnown : ∀ id, id ≠ "" → (id ∈ seen ↔ id ∈ (before ++ [member]).map memberId) := by
        intro id notEmpty
        simp [known id notEmpty, isEmpty, notEmpty]
      obtain ⟨ofRest, isKnown⟩ := ih stillKnown
      rw [if_pos isEmpty, if_pos (.inl isEmpty), ofRest]
      exact ⟨rfl, isKnown⟩
    by_cases isSeen : memberId member ∈ seen
    · have stillKnown : ∀ id, id ≠ "" → (id ∈ seen ↔ id ∈ (before ++ [member]).map memberId) := by
        intro id notEmpty
        have covered : id = memberId member → id ∈ before.map memberId := fun same =>
          same ▸ (known _ isEmpty).mp isSeen
        rw [known id notEmpty, List.map_append, List.mem_append, List.map_singleton,
          List.mem_singleton]
        exact ⟨.inl, fun either => either.elim (fun isBefore => isBefore) covered⟩
      obtain ⟨ofRest, isKnown⟩ := ih stillKnown
      have notFirst : ¬ (memberId member = "" ∨ memberId member ∉ before.map memberId) := by
        simpa [isEmpty] using (known _ isEmpty).mp isSeen
      rw [if_neg isEmpty, if_pos isSeen, if_neg notFirst, ofRest]
      exact ⟨rfl, isKnown⟩
    · have nowKnown : ∀ id, id ≠ "" →
          (id ∈ memberId member :: seen ↔ id ∈ (before ++ [member]).map memberId) := by
        intro id notEmpty
        simp [known id notEmpty, or_comm]
      obtain ⟨ofRest, isKnown⟩ := ih nowKnown
      have isFirst : memberId member = "" ∨ memberId member ∉ before.map memberId :=
        .inr fun isBefore => isSeen ((known _ isEmpty).mpr isBefore)
      rw [if_neg isEmpty, if_neg isSeen, if_pos isFirst, ofRest]
      exact ⟨rfl, isKnown⟩

/-! ### What takes effect -/

theorem mem_firstMembers {before members : List Xml.Element} {member : Xml.Element}
    (isFirst : member ∈ firstMembers before members) :
    memberId member = "" ∨ memberId member ∉ before.map memberId := by
  obtain ⟨⟨found, i⟩, isMember, rfl⟩ := List.mem_map.mp isFirst
  have passes := (List.mem_filter.mp isMember).2
  simp only [Bool.or_eq_true, beq_iff_eq, Bool.not_eq_true', List.any_append,
    Bool.or_eq_false_iff] at passes
  refine passes.imp_right fun ⟨isNew, _⟩ isBefore => ?_
  obtain ⟨other, isOther, sameId⟩ := List.mem_map.mp isBefore
  exact List.any_eq_false.mp isNew other isOther (beq_iff_eq.mpr sameId)

theorem exists_of_mem_effects {visits : List Visit} {visit : Visit} {members : List Xml.Element}
    (isEffect : (visit, members) ∈ effects visits) :
    ∃ i, visits[i]? = some visit ∧
      members = firstMembers ((visits.take i).flatMap Visit.members) visit.members := by
  obtain ⟨⟨_, i⟩, isVisit, same⟩ := List.mem_map.mp isEffect
  obtain ⟨rfl, rfl⟩ := Prod.mk.inj same
  exact ⟨i, List.mem_zipIdx_iff_getElem?.mp isVisit, rfl⟩

/-- No namespace comes behind a file. -/
theorem IsWalk.pairwise {folder : String} {tree : FileTree} {visits : List Visit}
    (isWalk : IsWalk folder tree visits) :
    visits.Pairwise fun visit later =>
      visit.compound.kind = .file → later.compound.kind ≠ .scope := by
  obtain ⟨index, _, order⟩ := isWalk.order
  have ofKind : ∀ {kind : CompoundKind} {compound : Compound},
      compound ∈ index.filter (·.kind = kind) → compound.kind = kind := by
    intro kind compound isIn
    simpa using (List.mem_filter.mp isIn).2
  have kindsApart : [CompoundKind.scope, .file, .classKind, .structKind].Pairwise fun kind later =>
      kind = .file → later ≠ .scope := by decide
  have byCompound : (visits.map Visit.compound).Pairwise fun compound later =>
      compound.kind = .file → later.kind ≠ .scope := by
    have asGroups : visits.map Visit.compound =
        [CompoundKind.scope, .file, .classKind, .structKind].flatMap fun kind =>
          index.filter (·.kind = kind) := by
      simp [order]
    rw [asGroups, List.pairwise_flatMap]
    refine ⟨fun kind _ => ?_, kindsApart.imp fun apart compound isIn later isLater => ?_⟩
    · refine List.pairwise_of_forall_mem_list fun compound isIn later isLater isFile => ?_
      rw [ofKind isLater, ← ofKind isIn, isFile]
      decide
    · rw [ofKind isIn, ofKind isLater]
      exact apart
  exact List.pairwise_map.mp byCompound

/-- A member that takes effect in a file stands in no namespace. -/
theorem IsWalk.memberId_ne {folder : String} {tree : FileTree} {visits : List Visit}
    (isWalk : IsWalk folder tree visits) {file : Visit} {members : List Xml.Element}
    (isEffect : (file, members) ∈ effects visits) (isFile : file.compound.kind = .file)
    {member : Xml.Element} (isMember : member ∈ members) (hasId : memberId member ≠ "")
    {scope : Visit} (isVisit : scope ∈ visits) (isScope : scope.compound.kind = .scope)
    {other : Xml.Element} (isOther : other ∈ scope.members) : memberId other ≠ memberId member := by
  intro sameId
  obtain ⟨i, isAt, rfl⟩ := exists_of_mem_effects isEffect
  obtain ⟨j, isThere⟩ := List.mem_iff_getElem?.mp isVisit
  have isEarlier : j < i := by
    refine Nat.lt_of_not_le fun notEarlier => ?_
    rcases Nat.lt_or_eq_of_le notEarlier with isLater | rfl
    · obtain ⟨isIndex, rfl⟩ := List.getElem?_eq_some_iff.mp isAt
      obtain ⟨isOtherIndex, rfl⟩ := List.getElem?_eq_some_iff.mp isThere
      exact List.pairwise_iff_getElem.mp isWalk.pairwise i j isIndex isOtherIndex isLater isFile
        isScope
    · rw [isAt, Option.some.injEq] at isThere
      rw [isThere, isScope] at isFile
      cases isFile
  have isBefore : scope ∈ visits.take i :=
    List.mem_iff_getElem?.mpr ⟨j, by rw [List.getElem?_take_of_lt isEarlier, isThere]⟩
  refine (mem_firstMembers isMember).elim hasId fun isNew => isNew ?_
  exact List.mem_map.mpr ⟨other, List.mem_flatMap.mpr ⟨scope, isBefore, isOther⟩, sameId⟩

/-! ### Extraction -/

theorem findingsFrom_eq_ok {options : Options} {folder : String} {tree : FileTree}
    {seen : List String} {before : List Xml.Element}
    (known : ∀ id, id ≠ "" → (id ∈ seen ↔ id ∈ before.map memberId))
    {compounds : List Compound} {findings : List Finding}
    (succeeds : findingsFrom options folder tree seen compounds = .ok findings) :
    ∃ visits : List Visit, visits.map Visit.compound = compounds ∧
      (∀ visit ∈ visits, readDefinition folder tree visit.compound = .ok visit.definition) ∧
      findings = (effectsFrom before visits).flatMap fun (visit, members) =>
        compoundFindings options visit.compound visit.definition members := by
  induction compounds generalizing seen before findings with
  | nil =>
    obtain rfl := Except.ok.inj succeeds
    exact ⟨[], rfl, by simp, rfl⟩
  | cons compound rest ih =>
    rw [findingsFrom] at succeeds
    cases isRead : readDefinition folder tree compound with
    | error failure =>
      rw [isRead] at succeeds
      cases succeeds
    | ok definition =>
      obtain ⟨isFresh, isKnown⟩ := freshMembers_eq known (membersOf definition)
      cases isRest : findingsFrom options folder tree
          (freshMembers seen (membersOf definition)).2 rest with
      | error failure =>
        simp only [isRead, isRest, bind, Except.bind] at succeeds
        cases succeeds
      | ok others =>
        obtain ⟨visits, isOrder, definitions, isOthers⟩ := ih isKnown isRest
        simp only [isRead, isRest, bind, Except.bind] at succeeds
        obtain rfl := Except.ok.inj succeeds
        refine ⟨⟨compound, definition⟩ :: visits, by rw [List.map_cons, isOrder], ?_, ?_⟩
        · exact List.forall_mem_cons.mpr ⟨isRead, definitions⟩
        · rw [effectsFrom_cons, List.flatMap_cons, isFresh, isOthers]
          rfl

/-- A successful extraction is the contributions of the members that take effect in its walk. -/
theorem extract_eq_ok {options : Options} {folder : String} {tree : FileTree}
    {extraction : Extraction} (succeeds : extract options folder tree = .ok extraction) :
    ∃ visits, IsWalk folder tree visits ∧
      extraction.findings = (effects visits).flatMap fun (visit, members) =>
        compoundFindings options visit.compound visit.definition members := by
  rw [extract] at succeeds
  cases isIndex : readIndex folder tree with
  | error failure =>
    rw [isIndex] at succeeds
    cases succeeds
  | ok index =>
    cases isFound : findingsFrom options folder tree [] (inReadingOrder index) with
    | error failure =>
      simp only [isIndex, isFound, bind, Except.bind] at succeeds
      cases succeeds
    | ok findings =>
      simp only [isIndex, isFound, bind, Except.bind] at succeeds
      obtain rfl := Except.ok.inj succeeds
      have known : ∀ id, id ≠ "" → (id ∈ ([] : List String) ↔ id ∈ [].map memberId) := by simp
      obtain ⟨visits, isOrder, definitions, isFindings⟩ := findingsFrom_eq_ok known isFound
      refine ⟨visits, ⟨⟨index, isIndex, ?_⟩, definitions⟩, isFindings⟩
      have sameKinds : ∀ kind other : CompoundKind, (kind == other) = decide (kind = other) := by
        intro kind other
        cases kind <;> cases other <;> rfl
      simp [isOrder, inReadingOrder, readingOrder, sameKinds]

end Bindery.Reference
