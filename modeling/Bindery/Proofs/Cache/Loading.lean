/-
**Loading the documents of a table makes the table.**

Each document is a pass over the table: it changes the scopes that contribute to it and creates the
ones that are not there yet. Six documents put in the elements, kind by kind and classes without
variables and enumerations; the last two find every class in its place and put these in.

* `Replays` — a document turns one table into another.
* `kindPass`, `memberPass` — the passes of the documents.
* `Scope.changed_loadPasses` — the passes of all documents make each scope.
-/

import Bindery.Proofs.Cache.Documents
import Bindery.Proofs.Cache.Nested
import Bindery.Proofs.Cache.Records

namespace Bindery.Cache

open Json Symbols

variable {α β : Type}

/-! ### Documents as passes -/

/-- The value of a document turns one table into another. -/
def Replays (json : Json) (replay : Replay) (made next : Table) : Prop :=
  ∃ change, replay json = some change ∧ change made = .ok next

/-- Makes one change to a scope for each of some items that the scope contributes. -/
def passOf (items : Scope → List (String × α)) (change : Place → String → α → Scope → Scope) :
    Pass :=
  fun place scope => (items scope).map fun pair => change place pair.1 pair.2

/-- The items that the scopes of a table contribute, with their headers and scopes. -/
def contributions (table : Table) (items : Scope → List (String × α)) :
    List (Header × Scope × String × α) :=
  table.scopes.flatMap fun (header, scope) => (items scope).map fun pair => (header, scope, pair)

theorem mem_contributions {table : Table} {items : Scope → List (String × α)} {header : Header}
    {scope : Scope} {pair : String × α} :
    (header, scope, pair) ∈ contributions table items ↔
      (header, scope) ∈ table.scopes ∧ pair ∈ items scope := by
  simp only [contributions, List.mem_flatMap, List.mem_map, Prod.exists, Prod.mk.injEq]
  grind

/-- A document whose items are read and then change their scopes one by one makes all changes of a
pass; an invariant of the tables on the way may help each change. -/
theorem replays_nested {table : Table} (sound : table.IsSound)
    {items : Scope → List (String × α)}
    (distinct : ∀ scope : Scope, ((items scope).map Prod.fst).Nodup)
    {write : α → Json} {read : String → Json → Option β} {result : α → β}
    {visit : Table → String → String → String → β → Except Failure Table}
    {change : Place → String → α → Scope → Scope} {inv : Table → Prop}
    (reads : ∀ header scope, (header, scope) ∈ table.scopes → ∀ pair ∈ items scope,
      read pair.1 (write pair.2) = some (result pair.2))
    (visits : ∀ header scope, (header, scope) ∈ table.scopes → ∀ pair ∈ items scope,
      ∀ made, inv made →
        visit made header.name scope.name pair.1 (result pair.2) =
          .ok (made.take (header.name, scope.name,
            change ⟨header.name, scope.name⟩ pair.1 pair.2)) ∧
        inv (made.take (header.name, scope.name,
          change ⟨header.name, scope.name⟩ pair.1 pair.2)))
    {made : Table} (holds : inv made) :
    Replays (collect table fun scope => (items scope).map fun (name, value) => (name, write value))
        (fun json => (Nested.ofJson? read json).map (replayNested visit)) made
        ((table.stepsOf (passOf items change)).foldl Table.take made) ∧
      inv ((table.stepsOf (passOf items change)).foldl Table.take made) := by
  have asItems : (collected table items).toList = (contributions table items).map
      fun (header, scope, name, value) => (header.name, scope.name, name, value) := by
    rw [toList_collected sound distinct, contributions, List.map_flatMap]
    refine List.flatMap_congr fun entry _ => ?_
    rw [List.map_map]
    rfl
  have asSteps : table.stepsOf (passOf items change) = (contributions table items).map
      fun (header, scope, name, value) =>
        (header.name, scope.name, change ⟨header.name, scope.name⟩ name value) := by
    rw [Table.stepsOf_eq, contributions, List.map_flatMap]
    refine List.flatMap_congr fun entry _ => ?_
    simp only [passOf, List.map_map]
    rfl
  have isRead : Nested.ofJson? read ((collected table items).mapItems write).toJson =
      some ((collected table items).mapItems result) := by
    refine Nested.ofJson?_toJson fun header scope name value isItem => ?_
    rw [asItems, List.mem_map] at isItem
    obtain ⟨⟨holder, inner, pair⟩, isIn, same⟩ := isItem
    obtain ⟨isScope, isPair⟩ := mem_contributions.mp isIn
    cases same
    exact reads holder inner isScope pair isPair
  have runs : replayNested visit ((collected table items).mapItems result) made =
        .ok ((table.stepsOf (passOf items change)).foldl Table.take made) ∧
      inv ((table.stepsOf (passOf items change)).foldl Table.take made) := by
    rw [replayNested, Nested.toList_mapItems, asItems, asSteps, List.map_map, List.foldlM_map,
      List.foldl_map]
    refine foldlM_keeps (fun entry isIn made holds => ?_) holds
    obtain ⟨isScope, isPair⟩ := mem_contributions.mp isIn
    exact visits _ _ isScope _ isPair made holds
  refine ⟨⟨_, ?_, runs.1⟩, runs.2⟩
  show (Nested.ofJson? read (collect table _)).map _ = _
  rw [collect_eq, isRead]
  rfl

/-! ### Elements, kind by kind -/

/-- The scope whose classes have neither variables nor enumerations. -/
def outline (scope : Scope) : Scope :=
  { scope with classes := scope.classes.mapValues Class.outline }

/-- Puts in the elements of one kind; classes go in without variables and enumerations. -/
def kindPass (kind : ElementKind) : Pass := fun place scope =>
  ((outline scope).elementsOf kind).map fun element s => s.take place element

theorem kindPass_eq {kind : ElementKind} {items : Scope → OrderedMap α} {asElement : α → Element}
    (isKind : ∀ scope, (outline scope).elementsOf kind = (items scope).values.map asElement) :
    kindPass kind = passOf (fun scope => (items scope).entries)
      fun place _ value s => s.take place (asElement value) := by
  funext place scope
  simp only [kindPass, passOf, isKind, OrderedMap.values, List.map_map, Function.comp_def]

section Kinds

variable {table : Table} (sound : table.IsSound)

include sound

/-- The document of a kind of elements puts in the elements of this kind. -/
theorem replays_kind {kind : ElementKind} {items : Scope → OrderedMap α} {asElement : α → Element}
    (isKind : ∀ scope, (outline scope).elementsOf kind = (items scope).values.map asElement)
    {write : α → Json} {read : String → Json → Option β} (result : α → β)
    {visit : Table → String → String → String → β → Except Failure Table}
    (each : ∀ header scope, (header, scope) ∈ table.scopes →
      scope.IsSound ⟨header.name, scope.name⟩ → ∀ pair ∈ (items scope).entries,
        read pair.1 (write pair.2) = some (result pair.2) ∧
          ∀ made, visit made header.name scope.name pair.1 (result pair.2) =
            .ok (made.add header.name scope.name (asElement pair.2)))
    (made : Table) :
    Replays (collect table fun scope => records write (items scope))
      (fun json => (Nested.ofJson? read json).map (replayNested visit)) made
      ((table.stepsOf (kindPass kind)).foldl Table.take made) := by
  rw [kindPass_eq isKind]
  refine (@replays_nested _ _ _ sound _ (fun scope => (items scope).distinct) write read result
    visit _ (fun _ => True) ?_ ?_ made trivial).1
  · intro header scope isIn pair isPair
    obtain ⟨_, _, _, isSound⟩ := sound.mem_scopes isIn
    exact (each header scope isIn isSound pair isPair).1
  · intro header scope isIn pair isPair made _
    obtain ⟨_, _, isCanonical, isSound⟩ := sound.mem_scopes isIn
    rw [(each header scope isIn isSound pair isPair).2 made, Table.add_eq_take isCanonical]
    exact ⟨rfl, trivial⟩

theorem replays_constants (made : Table) :
    Replays (collect table fun scope => records constantRecord scope.constants)
      (replayElements constant? Table.addConstant) made
      ((table.stepsOf (kindPass .constant)).foldl Table.take made) := by
  refine replays_kind sound (fun _ => rfl) Constant.detached
    (fun header scope _ isSound pair isPair => ?_) made
  obtain ⟨ownName, _⟩ := isSound.constants.of_mem isPair
  exact ⟨ownName ▸ constant?_record pair.2, fun _ => rfl⟩

theorem replays_enumerations (made : Table) :
    Replays (collect table fun scope => records enumerationRecord scope.enumerations)
      (replayElements enumeration? Table.addEnumeration) made
      ((table.stepsOf (kindPass .enumeration)).foldl Table.take made) := by
  refine replays_kind sound (fun _ => rfl) Enumeration.detached
    (fun header scope _ isSound pair isPair => ?_) made
  obtain ⟨ownName, _⟩ := isSound.enumerations.of_mem isPair
  exact ⟨ownName ▸ enumeration?_record pair.2, fun _ => rfl⟩

theorem replays_aliases (made : Table) :
    Replays (collect table fun scope => records (typedRecord ·.type) scope.aliases)
      (replayElements typed? Table.addAlias) made
      ((table.stepsOf (kindPass .typeAlias)).foldl Table.take made) := by
  refine replays_kind sound (fun _ => rfl) TypedName.detached
    (fun header scope _ isSound pair isPair => ?_) made
  obtain ⟨ownName, _, read⟩ := isSound.aliases.of_mem isPair
  exact ⟨ownName ▸ typed?_record read, fun _ => rfl⟩

theorem replays_globals (made : Table) :
    Replays (collect table fun scope => records (typedRecord ·.type) scope.globals)
      (replayElements typed? Table.addVariable) made
      ((table.stepsOf (kindPass .globalVariable)).foldl Table.take made) := by
  refine replays_kind sound (fun _ => rfl) TypedName.detached
    (fun header scope _ isSound pair isPair => ?_) made
  obtain ⟨ownName, _, read⟩ := isSound.globals.of_mem isPair
  exact ⟨ownName ▸ typed?_record read, fun _ => rfl⟩

theorem replays_functions (path : String) (policy : DuplicatePolicy) (made : Table) :
    Replays (collect table fun scope => records functionRecord scope.functions)
      (replayDrafts path overloads? (buildFunction policy) Table.addFunction) made
      ((table.stepsOf (kindPass .function)).foldl Table.take made) := by
  refine replays_kind sound (fun _ => rfl) (fun function => function.overloads.map draftOf)
    (fun header scope _ isSound pair isPair => ?_) made
  obtain ⟨ownName, _, _, isSoundFunction⟩ := isSound.functions.of_mem isPair
  refine ⟨overloads?_record isSoundFunction, fun made => ?_⟩
  rw [← ownName, buildFunction_drafts isSoundFunction policy]
  rfl

theorem replays_classes (plain : HasPlainMethodNames table) (path : String)
    (policy : DuplicatePolicy) (made : Table) :
    Replays (collect table fun scope => records classRecord scope.classes)
      (replayDrafts path class? (buildClass policy) Table.addClass) made
      ((table.stepsOf (kindPass .classDefinition)).foldl Table.take made) := by
  have isKind : ∀ scope : Scope, (outline scope).elementsOf .classDefinition =
      scope.classes.values.map fun self => .classDefinition self.outline.detached := by
    intro scope
    rw [outline, Scope.elementsOf, OrderedMap.values_mapValues, List.map_map]
    rfl
  refine replays_kind sound isKind classDraft (fun header scope isIn isSound pair isPair => ?_) made
  obtain ⟨ownName, _, isSoundClass⟩ := isSound.classes.of_mem isPair
  have isClass : pair.2 ∈ table.classes :=
    List.mem_flatMap.mpr ⟨(header, scope), isIn, List.mem_map_of_mem isPair⟩
  refine ⟨class?_record isSoundClass (plain _ isClass), fun made => ?_⟩
  rw [← ownName, buildClass_draft isSoundClass policy]
  rfl

end Kinds

/-! ### Members of classes -/

/-- The members of the classes of a scope that have any. -/
def memberItems (members : Symbols.Class → OrderedMap α) (scope : Scope) :
    List (String × OrderedMap α) :=
  scope.classes.entries.flatMap fun (name, self) =>
    (if (members self).isEmpty then [] else [members self]).map (name, ·)

theorem memberRecords_eq (record : α → Json) (members : Symbols.Class → OrderedMap α) :
    memberRecords record members = fun scope => (memberItems members scope).map fun (name, own) =>
      (name, Json.record (records record own)) := by
  funext scope
  rw [memberRecords, memberItems, List.filterMap_eq_flatMap_toList, List.map_flatMap]
  refine List.flatMap_congr fun pair _ => ?_
  by_cases isNone : (members pair.2).isEmpty = true <;> simp [isNone]

/-- The items are the members of classes of the scope, under the names of the classes. -/
theorem mem_memberItems {members : Symbols.Class → OrderedMap α} {scope : Scope}
    {pair : String × OrderedMap α} (isPair : pair ∈ memberItems members scope) :
    ∃ self, (pair.1, self) ∈ scope.classes.entries ∧ (members self).isEmpty = false ∧
      pair.2 = members self := by
  simp only [memberItems, List.mem_flatMap, List.mem_map] at isPair
  obtain ⟨⟨name, self⟩, isClass, own, isOwn, rfl⟩ := isPair
  split at isOwn
  next => simp at isOwn
  next isAny => exact ⟨self, isClass, Bool.not_eq_true _ ▸ isAny, List.mem_singleton.mp isOwn⟩

theorem memberItems_distinct (members : Symbols.Class → OrderedMap α) (scope : Scope) :
    ((memberItems members scope).map Prod.fst).Nodup := by
  refine scope.classes.distinct.sublist ?_
  rw [memberItems, List.map_flatMap]
  induction scope.classes.entries with
  | nil => exact .slnil
  | cons pair rest ih =>
    rw [List.flatMap_cons, List.map_cons]
    by_cases isNone : (members pair.2).isEmpty = true
    · simpa [isNone] using ih.cons pair.1
    · simpa [isNone] using ih.cons_cons pair.1

/-- A class with members added to it one by one. -/
def withMembers (add : Symbols.Class → β → Symbols.Class) (members : OrderedMap β)
    (self : Symbols.Class) : Symbols.Class :=
  members.values.foldl add self

theorem replayMembers_eq (read : String → Json → Option β)
    (add : Symbols.Class → β → Symbols.Class) :
    replayMembers read add = fun json =>
      (Nested.ofJson? (fun _ => Json.map? read) json).map (replayNested
        fun made header scope key own =>
          changeClass made header scope key (withMembers add own)) :=
  rfl

/-- Adds members to the classes of a scope. -/
def memberPass (members : Symbols.Class → OrderedMap α) (result : α → β)
    (add : Symbols.Class → β → Symbols.Class) : Pass :=
  passOf (memberItems members) fun _ key own scope =>
    { scope with classes := scope.classes.adjust key (withMembers add (own.mapValues result)) }

/-- Every class of a table is there. -/
def HasClassesOf (table made : Table) : Prop :=
  ∀ header scope, (header, scope) ∈ table.scopes → ∀ key ∈ scope.classes.keys,
    (made.class? header.name scope.name key).isSome = true

/-- A class that is there is changed where it stands. -/
theorem modifyClass_eq_take {made : Table} {header scope key : String}
    (isThere : (made.class? header scope key).isSome = true)
    (isCanonical : canonicalScope scope = scope) (change : Symbols.Class → Symbols.Class) :
    made.modifyClass header scope key change = made.take (header, scope, fun inner =>
      { inner with classes := inner.classes.adjust key change }) := by
  obtain ⟨self, isClass⟩ := Option.isSome_iff_exists.mp isThere
  simp only [Table.class?, Option.bind_eq_bind, Option.bind_eq_some_iff] at isClass
  obtain ⟨holder, isHolder, inner, isInner, -⟩ := isClass
  rw [Header.scope?, isCanonical] at isInner
  simp only [Table.modifyClass, Table.take, Table.modifyScope, Table.modifyHeader,
    Header.modifyScope, isCanonical, OrderedMap.adjust_of_eq_some isHolder,
    OrderedMap.upsert_of_eq_some isHolder, OrderedMap.adjust_of_eq_some isInner,
    OrderedMap.upsert_of_eq_some isInner]

/-- Changing a class takes none away. -/
theorem isSome_class?_modifyClass {made : Table} {header scope name : String}
    (isThere : (made.class? header scope name).isSome = true) (otherHeader otherScope key : String)
    (change : Symbols.Class → Symbols.Class) :
    ((made.modifyClass otherHeader otherScope key change).class? header scope name).isSome =
      true := by
  obtain ⟨self, isClass⟩ := Option.isSome_iff_exists.mp isThere
  simp only [Table.class?, Option.bind_eq_bind, Option.bind_eq_some_iff] at isClass
  obtain ⟨holder, isHolder, inner, isInner, isSelf⟩ := isClass
  obtain ⟨changed, isChanged, isKept⟩ :=
    OrderedMap.get?_adjust_of_eq_some isHolder otherHeader fun holder => { holder with
      scopes := holder.scopes.adjust (canonicalScope otherScope) fun s =>
        { s with classes := s.classes.adjust key change } }
  have isThere : ∃ inner, changed.scope? scope = some inner ∧
      ∃ self, inner.classes.get? name = some self := by
    rcases isKept with rfl | rfl
    · exact ⟨inner, isInner, self, isSelf⟩
    · obtain ⟨changedInner, isChangedInner, isKept⟩ :=
        OrderedMap.get?_adjust_of_eq_some isInner (canonicalScope otherScope) fun s =>
          { s with classes := s.classes.adjust key change }
      refine ⟨changedInner, isChangedInner, ?_⟩
      rcases isKept with rfl | rfl
      · exact ⟨self, isSelf⟩
      · obtain ⟨changedSelf, isChangedSelf, _⟩ :=
          OrderedMap.get?_adjust_of_eq_some isSelf key change
        exact ⟨changedSelf, isChangedSelf⟩
  obtain ⟨changedInner, isChangedInner, changedSelf, isChangedSelf⟩ := isThere
  have isClass : (made.modifyClass otherHeader otherScope key change).class? header scope name =
      some changedSelf := by
    simp only [Table.class?, Option.bind_eq_bind, Option.bind_eq_some_iff]
    exact ⟨changed, isChanged, changedInner, isChangedInner, isChangedSelf⟩
  rw [isClass]
  rfl

/-- A class that is there is changed without a new one. -/
theorem changeClass_eq_ok {made : Table} {header scope key : String}
    (isThere : (made.class? header scope key).isSome = true)
    (change : Symbols.Class → Symbols.Class) :
    changeClass made header scope key change = .ok (made.modifyClass header scope key change) := by
  unfold changeClass
  simp only [isThere, if_true]

/-- A document of members adds them to the classes of a table, which all have to be there. -/
theorem replays_members {table : Table} (sound : table.IsSound)
    (members : Symbols.Class → OrderedMap α) (result : α → β)
    (add : Symbols.Class → β → Symbols.Class) {write : α → Json} {read : String → Json → Option β}
    (reads : ∀ header scope, (header, scope) ∈ table.scopes →
      scope.IsSound ⟨header.name, scope.name⟩ → ∀ self ∈ scope.classes.values,
        (members self).Forall fun name value => read name (write value) = some (result value))
    {made : Table} (hasClasses : HasClassesOf table made) :
    Replays (collect table (memberRecords write members)) (replayMembers read add) made
        ((table.stepsOf (memberPass members result add)).foldl Table.take made) ∧
      HasClassesOf table
        ((table.stepsOf (memberPass members result add)).foldl Table.take made) := by
  rw [memberRecords_eq, replayMembers_eq]
  refine @replays_nested _ _ _ sound _ (memberItems_distinct members)
    (fun own => Json.record (records write own)) (fun _ => Json.map? read)
    (fun own => own.mapValues result)
    (fun made header scope key own => changeClass made header scope key (withMembers add own))
    (fun _ key own scope => { scope with
      classes := scope.classes.adjust key (withMembers add (own.mapValues result)) })
    (HasClassesOf table) ?_ ?_ made hasClasses
  · intro header scope isIn pair isPair
    obtain ⟨_, _, _, isSound⟩ := sound.mem_scopes isIn
    obtain ⟨self, isClass, _, isOwn⟩ := mem_memberItems isPair
    exact map?_record (isOwn ▸ reads header scope isIn isSound self (List.mem_map_of_mem isClass))
  · intro header scope isIn pair isPair made hasClasses
    obtain ⟨_, _, isCanonical, _⟩ := sound.mem_scopes isIn
    obtain ⟨self, isClass, _⟩ := mem_memberItems isPair
    have isThere := hasClasses header scope isIn pair.1 (List.mem_map_of_mem isClass)
    have isStep := modifyClass_eq_take isThere isCanonical
      (withMembers add (pair.2.mapValues result))
    rw [← isStep]
    refine ⟨changeClass_eq_ok isThere _, ?_⟩
    intro otherHeader otherScope isOther key isKey
    exact isSome_class?_modifyClass (hasClasses otherHeader otherScope isOther key isKey) ..

/-! ### Headers -/

/-- The document of headers is read as their switches. -/
theorem map?_headers {table : Table}
    (named : table.headers.Forall fun name header => header.name = name) :
    Json.map? (fun _ => Json.bool?)
      (Json.record (table.headerList.map fun header => (header.name, .bool header.enabled))) =
        some (table.headers.mapValues Header.enabled) := by
  rw [Table.headerList, named.pairs_of_values fun header => Json.bool header.enabled]
  exact map?_record fun _ _ _ => rfl

/-- The document of headers switches the headers of a table. -/
theorem replays_headers {table : Table} (sound : table.IsSound) :
    Replays (Json.record (table.headerList.map fun header => (header.name, .bool header.enabled)))
      replayHeaders .empty table.bareHeaders := by
  have switches : (table.headers.mapValues Header.enabled).entries.foldl
      (fun made pair => made.setEnabled pair.1 pair.2) .empty = table.bareHeaders := by
    rw [← sound.named.pairs_of_values, List.foldl_map]
    rfl
  refine ⟨fun made => .ok ((table.headers.mapValues Header.enabled).entries.foldl
    (fun made pair => made.setEnabled pair.1 pair.2) made), ?_, congrArg _ switches⟩
  rw [replayHeaders, map?_headers sound.named]
  rfl

/-! ### What the passes make -/

/-- The passes of the documents, in the order in which they are loaded. -/
def loadPasses : List Pass :=
  ElementKind.all.map kindPass ++
    [memberPass Class.enumerations Enumeration.detached Class.addEnumeration,
      memberPass Class.fields id Class.addVariable]

/-- Adding members to the classes of a scope leaves each class with its members added. -/
theorem changed_memberPass {scope base : Scope} {start : Symbols.Class → Symbols.Class}
    (isBase : base.classes = scope.classes.mapValues start)
    (members : Symbols.Class → OrderedMap α) (result : α → β)
    (add : Symbols.Class → β → Symbols.Class) (place : Place) :
    OrderedMap.changed (memberPass members result add place scope) base =
      { base with
        classes := scope.classes.mapValues fun self =>
          withMembers add ((members self).mapValues result) (start self) } := by
  have asAdjust : OrderedMap.changed (memberPass members result add place scope) base =
      { base with
        classes := base.classes.adjustAll ((memberItems members scope).map fun (key, own) =>
          (key, withMembers add (own.mapValues result))) } := by
    rw [OrderedMap.changed, memberPass, passOf, List.foldl_map, OrderedMap.adjustAll,
      List.foldl_map]
    show List.foldl _ ((fun classes => { base with classes }) base.classes) _ = _
    refine List.foldl_hom (fun classes => { base with classes }) fun classes pair => ?_
    rfl
  rw [asAdjust]
  refine congrArg (fun classes => { base with classes }) (OrderedMap.ext_get? ?_ fun name => ?_)
  · rw [OrderedMap.nameSet_adjustAll, isBase, OrderedMap.nameSet_mapValues,
      OrderedMap.nameSet_mapValues]
  · rw [OrderedMap.get?_adjustAll, isBase, OrderedMap.get?_mapValues, OrderedMap.get?_mapValues]
    cases found : scope.classes.get? name with
    | none => rfl
    | some self =>
      have isPair : (name, self) ∈ scope.classes.entries :=
        (OrderedMap.get?_eq_some_iff ..).mp found
      have ofItems : under name (memberItems members scope) =
          if (members self).isEmpty then [] else [members self] :=
        @under_groups _ _ scope.classes.entries Prod.fst
          (fun pair => if (members pair.2).isEmpty then [] else [members pair.2])
          scope.classes.distinct (name, self) isPair
      have ofClass := under_map name (fun own => withMembers add (own.mapValues result))
        (memberItems members scope)
      rw [ofItems] at ofClass
      show Option.map (OrderedMap.changed (under name (_ : List _))) _ = _
      rw [ofClass, Option.map_some, Option.map_some, Option.map_some]
      refine congrArg some ?_
      by_cases isNone : (members self).isEmpty = true
      · have noMember : (members self).values = [] := by
          rw [OrderedMap.values, List.isEmpty_iff.mp isNone, List.map_nil]
        rw [if_pos isNone, withMembers, OrderedMap.values_mapValues, noMember]
        rfl
      · rw [if_neg isNone]
        rfl

theorem isSound_outline {place : Place} {scope : Scope} (sound : scope.IsSound place) :
    (outline scope).IsSound place :=
  { sound with
    classes := sound.classes.mapValues fun _ _ ⟨ownName, placed, isSound⟩ =>
      ⟨ownName, placed, isSound.outline⟩ }

/-- The passes of the first documents make the outline of each scope. -/
theorem changed_kindPasses {place : Place} {scope : Scope} (sound : scope.IsSound place)
    (isCanonical : canonicalScope place.scope = place.scope) :
    OrderedMap.changed ((ElementKind.all.map kindPass).flatMap fun pass => pass place scope)
      (Scope.named place.scope) = outline scope := by
  have asElements : ((ElementKind.all.map kindPass).flatMap fun pass => pass place scope) =
      (outline scope).elements.map fun element s => s.take place element := by
    rw [List.flatMap_map, Scope.elements, List.map_flatMap]
    rfl
  rw [asElements, OrderedMap.changed, List.foldl_map]
  exact (isSound_outline sound).rebuilt isCanonical

/-- The passes of all documents make each scope. -/
theorem changed_loadPasses {place : Place} {scope : Scope} (sound : scope.IsSound place)
    (isCanonical : canonicalScope place.scope = place.scope) :
    OrderedMap.changed (loadPasses.flatMap fun pass => pass place scope)
      (Scope.named place.scope) = scope := by
  have complete : scope.classes.mapValues (fun self => withMembers Class.addVariable
      (self.fields.mapValues id) (withMembers Class.addEnumeration
        (self.enumerations.mapValues Enumeration.detached) self.outline)) = scope.classes := by
    refine sound.classes.mapValues_eq_self fun name self ⟨_, _, isSound⟩ => ?_
    have withEnumerations := @Class.IsSound.foldl_enumerations _ isSound self.outline rfl rfl
    have withFields := @Class.IsSound.foldl_fields _ isSound
      { self.outline with enumerations := self.enumerations } rfl
    rw [withMembers, withMembers, OrderedMap.values_mapValues, OrderedMap.values_mapValues,
      withEnumerations, List.map_id, withFields]
    rfl
  have ofEnumerations := @changed_memberPass _ _ scope (outline scope) Class.outline rfl
    Class.enumerations Enumeration.detached Class.addEnumeration place
  rw [loadPasses, List.flatMap_append, List.flatMap_cons, List.flatMap_singleton,
    OrderedMap.changed_append, OrderedMap.changed_append, changed_kindPasses sound isCanonical,
    ofEnumerations, @changed_memberPass _ _ scope _ (fun self => withMembers Class.addEnumeration
      (self.enumerations.mapValues Enumeration.detached) self.outline) rfl, complete]
  rfl

/-- Behind the first documents every class is there. -/
theorem hasClassesOf_kindPasses {table : Table} (sound : table.IsSound) :
    HasClassesOf table (((ElementKind.all.map kindPass).flatMap table.stepsOf).foldl Table.take
      table.bareHeaders) := by
  intro header scope isIn key isKey
  obtain ⟨isHeader, isScope, isCanonical, isSound⟩ := sound.mem_scopes isIn
  have makes := @changed_kindPasses ⟨header.name, scope.name⟩ _ isSound isCanonical
  obtain ⟨self, isClass⟩ := (OrderedMap.mem_keys ..).mp isKey
  have isOutline : (outline scope).classes.get? key = some self.outline := by
    rw [outline, OrderedMap.get?_mapValues, isClass, Option.map_some]
  have isChanged : (ElementKind.all.map kindPass).flatMap
      (fun pass => pass ⟨header.name, scope.name⟩ scope) ≠ [] := by
    intro nothing
    rw [nothing] at makes
    rw [← makes] at isOutline
    cases isOutline
  have foundHeader := sound.get?_foldl_take isHeader (ElementKind.all.map kindPass)
  have foundScope := (sound.header isHeader).get?_perform_steps isScope isChanged
  rw [makes] at foundScope
  simp only [Table.class?, Table.header?, foundHeader, Header.scope?, isCanonical,
    Option.bind_eq_bind, Option.bind_some, foundScope, isOutline, Option.isSome_some]

/-! ### Loading -/

theorem textual_collect (table : Table) (items : Scope → List (String × α)) {write : α → Json}
    {bound : Nat} (shallow : ∀ value, IsShallow bound (write value)) :
    (collect table fun scope => (items scope).map fun (name, value) =>
      (name, write value)).everywhere isTextual = true := by
  rw [collect_eq]
  exact (Nested.shallow_toJson fun _ _ _ value _ => shallow value).textual

theorem textual_members (table : Table) (members : Symbols.Class → OrderedMap α)
    {write : α → Json} {bound : Nat} (shallow : ∀ value, IsShallow bound (write value)) :
    (collect table (memberRecords write members)).everywhere isTextual = true := by
  rw [memberRecords_eq]
  refine textual_collect table (memberItems members) fun own =>
    @IsShallow.record bound _ fun member isMember => ?_
  obtain ⟨pair, _, rfl⟩ := List.mem_map.mp isMember
  exact shallow pair.2

/-- The documents of a table hold texts and truth values only. -/
theorem documents_textual (table : Table) :
    ∀ document ∈ documents table, document.2.everywhere isTextual = true := by
  have ofHeaders : (Json.record (table.headerList.map fun header =>
      (header.name, Json.bool header.enabled))).everywhere isTextual = true := by
    refine (@IsShallow.record 0 _ fun member isMember => ?_).textual
    obtain ⟨header, _, rfl⟩ := List.mem_map.mp isMember
    exact .bool header.enabled
  simp only [documents, List.forall_mem_cons, List.not_mem_nil, false_implies, implies_true,
    and_true]
  exact ⟨ofHeaders, textual_collect table _ shallow_constantRecord,
    textual_collect table _ shallow_enumerationRecord,
    textual_collect table _ fun _ => shallow_typedRecord _,
    textual_collect table _ fun _ => shallow_typedRecord _,
    textual_collect table _ shallow_functionRecord, textual_collect table _ shallow_classRecord,
    textual_members table _ shallow_enumerationRecord,
    textual_members table _ shallow_classVariableRecord⟩

/-- A document in a file is loaded. -/
theorem loadDocument_eq_ok {tree : FileTree} {folder name : String} {json : Json}
    (found : tree.text? (Path.join folder name) = some json.document)
    (textual : json.everywhere isTextual = true) {replay : Replay} {made next : Table}
    (replays : Replays json replay made next) :
    loadDocument tree folder made (name, replay) = .ok next := by
  obtain ⟨change, isChange, changes⟩ := replays
  rw [loadDocument_of_text found (parse?_document textual) isChange]
  exact changes

/-- The files of a folder hold some texts. -/
def HoldsFiles (tree : FileTree) (folder : String) (files : List (String × String)) : Prop :=
  ∀ file ∈ files, tree.text? (Path.join folder file.1) = some file.2

/-- The documents of a table are loaded as the table, with the scopes of each header in the order in
which the documents name them. -/
theorem load_of_holdsFiles {tree : FileTree} {folder : String} {table : Table}
    (sound : table.IsSound) (plain : HasPlainMethodNames table)
    (isFolder : tree.isFolder folder = true)
    (holds : HoldsFiles tree folder (files .data table)) (policy : DuplicatePolicy) :
    load .data policy folder tree = .ok (table.arranged loadPasses) := by
  have textual := documents_textual table
  simp only [HoldsFiles, files, documents, List.map_cons, List.map_nil, List.forall_mem_cons,
    List.not_mem_nil, false_implies,
    implies_true, and_true] at holds textual
  obtain ⟨ofHeaders, ofConstants, ofEnumerations, ofAliases, ofGlobals, ofFunctions, ofClasses,
    ofClassEnumerations, ofClassVariables⟩ := holds
  obtain ⟨headers, constants, enumerations, aliases, globals, functions, classes,
    classEnumerations, classVariables⟩ := textual
  obtain ⟨replaysEnumerations, hasClasses⟩ := replays_members sound Class.enumerations
    Enumeration.detached Class.addEnumeration
    (fun header scope _ isSound self isClass => by
      obtain ⟨name, found⟩ := (OrderedMap.mem_values ..).mp isClass
      exact (isSound.classes name self found).2.2.enumerations.imp
        fun _ enumeration ⟨ownName, _⟩ => ownName ▸ enumeration?_record enumeration)
    (hasClassesOf_kindPasses sound)
  obtain ⟨replaysFields, _⟩ := replays_members sound Class.fields id Class.addVariable
    (fun header scope _ isSound self isClass => by
      obtain ⟨name, found⟩ := (OrderedMap.mem_values ..).mp isClass
      exact (isSound.classes name self found).2.2.fields.imp
        fun _ member ⟨ownName, read⟩ => ownName ▸ classVariable?_record read)
    hasClasses
  have makes := @Table.IsSound.foldl_take _ loadPasses sound fun header isHeader scope isScope => by
    obtain ⟨isCanonical, isSound, _⟩ :=
      sound.header isHeader _ _ ((sound.header isHeader).get?_scopes isScope)
    exact changed_loadPasses isSound isCanonical
  simp only [loadPasses, ElementKind.all, List.map_cons, List.map_nil, List.cons_append,
    List.nil_append, List.flatMap_cons, List.flatMap_nil, List.append_nil, List.foldl_append]
    at replaysEnumerations replaysFields makes
  rw [load, if_pos isFolder]
  show (replays policy folder).foldlM (loadDocument tree folder) .empty = _
  rw [replays, foldlM_cons_of_ok (loadDocument_eq_ok ofHeaders headers (replays_headers sound)),
    foldlM_cons_of_ok (loadDocument_eq_ok ofConstants constants (replays_constants sound _)),
    foldlM_cons_of_ok (loadDocument_eq_ok ofEnumerations enumerations
      (replays_enumerations sound _)),
    foldlM_cons_of_ok (loadDocument_eq_ok ofAliases aliases (replays_aliases sound _)),
    foldlM_cons_of_ok (loadDocument_eq_ok ofGlobals globals (replays_globals sound _)),
    foldlM_cons_of_ok (loadDocument_eq_ok ofFunctions functions
      (replays_functions sound _ policy _)),
    foldlM_cons_of_ok (loadDocument_eq_ok ofClasses classes
      (replays_classes sound plain _ policy _)),
    foldlM_cons_of_ok (loadDocument_eq_ok ofClassEnumerations classEnumerations
      replaysEnumerations),
    foldlM_cons_of_ok (loadDocument_eq_ok ofClassVariables classVariables replaysFields), makes]
  rfl

end Bindery.Cache
