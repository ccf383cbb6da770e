/-
**What the documents of a data cache build.**

Whatever a document holds, each of its values changes the table in a step that keeps it storable:
elements are built from what their records say, and members are added to classes one by one.

* `built_buildFunction`, `built_buildClass` — what drafts are built into.
* `Replay.KeepsStorable` — a document that a storable table may be changed by.
* `isStorable_load` — the table that a cache of either format holds.
-/

import Bindery.Cache.Store
import Bindery.Proofs.Cache.Nested
import Bindery.Proofs.Script.Storable

namespace Bindery.Cache

open Json Symbols

/-! ### Types of records -/

theorem isRead_typed? {name : String} {json : Json} {element : TypedName}
    (isElement : typed? name json = some element) : element.type.IsRead := by
  simp only [typed?, Option.bind_eq_bind, Option.bind_eq_some_iff] at isElement
  obtain ⟨_, _, type, _, description, _, isElement⟩ := isElement
  obtain rfl := Option.some.inj isElement
  exact ⟨type, description, rfl⟩

theorem isRead_classVariable? {name : String} {json : Json} {member : ClassVariable}
    (isMember : classVariable? name json = some member) : member.type.IsRead := by
  simp only [classVariable?, Option.bind_eq_bind, Option.bind_eq_some_iff] at isMember
  obtain ⟨_, _, type, _, _, _, _, _, _, _, _, _, description, _, isMember⟩ := isMember
  obtain rfl := Option.some.inj isMember
  exact ⟨type, description, rfl⟩

theorem isReadParameter_parameter? {json : Json} {parameter : Parameter}
    (isParameter : parameter? json = some parameter) : parameter.type.IsReadParameter := by
  simp only [parameter?, Option.bind_eq_bind, Option.bind_eq_some_iff] at isParameter
  obtain ⟨_, _, name, _, spelt, _, isArray, _, default, _, description, _, isParameter⟩ :=
    isParameter
  obtain rfl := Option.some.inj isParameter
  have isRead : ((TypeShape.parse spelt).withDescription description).IsRead :=
    ⟨spelt, description, rfl⟩
  exact isRead.isReadParameter isArray

/-! ### Functions and classes -/

/-- An overload of which only the types are known to be read; its parameters may have one name. -/
structure IsDraft (overload : Overload) : Prop where
  returns : overload.returns.IsRead
  parameters : ∀ parameter ∈ overload.parameters, parameter.type.IsReadParameter

theorem isDraft_overload? {json : Json} {draft : Overload}
    (isOverload : overload? json = some draft) : IsDraft draft := by
  simp only [overload?, Option.bind_eq_bind, Option.bind_eq_some_iff] at isOverload
  obtain ⟨fields, _, _, _, returns, _, description, _, parameters, areParameters, _, _, _, _, _, _,
    _, _, _, _, _, _, isOverload⟩ := isOverload
  obtain rfl := Option.some.inj isOverload
  refine ⟨⟨returns, description, rfl⟩, fun parameter isIn => ?_⟩
  unfold Fields.orElse? at areParameters
  split at areParameters
  next =>
    obtain rfl := Option.some.inj areParameters
    simp at isIn
  next =>
    obtain ⟨item, isRead⟩ := read_of_list? areParameters parameter isIn
    exact isReadParameter_parameter? isRead

theorem areDrafts_overloads? {json : Json} {drafts : List Overload}
    (areOverloads : overloads? json = some drafts) : ∀ draft ∈ drafts, IsDraft draft := by
  intro draft isIn
  obtain ⟨item, isRead⟩ := read_of_list? areOverloads draft isIn
  exact isDraft_overload? isRead

theorem built_buildFunction (policy : DuplicatePolicy) (name : String) {drafts : List Overload}
    (areDrafts : ∀ draft ∈ drafts, IsDraft draft) :
    Returns Function.Built (buildFunction policy name drafts) := by
  refine .foldlM (.fresh name) fun draft isIn function built => ?_
  obtain ⟨returns, parameters⟩ := areDrafts draft isIn
  let bare : Overload := { draft with parameters := [], function := name }
  have fresh : bare.Built := .fresh bare rfl returns
  have grown : Returns Overload.Built (bare.addParameters draft.parameters policy) :=
    fun longer isLonger => (Overload.addParameters_eq_ok fresh parameters isLonger).1
  exact .bind grown fun longer isBuilt => .ok (built.addOverload isBuilt)

/-- The methods of a class with drafts for their overloads. -/
def ClassDraft.HasDrafts (draft : ClassDraft) : Prop :=
  draft.methods.Forall fun _ overloads => ∀ overload ∈ overloads, IsDraft overload

theorem hasDrafts_class? {json : Json} {draft : ClassDraft} (isClass : class? json = some draft) :
    draft.HasDrafts := by
  simp only [class?, Option.bind_eq_bind, Option.bind_eq_some_iff] at isClass
  obtain ⟨members, _, fields, _, methods, areMethods, _, _, _, _, _, _, _, _, _, _, isClass⟩ :=
    isClass
  obtain rfl := Option.some.inj isClass
  refine .of_pairs fun pair isPair => ?_
  obtain ⟨⟨name, value⟩, _, isRead⟩ := read_of_mem_mapM areMethods pair isPair
  obtain ⟨overloads, isMethod, rfl⟩ := Option.map_eq_some_iff.mp isRead
  unfold method? at isMethod
  split at isMethod
  next => exact areDrafts_overloads? isMethod
  next => cases isMethod

theorem built_buildClass (policy : DuplicatePolicy) (name : String) {draft : ClassDraft}
    (hasDrafts : draft.HasDrafts) : Returns Class.Built (buildClass policy name draft) := by
  unfold buildClass
  extract_lets plain bare
  have isBuilt : bare.Built :=
    .described (.named name) _ draft.isStruct draft.isForward draft.description
  have withParents : (draft.parents.foldl Class.addParent bare).Built :=
    isBuilt.foldl fun parent _ => .parent parent
  refine .foldlM withParents fun method isMethod self built => ?_
  have areDrafts := hasDrafts.of_mem isMethod
  exact .bind (built_buildFunction policy method.1 areDrafts) fun function isFunction =>
    .ok (built.add (.method function isFunction))

/-! ### Documents -/

/-- A document that keeps a table storable. -/
def Replay.KeepsStorable (replay : Replay) : Prop :=
  ∀ json change, replay json = some change →
    ∀ table : Table, table.IsStorable → Returns Table.IsStorable (change table)

/-- Values that each keep a table storable keep it storable together. -/
theorem keepsStorable_replayNested {α : Type} {read : String → Json → Option α}
    {visit : Table → String → String → String → α → Except Failure Table}
    (kept : ∀ header scope name json item, read name json = some item →
      ∀ table : Table, table.IsStorable →
        Returns Table.IsStorable (visit table header scope name item)) :
    Replay.KeepsStorable fun json => (Nested.ofJson? read json).map (replayNested visit) := by
  intro json change isChange table storable
  obtain ⟨nested, isNested, rfl⟩ := Option.map_eq_some_iff.mp isChange
  refine .foldlM storable fun visited isVisited table storable => ?_
  obtain ⟨item, isRead⟩ := Nested.read_of_ofJson? isNested visited isVisited
  exact kept _ _ _ _ _ isRead table storable

theorem keepsStorable_replayHeaders : Replay.KeepsStorable replayHeaders := by
  intro json change isChange table storable
  obtain ⟨headers, _, rfl⟩ := Option.map_eq_some_iff.mp isChange
  have asEdits : headers.entries.foldl (fun table pair => table.setEnabled pair.1 pair.2) table =
      table.applyAll (headers.entries.map fun pair => .enable pair.1 pair.2) := by
    rw [Table.applyAll, List.foldl_map]
    rfl
  refine .ok (asEdits ▸ ?_)
  refine storable.applyAll fun edit isEdit => ?_
  obtain ⟨pair, _, rfl⟩ := List.mem_map.mp isEdit
  trivial

section Elements

variable {α β : Type} {add : Table → β → String → String → Table} (asElement : β → Element)
  (isAdd : ∀ table element header scope,
    add table element header scope = table.add header scope (asElement element))

include isAdd

/-- A document of elements that may go into a scope. -/
theorem keepsStorable_replayElements {read : String → Json → Option β}
    (built : ∀ name json element, read name json = some element → (asElement element).Built) :
    Replay.KeepsStorable (replayElements read add) := by
  refine keepsStorable_replayNested fun header scope name json element isRead table storable => ?_
  rw [isAdd]
  exact .ok (storable.add header scope (built name json element isRead))

/-- A document of elements that are built from drafts. -/
theorem keepsStorable_replayDrafts (path : String) {read : Json → Option α}
    {build : String → α → Except DuplicateParameter β}
    (built : ∀ name json draft, read json = some draft →
      Returns (fun element => (asElement element).Built) (build name draft)) :
    Replay.KeepsStorable (replayDrafts path read build add) := by
  refine keepsStorable_replayNested fun header scope name json draft isRead table storable => ?_
  split
  next element isBuilt =>
    rw [isAdd]
    exact .ok (storable.add header scope (built name json draft isRead element isBuilt))
  next => exact .error _

end Elements

/-- Changing a class keeps a table storable, also if the class is not there yet. -/
theorem isStorable_changeClass {table : Table} (storable : table.IsStorable)
    (header scope key : String) {change : Symbols.Class → Symbols.Class}
    (keeps : Class.KeepsSound change) :
    Returns Table.IsStorable (changeClass table header scope key change) := by
  unfold changeClass
  extract_lets prepared
  have isPrepared : prepared.IsStorable := by
    have isNamed : (Element.classDefinition (Class.named key)).Built := Class.Built.named key
    show (if _ then _ else _ : Table).IsStorable
    split
    next => exact storable
    next => exact storable.add header scope isNamed
  split
  next => exact .ok (isPrepared.modifyClass header scope key keeps)
  next => exact .error _

/-- A document of members that may be added to a class. -/
theorem keepsStorable_replayMembers {α : Type} {read : String → Json → Option α}
    {add : Symbols.Class → α → Symbols.Class}
    (additions : ∀ name json member, read name json = some member →
      Class.Addition (add · member)) :
    Replay.KeepsStorable (replayMembers read add) := by
  refine keepsStorable_replayNested fun header scope key json members areMembers table storable =>
    isStorable_changeClass storable header scope key (Class.keepsSound_foldl fun member isIn => ?_)
  obtain ⟨name, found⟩ := (OrderedMap.mem_values ..).mp isIn
  obtain ⟨item, isRead⟩ := read_of_map? areMembers name member found
  exact additions name item member isRead

/-- Every document of a cache keeps a table storable. -/
theorem keepsStorable_replays (policy : DuplicatePolicy) (folder : String) :
    ∀ entry ∈ replays policy folder, entry.2.KeepsStorable := by
  have functions : ∀ name json drafts, overloads? json = some drafts →
      Returns (fun function => (Element.function function).Built)
        (buildFunction policy name drafts) :=
    fun name _ _ areOverloads =>
      built_buildFunction policy name (areDrafts_overloads? areOverloads)
  have classes : ∀ name json draft, class? json = some draft →
      Returns (fun self => (Element.classDefinition self).Built) (buildClass policy name draft) :=
    fun name _ _ isClass => built_buildClass policy name (hasDrafts_class? isClass)
  simp only [replays, List.forall_mem_cons, List.not_mem_nil, false_implies, implies_true, and_true]
  exact ⟨keepsStorable_replayHeaders,
    keepsStorable_replayElements .constant (fun _ _ _ _ => rfl) fun _ _ _ _ => trivial,
    keepsStorable_replayElements .enumeration (fun _ _ _ _ => rfl) fun _ _ _ _ => trivial,
    keepsStorable_replayElements .typeAlias (fun _ _ _ _ => rfl) fun _ _ _ isAlias =>
      isRead_typed? isAlias,
    keepsStorable_replayElements .globalVariable (fun _ _ _ _ => rfl) fun _ _ _ isVariable =>
      isRead_typed? isVariable,
    keepsStorable_replayDrafts .function (fun _ _ _ _ => rfl) _ functions,
    keepsStorable_replayDrafts .classDefinition (fun _ _ _ _ => rfl) _ classes,
    keepsStorable_replayMembers fun _ _ enumeration _ => .enumeration enumeration,
    keepsStorable_replayMembers fun _ _ newVariable isVariable =>
      .variable newVariable (isRead_classVariable? isVariable)⟩

/-! ### Caches -/

theorem isStorable_loadDocument {table : Table} (storable : table.IsStorable) (tree : FileTree)
    (folder : String) {entry : String × Replay} (keeps : entry.2.KeepsStorable) :
    Returns Table.IsStorable (loadDocument tree folder table entry) := by
  unfold loadDocument
  extract_lets path
  split
  next =>
    refine .bind_any fun text => ?_
    split
    next => exact .error _
    next json _ =>
      split
      next => exact .error _
      next change isChange => exact keeps json change isChange table storable
  next => exact .ok storable

theorem isStorable_loadScript (tree : FileTree) (policy : DuplicatePolicy) (folder : String) :
    Returns Table.IsStorable (loadScript tree policy folder) := by
  unfold loadScript
  extract_lets path
  split
  next => exact .bind_any fun text => .mapError (Script.isStorable_read text policy) _
  next => exact .ok Table.isStorable_empty

/-- The table that a cache holds is storable, in either format. -/
theorem isStorable_load (format : Format) (policy : DuplicatePolicy) (folder : String)
    (tree : FileTree) : Returns Table.IsStorable (load format policy folder tree) := by
  unfold load
  split
  next =>
    cases format with
    | data =>
      have keeps := keepsStorable_replays policy folder
      exact .foldlM Table.isStorable_empty fun entry isEntry _ storable =>
        isStorable_loadDocument storable tree folder (keeps entry isEntry)
    | source => exact isStorable_loadScript tree policy folder
  next => exact .error _

end Bindery.Cache
