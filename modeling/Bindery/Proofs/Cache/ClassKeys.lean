/-
**The keys of classes in a data cache.**

A class and its members stand in three documents, which name it by a key. A key with generic
parameters or with blanks around it declares a class of a shorter name, but the class of some
members is looked for under the key as it is written. Under such a key it is never found, although
it is there, and the cache cannot be loaded.

* `IsWellFormed`, `RepeatsNoParameter` — what is asked of the documents of a cache.
* `Attachment.IsAttached` — the members that find a class.
* `load_attaches` — which caches are loaded, and what their classes hold.
-/

import Bindery.Proofs.Cache.Attaching
import Bindery.Proofs.Returns

namespace Bindery.Cache

open Symbols

variable {α β : Type}

/-! ### What the documents list -/

/-- What a document of a cache lists; a document that is not there lists nothing. -/
def listed (tree : FileTree) (folder name : String) (read : String → Json → Option α) : Nested α :=
  (((tree.text? (Path.join folder name)).bind Json.parse?).bind (Nested.ofJson? read)).getD .empty

/-- The functions of a cache by header, scope and name. -/
def listedFunctions (tree : FileTree) (folder : String) : Nested (List Overload) :=
  listed tree folder "functions.json" fun _ => overloads?

/-- The classes of a cache by header, scope and key. -/
def listedClasses (tree : FileTree) (folder : String) : Nested ClassDraft :=
  listed tree folder "classes.json" fun _ => class?

/-- The enumerations of classes by header, scope and key of the class. -/
def listedEnumerations (tree : FileTree) (folder : String) : Nested (OrderedMap Enumeration) :=
  listed tree folder "class_enumerations.json" fun _ => Json.map? enumeration?

/-- The variables of classes by header, scope and key of the class. -/
def listedFields (tree : FileTree) (folder : String) : Nested (OrderedMap ClassVariable) :=
  listed tree folder "class_variables.json" fun _ => Json.map? classVariable?

/-- A document is not there, or is a value of the form that it should have. -/
def IsWellFormed (tree : FileTree) (folder : String) (entry : String × Replay) : Prop :=
  tree.node? (Path.join folder entry.1) = none ∨
    (((tree.text? (Path.join folder entry.1)).bind Json.parse?).bind entry.2).isSome = true

instance (tree : FileTree) (folder : String) (entry : String × Replay) :
    Decidable (IsWellFormed tree folder entry) :=
  inferInstanceAs (Decidable (_ ∨ _))

/-- No overload has two parameters of one name. -/
def HasDistinctParameters (overloads : List Overload) : Prop :=
  ∀ overload ∈ overloads, (overload.parameters.map Parameter.name).Nodup

instance (overloads : List Overload) : Decidable (HasDistinctParameters overloads) :=
  inferInstanceAs (Decidable (∀ overload ∈ overloads, List.Nodup _))

/-- No function and no method of a cache repeats the name of a parameter. -/
structure RepeatsNoParameter (tree : FileTree) (folder : String) : Prop where
  functions : ∀ entry ∈ (listedFunctions tree folder).toList, HasDistinctParameters entry.2.2.2
  methods : ∀ entry ∈ (listedClasses tree folder).toList,
    ∀ method ∈ entry.2.2.2.methods.entries, HasDistinctParameters method.2

section Documents

variable {tree : FileTree} {folder name : String}

/-- A well-formed document is not there, or changes tables. -/
theorem IsWellFormed.cases {replay : Replay}
    (wellFormed : IsWellFormed tree folder (name, replay)) :
    tree.node? (Path.join folder name) = none ∨
      ∃ text json change, tree.text? (Path.join folder name) = some text ∧
        Json.parse? text = some json ∧ replay json = some change := by
  refine wellFormed.imp_right fun isThere => ?_
  obtain ⟨change, isChange⟩ := Option.isSome_iff_exists.mp isThere
  simp only [Option.bind_eq_some_iff] at isChange
  obtain ⟨json, ⟨text, isText, isJson⟩, isChange⟩ := isChange
  exact ⟨text, json, change, isText, isJson, isChange⟩

/-- A document of a nested map replays what it lists. -/
theorem loadDocument_listed {read : String → Json → Option α}
    {visit : Table → String → String → String → α → Except Failure Table}
    (wellFormed : IsWellFormed tree folder
      (name, fun json => (Nested.ofJson? read json).map (replayNested visit))) (table : Table) :
    loadDocument tree folder table
        (name, fun json => (Nested.ofJson? read json).map (replayNested visit)) =
      replayNested visit (listed tree folder name read) table := by
  rcases wellFormed.cases with isAbsent | ⟨text, json, change, isText, isJson, isChange⟩
  · rw [loadDocument_of_absent isAbsent, listed, FileTree.text?, FileTree.content?, isAbsent]
    rfl
  · obtain ⟨nested, isNested, _⟩ := Option.map_eq_some_iff.mp isChange
    rw [loadDocument_of_text isText isJson (congrArg _ isNested), listed, isText, Option.bind_some,
      isJson, Option.bind_some, isNested]
    rfl

/-- A document is loaded into every table if each value that it lists can be. -/
theorem exists_loadDocument {read : String → Json → Option α}
    {visit : Table → String → String → String → α → Except Failure Table}
    (wellFormed : IsWellFormed tree folder
      (name, fun json => (Nested.ofJson? read json).map (replayNested visit)))
    (each : ∀ entry ∈ (listed tree folder name read).toList, ∀ table,
      ∃ next, visit table entry.1 entry.2.1 entry.2.2.1 entry.2.2.2 = .ok next) (table : Table) :
    ∃ next, loadDocument tree folder table
      (name, fun json => (Nested.ofJson? read json).map (replayNested visit)) = .ok next := by
  rw [loadDocument_listed wellFormed]
  exact exists_foldlM_eq_ok each table

theorem exists_loadHeaders (wellFormed : IsWellFormed tree folder (name, replayHeaders))
    (table : Table) :
    ∃ next, loadDocument tree folder table (name, replayHeaders) = .ok next := by
  rcases wellFormed.cases with isAbsent | ⟨text, json, change, isText, isJson, isChange⟩
  · exact ⟨table, loadDocument_of_absent isAbsent⟩
  · have isLoaded : loadDocument tree folder table (name, replayHeaders) = change table :=
      loadDocument_of_text isText isJson isChange
    obtain ⟨headers, _, rfl⟩ := Option.map_eq_some_iff.mp isChange
    exact ⟨_, isLoaded⟩

end Documents

/-! ### What is built -/

section Built

variable (policy : DuplicatePolicy) (name : String)

/-- Overloads without a repeated parameter make a function. -/
theorem exists_buildFunction {drafts : List Overload} (distinct : HasDistinctParameters drafts) :
    ∃ function, buildFunction policy name drafts = .ok function := by
  refine exists_foldlM_eq_ok (fun draft isDraft function => ?_) _
  have isAdded := @Overload.addParameters_of_distinct
    { draft with parameters := [], function := name } draft.parameters (distinct draft isDraft)
    policy
  refine ⟨function.addOverload { draft with function := name }, ?_⟩
  dsimp only
  rw [isAdded]
  rfl

/-- Methods without a repeated parameter make a class. -/
theorem exists_buildClass {draft : ClassDraft}
    (distinct : ∀ method ∈ draft.methods.entries, HasDistinctParameters method.2) :
    ∃ self, buildClass policy name draft = .ok self := by
  unfold buildClass
  refine exists_foldlM_eq_ok ?_ _
  rintro ⟨own, overloads⟩ isMethod self
  obtain ⟨function, isFunction⟩ := exists_buildFunction policy own (distinct _ isMethod)
  refine ⟨self.addMethod function, ?_⟩
  dsimp only
  rw [isFunction]
  rfl

theorem outline_named (name : String) :
    (Class.named name).fields = .empty ∧ (Class.named name).enumerations = .empty := by
  unfold Class.named
  extract_lets raw plain
  split <;> exact ⟨rfl, rfl⟩

/-- The record of a class gives no variables and no enumerations. -/
theorem outline_buildClass (draft : ClassDraft) :
    Returns (fun self => self.fields = .empty ∧ self.enumerations = .empty)
      (buildClass policy name draft) := by
  unfold buildClass
  refine .foldlM ?_ fun _ _ _ isBare => .bind_any fun _ => .ok isBare
  rw [Class.foldl_addParent]
  exact outline_named name

end Built

/-! ### Members -/

/-- The slot of the class to which a document adds members. -/
def memberSlot (entry : String × String × String × OrderedMap α) : Slot :=
  ⟨entry.1, canonicalScope entry.2.1, .classDefinition, entry.2.2.1⟩

/-- The members that a document lists for the class in a slot. -/
def membersIn (nested : Nested (OrderedMap α)) (slot : Slot) : List α :=
  (nested.toList.filter (memberSlot · = slot)).flatMap fun entry => entry.2.2.2.values

/-- What a document of members attaches, in its order. -/
def attachmentsOf (add : Symbols.Class → α → Symbols.Class) (nested : Nested (OrderedMap α)) :
    List Attachment :=
  nested.toList.map fun (header, scope, key, members) =>
    ⟨header, scope, key, withMembers add members⟩

/-- What a cache attaches, the enumerations before the variables. -/
def listedAttachments (tree : FileTree) (folder : String) : List Attachment :=
  attachmentsOf Class.addEnumeration (listedEnumerations tree folder) ++
    attachmentsOf Class.addVariable (listedFields tree folder)

/-- A class with the members that a cache lists for its slot, and no others. -/
def withListed (tree : FileTree) (folder : String) (slot : Slot) (self : Symbols.Class) :
    Symbols.Class :=
  { self with
    enumerations := .ofList ((membersIn (listedEnumerations tree folder) slot).map
      fun enumeration => (enumeration.name, { enumeration with holder := .classNamed slot.name }))
    fields := .ofList ((membersIn (listedFields tree folder) slot).map
      fun member => (member.name, member)) }

/-- The attachments of a document add the members that it lists. -/
theorem changesIn_attachmentsOf (add : Symbols.Class → α → Symbols.Class)
    (nested : Nested (OrderedMap α)) (slot : Slot) (self : Symbols.Class) :
    changesIn slot (attachmentsOf add nested) self = (membersIn nested slot).foldl add self := by
  rw [changesIn, attachmentsOf, membersIn, List.filter_map, List.foldl_map, List.foldl_flatMap]
  rfl

/-- A class without members gets those that the cache lists. -/
theorem changesIn_listedAttachments {tree : FileTree} {folder : String} {slot : Slot}
    {self : Symbols.Class} (isNamed : self.name = slot.name)
    (isBare : self.fields = .empty ∧ self.enumerations = .empty) :
    changesIn slot (listedAttachments tree folder) self = withListed tree folder slot self := by
  rw [listedAttachments, changesIn_append, changesIn_attachmentsOf, changesIn_attachmentsOf,
    Class.foldl_addEnumeration, Class.foldl_addVariable, withListed, isBare.1, isBare.2, isNamed,
    OrderedMap.ofList, OrderedMap.ofList, List.foldl_map, List.foldl_map]

/-! ### Loading -/

section Load

variable {policy : DuplicatePolicy} {tree : FileTree} {folder : String}

/-- The documents of a cache that come before the classes. -/
def earlierReplays (policy : DuplicatePolicy) (folder : String) : List (String × Replay) :=
  (replays policy folder).take 6

/-- The documents before the classes are loaded into every table. -/
theorem exists_loadEach
    (wellFormed : ∀ entry ∈ earlierReplays policy folder, IsWellFormed tree folder entry)
    (distinct : RepeatsNoParameter tree folder) :
    ∀ entry ∈ earlierReplays policy folder, ∀ table,
      ∃ next, loadDocument tree folder table entry = .ok next := by
  simp only [earlierReplays, replays, List.take_succ_cons, List.take_zero, List.forall_mem_cons,
    List.not_mem_nil, false_implies, implies_true, and_true] at wellFormed ⊢
  obtain ⟨headers, constants, enumerations, aliases, globals, functions⟩ := wellFormed
  refine ⟨exists_loadHeaders headers, ?_, ?_, ?_, ?_, ?_⟩
  · exact exists_loadDocument constants fun _ _ _ => ⟨_, rfl⟩
  · exact exists_loadDocument enumerations fun _ _ _ => ⟨_, rfl⟩
  · exact exists_loadDocument aliases fun _ _ _ => ⟨_, rfl⟩
  · exact exists_loadDocument globals fun _ _ _ => ⟨_, rfl⟩
  · refine exists_loadDocument functions fun entry isEntry table => ?_
    obtain ⟨function, isFunction⟩ :=
      exists_buildFunction policy entry.2.2.1 (distinct.functions entry isEntry)
    rw [isFunction]
    exact ⟨_, rfl⟩

/-- The documents before the classes hold no class. -/
theorem noClass_loadEarlier (policy : DuplicatePolicy) (tree : FileTree) (folder : String) :
    Returns
      (fun table : Table => ∀ slot : Slot, slot.kind = .classDefinition → table.find? slot = none)
      ((earlierReplays policy folder).foldlM (loadDocument tree folder) .empty) := by
  have others : ∀ entry ∈ earlierReplays policy folder, entry.1 ∉ documentsOf .classDefinition := by
    simp [earlierReplays, replays, documentsOf]
  refine .foldlM (fun _ _ => rfl) ?_
  rintro ⟨name, replay⟩ isEntry table isNone next isNext
  have apart := isApart_of_mem (List.mem_of_mem_take isEntry)
  have filled := filled_loadDocument (apart.fills replay (by simp)) table next isNext
  intro slot isClass
  rw [filled.find?_eq (isClass ▸ others _ isEntry), isNone slot isClass]

/-- The document of the classes puts them in one after the other. -/
theorem exists_loadClasses {name path : String}
    (wellFormed : IsWellFormed tree folder
      (name, replayDrafts path class? (buildClass policy) Table.addClass))
    (areBuilt : ∀ declaration ∈ (listed tree folder name fun _ => class?).toList,
      IsBuilt policy declaration) (table : Table) :
    ∃ made, loadDocument tree folder table
        (name, replayDrafts path class? (buildClass policy) Table.addClass) = .ok made ∧
      made.find? = (listed tree folder name fun _ => class?).toList.foldl (declare policy)
        table.find? := by
  have isReplayed : loadDocument tree folder table
      (name, replayDrafts path class? (buildClass policy) Table.addClass) = _ :=
    loadDocument_listed wellFormed table
  rw [isReplayed]
  exact exists_declareAll (fun _ _ _ _ _ _ isBuilt => by rw [isBuilt]) areBuilt table

/-- A document of members attaches what it lists. -/
theorem loadDocument_members {name : String} {read : String → Json → Option α}
    {add : Symbols.Class → α → Symbols.Class}
    (wellFormed : IsWellFormed tree folder (name, replayMembers read add)) (table : Table) :
    loadDocument tree folder table (name, replayMembers read add) =
      (attachmentsOf add (listed tree folder name fun _ => Json.map? read)).foldlM
        Attachment.attach table := by
  rw [replayMembers_eq] at wellFormed ⊢
  rw [loadDocument_listed wellFormed, attachmentsOf, List.foldlM_map]
  rfl

/-- Behind the classes, loading attaches their members. -/
theorem exists_load_eq_attachAll (isFolder : tree.isFolder folder = true)
    (wellFormed : ∀ entry ∈ replays policy folder, IsWellFormed tree folder entry)
    (distinct : RepeatsNoParameter tree folder) :
    ∃ made declared : Table,
      (∀ slot : Slot, slot.kind = .classDefinition → made.find? slot = none) ∧
      declared.find? = (listedClasses tree folder).toList.foldl (declare policy) made.find? ∧
      load .data policy folder tree =
        (listedAttachments tree folder).foldlM Attachment.attach declared := by
  have areWellFormed : ∀ entry ∈ earlierReplays policy folder, IsWellFormed tree folder entry :=
    fun entry isEntry => wellFormed entry (List.mem_of_mem_take isEntry)
  obtain ⟨made, loadsEarlier⟩ :=
    exists_foldlM_eq_ok (exists_loadEach areWellFormed distinct) Table.empty
  have parts : replays policy folder = earlierReplays policy folder ++
      [("classes.json", replayDrafts (Path.join folder "classes.json") class? (buildClass policy)
          Table.addClass),
        ("class_enumerations.json", replayMembers enumeration? Class.addEnumeration),
        ("class_variables.json", replayMembers classVariable? Class.addVariable)] := rfl
  rw [parts, List.forall_mem_append] at wellFormed
  simp only [List.forall_mem_cons, List.not_mem_nil, false_implies, implies_true, and_true]
    at wellFormed
  obtain ⟨_, ofClasses, ofEnumerations, ofFields⟩ := wellFormed
  obtain ⟨declared, loadsClasses, isFound⟩ := exists_loadClasses ofClasses (fun entry isEntry =>
    exists_buildClass policy entry.2.2.1 (distinct.methods entry isEntry)) made
  refine ⟨made, declared, noClass_loadEarlier policy tree folder made loadsEarlier, isFound, ?_⟩
  rw [load, if_pos isFolder, listedAttachments, List.foldlM_append]
  show (replays policy folder).foldlM _ _ = _
  rw [parts, List.foldlM_append, loadsEarlier]
  show List.foldlM (loadDocument tree folder) made [_, _, _] = _
  rw [List.foldlM_cons, loadsClasses]
  show List.foldlM (loadDocument tree folder) declared [_, _] = _
  rw [List.foldlM_cons, loadDocument_members ofEnumerations]
  refine congrArg _ (funext fun next => ?_)
  rw [List.foldlM_cons, loadDocument_members ofFields]
  exact bind_pure _

/-! ### Main statement -/

/-- Members find a class that is declared, or create it where they look for it. -/
def Attachment.IsAttached (tree : FileTree) (folder : String) (attachment : Attachment) : Prop :=
  attachment.IsSettled ∨ ∃ declaration ∈ (listedClasses tree folder).toList,
    declaredSlot declaration = attachment.slot

/-- A declaration is the last one in its slot. -/
def IsLast (declarations : List Declaration) (declaration : Declaration) : Prop :=
  ∃ front behind, declarations = front ++ declaration :: behind ∧
    ∀ later ∈ behind, declaredSlot later ≠ declaredSlot declaration

theorem IsLast.mem {declarations : List Declaration} {declaration : Declaration}
    (isLast : IsLast declarations declaration) : declaration ∈ declarations := by
  obtain ⟨front, behind, rfl, _⟩ := isLast
  exact List.mem_append_right _ (List.mem_cons_self ..)

/-- In a scope that is read as it is written, only the key of a class matters. -/
theorem Attachment.isAttached_iff {attachment : Attachment}
    (isFixed : canonicalScope attachment.scope = attachment.scope) :
    attachment.IsAttached tree folder ↔ (Class.named attachment.key).name = attachment.key := by
  refine ⟨?_, fun plainKey => .inl ⟨congrArg canonicalScope isFixed, plainKey⟩⟩
  rintro (settled | ⟨⟨_, _, key, _⟩, _, isSlot⟩)
  · exact settled.key
  · have isName : (Class.named key).name = attachment.key := congrArg Slot.name isSlot
    rw [← isName, Class.named_name]

theorem class?_of_find? {table : Table} {header scope name : String} {self : Symbols.Class}
    (isFound : table.find? ⟨header, canonicalScope scope, .classDefinition, name⟩ =
      some (.classDefinition self)) : table.class? header scope name = some self := by
  rw [Table.find?_class] at isFound
  obtain ⟨other, isOther, isSame⟩ := Option.map_eq_some_iff.mp isFound
  rw [isOther, Element.classDefinition.inj isSame]

section Classes

variable {made declared table : Table}

/-- The last class that is declared in a slot has the members that are listed for it. -/
theorem class?_of_isLast
    (isDeclared : declared.find? =
      (listedClasses tree folder).toList.foldl (declare policy) made.find?)
    (isTable : table.find? = (listedAttachments tree folder).foldl Attachment.put declared.find?)
    {header scope key : String} {draft : ClassDraft} {self : Symbols.Class}
    (isLast : IsLast (listedClasses tree folder).toList (header, scope, key, draft))
    (isBuilt : buildClass policy key draft = .ok self) :
    table.class? header (canonicalScope scope) (Class.named key).name =
      some (withListed tree folder (declaredSlot (header, scope, key, draft))
        (self.attach ⟨header, canonicalScope scope⟩)) := by
  obtain ⟨front, behind, isSplit, isLast⟩ := isLast
  have isClass : declared.find? (declaredSlot (header, scope, key, draft)) =
      some (.classDefinition (self.attach ⟨header, canonicalScope scope⟩)) := by
    rw [isDeclared, isSplit]
    exact foldl_declare_of_last isBuilt isLast
  refine class?_of_find? ?_
  show table.find? (declaredSlot (header, scope, key, draft)) = _
  rw [isTable, foldl_put_of_some isClass, changesIn_listedAttachments]
  · exact name_buildClass policy key draft self isBuilt
  · exact outline_buildClass policy key draft self isBuilt

/-- Members of a class that is not declared are in a class without anything else. -/
theorem class?_of_undeclared (noClass : ∀ slot : Slot, slot.kind = .classDefinition →
      made.find? slot = none)
    (isDeclared : declared.find? =
      (listedClasses tree folder).toList.foldl (declare policy) made.find?)
    (isTable : table.find? = (listedAttachments tree folder).foldl Attachment.put declared.find?)
    {attachment : Attachment} (isAttachment : attachment ∈ listedAttachments tree folder)
    (settled : attachment.IsSettled)
    (undeclared : ∀ declaration ∈ (listedClasses tree folder).toList,
      declaredSlot declaration ≠ attachment.slot) :
    table.class? attachment.header attachment.scope attachment.key =
      some (withListed tree folder attachment.slot (freshClass attachment.slot)) := by
  have isAbsent : declared.find? attachment.slot = none := by
    rw [isDeclared, foldl_declare_of_none undeclared, noClass attachment.slot rfl]
  refine class?_of_find? ?_
  show table.find? attachment.slot = _
  rw [isTable, foldl_put_of_none isAbsent ⟨attachment, isAttachment, rfl⟩,
    changesIn_listedAttachments]
  · exact (name_freshClass _).trans settled.key
  · rw [freshClass, Class.attach]
    exact outline_named attachment.slot.name

end Classes

/-- **Members are looked for under the keys of their classes as they are written.** In a scope that
is read as it is written, they find a class exactly if its key is the name that it declares. A cache
cannot be loaded if some members find no class, and else it is loaded. Then the last class that is
declared under a name is as its record says, with the members that are listed under this name and no
others, and members of a class that is not declared are in a class without anything else. -/
theorem load_attaches (isFolder : tree.isFolder folder = true)
    (wellFormed : ∀ entry ∈ replays policy folder, IsWellFormed tree folder entry)
    (distinct : RepeatsNoParameter tree folder) :
    (∀ attachment ∈ listedAttachments tree folder,
      canonicalScope attachment.scope = attachment.scope →
        (attachment.IsAttached tree folder ↔
          (Class.named attachment.key).name = attachment.key)) ∧
    (∀ front attachment behind, listedAttachments tree folder = front ++ attachment :: behind →
      (∀ earlier ∈ front, earlier.IsAttached tree folder) →
        ¬ attachment.IsAttached tree folder →
          load .data policy folder tree =
            .error (.unattachedClass attachment.key attachment.header)) ∧
    ((∀ attachment ∈ listedAttachments tree folder, attachment.IsAttached tree folder) →
      ∃ table, load .data policy folder tree = .ok table ∧
        (∀ header scope key draft,
          IsLast (listedClasses tree folder).toList (header, scope, key, draft) →
            ∃ declared, buildClass policy key draft = .ok declared ∧
              table.class? header (canonicalScope scope) (Class.named key).name =
                some (withListed tree folder (declaredSlot (header, scope, key, draft))
                  (declared.attach ⟨header, canonicalScope scope⟩))) ∧
        ∀ attachment ∈ listedAttachments tree folder,
          (∀ declaration ∈ (listedClasses tree folder).toList,
            declaredSlot declaration ≠ attachment.slot) →
              table.class? attachment.header attachment.scope attachment.key =
                some (withListed tree folder attachment.slot (freshClass attachment.slot))) := by
  obtain ⟨made, declared, noClass, isDeclared, loads⟩ :=
    exists_load_eq_attachAll isFolder wellFormed distinct
  have areBuilt : ∀ declaration ∈ (listedClasses tree folder).toList, IsBuilt policy declaration :=
    fun entry isEntry => exists_buildClass policy entry.2.2.1 (distinct.methods entry isEntry)
  have finds_iff : ∀ attachment : Attachment,
      attachment.Finds declared.find? ↔ attachment.IsAttached tree folder := by
    intro attachment
    rw [Attachment.Finds, isDeclared, isSome_foldl_declare areBuilt, noClass attachment.slot rfl,
      Attachment.IsAttached, or_comm]
    simp
  refine ⟨fun attachment _ isFixed => attachment.isAttached_iff isFixed, ?_, fun attached => ?_⟩
  · intro front attachment behind isSplit attached lacks
    rw [loads, isSplit]
    refine attachAll_eq_error (fun earlier isEarlier => ?_) (mt (finds_iff attachment).mp lacks)
    exact (finds_iff earlier).mpr (attached earlier isEarlier)
  · obtain ⟨table, attaches, isTable⟩ := exists_attachAll fun attachment isAttachment =>
      (finds_iff attachment).mpr (attached attachment isAttachment)
    refine ⟨table, loads.trans attaches, fun header scope key draft isLast => ?_,
      fun attachment isAttachment undeclared => ?_⟩
    · obtain ⟨self, isBuilt⟩ := areBuilt _ isLast.mem
      exact ⟨self, isBuilt, class?_of_isLast isDeclared isTable isLast isBuilt⟩
    · have settled : attachment.IsSettled := by
        refine (attached attachment isAttachment).resolve_right ?_
        rintro ⟨declaration, isDeclaration, isSlot⟩
        exact undeclared declaration isDeclaration isSlot
      exact class?_of_undeclared noClass isDeclared isTable isAttachment settled undeclared

/-- A class and a variable of it in a data cache, both under one key. -/
def keyedTree (key : String) : FileTree :=
  folderOfDocuments "cache"
    [("classes.json", sampleDocument key (Json.record [])),
      ("class_variables.json", sampleDocument key (Json.record [("rows", Json.record [])]))]

/-- Under a plain key, members get into their class. -/
theorem load_attaches_plain :
    (keyedTree "Grid").isFolder "cache" = true ∧
      (∀ entry ∈ replays .reject "cache", IsWellFormed (keyedTree "Grid") "cache" entry) ∧
      RepeatsNoParameter (keyedTree "Grid") "cache" ∧
      ∃ table draft declared, load .data .reject "cache" (keyedTree "Grid") = .ok table ∧
        (listedClasses (keyedTree "Grid") "cache").toList = [("a.h", "m", "Grid", draft)] ∧
        buildClass .reject "Grid" draft = .ok declared ∧
        table.class? "a.h" (canonicalScope "m") (Class.named "Grid").name =
          some (withListed (keyedTree "Grid") "cache" (declaredSlot ("a.h", "m", "Grid", draft))
            (declared.attach ⟨"a.h", canonicalScope "m"⟩)) := by
  have isFolder : (keyedTree "Grid").isFolder "cache" = true := by decide +kernel
  have wellFormed : ∀ entry ∈ replays .reject "cache",
      IsWellFormed (keyedTree "Grid") "cache" entry := by decide +kernel
  have distinct : RepeatsNoParameter (keyedTree "Grid") "cache" :=
    ⟨by decide +kernel, by decide +kernel⟩
  have settled : ∀ attachment ∈ listedAttachments (keyedTree "Grid") "cache",
      attachment.IsSettled := by decide +kernel
  obtain ⟨table, loads, hasDeclared, _⟩ := (load_attaches isFolder wellFormed distinct).2.2
    fun attachment isAttachment => .inl (settled attachment isAttachment)
  have keys : (listedClasses (keyedTree "Grid") "cache").toList.map
      (fun declaration => (declaration.1, declaration.2.1, declaration.2.2.1)) =
        [("a.h", "m", "Grid")] := by decide +kernel
  obtain ⟨⟨_, _, _, draft⟩, isClass, sameKeys⟩ := List.map_eq_singleton_iff.mp keys
  cases sameKeys
  obtain ⟨declared, isBuilt, isFound⟩ :=
    hasDeclared "a.h" "m" "Grid" draft ⟨[], [], isClass, by simp⟩
  exact ⟨isFolder, wellFormed, distinct, table, draft, declared, loads, isClass, isBuilt, isFound⟩

/-- Under a key with generic parameters, the class is there, but its members do not find it. -/
theorem load_generic_key :
    canonicalScope "m" = "m" ∧ (keyedTree "Grid<T>").isFolder "cache" = true ∧
      (∀ entry ∈ replays .reject "cache", IsWellFormed (keyedTree "Grid<T>") "cache" entry) ∧
      RepeatsNoParameter (keyedTree "Grid<T>") "cache" ∧
      (listedClasses (keyedTree "Grid<T>") "cache").toList.map
        (fun declaration => (declaration.1, declaration.2.1, declaration.2.2.1)) =
          [("a.h", "m", "Grid<T>")] ∧
      (listedAttachments (keyedTree "Grid<T>") "cache").map
        (fun attachment => (attachment.header, attachment.scope, attachment.key)) =
          [("a.h", "m", "Grid<T>")] ∧
      load .data .reject "cache" (keyedTree "Grid<T>") =
        .error (.unattachedClass "Grid<T>" "a.h") :=
  ⟨by decide +kernel, by decide +kernel, by decide +kernel, ⟨by decide +kernel, by decide +kernel⟩,
    by decide +kernel, by decide +kernel, eq_error_of_failure? (by decide +kernel)⟩

end Load

end Bindery.Cache
