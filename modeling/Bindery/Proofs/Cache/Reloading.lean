/-
**The cache of every storable table can be loaded.**

A table whose scopes have unusual spellings does not come back from its cache as it was: each time
a spelling is read, it may lose a mark. Still every record is read and every element is built, and
the headers come back with their switches. Only the two documents of class members may refuse. They
add a class under the name of its scope and look for it under that name, and find it only where one
reading takes as much away as two.

* `HasSettledMembers` — the scopes of classes with members have such names.
* `Replay.Accepts` — a document that changes every table; `accepts_documents` — the nine do.
* `exists_load_of_holdsFiles` — what is loaded, with the switches that were saved.
* `save_again` — what was saved is saved again without a change.
-/

import Bindery.Proofs.Cache.RoundTrip
import Bindery.Proofs.Cache.Separation
import Bindery.Proofs.Files.Rewriting
import Bindery.Proofs.Symbols.Overlay
import Bindery.Proofs.Symbols.Storable

namespace Bindery

/-! ### Tables -/

namespace Symbols

theorem Table.IsStorable.named {table : Table} (storable : table.IsStorable) :
    table.headers.Forall fun name header => header.name = name :=
  OrderedMap.Forall.imp storable fun _ _ isStorable => isStorable.1

/-- Every scope of a storable table is storable under some key of its header. -/
theorem Table.IsStorable.mem_scopes {table : Table} (storable : table.IsStorable)
    {header : Header} {scope : Scope} (isIn : (header, scope) ∈ table.scopes) :
    ∃ key, scope.IsStorable header.name key := by
  simp only [Table.scopes, List.mem_flatMap, List.mem_map, Prod.mk.injEq] at isIn
  obtain ⟨_, isHeader, _, isScope, rfl, rfl⟩ := isIn
  obtain ⟨name, foundHeader⟩ := (OrderedMap.mem_values ..).mp isHeader
  obtain ⟨key, foundScope⟩ := (OrderedMap.mem_values ..).mp isScope
  exact ⟨key, ((storable name _ foundHeader).2 key _ foundScope).2⟩

namespace Scope.IsStorable

variable {header key : String} {scope : Scope}

theorem aliases_isRead (storable : scope.IsStorable header key) :
    scope.aliases.Forall fun _ element => element.type.IsRead :=
  storable.aliases.imp fun _ _ again => (TypeShape.isRead_iff _).mpr again

theorem globals_isRead (storable : scope.IsStorable header key) :
    scope.globals.Forall fun _ element => element.type.IsRead :=
  storable.globals.imp fun _ _ again => (TypeShape.isRead_iff _).mpr again

theorem functions_isSound (storable : scope.IsStorable header key) :
    scope.functions.Forall fun _ function => function.IsSound :=
  storable.functions.imp fun _ _ isStorable => (Function.isSound_iff _).mpr isStorable

theorem classes_isSound (storable : scope.IsStorable header key) :
    scope.classes.Forall fun _ self => self.IsSound :=
  storable.classes.imp fun _ _ isStorable => (Class.isSound_iff _).mpr isStorable

end Scope.IsStorable

end Symbols

namespace Cache

open Json Symbols

variable {α β : Type}

/-! ### Classes with members -/

/-- Classes with variables or enumerations stand in scopes from whose names two readings take as
much away as one. -/
def HasSettledMembers (table : Table) : Prop :=
  ∀ entry ∈ table.scopes, (∃ self ∈ entry.2.classes.values,
      self.enumerations.isEmpty = false ∨ self.fields.isEmpty = false) →
    canonicalScope (canonicalScope entry.2.name) = canonicalScope entry.2.name

instance (table : Table) : Decidable (HasSettledMembers table) :=
  inferInstanceAs (Decidable (∀ entry ∈ table.scopes, (∃ self ∈ entry.2.classes.values,
      self.enumerations.isEmpty = false ∨ self.fields.isEmpty = false) →
    canonicalScope (canonicalScope entry.2.name) = canonicalScope entry.2.name))

/-- Under such a name, a class is there or is found where it was added. -/
theorem exists_changeClass_eq_ok {scope key : String}
    (settled : canonicalScope (canonicalScope scope) = canonicalScope scope)
    (plainName : (Class.named key).name = key) (made : Table) (header : String)
    (change : Symbols.Class → Symbols.Class) :
    ∃ next, changeClass made header scope key change = .ok next := by
  by_cases isThere : (made.class? header scope key).isSome = true
  · exact ⟨_, changeClass_eq_ok isThere change⟩
  · have isAdded : ((made.addClass (Class.named key) header scope).class? header scope key).isSome =
        true := by
      have isSlot : (Element.classDefinition (Class.named key)).slotIn header scope =
          ⟨header, canonicalScope scope, .classDefinition, key⟩ := by
        rw [Element.slotIn, settled, Element.name, plainName]
        rfl
      rw [Table.isSome_class?_iff]
      show ((made.add header scope (.classDefinition (Class.named key))).find? _).isSome = true
      rw [Table.find?_add, if_pos isSlot, Option.isSome_some]
    refine ⟨(made.addClass (Class.named key) header scope).modifyClass header scope key change, ?_⟩
    simp only [changeClass, isThere, Bool.false_eq_true, if_false, isAdded, if_true]

/-! ### What a document holds -/

/-- Values that are put under a header and a scope have a property if they have it there. -/
theorem Nested.forall_put {property : String → String → String → α → Prop} {nested : Nested α}
    (holds : nested.Forall fun header scopes => scopes.Forall fun scope items =>
      items.Forall (property header scope))
    {header scope : String} {pairs : List (String × α)}
    (each : ∀ pair ∈ pairs, property header scope pair.1 pair.2) :
    (nested.put header scope pairs).Forall fun header scopes => scopes.Forall fun scope items =>
      items.Forall (property header scope) := by
  unfold Nested.put
  split
  next => exact holds
  next =>
    refine holds.upsert ?_ fun scopes ofScopes => ?_
    · exact OrderedMap.Forall.upsert .empty (OrderedMap.Forall.empty.foldl_insert each)
        fun items ofItems => ofItems.foldl_insert each
    · exact ofScopes.upsert (OrderedMap.Forall.empty.foldl_insert each)
        fun items ofItems => ofItems.foldl_insert each

/-- Whatever the names of its scopes, a document holds what some scope of the table contributes. -/
theorem mem_toList_collected {table : Table} {items : Scope → List (String × α)}
    {header scope name : String} {value : α}
    (isItem : (header, scope, name, value) ∈ (collected table items).toList) :
    ∃ holder inner, (holder, inner) ∈ table.scopes ∧ holder.name = header ∧ inner.name = scope ∧
      (name, value) ∈ items inner := by
  let property (header scope name : String) (value : α) : Prop :=
    ∃ holder inner, (holder, inner) ∈ table.scopes ∧ holder.name = header ∧ inner.name = scope ∧
      (name, value) ∈ items inner
  have ofFold : ∀ (entries : List (Header × Scope)) (nested : Nested α),
      (∀ entry ∈ entries, entry ∈ table.scopes) →
      (nested.Forall fun header scopes => scopes.Forall fun scope items =>
        items.Forall (property header scope)) →
      (entries.foldl (fun nested entry =>
        nested.put entry.1.name entry.2.name (items entry.2)) nested).Forall
          fun header scopes => scopes.Forall fun scope items =>
            items.Forall (property header scope) := by
    intro entries
    induction entries with
    | nil => exact fun _ _ holds => holds
    | cons entry rest ih =>
      intro nested areScopes holds
      rw [List.forall_mem_cons] at areScopes
      exact ih _ areScopes.2 (Nested.forall_put holds fun pair isPair =>
        ⟨entry.1, entry.2, areScopes.1, rfl, rfl, isPair⟩)
  obtain ⟨scopes, found, isHeader, isScope, isFound⟩ := Nested.exists_of_mem_toList isItem
  exact ofFold table.scopes .empty (fun _ isIn => isIn) .empty header scopes isHeader scope found
    isScope name value isFound

/-! ### Documents that change every table -/

/-- The value of a document can be replayed, and then changes every table into some other. -/
def Replay.Accepts (replay : Replay) (json : Json) : Prop :=
  ∃ change, replay json = some change ∧ ∀ made, ∃ next, change made = .ok next

/-- A document is accepted when each contribution is read and what is read changes every table. -/
theorem accepts_collect {table : Table} {items : Scope → List (String × α)} {write : α → Json}
    {read : String → Json → Option β} (result : α → β)
    {visit : Table → String → String → String → β → Except Failure Table}
    (each : ∀ header scope, (header, scope) ∈ table.scopes → ∀ pair ∈ items scope,
      read pair.1 (write pair.2) = some (result pair.2) ∧
        ∀ made, ∃ next, visit made header.name scope.name pair.1 (result pair.2) = .ok next) :
    Replay.Accepts (fun json => (Nested.ofJson? read json).map (replayNested visit))
      (collect table fun scope => (items scope).map fun (name, value) => (name, write value)) := by
  have isRead : Nested.ofJson? read ((collected table items).mapItems write).toJson =
      some ((collected table items).mapItems result) := by
    refine Nested.ofJson?_toJson fun header scope name value isItem => ?_
    obtain ⟨holder, inner, isScope, -, -, isPair⟩ := mem_toList_collected isItem
    exact (each holder inner isScope _ isPair).1
  refine ⟨replayNested visit ((collected table items).mapItems result), ?_, fun made => ?_⟩
  · show (Nested.ofJson? read (collect table _)).map _ = _
    rw [collect_eq, isRead]
    rfl
  · rw [replayNested, Nested.toList_mapItems, List.foldlM_map]
    refine exists_foldlM_eq_ok ?_ made
    rintro ⟨_, _, name, value⟩ isItem made
    obtain ⟨holder, inner, isScope, rfl, rfl, isPair⟩ := mem_toList_collected isItem
    exact (each holder inner isScope _ isPair).2 made

section Kinds

variable {table : Table} (storable : table.IsStorable)

include storable

/-- A document of one kind of elements is accepted when each element of the kind is read back and
what is read can be added. -/
theorem accepts_kind {items : Scope → OrderedMap α} {write : α → Json}
    {read : String → Json → Option β} (result : α → β)
    {visit : Table → String → String → String → β → Except Failure Table}
    (each : ∀ header scope key, (header, scope) ∈ table.scopes → scope.IsStorable header.name key →
      ∀ pair ∈ (items scope).entries, read pair.1 (write pair.2) = some (result pair.2) ∧
        ∀ made header scope, ∃ next, visit made header scope pair.1 (result pair.2) = .ok next) :
    Replay.Accepts (fun json => (Nested.ofJson? read json).map (replayNested visit))
      (collect table fun scope => records write (items scope)) := by
  refine @accepts_collect _ _ _ (fun scope => (items scope).entries) write read result visit ?_
  intro header scope isIn pair isPair
  obtain ⟨key, isStorable⟩ := storable.mem_scopes isIn
  obtain ⟨isRead, visits⟩ := each header scope key isIn isStorable pair isPair
  exact ⟨isRead, fun made => visits made _ _⟩

/-! ### The nine documents -/

theorem accepts_headers :
    Replay.Accepts replayHeaders
      (Json.record (table.headerList.map fun header => (header.name, .bool header.enabled))) := by
  refine ⟨_, congrArg (Option.map _) (map?_headers storable.named), fun made => ⟨_, rfl⟩⟩

theorem accepts_constants :
    Replay.Accepts (replayElements constant? Table.addConstant)
      (collect table fun scope => records constantRecord scope.constants) := by
  refine accepts_kind storable Constant.detached fun _ scope key _ isStorable pair isPair => ?_
  obtain ⟨ownName, _⟩ := isStorable.stamped.constants.of_mem isPair
  exact ⟨ownName ▸ constant?_record pair.2, fun _ _ _ => ⟨_, rfl⟩⟩

theorem accepts_enumerations :
    Replay.Accepts (replayElements enumeration? Table.addEnumeration)
      (collect table fun scope => records enumerationRecord scope.enumerations) := by
  refine accepts_kind storable Enumeration.detached fun _ scope key _ isStorable pair isPair => ?_
  obtain ⟨ownName, _⟩ := isStorable.stamped.enumerations.of_mem isPair
  exact ⟨ownName ▸ enumeration?_record pair.2, fun _ _ _ => ⟨_, rfl⟩⟩

theorem accepts_aliases :
    Replay.Accepts (replayElements typed? Table.addAlias)
      (collect table fun scope => records (typedRecord ·.type) scope.aliases) := by
  refine accepts_kind storable TypedName.detached fun _ scope key _ isStorable pair isPair => ?_
  obtain ⟨ownName, _⟩ := isStorable.stamped.aliases.of_mem isPair
  have isRead := isStorable.aliases_isRead.of_mem isPair
  exact ⟨ownName ▸ typed?_record isRead, fun _ _ _ => ⟨_, rfl⟩⟩

theorem accepts_globals :
    Replay.Accepts (replayElements typed? Table.addVariable)
      (collect table fun scope => records (typedRecord ·.type) scope.globals) := by
  refine accepts_kind storable TypedName.detached fun _ scope key _ isStorable pair isPair => ?_
  obtain ⟨ownName, _⟩ := isStorable.stamped.globals.of_mem isPair
  have isRead := isStorable.globals_isRead.of_mem isPair
  exact ⟨ownName ▸ typed?_record isRead, fun _ _ _ => ⟨_, rfl⟩⟩

theorem accepts_functions (path : String) (policy : DuplicatePolicy) :
    Replay.Accepts (replayDrafts path overloads? (buildFunction policy) Table.addFunction)
      (collect table fun scope => records functionRecord scope.functions) := by
  refine accepts_kind storable (fun function => function.overloads.map draftOf)
    fun _ scope key _ isStorable pair isPair => ?_
  obtain ⟨ownName, _⟩ := isStorable.stamped.functions.of_mem isPair
  have isSound := isStorable.functions_isSound.of_mem isPair
  refine ⟨overloads?_record isSound, fun made _ _ => ?_⟩
  rw [← ownName, buildFunction_drafts isSound policy]
  exact ⟨_, rfl⟩

theorem accepts_classes (plain : HasPlainMethodNames table) (path : String)
    (policy : DuplicatePolicy) :
    Replay.Accepts (replayDrafts path class? (buildClass policy) Table.addClass)
      (collect table fun scope => records classRecord scope.classes) := by
  refine accepts_kind storable classDraft fun header scope key isIn isStorable pair isPair => ?_
  obtain ⟨ownName, _⟩ := isStorable.stamped.classes.of_mem isPair
  have isSound := isStorable.classes_isSound.of_mem isPair
  have isClass : pair.2 ∈ table.classes :=
    List.mem_flatMap.mpr ⟨(header, scope), isIn, List.mem_map_of_mem isPair⟩
  refine ⟨class?_record isSound (plain _ isClass), fun made _ _ => ?_⟩
  rw [← ownName, buildClass_draft isSound policy]
  exact ⟨_, rfl⟩

/-- A document of members is accepted when each member is read back and each class that has some
stands where it is found. -/
theorem accepts_members (settled : HasSettledMembers table)
    {members : Symbols.Class → OrderedMap α} {write : α → Json} {read : String → Json → Option β}
    (result : α → β) (add : Symbols.Class → β → Symbols.Class)
    (areCounted : ∀ self, (members self).isEmpty = false →
      self.enumerations.isEmpty = false ∨ self.fields.isEmpty = false)
    (reads : ∀ self : Symbols.Class, self.IsSound → (members self).Forall fun name value =>
      read name (write value) = some (result value)) :
    Replay.Accepts (replayMembers read add) (collect table (memberRecords write members)) := by
  rw [memberRecords_eq, replayMembers_eq]
  refine @accepts_collect _ _ table (memberItems members)
    (fun own => Json.record (records write own)) (fun _ => Json.map? read)
    (fun own => own.mapValues result)
    (fun made header scope key own => changeClass made header scope key (withMembers add own))
    fun header scope isIn pair isPair => ?_
  obtain ⟨key, isStorable⟩ := storable.mem_scopes isIn
  obtain ⟨self, isClass, isAny, isOwn⟩ := mem_memberItems isPair
  have isSound := isStorable.classes_isSound.of_mem isClass
  obtain ⟨ownName, _⟩ := isStorable.stamped.classes.of_mem isClass
  have isSettled := settled (header, scope) isIn
    ⟨self, List.mem_map_of_mem isClass, areCounted self isAny⟩
  have plainName : (Class.named pair.1).name = pair.1 := by
    rw [← ownName, isSound.plainName]
  refine ⟨map?_record (isOwn ▸ reads self isSound), fun made => ?_⟩
  exact exists_changeClass_eq_ok isSettled plainName made _ _

/-- Each of the nine documents of a storable table is accepted, if methods have plain names and
classes with members stand where they are found. -/
theorem accepts_documents (plain : HasPlainMethodNames table) (settled : HasSettledMembers table)
    (policy : DuplicatePolicy) (folder : String) :
    ∀ pair ∈ (documents table).zip (replays policy folder), pair.2.2.Accepts pair.1.2 := by
  have enumerations := accepts_members storable settled Enumeration.detached Class.addEnumeration
    (fun _ isAny => .inl isAny) fun self isSound => isSound.enumerations.imp
      fun _ enumeration ⟨ownName, _⟩ => ownName ▸ enumeration?_record enumeration
  have fields := accepts_members storable settled id Class.addVariable
    (fun _ isAny => .inr isAny) fun self isSound => isSound.fields.imp
      fun _ member ⟨ownName, isRead⟩ => ownName ▸ classVariable?_record isRead
  simp only [documents, replays, List.zip_cons_cons, List.zip_nil_right, List.forall_mem_cons,
    List.not_mem_nil, false_implies, implies_true, and_true]
  exact ⟨accepts_headers storable, accepts_constants storable, accepts_enumerations storable,
    accepts_aliases storable, accepts_globals storable, accepts_functions storable _ policy,
    accepts_classes storable plain _ policy, enumerations, fields⟩

end Kinds

/-! ### What is loaded -/

/-- The headers of one table are on or off in another one as they are in the first. -/
def KeepsSwitches (table loaded : Table) : Prop :=
  ∀ header holder, table.header? header = some holder → loaded.isOn header = holder.enabled

/-- What the edits of a table make has its switches. -/
theorem keepsSwitches_applyAll_edits {table : Table}
    (named : table.headers.Forall fun name header => header.name = name) :
    KeepsSwitches table (Table.empty.applyAll table.edits) := by
  intro header holder isHeader
  let switches : List Edit := table.headerList.map fun header => .enable header.name header.enabled
  let additions : List Edit := table.scopes.flatMap fun entry =>
    entry.2.elements.map (.add entry.1.name entry.2.name)
  have isSwitched : (Table.empty.applyAll switches).enabled? header = some holder.enabled := by
    have asPairs : Table.empty.applyAll switches =
        (table.headers.mapValues Header.enabled).entries.foldl
          (fun made pair => made.setEnabled pair.1 pair.2) .empty := by
      rw [← named.pairs_of_values, Table.applyAll, List.foldl_map, List.foldl_map]
      rfl
    have isListed : (table.headers.mapValues Header.enabled).get? header =
        some holder.enabled := by
      rw [OrderedMap.get?_mapValues, show table.headers.get? header = some holder from isHeader]
      rfl
    rw [asPairs, Table.enabled?_foldl_setEnabled (table.headers.mapValues Header.enabled).distinct]
    exact congrArg (Option.or · _) isListed
  have noSwitch : additions.filterMap (Edit.switch? header) = [] := by
    refine List.filterMap_eq_nil_iff.mpr fun edit isEdit => ?_
    obtain ⟨_, _, isElement⟩ := List.mem_flatMap.mp isEdit
    obtain ⟨_, _, rfl⟩ := List.mem_map.mp isElement
    rfl
  have parts : table.edits = switches ++ additions := rfl
  rw [Table.isOn, parts, Table.applyAll_append, Table.enabled?_applyAll, noSwitch, isSwitched]
  rfl

/-- Replays the value of a document, which is not read from a file. -/
def replayDocument (folder : String) (made : Table)
    (pair : (String × Json) × String × Replay) : Except Failure Table :=
  match pair.2.2 pair.1.2 with
  | some change => change made
  | none => .error (.malformed (Path.join folder pair.2.1)
      "the value does not have the form of the document")

/-- What the values of the documents of a table make when they are replayed one after the other. -/
def replayDocuments (policy : DuplicatePolicy) (folder : String) (table : Table) :
    Except Failure Table :=
  ((documents table).zip (replays policy folder)).foldlM (replayDocument folder) .empty

variable {tree : FileTree} {folder : String} {table : Table}

/-- Where the documents of a table are in a folder, loading replays them. -/
theorem load_data_of_holdsFiles (isFolder : tree.isFolder folder = true)
    (holds : HoldsFiles tree folder (files .data table)) (policy : DuplicatePolicy) :
    load .data policy folder tree = replayDocuments policy folder table := by
  have sameNames : (documents table).map Prod.fst = (replays policy folder).map Prod.fst := rfl
  have areTexts : ∀ document ∈ documents table,
      tree.text? (Path.join folder document.1) = some document.2.document :=
    fun document isDocument => holds (document.1, document.2.document)
      (List.mem_map.mpr ⟨document, isDocument, rfl⟩)
  have ofLists : ∀ (listed : List (String × Json)) (entries : List (String × Replay))
      (made : Table), listed.map Prod.fst = entries.map Prod.fst →
      (∀ document ∈ listed, document ∈ documents table) →
      entries.foldlM (loadDocument tree folder) made =
        (listed.zip entries).foldlM (replayDocument folder) made := by
    intro listed
    induction listed with
    | nil =>
      intro entries made sameNames _
      obtain rfl := List.map_eq_nil_iff.mp sameNames.symm
      rfl
    | cons document rest ih =>
      intro entries made sameNames areDocuments
      obtain ⟨entry, others, rfl, sameName, sameRest⟩ := List.map_eq_cons_iff.mp sameNames.symm
      rw [List.forall_mem_cons] at areDocuments
      have isText := sameName ▸ areTexts document areDocuments.1
      have isStep : loadDocument tree folder made entry =
          replayDocument folder made (document, entry) := by
        simp only [loadDocument, FileTree.hasNode_of_text? isText, if_true, FileTree.textOrFail,
          isText, bind, Except.bind, parse?_document (documents_textual table _ areDocuments.1)]
        rw [replayDocument]
        cases entry.2 document.2 <;> rfl
      rw [List.foldlM_cons, List.zip_cons_cons, List.foldlM_cons, isStep]
      exact congrArg _ (funext fun next => ih others next sameRest.symm areDocuments.2)
  rw [load, if_pos isFolder]
  exact ofLists _ _ _ sameNames fun _ isDocument => isDocument

/-- The documents of a storable table are loaded, with the switches of its headers. -/
theorem exists_load_data (storable : table.IsStorable) (plain : HasPlainMethodNames table)
    (settled : HasSettledMembers table) (isFolder : tree.isFolder folder = true)
    (holds : HoldsFiles tree folder (files .data table)) (policy : DuplicatePolicy) :
    ∃ loaded, load .data policy folder tree = .ok loaded ∧ KeepsSwitches table loaded := by
  obtain ⟨loaded, replays⟩ : ∃ loaded, replayDocuments policy folder table = .ok loaded := by
    refine exists_foldlM_eq_ok (fun pair isPair made => ?_) _
    obtain ⟨change, isChange, changes⟩ :=
      accepts_documents storable plain settled policy folder pair isPair
    rw [replayDocument, isChange]
    exact changes made
  have loads := (load_data_of_holdsFiles isFolder holds policy).trans replays
  refine ⟨loaded, loads, fun header holder isHeader => ?_⟩
  have areListed : listedHeaders tree folder = table.headers.mapValues Header.enabled := by
    have isFirst : (headersDocument, Json.record (table.headerList.map fun header =>
        (header.name, Json.bool header.enabled))) ∈ documents table := List.mem_cons_self ..
    have isText := holds _ (List.mem_map_of_mem isFirst)
    rw [listedHeaders, isText, Option.bind_some,
      parse?_document (documents_textual table _ isFirst), Option.bind_some,
      map?_headers storable.named, Option.getD_some]
  rw [isOn_load policy tree folder loaded (load_data_eq_ok loads), areListed,
    OrderedMap.get?_mapValues, show table.headers.get? header = some holder from isHeader]
  rfl

/-- The script of a storable table is read, with the switches of its headers. -/
theorem exists_load_source (storable : table.IsStorable) (isFolder : tree.isFolder folder = true)
    (holds : HoldsFiles tree folder (files .source table)) (policy : DuplicatePolicy) :
    ∃ loaded, load .source policy folder tree = .ok loaded ∧ KeepsSwitches table loaded := by
  have plain : ∀ edit ∈ table.edits, edit.IsPlain := by
    refine Script.isPlain_edits fun header scope isIn => ?_
    obtain ⟨key, isStorable⟩ := storable.mem_scopes isIn
    exact Scope.isPlain_elements isStorable.aliases_isRead isStorable.globals_isRead
      isStorable.functions_isSound isStorable.classes_isSound
  have found : tree.text? (Path.join folder scriptFile) = some (Script.write table) :=
    holds (scriptFile, Script.write table) (List.mem_singleton.mpr rfl)
  refine ⟨Table.empty.applyAll table.edits, ?_, keepsSwitches_applyAll_edits storable.named⟩
  rw [load, if_pos isFolder]
  simp only [loadScript, FileTree.hasNode_of_text? found, if_true, FileTree.textOrFail, found,
    bind, Except.bind, Script.read_write_of_isPlain plain policy]
  rfl

/-- The cache of a storable table is loaded with the switches of its headers: a script always,
documents where methods have plain names and classes with members stand where they are found. -/
theorem exists_load_of_holdsFiles {format : Format} (storable : table.IsStorable)
    (loadable : format = .data → HasPlainMethodNames table ∧ HasSettledMembers table)
    (isFolder : tree.isFolder folder = true)
    (holds : HoldsFiles tree folder (files format table)) (policy : DuplicatePolicy) :
    ∃ loaded, load format policy folder tree = .ok loaded ∧ KeepsSwitches table loaded := by
  cases format with
  | data =>
    obtain ⟨plain, settled⟩ := loadable rfl
    exact exists_load_data storable plain settled isFolder holds policy
  | source => exact exists_load_source storable isFolder holds policy

/-! ### Saving once more -/

/-- Behind its folder, a cache that was saved holds its files, and no other file has changed. -/
theorem save_leaves {format : Format} {saved : FileTree}
    (saves : save format table folder tree = .ok () saved) :
    ∃ prepared, tree.makeFolders folder = (prepared, true) ∧
      FileTree.SameFolders saved prepared ∧ HoldsFiles saved folder (files format table) ∧
      ∀ path, (∀ name ∈ fileNames format,
        prepared.locate? path ≠ prepared.locate? (Path.join folder name)) →
          saved.text? path = prepared.text? path := by
  obtain ⟨prepared, makes, writes⟩ := save_cases saves
  have writable := FileTree.canWrite_of_forM_writeText writes
  obtain ⟨again, writesAgain, same, areRead, others⟩ :=
    FileTree.forM_writeText writable (distinct_filesIn writable)
  obtain rfl : saved = again := by
    have sameResult := writes.symm.trans writesAgain
    injection sameResult
  refine ⟨prepared, makes, same, fun file isFile => ?_, fun path isOther => others path ?_⟩
  · have isRead := areRead _ (mem_filesIn isFile folder)
    exact isRead
  · intro written isWritten
    obtain ⟨file, isFile, rfl⟩ := List.mem_map.mp isWritten
    exact isOther file.1 (map_fst_files format table ▸ List.mem_map_of_mem isFile)

/-- Saving a table once more changes nothing. -/
theorem save_again {format : Format} {saved : FileTree}
    (saves : save format table folder tree = .ok () saved) :
    save format table folder saved = .ok () saved := by
  obtain ⟨prepared, makes, same, holds, -⟩ := save_leaves saves
  rw [save_eq (FileTree.makeFolders_again makes same.symm.keepsFolders)]
  refine FileTree.forM_writeText_again fun written isWritten => ?_
  obtain ⟨file, isFile, rfl⟩ := List.mem_map.mp isWritten
  exact holds file isFile

/-- A folder in which a table was saved is there. -/
theorem isFolder_of_save {format : Format} {saved : FileTree} (named : folder ≠ "")
    (saves : save format table folder tree = .ok () saved) : saved.isFolder folder = true := by
  obtain ⟨prepared, makes, same, -⟩ := save_leaves saves
  exact same.isFolder (FileTree.isFolder_makeFolders named makes)

/-- Saving changes no file with an extension that the files of a cache do not have. -/
theorem text?_of_save {format : Format} {saved : FileTree} {path text : String}
    {ending : List Char} (saves : save format table folder tree = .ok () saved)
    (noSlash : '/' ∉ ending) (long : 2 < ending.length) (ends : ending <:+ path.toList)
    (otherwise : ∀ name ∈ fileNames format, ¬ ending <:+ name.toList)
    (isText : tree.text? path = some text) : saved.text? path = some text := by
  obtain ⟨prepared, makes, -, -, others⟩ := save_leaves saves
  have isKept := (FileTree.extends_makeFolders makes).text? isText
  obtain ⟨location, isThere, -⟩ := FileTree.text?_eq_some_iff.mp isKept
  rw [others path fun name isName => ?_, isKept]
  exact FileTree.locate?_ne_of_ending noSlash long ends (plain_fileNames format name isName)
    (otherwise name isName) isThere

end Cache

end Bindery
