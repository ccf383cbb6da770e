/-
**Documents in which keys are reordered.**

Loading takes the items of a document one by one, in the order of their keys, and each of them
writes over what stands in its slot. Since no two items of a document have one slot, the order does
not show in the table, nor in whether loading fails. This needs keys that are spelt as a table keeps
them: two spellings of one scope, or two declarations of one class, would share their slots.

* `Json.keysAt`, `HasPlainKeys` — the keys that name scopes and classes.
* `IsStep` — what an item of a document does is a step at its own slot.
* `Replay.IsOrderless` — a document that may be reordered.
* `isOrderless_replays` — all nine documents of a cache may be.
-/

import Bindery.Proofs.Cache.Documents
import Bindery.Proofs.Cache.Nested
import Bindery.Proofs.Cache.ReorderedRecords
import Bindery.Proofs.Symbols.Names
import Bindery.Proofs.Symbols.Writes

namespace Bindery

/-! ### Keys -/

namespace Json

/-- The keys of the objects that stand at a depth in a value. -/
def keysAt : Nat → Json → List String
  | 0, .object members => members.filterMap Prod.fst
  | depth + 1, .object members => members.flatMap fun member => member.2.keysAt depth
  | _, _ => []

theorem mem_keysAt_zero {members : List (String × Json)} {key : String} {value : Json}
    (isMember : (key, value) ∈ members) : key ∈ (record members).keysAt 0 :=
  List.mem_filterMap.mpr ⟨_, List.mem_map_of_mem isMember, rfl⟩

theorem mem_keysAt_succ {members : List (String × Json)} {key other : String} {value : Json}
    (isMember : (key, value) ∈ members) {depth : Nat} (isKey : other ∈ value.keysAt depth) :
    other ∈ (record members).keysAt (depth + 1) :=
  List.mem_flatMap.mpr ⟨_, List.mem_map_of_mem isMember, isKey⟩

end Json

namespace Cache

open Json Symbols

/-- The scopes of a document, and the classes where it is about classes, are named as a table keeps
their names. -/
structure HasPlainKeys (document : String) (json : Json) : Prop where
  scopes : document ≠ headersDocument → ∀ key ∈ json.keysAt 1, canonicalScope key = key
  classes : document ∈ documentsOf .classDefinition →
    ∀ key ∈ json.keysAt 2, Text.trim key.toList = key.toList ∧ '<' ∉ key.toList

/-- A scope and a name in it that are spelt as a table keeps them. -/
structure ArePlain (document scope name : String) : Prop where
  scope : canonicalScope scope = scope
  className : document ∈ documentsOf .classDefinition →
    Text.trim name.toList = name.toList ∧ '<' ∉ name.toList

/-- A plain name declares a class of just that name. -/
theorem ArePlain.named {document scope name : String} (arePlain : ArePlain document scope name)
    (ofClasses : document ∈ documentsOf .classDefinition) : (Class.named name).name = name := by
  obtain ⟨trimmed, noBracket⟩ := arePlain.className ofClasses
  have isPlain := Class.named_of_plain trimmed noBracket
  rw [String.ofList_toList] at isPlain
  rw [isPlain]

namespace Nested

variable {α β : Type} {related : α → β → Prop} {nested : Nested α} {others : Nested β}

/-- Items of a document stand under the keys of the document. -/
theorem keys_of_ofJson? {read : String → Json → Option α} {json : Json}
    (isNested : ofJson? read json = some nested) {header scope name : String} {item : α}
    (isItem : (header, scope, name, item) ∈ nested.toList) :
    scope ∈ json.keysAt 1 ∧ name ∈ json.keysAt 2 := by
  obtain ⟨scopes, items, areScopes, areItems, isItem⟩ := exists_of_mem_toList isItem
  obtain ⟨headerMembers, _, rfl, isHeader, isScopes⟩ :=
    exists_member_of_map? isNested header scopes areScopes
  obtain ⟨scopeMembers, _, rfl, isScope, isItems⟩ :=
    exists_member_of_map? isScopes scope items areItems
  obtain ⟨itemMembers, _, rfl, isName, _⟩ := exists_member_of_map? isItems name item isItem
  exact ⟨mem_keysAt_succ isHeader (mem_keysAt_zero isScope),
    mem_keysAt_succ isHeader (mem_keysAt_succ isScope (mem_keysAt_zero isName))⟩

theorem arePlain_of_mem {document : String} (hasScopes : document ≠ headersDocument)
    {read : String → Json → Option α} {json : Json} (plain : HasPlainKeys document json)
    (isNested : ofJson? read json = some nested) {header scope name : String} {item : α}
    (isItem : (header, scope, name, item) ∈ nested.toList) : ArePlain document scope name := by
  obtain ⟨isScope, isName⟩ := keys_of_ofJson? isNested isItem
  exact ⟨plain.scopes hasScopes scope isScope, fun ofClasses => plain.classes ofClasses name isName⟩

/-! ### Items under the same keys -/

/-- Two nested maps have related items under the same keys. -/
def Matches (related : α → β → Prop) (nested : Nested α) (others : Nested β) : Prop :=
  OrderedMap.Matches (OrderedMap.Matches (OrderedMap.Matches related)) nested others

theorem Matches.symm (same : nested.Matches related others) :
    others.Matches (fun other item => related item other) nested :=
  (OrderedMap.Matches.symm same).imp fun _ _ scopes => scopes.symm.imp fun _ _ items => items.symm

theorem Matches.exists_of_mem (same : nested.Matches related others) {header scope name : String}
    {item : α} (isItem : (header, scope, name, item) ∈ nested.toList) :
    ∃ other, (header, scope, name, other) ∈ others.toList ∧ related item other := by
  obtain ⟨scopes, items, areScopes, areItems, isItem⟩ := exists_of_mem_toList isItem
  obtain ⟨otherScopes, areOtherScopes, sameScopes⟩ := (optionRel_iff.mp (same header)).1 _ areScopes
  obtain ⟨otherItems, areOtherItems, sameItems⟩ :=
    (optionRel_iff.mp (sameScopes scope)).1 _ areItems
  obtain ⟨other, isOther, isRelated⟩ := (optionRel_iff.mp (sameItems name)).1 _ isItem
  exact ⟨other, mem_toList areOtherScopes areOtherItems isOther, isRelated⟩

/-- Reordered documents have related items under the same keys, or neither is a document. -/
theorem matches_ofJson? {read : String → Json → Option α} {otherRead : String → Json → Option β}
    (each : ∀ name value other, Reordered value other →
      Option.Rel related (read name value) (otherRead name other))
    {json other : Json} (same : Reordered json other) :
    Option.Rel (Matches related) (ofJson? read json) (ofJson? otherRead other) :=
  matches_map? (fun _ _ _ => matches_map? fun _ _ _ => matches_map? each) same

end Nested

/-! ### Documents that may be reordered -/

/-- Two replays of a document of some name, whose values may be in different orders: from tables
that are alike they lead to tables that are alike, or both fail. -/
def Replay.IsOrderless (document : String) (first second : Replay) : Prop :=
  ∀ json other, Reordered json other → HasPlainKeys document json →
    Option.Rel (fun change otherChange => ∀ table otherTable : Table, table.Alike otherTable →
        Matches Table.Alike (change table) (otherChange otherTable))
      (first json) (second other)

/-- What an item of a document does is a step at the slot with the keys of the item. -/
def IsStep {α : Type} (document : String) (kind : ElementKind) (read : String → Json → Option α)
    (update : Place → String → α → Option Element → Option Element)
    (visit : Table → String → String → String → α → Except Failure Table) : Prop :=
  ∀ header scope name json item, ArePlain document scope name → read name json = some item →
    StepsAt ⟨header, scope, kind, name⟩ (update ⟨header, scope⟩ name item) fun table =>
      visit table header scope name item

section Nested

variable {α : Type} {kind : ElementKind} {related : α → α → Prop}
  {update : Place → String → α → Option Element → Option Element}
  {visit otherVisit : Table → String → String → String → α → Except Failure Table}
  (updates : ∀ place name item other, related item other →
    ∀ found otherFound, Option.Rel Element.Alike found otherFound →
      Option.Rel Element.Alike (update place name item found) (update place name other otherFound))

include updates

/-- Since no two items have one slot, their order does not count. -/
theorem matches_replayNested {nested others : Nested α}
    (nestedMatch : nested.Matches related others)
    (each : ∀ header scope name item, (header, scope, name, item) ∈ nested.toList →
      StepsAt ⟨header, scope, kind, name⟩ (update ⟨header, scope⟩ name item)
        fun table => visit table header scope name item)
    (otherEach : ∀ header scope name item, (header, scope, name, item) ∈ others.toList →
      StepsAt ⟨header, scope, kind, name⟩ (update ⟨header, scope⟩ name item)
        fun table => otherVisit table header scope name item)
    {table otherTable : Table} (alike : table.Alike otherTable) :
    Matches Table.Alike (replayNested visit nested table)
      (replayNested otherVisit others otherTable) := by
  let slot (item : String × String × String × α) : Slot := ⟨item.1, item.2.1, kind, item.2.2.1⟩
  let change (item : String × String × String × α) : Option Element → Option Element :=
    update ⟨item.1, item.2.1⟩ item.2.2.1 item.2.2.2
  have distinct : ∀ nested : Nested α,
      nested.toList.Pairwise fun first second => slot first ≠ slot second := by
    refine fun nested => nested.pairwise_toList.imp fun notSame sameSlot => notSame ?_
    simpa [slot] using sameSlot
  have steps : ∀ item ∈ nested.toList, StepsAt (slot item) (change item) fun table =>
      visit table item.1 item.2.1 item.2.2.1 item.2.2.2 :=
    fun (header, scope, name, item) isItem => each header scope name item isItem
  have otherSteps : ∀ item ∈ others.toList, StepsAt (slot item) (change item) fun table =>
      otherVisit table item.1 item.2.1 item.2.2.1 item.2.2.2 :=
    fun (header, scope, name, item) isItem => otherEach header scope name item isItem
  refine matches_foldlM ?_ ?_ alike (distinct nested) (distinct others) steps otherSteps
  · rintro ⟨header, scope, name, item⟩ isItem
    obtain ⟨otherItem, isOtherItem, isRelated⟩ := nestedMatch.exists_of_mem isItem
    exact ⟨_, isOtherItem, rfl, updates _ name item otherItem isRelated⟩
  · rintro ⟨header, scope, name, otherItem⟩ isOtherItem
    obtain ⟨item, isItem, isRelated⟩ := nestedMatch.symm.exists_of_mem isOtherItem
    exact ⟨_, isItem, rfl, updates _ name item otherItem isRelated⟩

/-- A document whose items are steps may be reordered. -/
theorem isOrderless_replayNested {document : String} {read : String → Json → Option α}
    (hasScopes : document ≠ headersDocument)
    (reads : ∀ name value other, Reordered value other →
      Option.Rel related (read name value) (read name other))
    (isStep : IsStep document kind read update visit)
    (isOtherStep : IsStep document kind read update otherVisit) :
    Replay.IsOrderless document (fun json => (Nested.ofJson? read json).map (replayNested visit))
      fun json => (Nested.ofJson? read json).map (replayNested otherVisit) := by
  intro json other same plain
  have nestedMatch := Nested.matches_ofJson? reads same
  generalize isNested : Nested.ofJson? read json = found,
    isOther : Nested.ofJson? read other = otherFound at nestedMatch
  dsimp only
  rw [isNested, isOther]
  cases nestedMatch with
  | none => exact .none
  | some nestedMatch =>
    refine .some fun table otherTable alike =>
      @matches_replayNested _ kind _ _ _ _ updates _ _ nestedMatch ?_ ?_ _ _ alike
    · intro header scope name item isItem
      have arePlain := Nested.arePlain_of_mem hasScopes plain isNested isItem
      obtain ⟨json, isRead⟩ := Nested.read_of_ofJson? isNested _ isItem
      exact isStep header scope name json item arePlain isRead
    · -- the keys of the other document are those of the first one
      intro header scope name item isItem
      obtain ⟨_, isOwnItem, _⟩ := nestedMatch.symm.exists_of_mem isItem
      have arePlain := Nested.arePlain_of_mem hasScopes plain isNested isOwnItem
      obtain ⟨json, isRead⟩ := Nested.read_of_ofJson? isOther _ isItem
      exact isOtherStep header scope name json item arePlain isRead

end Nested

/-! ### Documents of elements -/

section Elements

variable {α β : Type} {document : String} {kind : ElementKind}
  {add : Table → β → String → String → Table}
  (asElement : β → Element)
  (isAdd : ∀ table element header scope,
    add table element header scope = table.add header scope (asElement element))
  (ofKind : ∀ element, (asElement element).kind = kind)

include isAdd ofKind

/-- An element that is added under its own name is written to the slot with its keys. -/
theorem writes_element {header scope name : String} (isFixed : canonicalScope scope = scope)
    {element : β} (isName : (asElement element).name = name) (table : Table) :
    table.Writes ⟨header, scope, kind, name⟩ ((asElement element).placed ⟨header, scope⟩)
      (add table element header scope) := by
  have writes := table.writes_add header scope (asElement element)
  rw [Element.slotIn, isFixed, isFixed, ofKind, isName, ← isAdd] at writes
  exact writes

theorem isOrderless_replayElements (hasScopes : document ≠ headersDocument)
    {read : String → Json → Option β} (isBlind : ∀ name, IsBlind (read name))
    (isNamed : ∀ name json element, read name json = some element →
      (asElement element).name = name) :
    Replay.IsOrderless document (replayElements read add) (replayElements read add) := by
  have isStep : IsStep document kind read
      (fun place _ element _ => some ((asElement element).placed place))
      fun table header scope _ element => .ok (add table element header scope) := by
    intro header scope name json element arePlain isRead table
    have isName := isNamed name json element isRead
    exact ⟨_, rfl, writes_element asElement isAdd ofKind arePlain.scope isName table⟩
  refine isOrderless_replayNested ?_ hasScopes
    (fun name value other same => optionRel_of_eq (isBlind name value other same)) isStep isStep
  rintro place name element _ rfl found otherFound _
  exact .some (.refl _)

/-- Adds what is built from a draft. -/
def replayDraft (path : String) (build : String → α → Except DuplicateParameter β)
    (add : Table → β → String → String → Table) (table : Table) (header scope name : String)
    (draft : α) : Except Failure Table :=
  match build name draft with
  | .ok element => .ok (add table element header scope)
  | .error duplicate => .error (.inDocument path (.duplicateParameter duplicate))

/-- What is built from a draft is written to the slot with its keys, or nothing can be built. -/
theorem isOrderless_replayDrafts (hasScopes : document ≠ headersDocument)
    {related : α → α → Prop} {read : Json → Option α}
    (reads : ∀ value other, Reordered value other → Option.Rel related (read value) (read other))
    {build : String → α → Except DuplicateParameter β}
    (built : ∀ name draft other, related draft other →
      Option.Rel Element.Alike ((build name draft).toOption.map asElement)
        ((build name other).toOption.map asElement))
    (isNamed : ∀ scope name draft, ArePlain document scope name →
      Returns (fun element => (asElement element).name = name) (build name draft))
    (path otherPath : String) :
    Replay.IsOrderless document (replayDrafts path read build add)
      (replayDrafts otherPath read build add) := by
  have isStep : ∀ path, IsStep document kind (fun _ => read)
      (fun place name draft _ =>
        ((build name draft).toOption.map asElement).map (Element.placed place))
      (replayDraft path build add) := by
    intro path header scope name json draft arePlain _ table
    dsimp only [replayDraft]
    cases isBuilt : build name draft with
    | error duplicate => exact ⟨_, rfl⟩
    | ok element =>
      have isName := isNamed scope name draft arePlain element isBuilt
      exact ⟨_, rfl, writes_element asElement isAdd ofKind arePlain.scope isName table⟩
  refine isOrderless_replayNested ?_ hasScopes (fun name => reads) (isStep path) (isStep otherPath)
  intro place name draft other isRelated found otherFound _
  exact optionRel_map (built name draft other isRelated) fun _ _ alike => alike.placed place

end Elements

/-! ### Documents of members -/

/-- The class in a slot with a change; without one, a new class of the name is changed. -/
def changedClass (change : Symbols.Class → Symbols.Class) (place : Place) (name : String)
    (found : Option Element) : Element :=
  .classDefinition (change ((found.bind Element.class?).getD ((Class.named name).attach place)))

/-- A class that is found under its own name is changed in its slot, or put there and changed. -/
theorem stepsAt_changeClass {scope name : String} (isFixed : canonicalScope scope = scope)
    (isName : (Class.named name).name = name) (header : String)
    (change : Symbols.Class → Symbols.Class) :
    StepsAt ⟨header, scope, .classDefinition, name⟩
      (fun found => some (changedClass change ⟨header, scope⟩ name found))
      fun table => changeClass table header scope name change := by
  intro table
  have inSlot := table.find?_class header scope name
  cases isClass : table.class? header scope name with
  | some self =>
    have writes := Table.writes_modifyClass isClass change
    rw [isFixed] at writes inSlot
    refine ⟨table.modifyClass header scope name change, ?_, ?_⟩
    · simp only [changeClass, isClass, Option.isSome_some, if_true]
    · rw [inSlot, isClass]
      exact writes
  | none =>
    let fresh := table.addClass (Class.named name) header scope
    have adds : table.Writes ⟨header, canonicalScope scope, .classDefinition, name⟩
        (.classDefinition ((Class.named name).attach ⟨header, scope⟩)) fresh := by
      rw [isFixed]
      exact writes_element .classDefinition (fun _ _ _ _ => rfl) (fun _ => rfl) isFixed isName table
    have isFresh := adds.class?
    have writes := adds.trans (Table.writes_modifyClass isFresh change)
    rw [isFixed] at writes inSlot
    refine ⟨fresh.modifyClass header scope name change, ?_, ?_⟩
    · simp only [changeClass, isClass, Option.isSome_none, Bool.false_eq_true, if_false]
      exact if_pos (Option.isSome_iff_exists.mpr ⟨_, isFresh⟩)
    · rw [inSlot, isClass]
      exact writes

section Members

variable {α : Type} {document : String} {nameOf : α → String} {read : String → Json → Option α}
  {add : Symbols.Class → α → Symbols.Class}

/-- Members that know their names, and others that are the same in whatever order. -/
structure SameMembers (nameOf : α → String) (members others : OrderedMap α) : Prop where
  named : members.Forall fun name member => nameOf member = name
  same : ∀ name, members.get? name = others.get? name

/-- Reordered objects hold the same members, or both hold something else. -/
theorem sameMembers_map? (isBlind : ∀ name, IsBlind (read name))
    (isNamed : ∀ name json member, read name json = some member → nameOf member = name)
    {value other : Json} (same : Reordered value other) :
    Option.Rel (SameMembers nameOf) (map? read value) (map? read other) := by
  have membersMatch : Option.Rel (OrderedMap.Matches (· = ·)) (map? read value)
      (map? read other) :=
    matches_map? (fun name _ _ same => optionRel_of_eq (isBlind name _ _ same)) same
  generalize areMembers : map? read value = members, map? read other = others at membersMatch
  cases membersMatch with
  | none => exact .none
  | some membersMatch =>
    refine .some ⟨?_, fun name => eq_of_optionRel (membersMatch name)⟩
    refine (read_of_map? areMembers).imp fun name member isRead => ?_
    obtain ⟨json, isRead⟩ := isRead
    exact isNamed name json member isRead

theorem isOrderless_replayMembers (ofClasses : document ∈ documentsOf .classDefinition)
    (isBlind : ∀ name, IsBlind (read name))
    (isNamed : ∀ name json member, read name json = some member → nameOf member = name)
    (addAll : ∀ {first second : Symbols.Class}, first.Alike second → ∀ {members others},
      SameMembers nameOf members others →
        (members.values.foldl add first).Alike (others.values.foldl add second)) :
    Replay.IsOrderless document (replayMembers read add) (replayMembers read add) := by
  have hasScopes : document ≠ headersDocument := by
    rintro rfl
    revert ofClasses
    decide
  have isStep : IsStep document .classDefinition (fun _ => map? read)
      (fun place name members found =>
        some (changedClass (fun self => members.values.foldl add self) place name found))
      fun table header scope name members =>
        changeClass table header scope name fun self => members.values.foldl add self := by
    intro header scope name json members arePlain _
    exact stepsAt_changeClass arePlain.scope (arePlain.named ofClasses) header _
  refine isOrderless_replayNested ?_ hasScopes
    (fun _ _ _ => sameMembers_map? isBlind isNamed) isStep isStep
  intro place name members others sameMembers found otherFound alike
  refine .some (.classes (addAll ?_ sameMembers))
  have ofClass : Option.Rel Symbols.Class.Alike (found.bind Element.class?)
      (otherFound.bind Element.class?) := optionRel_bind alike fun _ _ alike => alike.class?
  generalize found.bind Element.class? = self, otherFound.bind Element.class? = other at ofClass
  cases ofClass with
  | some alike => exact alike
  | none => exact .refl _

end Members

/-! ### The nine documents -/

/-- The last switch of a header counts, and there is one for each. -/
theorem isOrderless_replayHeaders (document : String) :
    Replay.IsOrderless document replayHeaders replayHeaders := by
  intro json other same _
  have headersMatch : Option.Rel (OrderedMap.Matches (· = ·))
      (map? (fun _ => Json.bool?) json) (map? (fun _ => Json.bool?) other) :=
    matches_map? (fun _ _ _ same => optionRel_of_eq (isBlind_bool? _ _ same)) same
  refine optionRel_map headersMatch fun headers others headersMatch table otherTable alike => .ok ?_
  refine ⟨fun header => ?_, fun header key => ?_, fun slot => ?_⟩
  · have sameState := eq_of_optionRel (headersMatch header)
    rw [OrderedMap.get?, OrderedMap.get?] at sameState
    rw [Table.enabled?_foldl_setEnabled headers.distinct,
      Table.enabled?_foldl_setEnabled others.distinct, sameState, alike.enabled]
  · rw [Table.hasScope, Table.hasScope, Table.scopeAt?_foldl_setEnabled,
      Table.scopeAt?_foldl_setEnabled]
    exact alike.scopes header key
  · rw [Table.find?, Table.find?, Table.scopeAt?_foldl_setEnabled,
      Table.scopeAt?_foldl_setEnabled]
    exact alike.elements slot

/-- Each document of a cache may be reordered. -/
theorem isOrderless_replays (policy : DuplicatePolicy) (folder otherFolder : String) :
    List.Forall₂ (fun first second => first.1 = second.1 ∧ first.2.IsOrderless first.1 second.2)
      (replays policy folder) (replays policy otherFolder) := by
  have functions : ∀ name drafts others, drafts = others →
      Option.Rel Element.Alike ((buildFunction policy name drafts).toOption.map .function)
        ((buildFunction policy name others).toOption.map .function) := by
    rintro name drafts _ rfl
    exact optionRel_map (optionRel_of_eq rfl) fun _ _ same => same ▸ .refl _
  have classes : ∀ name (draft other : ClassDraft), draft.Match other →
      Option.Rel Element.Alike ((buildClass policy name draft).toOption.map .classDefinition)
        ((buildClass policy name other).toOption.map .classDefinition) :=
    fun name _ _ isMatch => optionRel_map (alike_buildClass policy name isMatch) fun _ _ => .classes
  have classNames : ∀ scope name (draft : ClassDraft), ArePlain "classes.json" scope name →
      Returns (fun self => (Element.classDefinition self).name = name)
        (buildClass policy name draft) := by
    intro scope name draft arePlain self isBuilt
    exact (name_buildClass policy name draft self isBuilt).trans (arePlain.named (by decide))
  have ofFunctions : "functions.json" ≠ headersDocument := by decide
  have ofClasses : "classes.json" ≠ headersDocument := by decide
  exact .cons ⟨rfl, isOrderless_replayHeaders _⟩ <|
    .cons ⟨rfl, isOrderless_replayElements .constant (fun _ _ _ _ => rfl) (fun _ => rfl) (by decide)
      isBlind_constant? fun _ _ _ => name_constant?⟩ <|
    .cons ⟨rfl, isOrderless_replayElements .enumeration (fun _ _ _ _ => rfl) (fun _ => rfl)
      (by decide) isBlind_enumeration? fun _ _ _ => name_enumeration?⟩ <|
    .cons ⟨rfl, isOrderless_replayElements .typeAlias (fun _ _ _ _ => rfl) (fun _ => rfl)
      (by decide) isBlind_typed? fun _ _ _ => name_typed?⟩ <|
    .cons ⟨rfl, isOrderless_replayElements .globalVariable (fun _ _ _ _ => rfl) (fun _ => rfl)
      (by decide) isBlind_typed? fun _ _ _ => name_typed?⟩ <|
    .cons ⟨rfl, isOrderless_replayDrafts .function (fun _ _ _ _ => rfl) (fun _ => rfl) ofFunctions
      (fun _ _ same => optionRel_of_eq (isBlind_overloads? _ _ same)) functions
      (fun _ name drafts _ => name_buildFunction policy name drafts) _ _⟩ <|
    .cons ⟨rfl, isOrderless_replayDrafts .classDefinition (fun _ _ _ _ => rfl) (fun _ => rfl)
      ofClasses (fun _ _ => match_class?) classes classNames _ _⟩ <|
    .cons ⟨rfl, isOrderless_replayMembers (by decide) isBlind_enumeration?
      (fun _ _ _ => name_enumeration?) fun alike _ _ same =>
        alike.addEnumerations same.named same.same⟩ <|
    .cons ⟨rfl, isOrderless_replayMembers (by decide) isBlind_classVariable?
      (fun _ _ _ => name_classVariable?) fun alike _ _ same =>
        alike.addVariables same.named same.same⟩ .nil

end Cache

end Bindery
