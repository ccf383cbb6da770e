/-
**The documents of a data cache do not interfere.**

All documents write into one table, and whichever comes first creates the headers and scopes that
it needs. Still, each document fills the slots of its own kind only, and what it puts there does not
depend on what the others did; only the documents of class members look at the classes before them.

* `Replay.Fills` — what one document may do to a table; `Replay.FollowsIn` — the same document on
  two tables that have the same elements of a kind.
* `load_separate` — caches that agree on the documents of a kind hold the same elements of it, and a
  header is switched off by the list of headers alone.
-/

import Bindery.Proofs.Cache.Documents
import Bindery.Proofs.Symbols.LookUps
import Bindery.Proofs.TwoRuns

namespace Bindery.Cache

open Symbols

/-! ### What one document does -/

/-- Whatever the document holds, a table that it changes is filled from the one before. -/
def Replay.Fills (switches : Prop) (kinds : ElementKind → Prop) (replay : Replay) : Prop :=
  ∀ json change, replay json = some change →
    ∀ table : Table, Returns (table.Filled switches kinds) (change table)

section Fills

variable {switches : Prop} {kinds : ElementKind → Prop}

theorem fills_replayHeaders (allowed : switches) : Replay.Fills switches kinds replayHeaders := by
  intro json change isChange table
  obtain ⟨headers, _, rfl⟩ := Option.map_eq_some_iff.mp isChange
  refine .ok ?_
  have each : ∀ (pairs : List (String × Bool)) (made : Table), table.Filled switches kinds made →
      table.Filled switches kinds
        (pairs.foldl (fun made pair => made.setEnabled pair.1 pair.2) made) := by
    intro pairs
    induction pairs with
    | nil => exact fun _ filled => filled
    | cons pair rest ih => exact fun made filled => ih _ (filled.setEnabled allowed pair.1 pair.2)
  exact each headers.entries table .refl

/-- Values that each fill a table fill it together. -/
theorem fills_replayNested {α : Type} {read : String → Json → Option α}
    {visit : Table → String → String → String → α → Except Failure Table}
    (each : ∀ header scope name item (table made : Table), table.Filled switches kinds made →
      Returns (table.Filled switches kinds) (visit made header scope name item)) :
    Replay.Fills switches kinds fun json =>
      (Nested.ofJson? read json).map (replayNested visit) := by
  intro json change isChange table
  obtain ⟨nested, _, rfl⟩ := Option.map_eq_some_iff.mp isChange
  exact .foldlM .refl fun visited _ made filled => each _ _ _ _ _ _ filled

end Fills

/-- On two tables with the same elements of a kind, a document is loaded alike: where the first
table can be changed, the second can, and the elements of the kind are the same again. -/
def Replay.FollowsIn (kind : ElementKind) (first second : Replay) : Prop :=
  ∀ json change, first json = some change → ∃ otherChange, second json = some otherChange ∧
    ∀ table other : Table, Table.SameElements kind table other →
      Follows (Table.SameElements kind) (change table) (otherChange other)

section FollowsIn

variable {kind : ElementKind}

theorem followsIn_replayHeaders : Replay.FollowsIn kind replayHeaders replayHeaders := by
  intro json change isChange
  refine ⟨change, isChange, fun table other same => ?_⟩
  obtain ⟨headers, _, rfl⟩ := Option.map_eq_some_iff.mp isChange
  refine .ok ⟨_, rfl, ?_⟩
  have each : ∀ (pairs : List (String × Bool)) (table other : Table),
      Table.SameElements kind table other →
        Table.SameElements kind
          (pairs.foldl (fun table pair => table.setEnabled pair.1 pair.2) table)
          (pairs.foldl (fun other pair => other.setEnabled pair.1 pair.2) other) := by
    intro pairs
    induction pairs with
    | nil => exact fun _ _ same => same
    | cons pair rest ih => exact fun table other same => ih _ _ (same.setEnabled pair.1 pair.2)
  exact each headers.entries table other same

/-- Values whose visits follow each other follow each other together. -/
theorem followsIn_replayNested {α : Type} {read : String → Json → Option α}
    {visit otherVisit : Table → String → String → String → α → Except Failure Table}
    (each : ∀ header scope name item (table other : Table), Table.SameElements kind table other →
      Follows (Table.SameElements kind) (visit table header scope name item)
        (otherVisit other header scope name item)) :
    Replay.FollowsIn kind (fun json => (Nested.ofJson? read json).map (replayNested visit))
      fun json => (Nested.ofJson? read json).map (replayNested otherVisit) := by
  intro json change isChange
  obtain ⟨nested, isNested, rfl⟩ := Option.map_eq_some_iff.mp isChange
  refine ⟨_, congrArg _ isNested, fun table other same => ?_⟩
  refine .foldlM same (List.forall₂_same.mpr fun visited _ => ?_)
  exact fun table other same => each _ _ _ _ table other same

end FollowsIn

/-! ### The steps of documents -/

section Elements

variable {α β : Type} {add : Table → β → String → String → Table} (asElement : β → Element)
  (isAdd : ∀ table element header scope,
    add table element header scope = table.add header scope (asElement element))

include isAdd

theorem fills_replayElements {switches : Prop} {kinds : ElementKind → Prop}
    (ofKind : ∀ element, kinds (asElement element).kind) (read : String → Json → Option β) :
    Replay.Fills switches kinds (replayElements read add) := by
  refine fills_replayNested fun header scope name element table made filled => .ok ?_
  rw [isAdd]
  exact filled.add (ofKind element) header scope

theorem fills_replayDrafts {switches : Prop} {kinds : ElementKind → Prop}
    (ofKind : ∀ element, kinds (asElement element).kind) (path : String)
    (read : Json → Option α) (build : String → α → Except DuplicateParameter β) :
    Replay.Fills switches kinds (replayDrafts path read build add) := by
  refine fills_replayNested fun header scope name draft table made filled => ?_
  split
  next element _ =>
    rw [isAdd]
    exact .ok (filled.add (ofKind element) header scope)
  next => exact .error _

theorem followsIn_replayElements {kind : ElementKind} (read : String → Json → Option β) :
    Replay.FollowsIn kind (replayElements read add) (replayElements read add) := by
  refine followsIn_replayNested fun header scope name element table other same => ?_
  rw [isAdd, isAdd]
  exact .ok ⟨_, rfl, same.add header scope (asElement element)⟩

/-- A draft is built in the same way for every table; only the failure names the document. -/
theorem followsIn_replayDrafts {kind : ElementKind} (path otherPath : String)
    (read : Json → Option α) (build : String → α → Except DuplicateParameter β) :
    Replay.FollowsIn kind (replayDrafts path read build add)
      (replayDrafts otherPath read build add) := by
  refine followsIn_replayNested fun header scope name draft table other same => ?_
  cases build name draft with
  | error duplicate => exact .error _
  | ok element =>
    simp only [isAdd]
    exact .ok ⟨_, rfl, same.add header scope (asElement element)⟩

end Elements

/-- A class is changed, or created and changed. -/
theorem filled_changeClass {switches : Prop} {kinds : ElementKind → Prop}
    (ofKind : kinds .classDefinition) {table made : Table}
    (filled : table.Filled switches kinds made) (header scope key : String)
    (change : Symbols.Class → Symbols.Class) :
    Returns (table.Filled switches kinds) (changeClass made header scope key change) := by
  unfold changeClass
  extract_lets prepared
  have isPrepared : table.Filled switches kinds prepared := by
    show table.Filled switches kinds (if _ then _ else _)
    split
    next => exact filled
    next =>
      have isClass : kinds (Element.classDefinition (Class.named key)).kind := ofKind
      exact filled.add isClass header scope
  split
  next => exact .ok (isPrepared.modifyClass ofKind header scope key change)
  next => exact .error _

/-- Whether a class can be changed, and into what, depends on the classes alone. -/
theorem follows_changeClass {table other : Table}
    (same : Table.SameElements .classDefinition table other) (header scope key : String)
    (change : Symbols.Class → Symbols.Class) :
    Follows (Table.SameElements .classDefinition) (changeClass table header scope key change)
      (changeClass other header scope key change) := by
  unfold changeClass
  extract_lets prepared otherPrepared
  have isPrepared : Table.SameElements .classDefinition prepared otherPrepared := by
    show Table.SameElements _ (if _ then _ else _) (if _ then _ else _)
    rw [same.isSome_class?]
    split
    next => exact same
    next => exact same.add header scope (.classDefinition (Class.named key))
  rw [isPrepared.isSome_class?]
  split
  next => exact .ok ⟨_, rfl, isPrepared.modifyClass header scope key change⟩
  next => exact .error _

section Members

variable {α : Type} (read : String → Json → Option α) (add : Symbols.Class → α → Symbols.Class)

theorem fills_replayMembers {switches : Prop} {kinds : ElementKind → Prop}
    (ofKind : kinds .classDefinition) : Replay.Fills switches kinds (replayMembers read add) :=
  fills_replayNested fun header scope key members _ _ filled =>
    filled_changeClass ofKind filled header scope key fun self => members.values.foldl add self

theorem followsIn_replayMembers :
    Replay.FollowsIn .classDefinition (replayMembers read add) (replayMembers read add) :=
  followsIn_replayNested fun header scope key members _ _ same =>
    follows_changeClass same header scope key fun self => members.values.foldl add self

end Members

/-! ### The nine documents -/

/-- A document of a name, which may be loaded from two folders. Only one document switches headers,
each fills the elements of its own kind, and each is loaded alike on tables with the same elements
of that kind or, in any case, with the same classes. -/
structure Replay.IsApart (name : String) (first second : Replay) : Prop where
  fills : ∀ replay ∈ [first, second],
    replay.Fills (name = headersDocument) fun kind => name ∈ documentsOf kind
  follows : ∀ kind, name ∈ documentsOf kind ∨ kind = .classDefinition → first.FollowsIn kind second

/-- A document that does not name its folder. -/
theorem Replay.IsApart.of_same {name : String} {replay : Replay}
    (fills : replay.Fills (name = headersDocument) fun kind => name ∈ documentsOf kind)
    (follows : ∀ kind, name ∈ documentsOf kind ∨ kind = .classDefinition →
      replay.FollowsIn kind replay) : replay.IsApart name replay :=
  ⟨by simpa using fills, follows⟩

section Elements

variable {α β : Type} {add : Table → β → String → String → Table} {name : String}
  (asElement : β → Element)
  (isAdd : ∀ table element header scope,
    add table element header scope = table.add header scope (asElement element))
  (isOwn : ∀ element, name ∈ documentsOf (asElement element).kind)

include isAdd isOwn

theorem isApart_replayElements (read : String → Json → Option β) :
    (replayElements read add).IsApart name (replayElements read add) :=
  .of_same (fills_replayElements asElement isAdd isOwn read) fun _ _ =>
    followsIn_replayElements asElement isAdd read

theorem isApart_replayDrafts (folder otherFolder : String) (read : Json → Option α)
    (build : String → α → Except DuplicateParameter β) :
    (replayDrafts (Path.join folder name) read build add).IsApart name
      (replayDrafts (Path.join otherFolder name) read build add) where
  fills := by
    simp only [List.forall_mem_cons, List.not_mem_nil, false_implies, implies_true, and_true]
    exact ⟨fills_replayDrafts asElement isAdd isOwn _ read build,
      fills_replayDrafts asElement isAdd isOwn _ read build⟩
  follows := fun _ _ => followsIn_replayDrafts asElement isAdd _ _ read build

end Elements

theorem isApart_replayMembers {α : Type} {name : String} (read : String → Json → Option α)
    (add : Symbols.Class → α → Symbols.Class) (isOwn : name ∈ documentsOf .classDefinition)
    (ofNoOther : ∀ kind, name ∈ documentsOf kind → kind = .classDefinition) :
    (replayMembers read add).IsApart name (replayMembers read add) := by
  refine .of_same (fills_replayMembers read add isOwn) fun kind isKind => ?_
  obtain rfl : kind = .classDefinition := isKind.elim (ofNoOther kind) id
  exact followsIn_replayMembers read add

/-- All documents are apart, from whatever two folders they are loaded. -/
theorem isApart_replays (policy : DuplicatePolicy) (folder otherFolder : String) :
    List.Forall₂ (fun entry other => entry.1 = other.1 ∧ entry.2.IsApart entry.1 other.2)
      (replays policy folder) (replays policy otherFolder) := by
  have headers : replayHeaders.IsApart headersDocument replayHeaders :=
    .of_same (fills_replayHeaders rfl) fun _ _ => followsIn_replayHeaders
  have isMembers : ∀ name ∈ ["class_enumerations.json", "class_variables.json"],
      name ∈ documentsOf .classDefinition ∧
        ∀ kind, name ∈ documentsOf kind → kind = .classDefinition := by
    intro name isName
    simp only [List.mem_cons, List.not_mem_nil, or_false] at isName
    rcases isName with rfl | rfl <;>
      exact ⟨by decide, fun kind isKind => by cases kind <;> revert isKind <;> decide⟩
  obtain ⟨isOwn, ofNoOther⟩ := isMembers "class_enumerations.json" (by decide)
  obtain ⟨isOwnVariables, ofNoOtherVariables⟩ := isMembers "class_variables.json" (by decide)
  exact .cons ⟨rfl, headers⟩ <|
    .cons ⟨rfl, isApart_replayElements .constant (fun _ _ _ _ => rfl) (fun _ => .head _) _⟩ <|
    .cons ⟨rfl, isApart_replayElements .enumeration (fun _ _ _ _ => rfl) (fun _ => .head _) _⟩ <|
    .cons ⟨rfl, isApart_replayElements .typeAlias (fun _ _ _ _ => rfl) (fun _ => .head _) _⟩ <|
    .cons ⟨rfl, isApart_replayElements .globalVariable (fun _ _ _ _ => rfl) (fun _ => .head _) _⟩ <|
    .cons ⟨rfl, isApart_replayDrafts .function (fun _ _ _ _ => rfl) (fun _ => .head _) _ _ _ _⟩ <|
    .cons ⟨rfl, isApart_replayDrafts .classDefinition (fun _ _ _ _ => rfl) (fun _ => .head _)
      _ _ _ _⟩ <|
    .cons ⟨rfl, isApart_replayMembers _ _ isOwn ofNoOther⟩ <|
    .cons ⟨rfl, isApart_replayMembers _ _ isOwnVariables ofNoOtherVariables⟩ .nil

/-! ### The documents in their folders -/

section Documents

variable {tree other : FileTree} {folder otherFolder name : String} {first second : Replay}

theorem filled_loadDocument {switches : Prop} {kinds : ElementKind → Prop}
    (fills : first.Fills switches kinds) (table : Table) :
    Returns (table.Filled switches kinds) (loadDocument tree folder table (name, first)) := by
  intro made loads
  rcases loadDocument_cases loads with ⟨_, rfl⟩ | ⟨text, json, change, _, _, isChange, changes⟩
  · exact .refl
  · exact fills json change isChange table made changes

theorem follows_loadDocument {kind : ElementKind} (follows : first.FollowsIn kind second)
    (agree : SameDocument tree folder other otherFolder name) {table otherTable : Table}
    (same : Table.SameElements kind table otherTable) :
    Follows (Table.SameElements kind) (loadDocument tree folder table (name, first))
      (loadDocument other otherFolder otherTable (name, second)) := by
  intro made loads
  rcases loadDocument_cases loads with
    ⟨isAbsent, rfl⟩ | ⟨text, json, change, isText, isJson, isChange, changes⟩
  · exact ⟨otherTable, loadDocument_of_absent (agree.symm.trans isAbsent), same⟩
  · obtain ⟨otherChange, isOther, each⟩ := follows json change isChange
    have isOtherText : other.text? (Path.join otherFolder name) = some text := by
      rwa [FileTree.text?, FileTree.content?, ← agree, ← FileTree.content?, ← FileTree.text?]
    rw [loadDocument_of_text isOtherText isJson isOther]
    exact each table otherTable same made changes

end Documents

/-! ### Caches -/

variable {policy : DuplicatePolicy} {folder otherFolder : String} {tree other : FileTree}

/-- Caches that agree on the documents of a kind hold the same elements of that kind. -/
theorem agrees_load {kind : ElementKind}
    (agree : ∀ name ∈ documentsOf kind, SameDocument tree folder other otherFolder name) :
    Agrees (Table.SameElements kind)
      ((replays policy folder).foldlM (loadDocument tree folder) .empty)
      ((replays policy otherFolder).foldlM (loadDocument other otherFolder) .empty) := by
  refine .foldlM (.refl kind .empty) ((isApart_replays policy folder otherFolder).imp ?_)
  rintro ⟨name, first⟩ ⟨_, second⟩ ⟨rfl, apart⟩ table otherTable same
  by_cases isOwn : name ∈ documentsOf kind
  · exact (follows_loadDocument (apart.follows kind (.inl isOwn)) (agree name isOwn) same).agrees
  · -- neither of the two writes to the kind
    intro made loads otherMade loadsOther
    have kept := filled_loadDocument (apart.fills first (by simp)) table made loads
    have keptOther :=
      filled_loadDocument (apart.fills second (by simp)) otherTable otherMade loadsOther
    exact ((kept.sameElements isOwn).symm.trans same).trans (keptOther.sameElements isOwn)

/-- Each document is apart when it is loaded from one folder. -/
theorem isApart_of_mem {entry : String × Replay} (isEntry : entry ∈ replays policy folder) :
    entry.2.IsApart entry.1 entry.2 :=
  (List.forall₂_same.mp (isApart_replays policy folder folder) entry isEntry).2

/-- Without its documents there are no elements of a kind. -/
theorem sameElements_empty_load {kind : ElementKind}
    (lacks : ∀ name ∈ documentsOf kind, tree.node? (Path.join folder name) = none) :
    Returns (Table.SameElements kind .empty)
      ((replays policy folder).foldlM (loadDocument tree folder) .empty) := by
  refine .foldlM (.refl kind .empty) fun ⟨name, replay⟩ isEntry table same => ?_
  by_cases isOwn : name ∈ documentsOf kind
  · rw [loadDocument_of_absent (lacks name isOwn)]
    exact .ok same
  · intro made loads
    have filled := filled_loadDocument ((isApart_of_mem isEntry).fills replay (by simp)) table made
      loads
    exact same.trans (filled.sameElements isOwn)

/-! ### The states of headers -/

/-- The headers that a cache lists, with their states; without the list there are none. -/
def listedHeaders (tree : FileTree) (folder : String) : OrderedMap Bool :=
  (((tree.text? (Path.join folder headersDocument)).bind Json.parse?).bind
    (Json.map? fun _ => Json.bool?)).getD .empty

/-- Behind the list of headers, each header is on unless it is listed as off. -/
theorem isOn_loadHeaders (tree : FileTree) (folder : String) :
    Returns (fun table => ∀ header,
        table.isOn header = ((listedHeaders tree folder).get? header).getD true)
      (loadDocument tree folder .empty (headersDocument, replayHeaders)) := by
  intro made loads header
  rw [listedHeaders]
  rcases loadDocument_cases loads with
    ⟨isAbsent, rfl⟩ | ⟨text, json, change, isText, isJson, isChange, changes⟩
  · rw [FileTree.text?, FileTree.content?, isAbsent]
    rfl
  · obtain ⟨headers, areHeaders, rfl⟩ := Option.map_eq_some_iff.mp isChange
    obtain rfl := Except.ok.inj changes
    rw [isText, Option.bind_some, isJson, Option.bind_some, areHeaders, Option.getD_some]
    rw [Table.isOn, Table.enabled?_foldl_setEnabled headers.distinct, OrderedMap.get?]
    exact congrArg (Option.getD · true) (Option.or_none ..)

/-- No other document switches a header. -/
theorem isOn_load (policy : DuplicatePolicy) (tree : FileTree) (folder : String) :
    Returns (fun table => ∀ header,
        table.isOn header = ((listedHeaders tree folder).get? header).getD true)
      ((replays policy folder).foldlM (loadDocument tree folder) .empty) := by
  have others : ∀ entry ∈ (replays policy folder).tail, entry.1 ≠ headersDocument := by
    simp [replays, headersDocument]
  show Returns _ (((headersDocument, replayHeaders) :: (replays policy folder).tail).foldlM ..)
  rw [List.foldlM_cons]
  refine .bind (isOn_loadHeaders tree folder) fun listed isOn => .foldlM isOn ?_
  intro ⟨name, replay⟩ isEntry table isOnTable made loads header
  have apart := isApart_of_mem (List.mem_of_mem_tail isEntry)
  have filled := filled_loadDocument (apart.fills replay (by simp)) table made loads
  rw [filled.isOn_eq (others _ isEntry), isOnTable]

/-! ### Main statement -/

/-- A folder has the documents of a cache without those of a kind. -/
structure LacksKind (kind : ElementKind) (folder : String) (tree reduced : FileTree) : Prop where
  isFolder : reduced.isFolder folder = true
  lacks : ∀ name ∈ documentsOf kind, reduced.node? (Path.join folder name) = none
  keeps : ∀ name ∈ documentNames, name ∉ documentsOf kind →
    SameDocument tree folder reduced folder name

/-- Without the documents of a kind a cache can still be loaded, unless these are classes, to which
the documents of class members refer. -/
theorem exists_load_reduced {kind : ElementKind} (isSimple : kind ≠ .classDefinition)
    {reduced : FileTree} (lacksKind : LacksKind kind folder tree reduced) {table : Table}
    (loads : (replays policy folder).foldlM (loadDocument tree folder) .empty = .ok table) :
    ∃ reducedTable,
      (replays policy folder).foldlM (loadDocument reduced folder) .empty = .ok reducedTable := by
  have ofNoClass : ∀ name ∈ documentsOf kind, name ∉ documentsOf .classDefinition := by
    cases kind <;> first | exact absurd rfl isSimple | decide
  have follows : Follows (Table.SameElements .classDefinition)
      ((replays policy folder).foldlM (loadDocument tree folder) .empty)
      ((replays policy folder).foldlM (loadDocument reduced folder) .empty) := by
    refine .foldlM (.refl .classDefinition .empty) (List.forall₂_same.mpr ?_)
    intro ⟨name, replay⟩ isEntry table otherTable same
    have apart := isApart_of_mem isEntry
    by_cases isLacking : name ∈ documentsOf kind
    · intro made madeLoads
      have filled := filled_loadDocument (apart.fills replay (by simp)) table made madeLoads
      refine ⟨otherTable, loadDocument_of_absent (lacksKind.lacks name isLacking), ?_⟩
      exact (filled.sameElements (ofNoClass name isLacking)).symm.trans same
    · have isName : name ∈ (replays policy folder).map Prod.fst := List.mem_map_of_mem isEntry
      exact follows_loadDocument (apart.follows .classDefinition (.inr rfl))
        (lacksKind.keeps name isName isLacking) same
  obtain ⟨reducedTable, loadsReduced, _⟩ := follows table loads
  exact ⟨reducedTable, loadsReduced⟩

/-- The documents of a data cache do not interfere. Two caches that agree on the documents of a kind
hold the same elements of it; a header is on unless the list of headers has it as off; and without
the document of a kind other than classes, exactly the elements of that kind are missing. -/
theorem load_separate {table otherTable : Table}
    (loads : load .data policy folder tree = .ok table)
    (loadsOther : load .data policy otherFolder other = .ok otherTable) :
    (∀ kind, (∀ name ∈ documentsOf kind, SameDocument tree folder other otherFolder name) →
      Table.SameElements kind table otherTable) ∧
    (∀ header holder, table.header? header = some holder →
      holder.enabled = ((listedHeaders tree folder).get? header).getD true) ∧
    (SameDocument tree folder other otherFolder headersDocument →
      ∀ header holder otherHolder, table.header? header = some holder →
        otherTable.header? header = some otherHolder → holder.enabled = otherHolder.enabled) ∧
    ∀ kind ≠ .classDefinition, ∀ reduced, LacksKind kind folder tree reduced →
      ∃ reducedTable, load .data policy folder reduced = .ok reducedTable ∧
        (∀ header key name, reducedTable.find? ⟨header, key, kind, name⟩ = none) ∧
        ∀ otherKind ≠ kind, Table.SameElements otherKind table reducedTable := by
  have steps := load_data_eq_ok loads
  have stepsOther := load_data_eq_ok loadsOther
  have enabled : ∀ header holder, table.header? header = some holder →
      holder.enabled = ((listedHeaders tree folder).get? header).getD true := by
    intro header holder isHeader
    rw [← isOn_load policy tree folder table steps, Table.isOn, Table.enabled?, isHeader]
    rfl
  refine ⟨fun kind agree => agrees_load agree table steps otherTable stepsOther, enabled, ?_, ?_⟩
  · intro agree header holder otherHolder isHeader isOther
    have sameList : listedHeaders tree folder = listedHeaders other otherFolder := by
      rw [listedHeaders, listedHeaders, FileTree.text?, FileTree.text?, FileTree.content?,
        FileTree.content?, agree]
    rw [enabled header holder isHeader, sameList,
      ← isOn_load policy other otherFolder otherTable stepsOther, Table.isOn, Table.enabled?,
      isOther]
    rfl
  · intro kind isSimple reduced lacksKind
    obtain ⟨reducedTable, stepsReduced⟩ := exists_load_reduced isSimple lacksKind steps
    refine ⟨reducedTable, ?_, fun header key name => ?_, fun otherKind isOther => ?_⟩
    · rw [load, if_pos lacksKind.isFolder]
      exact stepsReduced
    · exact (sameElements_empty_load lacksKind.lacks reducedTable stepsReduced header key name).symm
    · have apartKinds : ∀ name ∈ documentsOf otherKind,
          name ∈ documentNames ∧ name ∉ documentsOf kind := by
        revert isOther
        cases kind <;> cases otherKind <;> decide
      refine agrees_load (fun name isName => ?_) table steps reducedTable stepsReduced
      exact lacksKind.keeps name (apartKinds name isName).1 (apartKinds name isName).2

/-- A folder with some documents. -/
def folderOfDocuments (folder : String) (documents : List (String × Json)) : FileTree where
  entries := ([folder], .folder) :: documents.map fun (name, json) =>
    ([name, folder], .file (.text json.document))

/-- A document with one value. -/
def sampleDocument (name : String) (value : Json) : Json :=
  Json.record [("a.h", Json.record [("m", Json.record [(name, value)])])]

/-- A header that is switched off, a constant and a class. -/
def sampleDocuments : List (String × Json) :=
  [(headersDocument, Json.record [("a.h", .bool false)]),
    ("constants.json", sampleDocument "LIMIT" (Json.record [("value", .text "1")])),
    ("classes.json", sampleDocument "Item" (Json.record [("@struct", .bool true)]))]

/-- A cache, another one with the same class, and what is left of the first without constants. -/
def sampleTree : FileTree := folderOfDocuments "cache" sampleDocuments

@[inherit_doc sampleTree]
def otherSampleTree : FileTree := folderOfDocuments "kept" (sampleDocuments.drop 2)

@[inherit_doc sampleTree]
def reducedSampleTree : FileTree := folderOfDocuments "cache" (sampleDocuments.eraseIdx 1)

theorem load_separate_sample :
    ∃ table otherTable reducedTable, load .data .reject "cache" sampleTree = .ok table ∧
      load .data .reject "kept" otherSampleTree = .ok otherTable ∧
      load .data .reject "cache" reducedSampleTree = .ok reducedTable ∧
      Table.SameElements .classDefinition table otherTable ∧
      Table.SameElements .classDefinition table reducedTable ∧
      ∀ header key name, reducedTable.find? ⟨header, key, .constant, name⟩ = none := by
  have isOk : (load .data .reject "cache" sampleTree).isOk = true := by decide +kernel
  have isOkOther : (load .data .reject "kept" otherSampleTree).isOk = true := by decide +kernel
  obtain ⟨table, loads⟩ := exists_of_isOk isOk
  obtain ⟨otherTable, loadsOther⟩ := exists_of_isOk isOkOther
  have agree : ∀ name ∈ documentsOf .classDefinition,
      SameDocument sampleTree "cache" otherSampleTree "kept" name := by
    unfold SameDocument
    decide +kernel
  have lacksKind : LacksKind .constant "cache" sampleTree reducedSampleTree :=
    ⟨by decide +kernel, by decide +kernel, by unfold SameDocument; decide +kernel⟩
  have separate := load_separate loads loadsOther
  obtain ⟨reducedTable, loadsReduced, noConstant, sameOthers⟩ :=
    separate.2.2.2 .constant nofun reducedSampleTree lacksKind
  exact ⟨table, otherTable, reducedTable, loads, loadsOther, loadsReduced,
    separate.1 .classDefinition agree, sameOthers .classDefinition nofun, noConstant⟩

end Bindery.Cache
