/-
**A symbol table is the replay of its log.**

Headers are created by the first edit that mentions them, scopes by the first addition, and each
addition writes to one of six maps. What is left agrees with the log read flat.

* `Scope.mapOf` — the elements of a kind as one map, so that all kinds are filled alike.
* `Table.IsReplayOf` — a table agrees with a log in every order, element, place and count.
* `Table.isReplayOf_applyAll` — so does the table that the log fills.
-/

import Mathlib.Algebra.BigOperators.Group.List.Basic
import Bindery.Proofs.Symbols.Log
import Bindery.Proofs.Symbols.Places

namespace Bindery.Symbols

attribute [ext] Counts

/-- A table agrees with a log. Headers, scopes and elements come in the order in which the log first
has them; each element is, detached, the last one added to its slot, and knows the place. -/
structure Table.IsReplayOf (log : Log) (table : Table) : Prop where
  headers : table.headers.keys = log.headers
  header : table.headers.Forall fun name header =>
    header.name = name ∧ header.enabled = log.enabled name ∧ header.scopes.keys = log.scopes name
  scope : table.headers.Forall fun name header => header.scopes.Forall fun key scope =>
    scope.name = key ∧ scope.IsStamped (· = ⟨name, key⟩) ∧
      ∀ kind, scope.elementsOf kind = log.elementsAt ⟨name, key⟩ kind
  counts : table.counts = log.counts

/-! ### What a scope takes in -/

namespace Scope

/-- The elements of one kind in a scope by name, detached. -/
def mapOf (scope : Scope) : ElementKind → OrderedMap Element
  | .constant => scope.constants.mapValues fun c => .constant c.detached
  | .enumeration => scope.enumerations.mapValues fun e => .enumeration e.detached
  | .typeAlias => scope.aliases.mapValues fun a => .typeAlias a.detached
  | .globalVariable => scope.globals.mapValues fun v => .globalVariable v.detached
  | .function => scope.functions.mapValues fun f => .function f.detached
  | .classDefinition => scope.classes.mapValues fun c => .classDefinition c.detached

theorem elementsOf_eq_values (scope : Scope) (kind : ElementKind) :
    scope.elementsOf kind = (scope.mapOf kind).values := by
  cases kind <;> exact (OrderedMap.values_mapValues ..).symm

theorem detached_attach (self : Class) (place : Place) :
    (self.attach place).detached = self.detached := by
  unfold Class.attach Class.detached
  simp only [OrderedMap.mapValues_mapValues]
  rfl

/-- Taking an element in writes it under its name among those of its kind. -/
theorem mapOf_take (place : Place) (scope : Scope) (element : Element) (kind : ElementKind) :
    (scope.take place element).mapOf kind =
      if element.kind = kind then (scope.mapOf kind).insert element.name element.detached
      else scope.mapOf kind := by
  by_cases isKind : element.kind = kind
  · subst isKind
    rw [if_pos rfl]
    cases element with
    | classDefinition c =>
      simp only [take, mapOf, Element.kind, OrderedMap.mapValues_insert, detached_attach]
      rfl
    | _ =>
      simp only [take, mapOf, Element.kind, OrderedMap.mapValues_insert]
      rfl
  · rw [if_neg isKind]
    cases element <;> cases kind <;> first | exact absurd rfl isKind | rfl

theorem mapOf_foldl_take (place : Place) (scope : Scope) (elements : List Element)
    (kind : ElementKind) :
    (elements.foldl (Scope.take place) scope).mapOf kind =
      ((elements.filter (·.kind = kind)).map fun e => (e.name, e.detached)).foldl
        (fun m pair => m.insert pair.1 pair.2) (scope.mapOf kind) := by
  induction elements generalizing scope with
  | nil => rfl
  | cons element rest ih =>
    rw [List.foldl_cons, ih, mapOf_take]
    by_cases isKind : element.kind = kind
    · rw [if_pos isKind, List.filter_cons_of_pos (by simpa using isKind)]
      rfl
    · rw [if_neg isKind, List.filter_cons_of_neg (by simpa using isKind)]

/-- A scope that takes elements in keeps the last one of each name and kind. -/
theorem elementsOf_foldl_take (place : Place) (name : String) (elements : List Element)
    (kind : ElementKind) :
    (elements.foldl (Scope.take place) (Scope.named name)).elementsOf kind =
      (lastOfEach Element.name (elements.filter (·.kind = kind))).map Element.detached := by
  have bare : (Scope.named name).mapOf kind = .empty := by cases kind <;> rfl
  rw [elementsOf_eq_values, mapOf_foldl_take, bare, OrderedMap.values]
  refine (congrArg _ (OrderedMap.entries_ofList_eq_lastOfEach _)).trans ?_
  rw [lastOfEach_map, List.map_map]
  rfl

theorem name_foldl_take (place : Place) (scope : Scope) (elements : List Element) :
    (elements.foldl (Scope.take place) scope).name = scope.name := by
  induction elements generalizing scope with
  | nil => rfl
  | cons element rest ih =>
    rw [List.foldl_cons, ih]
    cases element <;> rfl

end Scope

/-! ### What an edit does -/

/-- The change that an edit makes to its header. -/
def Edit.change : Edit → Header → Header
  | .enable _ enabled => fun holder => { holder with enabled }
  | .add header scope element => fun holder =>
    holder.modifyScope (canonicalScope scope) (Scope.take ⟨header, canonicalScope scope⟩ · element)

theorem Table.apply_eq_modifyHeader (table : Table) (edit : Edit) :
    table.apply edit = table.modifyHeader edit.header edit.change := by
  cases edit with
  | enable header enabled => rfl
  | add header scope element => exact table.add_eq_modifyScope header scope element

theorem Table.headers_applyAll (table : Table) (log : Log) :
    (table.applyAll log).headers =
      table.headers.perform (fun name => { name }) (log.map fun edit =>
        (edit.header, edit.change)) := by
  rw [Table.applyAll, OrderedMap.perform, List.foldl_map]
  refine (List.foldl_hom Table.headers fun made edit => ?_).symm
  rw [apply_eq_modifyHeader]
  rfl

namespace Log

/-- The changes of additions to the scopes of their header. -/
def scopeSteps (additions : List (Place × Element)) : List (String × (Scope → Scope)) :=
  additions.map fun addition => (addition.1.scope, (Scope.take addition.1 · addition.2))

/-- Under the name of a scope stand the elements that are added to it. -/
theorem under_scopeSteps (log : Log) (name key : String) :
    under key (scopeSteps (log.additions.filter (·.1.header = name))) =
      (log.addedTo ⟨name, key⟩).map fun element scope => scope.take ⟨name, key⟩ element := by
  rw [addedTo, under, scopeSteps, List.filter_map, List.map_map, List.map_map, List.filter_filter]
  have samePlace : ∀ place : Place,
      (place.scope == key && decide (place.header = name)) = decide (place = ⟨name, key⟩) := by
    rintro ⟨header, scope⟩
    simp [Bool.and_comm, beq_eq_decide]
  simp only [Function.comp_def, samePlace]
  refine List.map_congr_left fun addition isAddition => ?_
  have isPlace := (List.mem_filter.mp isAddition).2
  rw [decide_eq_true_eq] at isPlace
  simp only [isPlace]

/-- What the edits of a header leave of it. -/
theorem changed_edits {name : String} {log : Log} (own : ∀ edit ∈ log, edit.header = name)
    (canonical : ∀ edit ∈ log, edit.IsCanonical) (holder : Header) :
    OrderedMap.changed (log.map Edit.change) holder =
      { holder with
        enabled := (log.filterMap (Edit.switch? name)).getLast?.getD holder.enabled
        scopes := holder.scopes.perform Scope.named (scopeSteps log.additions) } := by
  induction log generalizing holder with
  | nil => rfl
  | cons edit rest ih =>
    rw [List.forall_mem_cons] at own canonical
    have ofRest := ih own.2 canonical.2 (edit.change holder)
    rw [List.map_cons, OrderedMap.changed, List.foldl_cons]
    refine ofRest.trans ?_
    cases edit with
    | enable header enabled =>
      obtain rfl : header = name := own.1
      simp only [Edit.change, Edit.switch?, List.filterMap_cons, if_true, List.getLast?_cons,
        Option.getD_some, additions, Edit.addition?]
    | add header scope element =>
      have isCanonical : canonicalScope (canonicalScope scope) = canonicalScope scope := canonical.1
      simp only [Edit.change, Header.modifyScope, isCanonical, additions, Edit.addition?,
        Edit.switch?, List.filterMap_cons, scopeSteps, List.map_cons]
      rfl

end Log

/-! ### Headers and scopes -/

theorem keys_applyAll (log : Log) : (Table.empty.applyAll log).headers.keys = log.headers := by
  have names : (Table.empty.applyAll log).headers.nameSet =
      (log.map Edit.header).foldl NameSet.insert .empty := by
    rw [Table.headers_applyAll, OrderedMap.nameSet_perform, List.map_map]
    rfl
  have inOrder := congrArg NameSet.names names
  rw [NameSet.names_foldl_insert] at inOrder
  refine inOrder.trans ?_
  simp [NameSet.empty, List.removeAll, Log.headers]

section Replay

variable {log : Log} (canonical : ∀ edit ∈ log, edit.IsCanonical)

include canonical

/-- A header of the table has what the additions to it leave. -/
theorem get?_applyAll {name : String} {header : Header}
    (found : (Table.empty.applyAll log).headers.get? name = some header) :
    header = {
      name
      enabled := log.enabled name
      scopes := OrderedMap.empty.perform Scope.named
        (Log.scopeSteps ((Log.additions log).filter (·.1.header = name))) } := by
  rw [Table.headers_applyAll, OrderedMap.get?_perform] at found
  have asFilter : under name (log.map fun edit => (edit.header, edit.change)) =
      (log.filter (·.header = name)).map Edit.change := by
    rw [under, List.filter_map, List.map_map]
    simp only [Function.comp_def, beq_eq_decide]
  have own : ∀ edit ∈ log.filter (·.header = name), edit.header = name := by
    intro edit isEdit
    simpa using (List.mem_filter.mp isEdit).2
  have stays : ∀ edit ∈ log.filter (·.header = name), edit.IsCanonical :=
    fun edit isEdit => canonical edit (List.mem_filter.mp isEdit).1
  split at found
  · rw [asFilter, Log.changed_edits own stays, Log.additions_filter, Log.switches_filter] at found
    exact (Option.some.inj found).symm
  · exact absurd found (by simp [Table.empty])

theorem keys_scopes_applyAll {name : String} {header : Header}
    (found : (Table.empty.applyAll log).headers.get? name = some header) :
    header.scopes.keys = Log.scopes log name := by
  rw [get?_applyAll canonical found]
  have names := congrArg NameSet.names (OrderedMap.nameSet_perform Scope.named .empty
    (Log.scopeSteps ((Log.additions log).filter (·.1.header = name))))
  rw [NameSet.names_foldl_insert] at names
  refine names.trans ?_
  simp [OrderedMap.nameSet, OrderedMap.keys, OrderedMap.empty, List.removeAll, Log.scopes,
    Log.scopeSteps, Function.comp_def]

/-- A scope of the table is what the elements that are added to it leave. -/
theorem get?_scopes_applyAll {name key : String} {header : Header} {scope : Scope}
    (found : (Table.empty.applyAll log).headers.get? name = some header)
    (isScope : header.scopes.get? key = some scope) :
    canonicalScope key = key ∧
      scope = (Log.addedTo log ⟨name, key⟩).foldl (Scope.take ⟨name, key⟩) (Scope.named key) := by
  have isKey : key ∈ header.scopes.keys := (OrderedMap.mem_keys ..).mpr ⟨scope, isScope⟩
  rw [keys_scopes_applyAll canonical found, Log.scopes, List.mem_eraseDups, List.mem_map] at isKey
  obtain ⟨addition, isAddition, rfl⟩ := isKey
  refine ⟨Log.canonicalScope_of_addition canonical (List.mem_filter.mp isAddition).1, ?_⟩
  rw [get?_applyAll canonical found, OrderedMap.get?_perform, Log.under_scopeSteps] at isScope
  split at isScope
  · rw [← Option.some.inj isScope, OrderedMap.changed, List.foldl_map]
    rfl
  · exact absurd isScope (by simp)

end Replay

/-! ### Counts -/

/-- The counts of parts add up. -/
theorem Counts.measure_foldl {ι : Type} {measure : Counts → Nat}
    (adds : ∀ a b : Counts, measure (a + b) = measure a + measure b) (items : List ι)
    (part : ι → Counts) (start : Counts) :
    measure (items.foldl (fun counts item => counts + part item) start) =
      measure start + (items.map fun item => measure (part item)).sum := by
  induction items generalizing start with
  | nil => rfl
  | cons item rest ih =>
    rw [List.foldl_cons, ih, adds, List.map_cons, List.sum_cons, Nat.add_assoc]

/-- A count of a table is the sum over its scopes. -/
theorem Table.measure_counts {measure : Counts → Nat}
    (adds : ∀ a b : Counts, measure (a + b) = measure a + measure b) (none : measure {} = 0)
    (table : Table) :
    measure table.counts = (table.scopes.map fun entry => measure entry.2.counts).sum := by
  have ofHeader : ∀ header : Header, measure header.counts =
      (header.scopes.values.map fun scope => measure scope.counts).sum := by
    intro header
    rw [Header.counts, Counts.measure_foldl adds, none, Nat.zero_add]
  rw [Table.counts, Counts.measure_foldl adds, none, Nat.zero_add, scopes, List.map_flatMap,
    List.flatMap_def, List.sum_flatten]
  simp only [ofHeader, List.map_map, Function.comp_def]

namespace Table.IsReplayOf

variable {log : Log} {table : Table}

/-- The elements of a kind in a table are, but for their order, those that remain. -/
theorem flatMap_elementsOf_perm (sameHeaders : table.headers.keys = log.headers)
    (ofHeader : table.headers.Forall fun name header =>
      header.name = name ∧ header.scopes.keys = log.scopes name)
    (ofScope : table.headers.Forall fun name header => header.scopes.Forall fun key scope =>
      scope.name = key ∧ ∀ kind, scope.elementsOf kind = log.elementsAt ⟨name, key⟩ kind)
    (kind : ElementKind) :
    (table.scopes.flatMap fun entry => entry.2.elementsOf kind).Perm
      ((log.remaining.filter (·.2.kind = kind)).map (·.2.detached)) := by
  have byPlace : (table.scopes.flatMap fun entry => entry.2.elementsOf kind) =
      log.places.flatMap fun place => log.elementsAt place kind := by
    have names := (ofHeader.imp fun _ _ isOwn => isOwn.1).map_values
    rw [Table.scopes, Log.places, ← sameHeaders, ← names, List.flatMap_assoc, List.flatMap_assoc,
      List.flatMap_map]
    refine List.flatMap_congr fun header isHeader => ?_
    obtain ⟨name, found⟩ := (table.headers.mem_values header).mp isHeader
    obtain ⟨rfl, sameScopes⟩ := ofHeader name header found
    have scopes := ofScope _ header found
    have keys := (scopes.imp fun _ _ isOwn => isOwn.1).map_values
    rw [← sameScopes, ← keys, List.map_map, List.flatMap_map, List.flatMap_map]
    refine List.flatMap_congr fun scope isScope => ?_
    obtain ⟨key, isKey⟩ := (header.scopes.mem_values scope).mp isScope
    obtain ⟨rfl, sameElements⟩ := scopes key scope isKey
    exact sameElements kind
  rw [byPlace]
  exact log.flatMap_elementsAt_perm kind

section Counts

variable (perm : ∀ kind, (table.scopes.flatMap fun entry => entry.2.elementsOf kind).Perm
  ((log.remaining.filter (·.2.kind = kind)).map (·.2.detached)))

include perm

/-- The elements of a kind in all scopes are as many as there are slots of the kind. -/
theorem sum_length_elementsOf (kind : ElementKind) :
    (table.scopes.map fun entry => (entry.2.elementsOf kind).length).sum = log.slotCount kind := by
  have sameLength := (perm kind).length_eq
  rw [List.length_flatMap, List.length_map] at sameLength
  rw [sameLength, log.slotCount_eq_length]

/-- What the classes in all scopes weigh is what the classes that remain weigh. -/
theorem sum_classes {weight : Class → Nat}
    (ofDetached : ∀ self, weight self.detached = weight self) :
    (table.scopes.map fun entry => (entry.2.classes.values.map weight).sum).sum =
      (log.classes.map weight).sum := by
  have sameWeights := (((perm .classDefinition).filterMap Element.class?).map weight).sum_eq
  have ofScope : ∀ scope : Scope,
      (((scope.elementsOf .classDefinition).filterMap Element.class?).map weight).sum =
        (scope.classes.values.map weight).sum := by
    intro scope
    have asClasses : (scope.elementsOf .classDefinition).filterMap Element.class? =
        scope.classes.values.map Class.detached := by
      rw [Scope.elementsOf, List.filterMap_map]
      exact congrFun List.filterMap_eq_map _
    rw [asClasses, List.map_map]
    exact congrArg List.sum (List.map_congr_left fun self _ => ofDetached self)
  have ofLog : ((((log.remaining.filter (·.2.kind = .classDefinition)).map (·.2.detached)).filterMap
      Element.class?).map weight) = log.classes.map weight := by
    rw [Log.classes, List.filterMap_map, List.filterMap_filter, List.map_filterMap,
      List.map_filterMap]
    refine List.filterMap_congr fun addition _ => ?_
    obtain ⟨_, element⟩ := addition
    cases element with
    | classDefinition self => exact congrArg some (ofDetached self)
    | _ => rfl
  rw [ofLog, List.filterMap_flatMap, List.map_flatMap, List.flatMap_def, List.sum_flatten,
    List.map_map] at sameWeights
  simpa only [Function.comp_def, ofScope] using sameWeights

theorem counts_eq : table.counts = log.counts := by
  have ofKind : ∀ (measure : Counts → Nat) (kind : ElementKind),
      (∀ a b : Counts, measure (a + b) = measure a + measure b) → measure {} = 0 →
      (∀ scope : Scope, measure scope.counts = (scope.elementsOf kind).length) →
      measure table.counts = log.slotCount kind := by
    intro measure kind adds none isLength
    rw [Table.measure_counts adds none, ← sum_length_elementsOf perm]
    simp only [isLength]
  have size : ∀ {α : Type} (m : OrderedMap α) (asElement : α → Element),
      m.size = (m.values.map asElement).length := by
    intro α m asElement
    simp [OrderedMap.size, OrderedMap.values]
  have enumerations : table.counts.enumerations =
      log.slotCount .enumeration + (log.classes.map (·.enumerations.size)).sum := by
    rw [@Table.measure_counts Counts.enumerations (fun _ _ => rfl) rfl,
      ← sum_classes perm fun _ => rfl,
      ← sum_length_elementsOf perm, ← List.sum_map_add]
    refine congrArg List.sum (List.map_congr_left fun entry _ => ?_)
    simp [Scope.counts, Scope.allEnumerations, Scope.elementsOf, OrderedMap.size,
      OrderedMap.values, List.length_flatMap]
  have methods : table.counts.methods = (log.classes.map (·.methods.size)).sum := by
    have ofDetached (self : Class) : self.detached.methods.size = self.methods.size := by
      simp [Class.detached, OrderedMap.size, OrderedMap.mapValues]
    rw [@Table.measure_counts Counts.methods (fun _ _ => rfl) rfl, ← sum_classes perm ofDetached]
    refine congrArg List.sum (List.map_congr_left fun entry _ => ?_)
    simp [Scope.counts, OrderedMap.size, OrderedMap.values, List.length_flatMap]
  exact Counts.ext
    (ofKind Counts.constants .constant (fun _ _ => rfl) rfl fun _ => size ..)
    enumerations
    (ofKind Counts.aliases .typeAlias (fun _ _ => rfl) rfl fun _ => size ..)
    (ofKind Counts.globals .globalVariable (fun _ _ => rfl) rfl fun _ => size ..)
    (ofKind Counts.functions .function (fun _ _ => rfl) rfl fun _ => size ..)
    (ofKind Counts.classes .classDefinition (fun _ _ => rfl) rfl fun _ => size ..)
    methods

end Counts

end Table.IsReplayOf

/-! ### The table of a log -/

/-- A table is the replay of its log. -/
theorem Table.isReplayOf_applyAll {log : Log} (canonical : ∀ edit ∈ log, edit.IsCanonical) :
    (Table.empty.applyAll log).IsReplayOf log := by
  have ofHeader : (Table.empty.applyAll log).headers.Forall fun name header =>
      header.name = name ∧ header.enabled = log.enabled name ∧
        header.scopes.keys = log.scopes name := by
    intro name header found
    have isMade := get?_applyAll canonical found
    exact ⟨by rw [isMade], by rw [isMade], keys_scopes_applyAll canonical found⟩
  have ofScope : (Table.empty.applyAll log).headers.Forall fun name header =>
      header.scopes.Forall fun key scope =>
        scope.name = key ∧ scope.IsStamped (· = ⟨name, key⟩) ∧
          ∀ kind, scope.elementsOf kind = log.elementsAt ⟨name, key⟩ kind := by
    intro name header found key scope isScope
    obtain ⟨isCanonical, rfl⟩ := get?_scopes_applyAll canonical found isScope
    refine ⟨?_, ?_, fun kind => ?_⟩
    · rw [Scope.name_foldl_take]
      exact isCanonical
    · exact (Scope.isStamped_named (· = ⟨name, key⟩) key).foldl_take rfl _
    · rw [Scope.elementsOf_foldl_take, Log.elementsAt_eq]
  have perm := IsReplayOf.flatMap_elementsOf_perm (keys_applyAll log)
    (ofHeader.imp fun _ _ ⟨ownName, _, sameScopes⟩ => ⟨ownName, sameScopes⟩)
    (ofScope.imp fun _ _ ofKeys => ofKeys.imp fun _ _ ⟨ownName, _, same⟩ => ⟨ownName, same⟩)
  exact ⟨keys_applyAll log, ofHeader, ofScope, IsReplayOf.counts_eq perm⟩

/-- A log that spells a scope in two ways, replaces a class and switches a header off. -/
def Log.sample : Log := [
  .add "list.hxx" "::base" (.classDefinition Table.sampleClass),
  .add "list.hxx" "" (.constant { name := "LIMIT", value := "4" }),
  .enable "side.hxx" true,
  .enable "list.hxx" false,
  .add "list.hxx" " base " (.classDefinition { name := "List" })]

theorem Log.isReplayOf_sample : (∀ edit ∈ Log.sample, edit.IsCanonical) ∧
    (Table.empty.applyAll Log.sample).IsReplayOf Log.sample := by
  have canonical : ∀ edit ∈ Log.sample, edit.IsCanonical := by decide
  exact ⟨canonical, Table.isReplayOf_applyAll canonical⟩

end Bindery.Symbols
