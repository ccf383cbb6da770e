/-
**Edits overlay the table to which they are applied.**

What a list of edits makes of a table is told by the table and by what the edits make of nothing.
Each slot has the element that the edits put there, or else the one from before; headers, scopes and
names of elements stay where they are, and new ones come behind them in the order of the edits.

* `Table.ext_slots` — a table is known by its names in order, its slots and its switches.
* `Table.isOverlay_applyAll` — the overlay of what edits make of nothing on a table.
* `Table.enabled?_applyAll` — the last switch counts; a header that is not switched stays as it is.
* `Table.applyAll_applyAll` — applying edits once more changes nothing, not even an order.
-/

import Bindery.Proofs.Symbols.LogReplay
import Bindery.Proofs.Symbols.LookUps

namespace Bindery

/-! ### Sets over sets -/

namespace NameSet

/-- The names of a set, with those of another one behind them. -/
def union (s t : NameSet) : NameSet := t.names.foldl insert s

/-- The names of the first set stand as they were; the new ones of the second follow. -/
theorem names_union (s t : NameSet) :
    (s.union t).names = s.names ++ t.names.filter (· ∉ s.names) :=
  names_foldl_insert_of_nodup t.distinct

theorem mem_union (s t : NameSet) (name : String) :
    name ∈ (s.union t).names ↔ name ∈ s.names ∨ name ∈ t.names := by
  rw [names_union, List.mem_append, List.mem_filter, decide_eq_true_eq]
  tauto

theorem union_insert (s t : NameSet) (name : String) :
    s.union (t.insert name) = (s.union t).insert name := by
  by_cases isThere : name ∈ t.names
  · rw [insert_of_mem isThere, insert_of_mem ((mem_union ..).mpr (.inr isThere))]
  · rw [union, names_insert_of_notMem isThere, List.foldl_append]
    rfl

/-- What is there already is not put behind once more. -/
theorem union_union_self (s t : NameSet) : (s.union t).union t = s.union t :=
  foldl_insert_of_subset fun _ isThere => (mem_union ..).mpr (.inr isThere)

end NameSet

/-- Maps with the same names have values under the same names, and these may be compared. -/
theorem OrderedMap.get?_eq_of_nameSet {α : Type} {m n : OrderedMap α}
    (sameNames : m.nameSet = n.nameSet) {key : String}
    (same : ∀ first second, m.get? key = some first → n.get? key = some second → first = second) :
    m.get? key = n.get? key := by
  cases isFirst : m.get? key with
  | none => exact (get?_eq_none_of_nameSet sameNames.symm isFirst).symm
  | some first =>
    cases isSecond : n.get? key with
    | none =>
      rw [get?_eq_none_of_nameSet sameNames isSecond] at isFirst
      cases isFirst
    | some second => rw [same first second isFirst isSecond]

namespace Symbols

/-! ### What a table shows -/

/-- The names of the elements of a kind in a scope. -/
def Scope.names (scope : Scope) : ElementKind → NameSet
  | .constant => scope.constants.nameSet
  | .enumeration => scope.enumerations.nameSet
  | .typeAlias => scope.aliases.nameSet
  | .globalVariable => scope.globals.nameSet
  | .function => scope.functions.nameSet
  | .classDefinition => scope.classes.nameSet

namespace Table

/-- The keys of the scopes of a header. -/
def scopeNames (table : Table) (header : String) : NameSet :=
  ((table.header? header).map (·.scopes.nameSet)).getD .empty

/-- The names of the elements of a kind under the key of a scope. -/
def elementNames (table : Table) (header key : String) (kind : ElementKind) : NameSet :=
  ((table.scopeAt? header key).map (·.names kind)).getD .empty

/-- The name that a header gives itself. -/
def headerName? (table : Table) (header : String) : Option String :=
  (table.header? header).map (·.name)

/-- The name that a scope gives itself. -/
def scopeName? (table : Table) (header key : String) : Option String :=
  (table.scopeAt? header key).map (·.name)

end Table

/-! ### What is known by what it shows -/

theorem Scope.ext_find? {first second : Scope} (sameName : first.name = second.name)
    (sameNames : ∀ kind, first.names kind = second.names kind)
    (sameElements : ∀ kind name, first.find? kind name = second.find? kind name) :
    first = second := by
  have onMaps : ∀ {α : Type} {m n : OrderedMap α} {wrap : α → Element},
      Function.Injective wrap → m.nameSet = n.nameSet →
      (∀ name, (m.get? name).map wrap = (n.get? name).map wrap) → m = n :=
    fun apart sameNames same => OrderedMap.ext_get? sameNames fun name =>
      Option.map_injective apart (same name)
  obtain ⟨name, constants, enumerations, aliases, globals, functions, classes⟩ := first
  obtain ⟨_, _, _, _, _, _, _⟩ := second
  rw [Scope.mk.injEq]
  exact ⟨sameName,
    onMaps (fun _ _ => Element.constant.inj) (sameNames .constant) (sameElements .constant),
    onMaps (fun _ _ => Element.enumeration.inj) (sameNames .enumeration)
      (sameElements .enumeration),
    onMaps (fun _ _ => Element.typeAlias.inj) (sameNames .typeAlias) (sameElements .typeAlias),
    onMaps (fun _ _ => Element.globalVariable.inj) (sameNames .globalVariable)
      (sameElements .globalVariable),
    onMaps (fun _ _ => Element.function.inj) (sameNames .function) (sameElements .function),
    onMaps (fun _ _ => Element.classDefinition.inj) (sameNames .classDefinition)
      (sameElements .classDefinition)⟩

namespace Table

/-- A table is known by its names in order, its slots, its switches and the names that headers and
scopes give themselves. -/
theorem ext_slots {first second : Table}
    (sameHeaders : first.headers.nameSet = second.headers.nameSet)
    (sameScopes : ∀ header, first.scopeNames header = second.scopeNames header)
    (sameNames : ∀ header key kind,
      first.elementNames header key kind = second.elementNames header key kind)
    (sameElements : ∀ slot, first.find? slot = second.find? slot)
    (sameSwitches : ∀ header, first.enabled? header = second.enabled? header)
    (sameHeaderNames : ∀ header, first.headerName? header = second.headerName? header)
    (sameScopeNames : ∀ header key, first.scopeName? header key = second.scopeName? header key) :
    first = second := by
  have sameMaps : first.headers = second.headers := by
    refine OrderedMap.ext_get? sameHeaders fun header =>
      OrderedMap.get?_eq_of_nameSet sameHeaders fun holder other isHolder isOther => ?_
    have isHolder : first.header? header = some holder := isHolder
    have isOther : second.header? header = some other := isOther
    have ofScopes := sameScopes header
    have ofSwitch := sameSwitches header
    have ofName := sameHeaderNames header
    simp only [scopeNames, enabled?, headerName?, isHolder, isOther, Option.map_some,
      Option.getD_some, Option.some.injEq] at ofScopes ofSwitch ofName
    have ofMaps : holder.scopes = other.scopes := by
      refine OrderedMap.ext_get? ofScopes fun key =>
        OrderedMap.get?_eq_of_nameSet ofScopes fun scope twin isScope isTwin => ?_
      have atScope : first.scopeAt? header key = some scope := by
        rw [scopeAt?, isHolder, Option.bind_some, isScope]
      have atTwin : second.scopeAt? header key = some twin := by
        rw [scopeAt?, isOther, Option.bind_some, isTwin]
      have ofName := sameScopeNames header key
      rw [scopeName?, scopeName?, atScope, atTwin] at ofName
      refine Scope.ext_find? (Option.some.inj ofName) (fun kind => ?_) fun kind name => ?_
      · have ofNames := sameNames header key kind
        rwa [elementNames, elementNames, atScope, atTwin] at ofNames
      · have ofElement := sameElements ⟨header, key, kind, name⟩
        rwa [find?, find?, atScope, atTwin] at ofElement
    obtain ⟨_, _, _⟩ := holder
    obtain ⟨_, _, _⟩ := other
    rw [Header.mk.injEq]
    exact ⟨ofName, ofSwitch, ofMaps⟩
  obtain ⟨_⟩ := first
  obtain ⟨_⟩ := second
  exact congrArg Table.mk sameMaps

/-! ### What one edit does to what a table shows -/

theorem nameSet_apply (table : Table) (edit : Edit) :
    (table.apply edit).headers.nameSet = table.headers.nameSet.insert edit.header := by
  rw [apply_eq_modifyHeader]
  exact OrderedMap.nameSet_upsert ..

/-- The header of an edit is created if need be; the others stay as they are. -/
theorem header?_apply (table : Table) (edit : Edit) (header : String) :
    (table.apply edit).header? header =
      if edit.header = header then
        some (edit.change ((table.header? header).getD { name := edit.header }))
      else table.header? header := by
  rw [apply_eq_modifyHeader]
  refine (OrderedMap.get?_upsert ..).trans ?_
  split
  next isHeader =>
    rw [← isHeader]
    rfl
  next => rfl

theorem headerName?_apply (table : Table) (edit : Edit) (header : String) :
    (table.apply edit).headerName? header =
      if edit.header = header then some ((table.headerName? header).getD edit.header)
      else table.headerName? header := by
  have ownName (holder : Header) : (edit.change holder).name = holder.name := by
    cases edit <;> rfl
  rw [headerName?, header?_apply, headerName?]
  split
  next =>
    rw [Option.map_some, ownName]
    cases table.header? header <;> rfl
  next => rfl

theorem scopeAt?_enable (table : Table) (name : String) (enabled : Bool) (header key : String) :
    (table.apply (.enable name enabled)).scopeAt? header key = table.scopeAt? header key :=
  table.scopeAt?_setEnabled name enabled header key

theorem scopeNames_add (table : Table) (holder spelling : String) (element : Element)
    (header : String) :
    (table.apply (.add holder spelling element)).scopeNames header =
      if holder = header then
        (table.scopeNames header).insert (canonicalScope (canonicalScope spelling))
      else table.scopeNames header := by
  rw [scopeNames, header?_apply, scopeNames]
  show Option.getD (Option.map _ (if holder = header then _ else _)) _ = _
  split
  next =>
    refine (OrderedMap.nameSet_upsert ..).trans ?_
    cases table.header? header <;> rfl
  next => rfl

theorem scopeNames_enable (table : Table) (name : String) (enabled : Bool) (header : String) :
    (table.apply (.enable name enabled)).scopeNames header = table.scopeNames header := by
  rw [scopeNames, header?_apply, scopeNames]
  split
  next => cases table.header? header <;> rfl
  next => rfl

theorem elementNames_enable (table : Table) (name : String) (enabled : Bool)
    (header key : String) (kind : ElementKind) :
    (table.apply (.enable name enabled)).elementNames header key kind =
      table.elementNames header key kind := by
  rw [elementNames, scopeAt?_enable, elementNames]

theorem scopeName?_enable (table : Table) (name : String) (enabled : Bool) (header key : String) :
    (table.apply (.enable name enabled)).scopeName? header key = table.scopeName? header key := by
  rw [scopeName?, scopeAt?_enable, scopeName?]

theorem names_take (scope : Scope) (place : Place) (element : Element) (kind : ElementKind) :
    (scope.take place element).names kind =
      if element.kind = kind then (scope.names kind).insert element.name else scope.names kind := by
  by_cases isKind : element.kind = kind
  · subst isKind
    rw [if_pos rfl]
    cases element <;> exact OrderedMap.nameSet_insert ..
  · rw [if_neg isKind]
    cases element <;> cases kind <;> first | exact absurd rfl isKind | rfl

theorem elementNames_add (table : Table) (holder spelling : String) (element : Element)
    (header key : String) (kind : ElementKind) :
    (table.apply (.add holder spelling element)).elementNames header key kind =
      if (holder = header ∧ canonicalScope (canonicalScope spelling) = key) ∧
          element.kind = kind then
        (table.elementNames header key kind).insert element.name
      else table.elementNames header key kind := by
  have bare (scope : String) : (Scope.named scope).names kind = .empty := by cases kind <;> rfl
  rw [elementNames, scopeAt?_add, elementNames]
  by_cases isScope : holder = header ∧ canonicalScope (canonicalScope spelling) = key
  · rw [if_pos isScope, Option.map_some, Option.getD_some, names_take]
    simp only [isScope, and_self, true_and]
    cases table.scopeAt? header key with
    | none => rw [Option.getD_none, bare]; rfl
    | some scope => rfl
  · rw [if_neg isScope, if_neg fun both => isScope both.1]

theorem scopeName?_add (table : Table) (holder spelling : String) (element : Element)
    (header key : String) :
    (table.apply (.add holder spelling element)).scopeName? header key =
      if holder = header ∧ canonicalScope (canonicalScope spelling) = key then
        some ((table.scopeName? header key).getD
          (canonicalScope (canonicalScope (canonicalScope spelling))))
      else table.scopeName? header key := by
  have ownName (scope : Scope) (place : Place) : (scope.take place element).name = scope.name := by
    cases element <;> rfl
  have bareName (name : String) : (Scope.named name).name = canonicalScope name := rfl
  rw [scopeName?, scopeAt?_add, scopeName?]
  split
  next =>
    rw [Option.map_some, ownName]
    cases table.scopeAt? header key with
    | none => rw [Option.getD_none, bareName, Option.map_none, Option.getD_none]
    | some scope => rw [Option.getD_some, Option.map_some, Option.getD_some]
  next => rfl

/-! ### What a list of edits does -/

section Observations

variable {α : Type} {observe : Table → Option α} {names : Table → NameSet}

/-- Each edit adds one name or none, whatever the table. -/
def Grows (names : Table → NameSet) : Prop :=
  names .empty = .empty ∧ ∀ edit, (∀ table : Table, names (table.apply edit) = names table) ∨
    ∃ name, ∀ table : Table, names (table.apply edit) = (names table).insert name

/-- Each edit replaces what is there or leaves it, whatever the table. -/
def Replaces (observe : Table → Option α) : Prop :=
  observe .empty = none ∧ ∀ edit, (∀ table : Table, observe (table.apply edit) = observe table) ∨
    ∃ value, ∀ table : Table, observe (table.apply edit) = some value

/-- Each edit fills in what is missing or leaves it missing, whatever the table. -/
def Keeps (observe : Table → Option α) : Prop :=
  observe .empty = none ∧ ∀ edit, (∀ table : Table, observe (table.apply edit) = observe table) ∨
    ∃ value, ∀ table : Table, observe (table.apply edit) = some ((observe table).getD value)

theorem applyAll_concat (table : Table) (edits : List Edit) (last : Edit) :
    table.applyAll (edits ++ [last]) = (table.applyAll edits).apply last :=
  table.applyAll_append edits [last]

theorem Grows.applyAll (grows : Grows names) (table : Table) (edits : List Edit) :
    names (table.applyAll edits) = (names table).union (names (Table.empty.applyAll edits)) := by
  induction edits using List.reverseRecOn with
  | nil => exact (congrArg (names table).union grows.1).symm
  | append_singleton edits last ih =>
    rw [applyAll_concat, applyAll_concat]
    rcases grows.2 last with same | ⟨name, grown⟩
    · rw [same, same, ih]
    · rw [grown, grown, ih, NameSet.union_insert]

theorem Replaces.applyAll (replaces : Replaces observe) (table : Table) (edits : List Edit) :
    observe (table.applyAll edits) =
      (observe (Table.empty.applyAll edits)).or (observe table) := by
  induction edits using List.reverseRecOn with
  | nil => exact (congrArg (Option.or · _) replaces.1).symm
  | append_singleton edits last ih =>
    rw [applyAll_concat, applyAll_concat]
    rcases replaces.2 last with same | ⟨value, replaced⟩
    · rw [same, same, ih]
    · rw [replaced, replaced, Option.some_or]

theorem Keeps.applyAll (keeps : Keeps observe) (table : Table) (edits : List Edit) :
    observe (table.applyAll edits) =
      (observe table).or (observe (Table.empty.applyAll edits)) := by
  induction edits using List.reverseRecOn with
  | nil => exact (congrArg _ keeps.1).trans Option.or_none |>.symm
  | append_singleton edits last ih =>
    rw [applyAll_concat, applyAll_concat]
    rcases keeps.2 last with same | ⟨value, filled⟩
    · rw [same, same, ih]
    · rw [filled, filled, ih]
      cases observe table <;> rfl

end Observations

theorem grows_headers : Grows (·.headers.nameSet) :=
  ⟨rfl, fun edit => .inr ⟨edit.header, fun table => table.nameSet_apply edit⟩⟩

theorem grows_scopeNames (header : String) : Grows (·.scopeNames header) := by
  refine ⟨rfl, fun edit => ?_⟩
  cases edit with
  | enable name enabled => exact .inl fun table => table.scopeNames_enable name enabled header
  | add holder spelling element =>
    simp only [scopeNames_add]
    by_cases isHeader : holder = header
    · exact .inr ⟨_, fun _ => if_pos isHeader⟩
    · exact .inl fun _ => if_neg isHeader

theorem grows_elementNames (header key : String) (kind : ElementKind) :
    Grows (·.elementNames header key kind) := by
  refine ⟨rfl, fun edit => ?_⟩
  cases edit with
  | enable name enabled =>
    exact .inl fun table => table.elementNames_enable name enabled header key kind
  | add holder spelling element =>
    simp only [elementNames_add]
    by_cases isHere : (holder = header ∧ canonicalScope (canonicalScope spelling) = key) ∧
      element.kind = kind
    · exact .inr ⟨_, fun _ => if_pos isHere⟩
    · exact .inl fun _ => if_neg isHere

theorem replaces_find? (slot : Slot) : Replaces (·.find? slot) := by
  refine ⟨rfl, fun edit => ?_⟩
  cases edit with
  | enable name enabled => exact .inl fun table => table.find?_setEnabled name enabled slot
  | add holder spelling element =>
    by_cases isSlot : element.slotIn holder spelling = slot
    · exact .inr ⟨_, fun table =>
        (table.find?_add holder spelling element slot).trans (if_pos isSlot)⟩
    · exact .inl fun table =>
        (table.find?_add holder spelling element slot).trans (if_neg isSlot)

theorem keeps_headerName? (header : String) : Keeps (·.headerName? header) := by
  refine ⟨rfl, fun edit => ?_⟩
  simp only [headerName?_apply]
  by_cases isHeader : edit.header = header
  · exact .inr ⟨_, fun _ => if_pos isHeader⟩
  · exact .inl fun _ => if_neg isHeader

theorem keeps_scopeName? (header key : String) : Keeps (·.scopeName? header key) := by
  refine ⟨rfl, fun edit => ?_⟩
  cases edit with
  | enable name enabled =>
    exact .inl fun table => table.scopeName?_enable name enabled header key
  | add holder spelling element =>
    simp only [scopeName?_add]
    by_cases isHere : holder = header ∧ canonicalScope (canonicalScope spelling) = key
    · exact .inr ⟨_, fun _ => if_pos isHere⟩
    · exact .inl fun _ => if_neg isHere

/-! ### The overlay -/

/-- A table lies over another one: each slot has the element of the upper table, or else that of the
lower one, and what the lower table has stays in its place. -/
structure IsOverlay (below above made : Table) : Prop where
  elements : ∀ slot, made.find? slot = (above.find? slot).or (below.find? slot)
  headers : made.headers.nameSet = below.headers.nameSet.union above.headers.nameSet
  scopes : ∀ header,
    made.scopeNames header = (below.scopeNames header).union (above.scopeNames header)
  names : ∀ header key kind, made.elementNames header key kind =
    (below.elementNames header key kind).union (above.elementNames header key kind)
  headerName? : ∀ header,
    made.headerName? header = (below.headerName? header).or (above.headerName? header)
  scopeName? : ∀ header key,
    made.scopeName? header key = (below.scopeName? header key).or (above.scopeName? header key)

/-- What edits make of a table is the overlay of what they make of nothing. -/
theorem isOverlay_applyAll (table : Table) (edits : List Edit) :
    IsOverlay table (Table.empty.applyAll edits) (table.applyAll edits) where
  elements slot := (replaces_find? slot).applyAll table edits
  headers := grows_headers.applyAll table edits
  scopes header := (grows_scopeNames header).applyAll table edits
  names header key kind := (grows_elementNames header key kind).applyAll table edits
  headerName? header := (keeps_headerName? header).applyAll table edits
  scopeName? header key := (keeps_scopeName? header key).applyAll table edits

theorem enabled?_apply (table : Table) (edit : Edit) (header : String) :
    (table.apply edit).enabled? header =
      (edit.switch? header).or
        (if edit.header = header then some ((table.enabled? header).getD true)
        else table.enabled? header) := by
  cases edit with
  | enable name enabled =>
    refine (table.enabled?_setEnabled name enabled header).trans ?_
    by_cases isHeader : name = header <;> simp [Edit.switch?, Edit.header, isHeader]
  | add holder spelling element => exact table.enabled?_add holder spelling element header

/-- The last switch of a header counts. Without one, a header stays as it is; a new one is on. -/
theorem enabled?_applyAll (table : Table) (edits : List Edit) (header : String) :
    (table.applyAll edits).enabled? header =
      ((edits.filterMap (Edit.switch? header)).getLast?).or
        ((table.enabled? header).or ((Table.empty.applyAll edits).enabled? header)) := by
  induction edits using List.reverseRecOn with
  | nil => exact Option.or_none.symm
  | append_singleton edits last ih =>
    rw [applyAll_concat, applyAll_concat, enabled?_apply, enabled?_apply, ih,
      List.filterMap_append, List.getLast?_append]
    cases isSwitch : last.switch? header with
    | some enabled => simp [isSwitch]
    | none =>
      simp only [isSwitch, Option.none_or, List.filterMap_cons, List.filterMap_nil,
        List.getLast?_nil]
      split
      next =>
        cases (edits.filterMap (Edit.switch? header)).getLast? <;>
          cases table.enabled? header <;> rfl
      next => rfl

/-- Applying edits once more changes nothing, not even an order. -/
theorem applyAll_applyAll (table : Table) (edits : List Edit) :
    (table.applyAll edits).applyAll edits = table.applyAll edits := by
  have once := table.isOverlay_applyAll edits
  have twice := (table.applyAll edits).isOverlay_applyAll edits
  have absorbed : ∀ {α : Type} (first second : Option α),
      (first.or second).or second = first.or second := by
    intro α first second
    rw [Option.or_assoc, Option.or_self]
  refine ext_slots ?_ (fun header => ?_) (fun header key kind => ?_) (fun slot => ?_)
    (fun header => ?_) (fun header => ?_) fun header key => ?_
  · rw [twice.headers, once.headers, NameSet.union_union_self]
  · rw [twice.scopes, once.scopes, NameSet.union_union_self]
  · rw [twice.names, once.names, NameSet.union_union_self]
  · rw [twice.elements, once.elements, ← Option.or_assoc, Option.or_self]
  · rw [enabled?_applyAll (table.applyAll edits), enabled?_applyAll table]
    cases (edits.filterMap (Edit.switch? header)).getLast? with
    | some enabled => rfl
    | none => rw [Option.none_or, Option.none_or, absorbed]
  · rw [twice.headerName?, once.headerName?, absorbed]
  · rw [twice.scopeName?, once.scopeName?, absorbed]

end Table

end Symbols

end Bindery
