/-
**Spellings of a scope's name.**

A spelling loses the blanks at its ends and one leading `::`. A look-up reads its spelling once; an
addition stamps the place that one reading gives, and reads that place again for where the element
stands. The two agree for the spellings from which the second reading takes nothing away.

* `IsReadOnce` — those spellings, by their characters; `canonicalScope` is idempotent at no other.
* `Table.FindsAdded` — a class is found under the spelling under which it was added.
* `Table.LosesAdded` — it stands elsewhere, and the look-ups under the spelling do not see it.
-/

import Bindery.Proofs.Symbols.Built

namespace Bindery

/-! ### Ends and starts of texts -/

namespace Text

/-- The end of a text without a blank at its end has none either. -/
theorem trimEnd_of_suffix {cs tail : List Char} (isTail : tail <:+ trimEnd cs) :
    trimEnd tail = tail := by
  have isPrefix : tail.reverse <+: trimStart cs.reverse := by
    simpa [trimEnd, trimStart] using List.reverse_prefix.mpr isTail
  have unchanged : trimStart tail.reverse = tail.reverse := by
    refine trimStart_of_head fun c isHead => ?_
    obtain ⟨rest, whole⟩ := isPrefix
    apply head_trimStart cs.reverse c
    rw [← whole]
    cases found : tail.reverse with
    | nil => simp [found] at isHead
    | cons first others => simpa [found] using isHead
  exact (congrArg List.reverse unchanged).trans (List.reverse_reverse _)

/-- A text that loses nothing to trimming does not start with a blank. -/
theorem head_of_length_le {cs : List Char} (whole : cs.length ≤ (trim cs).length) :
    trim cs = cs ∧ ∀ c ∈ cs.head?, isBlank c = false := by
  have isSuffix : trimStart cs <:+ cs := List.dropWhile_suffix _
  have isPrefix : trim cs <+: trimStart cs := isPrefix_trimEnd _
  have started : trimStart cs = cs :=
    isSuffix.eq_of_length_le (whole.trans isPrefix.length_le)
  refine ⟨?_, started ▸ head_trimStart cs⟩
  exact (isPrefix.eq_of_length_le (isSuffix.length_le.trans whole)).trans started

/-- Reading a mark away leaves what stands behind it. -/
theorem dropStart?_getD_suffix (mark cs : List Char) : (dropStart? mark cs).getD cs <:+ cs := by
  unfold dropStart?
  split
  · exact List.drop_suffix ..
  · exact List.suffix_refl _

theorem dropStart?_of_not_prefix {mark cs : List Char} (unmarked : ¬ mark <+: cs) :
    dropStart? mark cs = none :=
  if_neg (by simpa using unmarked)

theorem not_prefix_of_length_le {mark cs : List Char} (notEmpty : mark ≠ [])
    (whole : cs.length ≤ ((dropStart? mark cs).getD cs).length) : ¬ mark <+: cs := by
  intro marked
  have isDropped : dropStart? mark cs = some (cs.drop mark.length) := if_pos (by simpa using marked)
  have shorter := List.length_pos_iff.mpr notEmpty
  have fits := marked.length_le
  rw [isDropped, Option.getD_some, List.length_drop] at whole
  omega

end Text

namespace Symbols

/-! ### Reading a spelling twice -/

/-- What one reading leaves of a spelling. -/
def bareScope (spelling : String) : List Char :=
  let trimmed := Text.trim spelling.toList
  (Text.dropStart? "::".toList trimmed).getD trimmed

/-- What one reading leaves starts neither with a blank nor with `::`. -/
def IsReadOnce (spelling : String) : Prop :=
  (∀ c ∈ (bareScope spelling).head?, Text.isBlank c = false) ∧ ¬ "::".toList <+: bareScope spelling

theorem canonicalScope_of_bare {spelling : String} (notRoot : bareScope spelling ≠ []) :
    canonicalScope spelling = String.ofList (bareScope spelling) :=
  if_neg (by simpa [bareScope] using notRoot)

theorem canonicalScope_of_root {spelling : String} (isRoot : bareScope spelling = []) :
    canonicalScope spelling = rootScope :=
  if_pos (by simpa [bareScope] using isRoot)

theorem bareScope_suffix (spelling : String) : bareScope spelling <:+ Text.trim spelling.toList :=
  Text.dropStart?_getD_suffix ..

theorem bareScope_ofList (cs : List Char) : bareScope (String.ofList cs) =
    (Text.dropStart? "::".toList (Text.trim cs)).getD (Text.trim cs) := by
  rw [bareScope, @String.toList_ofList cs]

/-- A second reading takes nothing away exactly when the first one leaves neither a blank nor a mark
in front. -/
theorem canonicalScope_canonicalScope_iff (spelling : String) :
    canonicalScope (canonicalScope spelling) = canonicalScope spelling ↔ IsReadOnce spelling := by
  by_cases isRoot : bareScope spelling = []
  · rw [canonicalScope_of_root isRoot, IsReadOnce, isRoot]
    have isFixed : canonicalScope rootScope = rootScope := by decide
    have notMark : ¬ "::".toList <+: ([] : List Char) := by decide
    exact ⟨fun _ => ⟨by simp, notMark⟩, fun _ => isFixed⟩
  have again := bareScope_ofList (bareScope spelling)
  rw [canonicalScope_of_bare isRoot]
  constructor
  · intro fixed
    by_cases isMark : bareScope (String.ofList (bareScope spelling)) = []
    · -- a second reading that leaves nothing gives `\`, which then stood there before
      rw [canonicalScope_of_root isMark] at fixed
      have isName : bareScope spelling = ['\\'] :=
        String.toList_ofList.symm.trans (congrArg String.toList fixed.symm)
      have notBlank : Text.isBlank '\\' = false := by decide
      have notMark : ¬ "::".toList <+: ['\\'] := by decide
      rw [IsReadOnce, isName]
      exact ⟨by simpa using notBlank, notMark⟩
    · rw [canonicalScope_of_bare isMark, String.ofList_inj, again] at fixed
      have dropped := Text.dropStart?_getD_suffix "::".toList (Text.trim (bareScope spelling))
      have whole : (bareScope spelling).length ≤ (Text.trim (bareScope spelling)).length := by
        rw [fixed] at dropped
        exact dropped.length_le
      obtain ⟨trimmed, notBlank⟩ := Text.head_of_length_le whole
      rw [trimmed] at fixed
      refine ⟨notBlank, Text.not_prefix_of_length_le (by decide) ?_⟩
      rw [fixed]
  · rintro ⟨notBlank, unmarked⟩
    have ends : Text.trimEnd (bareScope spelling) = bareScope spelling :=
      Text.trimEnd_of_suffix (bareScope_suffix spelling)
    have trimmed : Text.trim (bareScope spelling) = bareScope spelling := by
      rw [Text.trim, Text.trimStart_of_head notBlank, ends]
    rw [trimmed, Text.dropStart?_of_not_prefix unmarked, Option.getD_none] at again
    rw [canonicalScope_of_bare (again.symm ▸ isRoot), again]

/-! ### Tables in reach -/

/-- The name of every scope in a header is what its key reads as. -/
def Header.ReadsKeys (header : Header) : Prop :=
  header.scopes.Forall fun key scope => scope.name = canonicalScope key

theorem Header.ReadsKeys.modifyScope {header : Header} (reads : header.ReadsKeys) (name : String)
    {change : Scope → Scope} (keepsName : ∀ scope, (change scope).name = scope.name) :
    (header.modifyScope name change).ReadsKeys := by
  have fresh : (change (Scope.named (canonicalScope name))).name =
      canonicalScope (canonicalScope name) := by
    rw [keepsName, Scope.named]
  exact OrderedMap.Forall.upsert reads fresh fun scope isName => (keepsName scope).trans isName

namespace Table

/-- A table that the operations on tables make, whatever is done to the classes in it. -/
inductive Reached : Table → Prop
  | empty : Reached .empty
  | apply {table : Table} (reached : Reached table) (edit : Edit) : Reached (table.apply edit)
  | ensureHeader {table : Table} (reached : Reached table) (header : String) :
      Reached (table.ensureHeader header)
  | ensureScope {table : Table} (reached : Reached table) (header scope : String) :
      Reached (table.modifyHeader header (·.ensureScope scope))
  | modifyClass {table : Table} (reached : Reached table) (header scope name : String)
      (change : Class → Class) : Reached (table.modifyClass header scope name change)

theorem forall_modifyHeader {table : Table}
    (reads : table.headers.Forall fun _ holder => holder.ReadsKeys) (header : String)
    {change : Header → Header}
    (keeps : ∀ holder : Header, holder.ReadsKeys → (change holder).ReadsKeys) :
    (table.modifyHeader header change).headers.Forall fun _ holder => holder.ReadsKeys :=
  OrderedMap.Forall.upsert reads (keeps _ .empty) keeps

/-- No operation breaks the tie between the name of a scope and its key. -/
theorem Reached.readsKeys {table : Table} (reached : table.Reached) :
    table.headers.Forall fun _ holder => holder.ReadsKeys := by
  induction reached with
  | empty => exact .empty
  | apply _ edit ih =>
    cases edit with
    | enable header enabled => exact forall_modifyHeader ih header fun _ reads => reads
    | add header scope element =>
      rw [Table.apply, add_eq_modifyScope]
      refine forall_modifyHeader ih header fun holder reads => reads.modifyScope _ fun inner => ?_
      cases element <;> rfl
  | ensureHeader _ header ih => exact forall_modifyHeader ih header fun _ reads => reads
  | ensureScope _ header scope ih =>
    exact forall_modifyHeader ih header fun _ reads => reads.modifyScope scope fun _ => rfl
  | modifyClass _ header scope name change ih =>
    exact ih.adjust fun holder reads => OrderedMap.Forall.adjust reads fun inner isName => isName

/-! ### A class behind its addition -/

/-- The class that was added under a spelling is found under that spelling: in the header, the scope
that the spelling names holds it, and the scope's key, the scope's name and the place of the class
are one name. -/
def FindsAdded (table : Table) (header spelling : String) (newClass : Class) : Prop :=
  let added := table.addClass newClass header spelling
  ∃ key holder scope,
    added.header? header = some holder ∧ holder.scopes.get? key = some scope ∧
    holder.scope? spelling = some scope ∧ scope.name = key ∧
    scope.classes.get? newClass.name = some (newClass.attach ⟨header, key⟩) ∧
    added.class? header spelling newClass.name = some (newClass.attach ⟨header, key⟩)

/-- The class that was added under a spelling stands under a key that is not the scope of its place,
and no look-up under the spelling has changed. -/
def LosesAdded (table : Table) (header spelling : String) (newClass : Class) : Prop :=
  let added := table.addClass newClass header spelling
  let place : Place := ⟨header, canonicalScope spelling⟩
  let key := canonicalScope place.scope
  key ≠ place.scope ∧
    (∃ holder scope,
      added.header? header = some holder ∧ holder.scopes.get? key = some scope ∧
      scope.classes.get? newClass.name = some (newClass.attach place)) ∧
    ((added.header? header).bind fun holder => holder.scope? spelling) =
      ((table.header? header).bind fun holder => holder.scope? spelling) ∧
    added.class? header spelling newClass.name = table.class? header spelling newClass.name

/-- The header behind an addition has the class in the scope under the name that is read twice. -/
theorem header?_addClass (table : Table) (newClass : Class) (header spelling : String) :
    (table.addClass newClass header spelling).header? header =
      some (((table.header? header).getD { name := header }).modifyScope (canonicalScope spelling)
        (Scope.take ⟨header, canonicalScope spelling⟩ · (.classDefinition newClass))) := by
  show (OrderedMap.upsert ..).get? header = _
  rw [OrderedMap.get?_upsert, if_pos rfl]
  rfl

/-- Under the key of an addition stands its class. -/
theorem get?_modifyScope_take (holder : Header) (place : Place) (newClass : Class) :
    ∃ scope, (holder.modifyScope place.scope
        (Scope.take place · (.classDefinition newClass))).scopes.get? (canonicalScope place.scope) =
          some scope ∧
      scope.classes.get? newClass.name = some (newClass.attach place) := by
  rw [Header.modifyScope, OrderedMap.get?_upsert, if_pos rfl]
  refine ⟨_, rfl, ?_⟩
  rw [Scope.take, OrderedMap.get?_insert, if_pos rfl]

theorem scope?_addClass_of_ne {table : Table} {header spelling : String}
    (elsewhere : canonicalScope (canonicalScope spelling) ≠ canonicalScope spelling)
    (newClass : Class) :
    (((table.addClass newClass header spelling).header? header).bind fun holder =>
        holder.scope? spelling) =
      ((table.header? header).bind fun holder => holder.scope? spelling) := by
  rw [header?_addClass, Option.bind_some, Header.scope?, Header.modifyScope,
    OrderedMap.get?_upsert, if_neg elsewhere]
  cases table.header? header <;> rfl

section Reached

variable {table : Table} {header spelling : String} (newClass : Class)

theorem Reached.findsAdded (reached : table.Reached)
    (fixed : canonicalScope (canonicalScope spelling) = canonicalScope spelling) :
    table.FindsAdded header spelling newClass := by
  have isHolder := table.header?_addClass newClass header spelling
  have readsKeys := (reached.apply (.add header spelling (.classDefinition newClass))).readsKeys
  obtain ⟨scope, isScope, holds⟩ := get?_modifyScope_take
    ((table.header? header).getD { name := header }) ⟨header, canonicalScope spelling⟩ newClass
  rw [fixed] at isScope
  have isName := (readsKeys header _ isHolder _ scope isScope).trans fixed
  refine ⟨canonicalScope spelling, _, scope, isHolder, isScope, isScope, isName, holds, ?_⟩
  rw [class?, isHolder]
  show ((Header.scope? _ spelling).bind _) = _
  rw [Header.scope?, isScope]
  exact holds

/-- What is found in a scope that is known under its key was stamped with that key. -/
theorem Reached.fixed_of_findsAdded (reached : table.Reached)
    (finds : table.FindsAdded header spelling newClass) :
    canonicalScope (canonicalScope spelling) = canonicalScope spelling := by
  obtain ⟨key, holder, scope, isHolder, isScope, isNamed, isName, holds, _⟩ := finds
  have readsKeys := (reached.apply (.add header spelling (.classDefinition newClass))).readsKeys
  have isKey : canonicalScope (canonicalScope spelling) = key :=
    (readsKeys header holder isHolder _ scope isNamed).symm.trans isName
  obtain ⟨stamped, isStamped, holdsStamped⟩ := get?_modifyScope_take
    ((table.header? header).getD { name := header }) ⟨header, canonicalScope spelling⟩ newClass
  rw [header?_addClass, Option.some.injEq] at isHolder
  rw [isHolder, isKey, isScope, Option.some.injEq] at isStamped
  rw [← isStamped, holds, Option.some.injEq] at holdsStamped
  have samePlace := congrArg Class.place holdsStamped
  simp only [Class.attach, Option.some.injEq, Place.mk.injEq, true_and] at samePlace
  exact isKey.trans samePlace

theorem losesAdded
    (elsewhere : canonicalScope (canonicalScope spelling) ≠ canonicalScope spelling) :
    table.LosesAdded header spelling newClass := by
  obtain ⟨scope, isScope, holds⟩ := get?_modifyScope_take
    ((table.header? header).getD { name := header }) ⟨header, canonicalScope spelling⟩ newClass
  have unseen := @scope?_addClass_of_ne table header spelling elsewhere newClass
  refine ⟨elsewhere, ⟨_, scope, header?_addClass .., isScope, holds⟩, unseen, ?_⟩
  simpa only [class?, Option.bind_eq_bind, Option.bind_assoc] using
    congrArg (fun found : Option Scope => found.bind fun s => s.classes.get? newClass.name) unseen

/-- A class is found under the spelling under which it was added exactly when a second reading takes
nothing away from the spelling; otherwise it is lost to that spelling. -/
theorem Reached.findsAdded_iff (reached : table.Reached) (header spelling : String)
    (newClass : Class) :
    (table.FindsAdded header spelling newClass ↔
        canonicalScope (canonicalScope spelling) = canonicalScope spelling) ∧
      (canonicalScope (canonicalScope spelling) = canonicalScope spelling ↔ IsReadOnce spelling) ∧
      (table.FindsAdded header spelling newClass ∨ table.LosesAdded header spelling newClass) := by
  refine ⟨⟨reached.fixed_of_findsAdded newClass, reached.findsAdded newClass⟩,
    canonicalScope_canonicalScope_iff spelling, ?_⟩
  by_cases fixed : canonicalScope (canonicalScope spelling) = canonicalScope spelling
  · exact .inl (reached.findsAdded newClass fixed)
  · exact .inr (losesAdded newClass fixed)

end Reached

theorem findsAdded_iff_widget :
    Table.empty.Reached ∧ Table.empty.FindsAdded "ui.h" " ::ui " { name := "Widget" } ∧
      Table.empty.LosesAdded "ui.h" "::::ui" { name := "Widget" } := by
  have ofMark := Reached.findsAdded_iff .empty "ui.h" " ::ui " { name := "Widget" }
  have ofTwoMarks := Reached.findsAdded_iff .empty "ui.h" "::::ui" { name := "Widget" }
  have unfound := mt ofTwoMarks.1.mp (by decide)
  exact ⟨.empty, ofMark.1.mpr (by decide), ofTwoMarks.2.2.resolve_left unfound⟩

/-- A class that is added behind two marks cannot be looked up there. -/
theorem not_findsAdded_widget :
    ¬ Table.empty.FindsAdded "ui.h" "::::ui" { name := "Widget" } := by
  rintro ⟨_, _, _, _, _, _, _, _, found⟩
  have nothing : (Table.empty.addClass { name := "Widget" } "ui.h" "::::ui").class? "ui.h" "::::ui"
      "Widget" = none := rfl
  rw [nothing] at found
  cases found

end Table

end Symbols

end Bindery
