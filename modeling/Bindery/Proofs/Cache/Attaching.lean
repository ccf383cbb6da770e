/-
**Members that are attached to classes.**

A document of class members names a class by a key. The class that stands under the key is changed;
where there is none, a class is created first. It is created under the name that the key declares
and looked for under the key itself, so it may be created where it is not found.

* `Attachment.Finds` — a class is found, or is created where it is looked for. This stays as it is
  while other members are attached.
* `exists_attachAll`, `attachAll_eq_error` — attaching one after the other.
* `exists_declareAll` — the classes of a document are put in one after the other.
-/

import Bindery.Proofs.Cache.Reloading
import Bindery.Proofs.Cache.ReorderedRecords
import Bindery.Proofs.Returns

namespace Bindery.Cache

open Symbols

/-! ### One attachment -/

/-- A class that is put into a scope is found in its slot. -/
theorem find?_addClass (table : Table) (self : Symbols.Class) (header scope : String)
    (slot : Slot) :
    (table.addClass self header scope).find? slot =
      if (Element.classDefinition self).slotIn header scope = slot then
        some (.classDefinition (self.attach ⟨header, canonicalScope scope⟩))
      else table.find? slot :=
  table.find?_add header scope (.classDefinition self) slot

/-- What is found in the slots of a table. -/
abbrev Found := Slot → Option Element

/-- The class that is created in a slot. -/
def freshClass (slot : Slot) : Symbols.Class :=
  (Class.named slot.name).attach ⟨slot.header, slot.key⟩

theorem name_freshClass (slot : Slot) : (freshClass slot).name = (Class.named slot.name).name := by
  rw [freshClass, Class.attach]

/-- Members for the class of a key, as a change to that class. -/
structure Attachment where
  header : String
  scope : String
  key : String
  change : Symbols.Class → Symbols.Class

namespace Attachment

/-- The slot in which the class is looked for. -/
def slot (attachment : Attachment) : Slot :=
  ⟨attachment.header, canonicalScope attachment.scope, .classDefinition, attachment.key⟩

/-- A class is created where it is looked for. -/
structure IsSettled (attachment : Attachment) : Prop where
  scope : canonicalScope (canonicalScope attachment.scope) = canonicalScope attachment.scope
  key : (Class.named attachment.key).name = attachment.key

instance (attachment : Attachment) : Decidable attachment.IsSettled :=
  decidable_of_iff (_ ∧ _) ⟨fun both => ⟨both.1, both.2⟩, fun settled => ⟨settled.1, settled.2⟩⟩

/-- There is a class to change, or there will be when it is created. -/
def Finds (found : Found) (attachment : Attachment) : Prop :=
  (found attachment.slot).isSome = true ∨ attachment.IsSettled

/-- Attaches members to a class of a table. -/
def attach (table : Table) (attachment : Attachment) : Except Failure Table :=
  changeClass table attachment.header attachment.scope attachment.key attachment.change

/-- What is found behind an attachment. -/
def put (found : Found) (attachment : Attachment) : Found := fun slot =>
  if attachment.slot = slot then
    some (((found slot).getD (.classDefinition (freshClass slot))).mapClass attachment.change)
  else found slot

variable {attachment other : Attachment} {table : Table} {found : Found}

theorem isSettled_iff :
    attachment.IsSettled ↔
      (Element.classDefinition (Class.named attachment.key)).slotIn attachment.header
        attachment.scope = attachment.slot := by
  rw [Element.slotIn, slot, Slot.mk.injEq]
  exact ⟨fun settled => ⟨rfl, settled.scope, rfl, settled.key⟩,
    fun same => ⟨same.2.1, same.2.2.2⟩⟩

theorem isSome_class?_iff :
    (table.class? attachment.header attachment.scope attachment.key).isSome = true ↔
      (table.find? attachment.slot).isSome = true :=
  Table.isSome_class?_iff ..

/-- A class that was created is found where it is settled, and nowhere else. -/
theorem isSome_class?_addClass (lacks : ¬ (table.find? attachment.slot).isSome = true) :
    ((table.addClass (Class.named attachment.key) attachment.header attachment.scope).class?
      attachment.header attachment.scope attachment.key).isSome = true ↔
        attachment.IsSettled := by
  rw [isSome_class?_iff, isSettled_iff, find?_addClass]
  split
  next isSlot => exact iff_of_true rfl isSlot
  next isOther => exact iff_of_false lacks isOther

theorem find?_modifyClass (slot : Slot) :
    (table.modifyClass attachment.header attachment.scope attachment.key
      attachment.change).find? slot =
        if attachment.slot = slot then
          (table.find? slot).map (Element.mapClass attachment.change)
        else table.find? slot :=
  Table.find?_modifyClass ..

/-- Where a class is found, it has the members behind an attachment, and no other class changes. -/
theorem attach_of_finds (finds : attachment.Finds table.find?) :
    ∃ next, attachment.attach table = .ok next ∧ next.find? = attachment.put table.find? := by
  by_cases isThere : (table.find? attachment.slot).isSome = true
  · refine ⟨_, changeClass_eq_ok (isSome_class?_iff.mpr isThere) attachment.change, ?_⟩
    funext slot
    rw [find?_modifyClass, put]
    by_cases isSlot : attachment.slot = slot
    · obtain ⟨element, isElement⟩ := Option.isSome_iff_exists.mp isThere
      rw [if_pos isSlot, if_pos isSlot, ← isSlot, isElement]
      rfl
    · rw [if_neg isSlot, if_neg isSlot]
  · have settled := finds.resolve_left isThere
    have isAbsent := mt isSome_class?_iff.mp isThere
    have isAdded := (isSome_class?_addClass isThere).mpr settled
    refine ⟨(table.addClass (Class.named attachment.key) attachment.header
      attachment.scope).modifyClass attachment.header attachment.scope attachment.key
        attachment.change, ?_, ?_⟩
    · simp only [attach, changeClass, isAbsent, Bool.false_eq_true, if_false, isAdded, if_true]
    · funext slot
      rw [find?_modifyClass, find?_addClass, isSettled_iff.mp settled, put]
      by_cases isSlot : attachment.slot = slot
      · rw [if_pos isSlot, if_pos isSlot, if_pos isSlot, ← isSlot,
          Option.not_isSome_iff_eq_none.mp isThere]
        rfl
      · rw [if_neg isSlot, if_neg isSlot, if_neg isSlot]

/-- Where no class is found, the members belong nowhere. -/
theorem attach_of_not_finds (lacks : ¬ attachment.Finds table.find?) :
    attachment.attach table = .error (.unattachedClass attachment.key attachment.header) := by
  have isAbsent : ¬ (table.find? attachment.slot).isSome = true := fun isThere =>
    lacks (.inl isThere)
  have noClass := mt isSome_class?_iff.mp isAbsent
  have notAdded := mt (isSome_class?_addClass isAbsent).mp fun settled => lacks (.inr settled)
  simp only [attach, changeClass, noClass, Bool.false_eq_true, if_false, notAdded]

/-- A class that is found while members are attached is found before, too. -/
theorem finds_put (finds : attachment.Finds found) :
    other.Finds (attachment.put found) ↔ other.Finds found := by
  by_cases isSlot : attachment.slot = other.slot
  · refine iff_of_true (.inl ?_) ?_
    · rw [put, if_pos isSlot, Option.isSome_some]
    · rcases finds with isThere | settled
      · exact .inl (by rwa [← isSlot])
      · have sameKey : attachment.key = other.key := congrArg Slot.name isSlot
        have sameScope : canonicalScope attachment.scope = canonicalScope other.scope :=
          congrArg Slot.key isSlot
        refine .inr ⟨?_, ?_⟩
        · rw [← sameScope]
          exact settled.scope
        · rw [← sameKey]
          exact settled.key
  · rw [Finds, Finds, put, if_neg isSlot]

end Attachment

/-! ### All attachments -/

section AttachAll

variable {attachments : List Attachment} {table : Table}

/-- Where every class is found, attaching succeeds. -/
theorem exists_attachAll (find : ∀ attachment ∈ attachments, attachment.Finds table.find?) :
    ∃ made, attachments.foldlM Attachment.attach table = .ok made ∧
      made.find? = attachments.foldl Attachment.put table.find? :=
  exists_foldlM_seen Table.find? (fun found attachment => attachment.Finds found)
    (fun _ _ finds => Attachment.attach_of_finds finds)
    (fun _ _ _ finds others => (Attachment.finds_put finds).mpr others) table find

/-- A class that is found behind some attachments is found before them. -/
theorem finds_foldl_put {found : Found} {attachment : Attachment}
    (find : ∀ earlier ∈ attachments, earlier.Finds found) :
    attachment.Finds (attachments.foldl Attachment.put found) ↔ attachment.Finds found := by
  induction attachments generalizing found with
  | nil => exact Iff.rfl
  | cons earlier rest ih =>
    rw [List.forall_mem_cons] at find
    rw [List.foldl_cons, ih fun later isLater =>
      (Attachment.finds_put find.1).mpr (find.2 later isLater), Attachment.finds_put find.1]

/-- The first class that is not found makes attaching fail. -/
theorem attachAll_eq_error {front behind : List Attachment} {attachment : Attachment}
    (find : ∀ earlier ∈ front, earlier.Finds table.find?)
    (lacks : ¬ attachment.Finds table.find?) :
    (front ++ attachment :: behind).foldlM Attachment.attach table =
      .error (.unattachedClass attachment.key attachment.header) := by
  obtain ⟨made, runs, isFound⟩ := exists_attachAll find
  have lacksLater : ¬ attachment.Finds made.find? := by
    rwa [isFound, finds_foldl_put find]
  rw [List.foldlM_append, runs]
  show (attachment :: behind).foldlM Attachment.attach made = _
  rw [List.foldlM_cons, Attachment.attach_of_not_finds lacksLater]
  rfl

/-- The changes of all attachments in a slot, one after the other. -/
def changesIn (slot : Slot) (attachments : List Attachment) (self : Symbols.Class) :
    Symbols.Class :=
  (attachments.filter (·.slot = slot)).foldl (fun self attachment => attachment.change self) self

theorem changesIn_append (slot : Slot) (first second : List Attachment) (self : Symbols.Class) :
    changesIn slot (first ++ second) self = changesIn slot second (changesIn slot first self) := by
  rw [changesIn, List.filter_append, List.foldl_append]
  rfl

variable {slot : Slot} {found : Found}

/-- A class that is there is changed by every attachment in its slot. -/
theorem foldl_put_of_some {self : Symbols.Class}
    (isClass : found slot = some (.classDefinition self)) :
    attachments.foldl Attachment.put found slot =
      some (.classDefinition (changesIn slot attachments self)) := by
  induction attachments generalizing found self with
  | nil => exact isClass
  | cons attachment rest ih =>
    rw [List.foldl_cons]
    by_cases isSlot : attachment.slot = slot
    · have isChanged : attachment.put found slot =
          some (.classDefinition (attachment.change self)) := by
        rw [Attachment.put, if_pos isSlot, isClass]
        rfl
      rw [ih isChanged, changesIn, changesIn, List.filter_cons_of_pos (by simpa), List.foldl_cons]
    · have isKept : attachment.put found slot = some (.classDefinition self) := by
        rw [Attachment.put, if_neg isSlot, isClass]
      rw [ih isKept, changesIn, changesIn, List.filter_cons_of_neg (by simpa)]

/-- Where no class is there, the first attachment in the slot creates one. -/
theorem foldl_put_of_none (isAbsent : found slot = none)
    (isAttached : ∃ attachment ∈ attachments, attachment.slot = slot) :
    attachments.foldl Attachment.put found slot =
      some (.classDefinition (changesIn slot attachments (freshClass slot))) := by
  induction attachments generalizing found with
  | nil => simp at isAttached
  | cons attachment rest ih =>
    rw [List.foldl_cons]
    by_cases isSlot : attachment.slot = slot
    · have isCreated : attachment.put found slot =
          some (.classDefinition (attachment.change (freshClass slot))) := by
        rw [Attachment.put, if_pos isSlot, isAbsent]
        rfl
      rw [foldl_put_of_some isCreated, changesIn, changesIn, List.filter_cons_of_pos (by simpa),
        List.foldl_cons]
    · have isKept : attachment.put found slot = none := by
        rw [Attachment.put, if_neg isSlot, isAbsent]
      have isLater : ∃ later ∈ rest, later.slot = slot := by simpa [isSlot] using isAttached
      rw [ih isKept isLater, changesIn, changesIn, List.filter_cons_of_neg (by simpa)]

end AttachAll

/-! ### Classes that are declared -/

section Declare

variable {policy : DuplicatePolicy}

/-- A class under a header, a scope and a key. -/
abbrev Declaration := String × String × String × ClassDraft

/-- The slot that a declared class fills. -/
def declaredSlot : Declaration → Slot
  | (header, scope, key, _) =>
    ⟨header, canonicalScope (canonicalScope scope), .classDefinition, (Class.named key).name⟩

/-- What is found behind a declaration. -/
def declare (policy : DuplicatePolicy) (found : Found) (declaration : Declaration) : Found :=
  fun slot =>
    if declaredSlot declaration = slot then
      (buildClass policy declaration.2.2.1 declaration.2.2.2).toOption.map fun self =>
        .classDefinition (self.attach ⟨declaration.1, canonicalScope declaration.2.1⟩)
    else found slot

/-- A declaration can be built into a class. -/
def IsBuilt (policy : DuplicatePolicy) (declaration : Declaration) : Prop :=
  ∃ self, buildClass policy declaration.2.2.1 declaration.2.2.2 = .ok self

/-- Classes that can be built are put in one after the other. -/
theorem exists_declareAll {classes : Nested ClassDraft}
    {visit : Table → String → String → String → ClassDraft → Except Failure Table}
    (visits : ∀ table header scope key draft self, buildClass policy key draft = .ok self →
      visit table header scope key draft = .ok (table.addClass self header scope))
    (areBuilt : ∀ declaration ∈ classes.toList, IsBuilt policy declaration) (table : Table) :
    ∃ made, replayNested visit classes table = .ok made ∧
      made.find? = classes.toList.foldl (declare policy) table.find? := by
  refine exists_foldlM_seen Table.find? (fun _ => IsBuilt policy) ?_
    (fun _ _ _ _ isBuilt => isBuilt) table areBuilt
  rintro table ⟨header, scope, key, draft⟩ ⟨self, isBuilt⟩
  have isNamed := name_buildClass policy key draft self isBuilt
  refine ⟨_, visits table header scope key draft self isBuilt, ?_⟩
  funext slot
  have isSlot : (Element.classDefinition self).slotIn header scope =
      declaredSlot (header, scope, key, draft) := by
    rw [Element.slotIn, declaredSlot, Element.name, isNamed]
    rfl
  rw [find?_addClass, isSlot, declare, isBuilt]
  rfl

variable {declarations : List Declaration} {found : Found} {slot : Slot}

/-- Where no class is declared, nothing changes. -/
theorem foldl_declare_of_none
    (noneThere : ∀ declaration ∈ declarations, declaredSlot declaration ≠ slot) :
    declarations.foldl (declare policy) found slot = found slot := by
  induction declarations generalizing found with
  | nil => rfl
  | cons declaration rest ih =>
    rw [List.forall_mem_cons] at noneThere
    rw [List.foldl_cons, ih noneThere.2, declare, if_neg noneThere.1]

/-- Of the classes that are declared in a slot, the last one stays. -/
theorem foldl_declare_of_last {front behind : List Declaration}
    {header scope key : String} {draft : ClassDraft} {self : Symbols.Class}
    (isBuilt : buildClass policy key draft = .ok self)
    (isLast : ∀ later ∈ behind, declaredSlot later ≠ declaredSlot (header, scope, key, draft)) :
    (front ++ (header, scope, key, draft) :: behind).foldl (declare policy) found
        (declaredSlot (header, scope, key, draft)) =
      some (.classDefinition (self.attach ⟨header, canonicalScope scope⟩)) := by
  rw [List.foldl_append, List.foldl_cons, foldl_declare_of_none isLast, declare, if_pos rfl,
    isBuilt]
  rfl

/-- A class is found where one was there or is declared. -/
theorem isSome_foldl_declare
    (areBuilt : ∀ declaration ∈ declarations, IsBuilt policy declaration) :
    (declarations.foldl (declare policy) found slot).isSome = true ↔
      (found slot).isSome = true ∨
        ∃ declaration ∈ declarations, declaredSlot declaration = slot := by
  induction declarations generalizing found with
  | nil => simp
  | cons declaration rest ih =>
    rw [List.forall_mem_cons] at areBuilt
    obtain ⟨⟨self, isBuilt⟩, builtRest⟩ := areBuilt
    have isStep : (declare policy found declaration slot).isSome = true ↔
        (found slot).isSome = true ∨ declaredSlot declaration = slot := by
      rw [declare]
      split
      next isSlot => rw [isBuilt]; exact iff_of_true rfl (.inr isSlot)
      next isOther => exact (or_iff_left isOther).symm
    rw [List.foldl_cons, ih builtRest, isStep, List.exists_mem_cons_iff, or_assoc]

end Declare

end Bindery.Cache
