/-
**What the statements of a script build.**

Every statement that adds a part leaves something that was built from its parts, so the table of a
script is storable.

* `Statement.built_function`, `Statement.built_classDefinition` — what the calls of a block
  describe.
* `Statement.hasBuilt_edit` — what a call at top level adds.
* `isStorable_read` — the table of every text that is a script.
-/

import Bindery.Proofs.Returns
import Bindery.Proofs.Symbols.Storable
import Bindery.Script.Read

namespace Bindery.Script

open Symbols

theorem Call.isRead_describedType (call : Call) :
    Returns TypeShape.IsRead call.describedType := by
  unfold describedType
  exact .bind_any fun _ => .bind_any fun _ => .ok ⟨_, _, rfl⟩

namespace Statement

variable (policy : DuplicatePolicy)

/-! ### Functions -/

/-- A parameter is added to what was built so far, or dropped. -/
theorem built_parameter {overload : Overload} (built : overload.Built) (call : Call) :
    Returns Overload.Built (parameter policy overload call) := by
  unfold parameter
  -- Everything behind the check of the name is one continuation.
  extract_lets parts
  have ofParts : ∀ checked, Returns Overload.Built (parts checked) := by
    intro checked
    refine .bind_any fun _ => .bind_any fun _ => .bind call.isRead_describedType fun read isRead =>
      .bind_any fun isArray => ?_
    extract_lets type
    have isReadParameter : type.IsReadParameter := isRead.isReadParameter isArray
    refine .bind_any fun name => .bind_any fun default => ?_
    split
    next longer isNew added => exact .ok (.addParameter built _ isReadParameter policy isNew added)
    next => exact .error _
  split
  next => exact ofParts ()
  next => exact .error _

theorem built_overload {function : Function} (built : function.Built) (call : Call) :
    Returns Function.Built (overload policy function call) := by
  unfold overload
  extract_lets parts
  have ofParts : ∀ checked, Returns Function.Built (parts checked) := by
    intro checked
    refine .bind_any fun _ => .bind_any fun returns => ?_
    extract_lets type
    refine .bind_any fun _ => ?_
    extract_lets described
    refine .bind_any fun description => .bind_any fun _ => .bind_any fun _ => .bind_any fun _ =>
      .bind_any fun _ => .bind_any fun _ => .bind_any fun _ => ?_
    extract_lets flags fresh
    have isBuilt : fresh.Built := .fresh fresh rfl ⟨_, _, rfl⟩
    have grown : Returns Overload.Built (call.block.foldlM (parameter policy) fresh) :=
      .foldlM isBuilt fun call _ _ built => built_parameter policy built call
    exact .bind grown fun longer builtOverload => .ok (built.addOverload builtOverload)
  split
  next => exact ofParts ()
  next => exact .error _

theorem built_function (name : String) (block : List Call) :
    Returns Function.Built (function policy name block) :=
  .foldlM (.fresh name) fun call _ _ built => built_overload policy built call

/-! ### Classes -/

theorem isRead_classVariable (call : Call) :
    Returns (fun newVariable => newVariable.type.IsRead) (classVariable call) := by
  unfold classVariable
  refine .bind_any fun _ => .bind_any fun _ => .bind_any fun name =>
    .bind call.isRead_describedType fun type isRead => ?_
  exact .bind_any fun _ => .bind_any fun _ => .bind_any fun _ => .bind_any fun _ => .ok isRead

theorem built_member {self : Symbols.Class} (built : self.Built) (call : Call) :
    Returns Class.Built (member policy self call) := by
  unfold member
  split
  next =>
    exact .bind (isRead_classVariable call) fun newVariable isRead =>
      .ok (built.add (.variable newVariable isRead))
  next =>
    exact .bind_any fun _ => .bind_any fun _ => .bind_any fun name => .bind_any fun enumeration =>
      .ok (built.add (.enumeration enumeration))
  next =>
    exact .bind_any fun _ => .bind_any fun name =>
      .bind (built_function policy name call.block) fun method isBuilt =>
        .ok (built.add (.method method isBuilt))
  next => exact .error _

theorem built_classDefinition (name : String) (call : Call) :
    Returns Class.Built (classDefinition policy name call) := by
  unfold classDefinition
  refine .bind_any fun description => .bind_any fun isStruct => .bind_any fun isForward =>
    .bind_any fun generics => .bind_any fun parents => ?_
  extract_lets plain bare
  have isBuilt : bare.Built := .described (.named name) _ isStruct isForward description
  have withParents : (parents.foldl Class.addParent bare).Built :=
    isBuilt.foldl fun parent _ => .parent parent
  exact .foldlM withParents fun call _ _ built => built_member policy built call

/-! ### Scripts -/

theorem built_element (call : Call) (name : String) :
    Returns Element.Built (element policy call name) := by
  unfold element
  split
  next => exact .bind_any fun _ => .bind_any fun _ => .ok trivial
  next => exact .bind_any fun _ => .ok trivial
  next => exact .bind call.isRead_describedType fun _ isRead => .ok isRead
  next => exact .bind call.isRead_describedType fun _ isRead => .ok isRead
  next => exact .bind (built_function policy name call.block) fun _ built => .ok built
  next => exact .bind (built_classDefinition policy name call) fun _ built => .ok built

theorem hasBuilt_edit (call : Call) : Returns Edit.HasBuilt (edit policy call) := by
  unfold edit
  split
  next =>
    exact .bind_any fun _ => .bind_any fun _ => .bind_any fun _ => .bind_any fun _ => .ok trivial
  next =>
    split
    next => exact .error _
    next allowed mayHaveBlock _ =>
      refine .bind_any fun _ => ?_
      extract_lets parts
      have ofParts : ∀ checked, Returns Edit.HasBuilt (parts checked) := fun _ =>
        .bind_any fun header => .bind_any fun scope => .bind_any fun name =>
          .bind (built_element policy call name) fun _ built => .ok built
      split
      next => exact ofParts ()
      next => exact .bind_any fun _ => ofParts ()

end Statement

/-- The table of a script is storable. -/
theorem isStorable_read (source : String) (policy : DuplicatePolicy) :
    Returns Table.IsStorable (read source policy) := by
  refine .bind_any fun calls => .mapError ?_ _
  have areBuilt : Returns (∀ edit ∈ ·, edit.HasBuilt) (edits policy calls) :=
    .mapM fun call _ => Statement.hasBuilt_edit policy call
  exact .bind areBuilt fun _ built => .ok (Table.isStorable_empty.applyAll built)

end Bindery.Script
