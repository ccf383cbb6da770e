/-
**Calls that stand in a longer text.**

What is read of a call depends on what it says alone. Where it stands shows in errors only: a call
that is moved gives the same value, or the same error as far on. Each reader is followed from the
readers it is made of.

* `Reading.moved` — what is read of a call further on in a text.
* `Statement.edit_moved`, `edits_moved` — the edits of calls further on in a text.
-/

import Bindery.Proofs.Script.Moving

namespace Bindery.Script

open Symbols

/-! ### What is read -/

/-- The error of a call further on in a text. -/
def StatementError.moved (distance : Nat) (error : StatementError) : StatementError :=
  { error with span := error.span.moved distance }

/-- What is read of a call further on in a text: the same value, or the same error further on. -/
def Reading.moved {α : Type} (distance : Nat) (reading : Reading α) : Reading α :=
  reading.mapError (StatementError.moved distance)

namespace Reading

variable {α β : Type} (distance : Nat)

theorem moved_pure (value : α) : Reading.moved distance (pure value) = pure value := rfl

theorem moved_throw (error : StatementError) :
    Reading.moved distance (throw error : Reading α) = throw (error.moved distance) := rfl

theorem moved_bind (first : Reading α) (next : α → Reading β) :
    Reading.moved distance (first >>= next) =
      Reading.moved distance first >>= fun value => Reading.moved distance (next value) := by
  cases first <;> rfl

theorem moved_ite (condition : Prop) [Decidable condition] (first second : Reading α) :
    Reading.moved distance (if condition then first else second) =
      if condition then Reading.moved distance first else Reading.moved distance second := by
  split <;> rfl

/-- What is read call by call. -/
theorem foldlM_moved {step : α → Call → Reading α}
    (each : ∀ state call, step state (call.moved distance) =
      Reading.moved distance (step state call)) (calls : List Call) (state : α) :
    (calls.map (Call.moved distance)).foldlM step state =
      Reading.moved distance (calls.foldlM step state) := by
  induction calls generalizing state with
  | nil => rfl
  | cons call rest ih =>
    rw [List.map_cons, List.foldlM_cons, List.foldlM_cons, each, moved_bind]
    exact congrArg _ (funext fun next => ih next)

end Reading

/-! ### Arguments -/

namespace Call

variable (distance : Nat) (call : Call)

theorem name_moved : (call.moved distance).name = call.name := by
  cases call
  rw [moved]
  rfl

theorem nameSpan_moved : (call.moved distance).nameSpan = call.nameSpan.moved distance := by
  cases call
  rw [moved]
  rfl

theorem arguments_moved :
    (call.moved distance).arguments = call.arguments.map (Argument.moved distance) := by
  cases call
  rw [moved]
  rfl

theorem body_moved : (call.moved distance).body = call.body.map (·.map (moved distance)) := by
  cases call
  rw [moved, body, movedBlock_eq_map]
  rfl

theorem span_moved : (call.moved distance).span = call.span.moved distance := by
  cases call
  rw [moved]
  rfl

theorem block_moved : (call.moved distance).block = call.block.map (moved distance) := by
  rw [block, body_moved, block]
  cases call.body <;> rfl

theorem unknownIn_moved (context : Context) :
    (call.moved distance).unknownIn context = (call.unknownIn context).moved distance := by
  rw [unknownIn, name_moved, nameSpan_moved]
  rfl

/-- Whether an argument has a name that is not allowed. -/
def isUnknown (allowed : List String) (argument : Argument) : Bool :=
  match argument.name with
  | some name => !allowed.contains name
  | none => false

theorem checkNames_eq_find? (allowed : List String) :
    call.checkNames allowed =
      match call.arguments.find? (isUnknown allowed) with
      | some argument =>
        .error ⟨.unknownArgument call.name (argument.name.getD "") allowed, argument.span⟩
      | none => .ok () :=
  rfl

theorem checkNames_moved (allowed : List String) :
    (call.moved distance).checkNames allowed =
      Reading.moved distance (call.checkNames allowed) := by
  have sameName : isUnknown allowed ∘ Argument.moved distance = isUnknown allowed := rfl
  rw [checkNames_eq_find?, checkNames_eq_find?, arguments_moved, name_moved, List.find?_map,
    sameName]
  cases call.arguments.find? (isUnknown allowed) <;> rfl

theorem checkLeaf_moved :
    (call.moved distance).checkLeaf = Reading.moved distance call.checkLeaf := by
  rw [checkLeaf, body_moved, name_moved, span_moved, checkLeaf]
  cases call.body <;> rfl

theorem textOf_moved (what : String) (argument : Argument) :
    textOf what (argument.moved distance) = Reading.moved distance (textOf what argument) := by
  obtain ⟨name, value, place⟩ := argument
  cases value <;> rfl

theorem unnamed_moved (index : Nat) (what : String) :
    (call.moved distance).unnamed index what =
      Reading.moved distance (call.unnamed index what) := by
  have unnamedOnes : (call.arguments.map (Argument.moved distance)).filter (·.name.isNone) =
      (call.arguments.filter (·.name.isNone)).map (Argument.moved distance) :=
    List.filter_map
  rw [unnamed, arguments_moved, name_moved, span_moved, unnamedOnes, List.getElem?_map, unnamed]
  cases (call.arguments.filter (·.name.isNone))[index]? with
  | none => rfl
  | some argument => exact textOf_moved distance what argument

theorem named?_moved (name : String) :
    (call.moved distance).named? name = (call.named? name).map (Argument.moved distance) := by
  rw [named?, arguments_moved, List.find?_map]
  rfl

theorem text_moved (name : String) :
    (call.moved distance).text name = Reading.moved distance (call.text name) := by
  rw [text, named?_moved, text]
  cases call.named? name with
  | none => rfl
  | some argument => exact textOf_moved distance name argument

theorem truth_moved (name : String) (missing : Bool) :
    (call.moved distance).truth name missing =
      Reading.moved distance (call.truth name missing) := by
  rw [truth, named?_moved, truth]
  cases call.named? name with
  | none => rfl
  | some argument =>
    obtain ⟨_, value, _⟩ := argument
    cases value <;> rfl

theorem flag_moved (name : String) :
    (call.moved distance).flag name = Reading.moved distance (call.flag name) :=
  call.truth_moved distance name false

theorem list_moved (name : String) :
    (call.moved distance).list name = Reading.moved distance (call.list name) := by
  rw [list, named?_moved, list]
  cases call.named? name with
  | none => rfl
  | some argument =>
    obtain ⟨_, value, _⟩ := argument
    cases value <;> rfl

theorem describedType_moved :
    (call.moved distance).describedType = Reading.moved distance call.describedType := by
  simp only [describedType, text_moved, Reading.moved_bind, Reading.moved_pure]

end Call

/-! ### Statements -/

namespace Statement

variable (distance : Nat) (policy : DuplicatePolicy) (call : Call)

theorem enumeration_moved (name : String) :
    enumeration name (call.moved distance) =
      Reading.moved distance (enumeration name call) := by
  simp only [enumeration, Call.list_moved, Call.text_moved, Reading.moved_bind,
    Reading.moved_pure]

theorem parameter_moved (overload : Overload) :
    parameter policy overload (call.moved distance) =
      Reading.moved distance (parameter policy overload call) := by
  by_cases isParameter : call.name = "parameter"
  · simp only [parameter, isParameter, if_true, Call.name_moved, Call.span_moved,
      Call.checkNames_moved, Call.checkLeaf_moved, Call.describedType_moved, Call.flag_moved,
      Call.unnamed_moved, Call.text_moved, Reading.moved_bind]
    refine bind_congr fun _ => bind_congr fun _ => bind_congr fun type => bind_congr fun isArray =>
      bind_congr fun name => bind_congr fun default => ?_
    cases overload.addParameter _ policy <;> rfl
  · simp only [parameter, isParameter, if_false, Call.name_moved, Call.unknownIn_moved,
      Reading.moved_bind, Reading.moved_throw]
    rfl

theorem overload_moved (function : Function) :
    overload policy function (call.moved distance) =
      Reading.moved distance (overload policy function call) := by
  have parameters := @Reading.foldlM_moved _ distance (parameter policy)
    fun overload call => parameter_moved distance policy call overload
  simp only [overload, Call.name_moved, Call.unknownIn_moved, Call.checkNames_moved,
    Call.flag_moved, Call.text_moved, Call.block_moved, parameters, Reading.moved_bind,
    Reading.moved_pure, Reading.moved_throw, Reading.moved_ite]

theorem function_moved (name : String) (block : List Call) :
    function policy name (block.map (Call.moved distance)) =
      Reading.moved distance (function policy name block) :=
  Reading.foldlM_moved distance (fun self call => overload_moved distance policy call self) block _

theorem classVariable_moved :
    classVariable (call.moved distance) = Reading.moved distance (classVariable call) := by
  simp only [classVariable, Call.checkNames_moved, Call.checkLeaf_moved, Call.unnamed_moved,
    Call.describedType_moved, Call.flag_moved, Reading.moved_bind, Reading.moved_pure]

theorem member_moved (self : Symbols.Class) :
    member policy self (call.moved distance) =
      Reading.moved distance (member policy self call) := by
  unfold member
  rw [Call.name_moved]
  split <;>
    simp only [classVariable_moved, enumeration_moved, Call.checkNames_moved,
      Call.checkLeaf_moved, Call.unnamed_moved, Call.block_moved, function_moved,
      Call.unknownIn_moved, Reading.moved_bind, Reading.moved_pure, Reading.moved_throw]

theorem classDefinition_moved (name : String) :
    classDefinition policy name (call.moved distance) =
      Reading.moved distance (classDefinition policy name call) := by
  have members := @Reading.foldlM_moved _ distance (member policy)
    fun self call => member_moved distance policy call self
  simp only [classDefinition, Call.text_moved, Call.flag_moved, Call.list_moved,
    Call.block_moved, members, Reading.moved_bind]

theorem element_moved (name : String) :
    element policy (call.moved distance) name =
      Reading.moved distance (element policy call name) := by
  unfold element
  rw [Call.name_moved]
  split <;>
    simp only [enumeration_moved, Call.text_moved, Call.describedType_moved, Call.block_moved,
      function_moved, classDefinition_moved, Reading.moved_bind, Reading.moved_pure]

/-- The edit of a call does not depend on where the call stands. -/
theorem edit_moved :
    edit policy (call.moved distance) = Reading.moved distance (edit policy call) := by
  unfold edit
  rw [Call.name_moved]
  split
  · simp only [Call.checkNames_moved, Call.checkLeaf_moved, Call.unnamed_moved, Call.truth_moved,
      Reading.moved_bind, Reading.moved_pure]
  · split
    · rw [Call.unknownIn_moved, Reading.moved_throw]
    · simp only [Call.checkNames_moved, Call.checkLeaf_moved, Call.unnamed_moved, element_moved,
        Reading.moved_bind, Reading.moved_pure, Reading.moved_ite]

end Statement

/-- The edits of calls do not depend on where the calls stand. -/
theorem edits_moved (distance : Nat) (policy : DuplicatePolicy) (calls : List Call) :
    edits policy (calls.map (Call.moved distance)) =
      Reading.moved distance (edits policy calls) := by
  unfold edits
  induction calls with
  | nil => rfl
  | cons call rest ih =>
    rw [List.map_cons, List.mapM_cons, List.mapM_cons, Statement.edit_moved, ih]
    simp only [Reading.moved_bind, Reading.moved_pure]

end Bindery.Script
