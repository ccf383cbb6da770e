/-
**Templates that tell the order of scopes.**

One template is enough: it writes the name of each scope and a mark behind it that is longer than
every name. Names can be read off such a text, so tables with the same files under all templates
have their scopes in the same order.

* `eq_of_marked` — the names in a marked text.
* `names_eq_of_emitOrdered_eq` — equal files name the same scopes in the same order.
-/

import Mathlib.Tactic.ByContra
import Bindery.Proofs.Wrapper.ScopeOrder
import Bindery.Proofs.Wrapper.Template

namespace Bindery.Wrapper

open Symbols

/-! ### Marked names -/

/-- A mark that stands in no text of at most a width, nor across the end of one. -/
def mark (width : Nat) : List Char := List.replicate width '-' ++ ['|']

theorem getElem?_mark_end (width : Nat) (text behind : List Char) :
    (text ++ mark width ++ behind)[text.length + width]? = some '|' := by
  rw [mark, List.append_assoc, List.getElem?_append_right (Nat.le_add_right ..)]
  simp

theorem getElem?_mark {width place : Nat} {text : List Char} (behind : List Char)
    (isBehind : text.length ≤ place) (isInside : place < text.length + width) :
    (text ++ mark width ++ behind)[place]? = some '-' := by
  rw [mark, List.append_assoc, List.getElem?_append_right isBehind, List.append_assoc,
    List.getElem?_append_left (by rw [List.length_replicate]; omega),
    List.getElem?_replicate_of_lt (by omega)]

/-- A text that is not too long ends before its mark does. -/
theorem length_le_of_marked {width : Nat} {first second behind other : List Char}
    (short : second.length ≤ width)
    (same : first ++ mark width ++ behind = second ++ mark width ++ other) :
    second.length ≤ first.length := by
  by_contra isLonger
  have isEnd := getElem?_mark_end width first behind
  have isInside := @getElem?_mark width (first.length + width) second other (by omega) (by omega)
  rw [same, isInside] at isEnd
  cases isEnd

/-- The texts that marks stand behind can be read off. -/
theorem eq_of_marked {width : Nat} {texts others : List (List Char)}
    (short : ∀ text ∈ texts, text.length ≤ width)
    (shortOthers : ∀ text ∈ others, text.length ≤ width)
    (same : texts.flatMap (· ++ mark width) = others.flatMap (· ++ mark width)) :
    texts = others := by
  have notEmpty : ∀ text : List Char, ∀ behind, text ++ mark width ++ behind ≠ [] := by
    simp [mark]
  induction texts generalizing others with
  | nil =>
    cases others with
    | nil => rfl
    | cons other rest => exact absurd same.symm (notEmpty _ _)
  | cons text rest ih =>
    cases others with
    | nil => exact absurd same (notEmpty _ _)
    | cons other more =>
      rw [List.flatMap_cons, List.flatMap_cons] at same
      rw [List.forall_mem_cons] at short shortOthers
      have sameLength : text.length = other.length :=
        Nat.le_antisymm (length_le_of_marked short.1 same.symm)
          (length_le_of_marked shortOthers.1 same)
      rw [List.append_assoc, List.append_assoc] at same
      obtain ⟨rfl, behind⟩ := List.append_inj same sameLength
      rw [ih short.2 shortOthers.2 (List.append_cancel_left behind)]

/-! ### A template with one placeholder -/

/-- The templates that write the name of each scope with a mark behind it. -/
def nameTemplates (width : Nat) : Templates :=
  .ofList [(FragmentKind.name (.opening .scope),
    String.ofList (['\x7b', '\x7b'] ++ "namespace".toList ++ '\x7d' :: '\x7d' :: mark width))]

theorem mem_mark {width : Nat} {c : Char} (isIn : c ∈ mark width) : c = '-' ∨ c = '|' := by
  simp only [mark, List.mem_append, List.mem_replicate, List.mem_singleton] at isIn
  exact isIn.imp_left (·.2)

/-- A scope's name is written with a mark behind it. -/
theorem render_nameTemplates (width : Nat) (values : Values) :
    (nameTemplates width).render (FragmentKind.name (.opening .scope)) values =
      String.ofList ((values.textOf "namespace").toList ++ mark width) := by
  have noOpening : '\x7b' ∉ mark width := fun isIn => by
    rcases mem_mark isIn with same | same <;> cases same
  have opens : cutAtPair? '\x7b' (['\x7b', '\x7b'] ++ "namespace".toList ++
      '\x7d' :: '\x7d' :: mark width) =
        some ([], "namespace".toList ++ '\x7d' :: '\x7d' :: mark width) :=
    cutAtPair?_append List.not_mem_nil _
  have closes : cutAtPair? '\x7d' ("namespace".toList ++ '\x7d' :: '\x7d' :: mark width) =
      some ("namespace".toList, mark width) := cutAtPair?_append (by decide) _
  have trimmed : Text.trim "namespace".toList = "namespace".toList := by decide
  unfold Templates.render
  simp only [nameTemplates, OrderedMap.ofList, List.foldl_cons, List.foldl_nil,
    OrderedMap.get?_insert, if_true, String.toList_ofList]
  rw [substitute_of_placeholder opens closes, trimmed, String.ofList_toList,
    substitute_of_none (cutAtPair?_of_notMem noOpening), List.nil_append]

theorem FragmentKind.eq_of_name {kind : FragmentKind}
    (sameName : kind.name = FragmentKind.name (.opening .scope)) : kind = .opening .scope := by
  have sameHead := congrArg (fun name : String => name.toList.head?) sameName
  cases kind with
  | opening part => cases part <;> first | rfl | exact absurd sameName (by decide)
  | closing part => cases part <;> exact absurd sameName (by decide)
  | option part => cases part <;> exact absurd sameName (by decide)
  | parameter plan => simp [name, ParameterPlan.fragmentName, Section.word] at sameHead
  | result plan =>
    simp only [name, ReturnPlan.fragmentName] at sameHead
    split at sameHead
    next => exact absurd sameHead (by decide)
    next =>
      split at sameHead
      next => exact absurd sameHead (by decide)
      next => simp [Section.word] at sameHead
  | moduleHeader | constant | typeAlias | globalVariable | classVariable | call | nextOverload |
    refusal => exact absurd sameName (by decide)

/-! ### Fragments that name no scope -/

/-- No scope is opened. -/
def OpensNoScope (fragments : List Fragment) : Prop :=
  ∀ fragment ∈ fragments, fragment.kind ≠ .opening .scope

namespace OpensNoScope

theorem append {first second : List Fragment} (inFirst : OpensNoScope first)
    (inSecond : OpensNoScope second) : OpensNoScope (first ++ second) :=
  List.forall_mem_append.mpr ⟨inFirst, inSecond⟩

theorem flatMap {α : Type} {items : List α} {fragments : α → List Fragment}
    (inEach : ∀ item, OpensNoScope (fragments item)) : OpensNoScope (items.flatMap fragments) := by
  intro fragment isIn
  obtain ⟨item, _, isInner⟩ := List.mem_flatMap.mp isIn
  exact inEach item fragment isInner

theorem map {α : Type} {items : List α} {asFragment : α → Fragment}
    (isOther : ∀ item, (asFragment item).kind ≠ .opening .scope) :
    OpensNoScope (items.map asFragment) := by
  intro fragment isIn
  obtain ⟨item, _, rfl⟩ := List.mem_map.mp isIn
  exact isOther item

theorem bracketed {part : Section} (isOther : part ≠ .scope) {values : Values}
    {inner : List Fragment} (inside : OpensNoScope inner) :
    OpensNoScope (bracketed part values inner) := by
  have opening : FragmentKind.opening part ≠ .opening .scope := by simpa using isOther
  have closing : FragmentKind.closing part ≠ .opening .scope := by simp
  refine append (List.forall_mem_cons.mpr ⟨opening, inside⟩) ?_
  exact List.forall_mem_singleton.mpr closing

theorem blockFragments (outer : Values) (overload : OverloadPlan) (block : Block) :
    OpensNoScope (blockFragments outer overload block) := by
  refine bracketed (by decide) ((map fun _ => by simp).append ?_)
  simp [OpensNoScope]

theorem functionFragments (known : KnownTypes) (options : EmissionOptions) {part : Section}
    (isOther : part ≠ .scope) (outer : Values) (function : Function) :
    OpensNoScope (functionFragments known options part outer function) := by
  refine bracketed isOther (flatMap fun plan => ?_)
  refine bracketed (by decide) ((flatMap fun _ => blockFragments _ _ _).append ?_)
  by_cases isLast : plan.isLast = true <;> simp [OpensNoScope, isLast]

theorem enumerationFragments {part : Section} (isOther : part ≠ .scope) (outer : Values)
    (enumeration : Enumeration) : OpensNoScope (enumerationFragments part outer enumeration) := by
  refine bracketed isOther fun fragment isIn => ?_
  obtain ⟨_, _, rfl⟩ := List.mem_mapIdx.mp isIn
  simp

theorem classFragments (known : KnownTypes) (options : EmissionOptions) (outer : Values)
    (self : Symbols.Class) : OpensNoScope (classFragments known options outer self) := by
  refine bracketed (by decide) (((map fun _ => by simp).append ?_).append ?_)
  · exact flatMap fun _ => enumerationFragments (by decide) _ _
  · exact flatMap fun _ => functionFragments _ _ (by decide) _ _

/-- Behind its first fragment a scope opens no other. -/
theorem scopeFragments (known : KnownTypes) (options : EmissionOptions) (outer : Values)
    (scope : Scope) : ∃ inside, OpensNoScope inside ∧
      scopeFragments known options outer scope =
        ⟨.opening .scope, scopeValues outer scope⟩ :: inside := by
  refine ⟨_, ?_, rfl⟩
  refine append (((((append ?_ ?_).append ?_).append ?_).append ?_).append ?_) ?_
  · exact map fun _ => by simp
  · exact flatMap fun _ => enumerationFragments (by decide) _ _
  · exact map fun _ => by simp
  · exact map fun _ => by simp
  · exact flatMap fun _ => functionFragments _ _ (by decide) _ _
  · exact flatMap fun _ => classFragments _ _ _ _
  · simp [OpensNoScope]

/-- Such fragments leave no text. -/
theorem renderAll {fragments : List Fragment} (none : OpensNoScope fragments) (width : Nat) :
    renderAll (nameTemplates width) fragments = "" := by
  induction fragments with
  | nil => rfl
  | cons fragment rest ih =>
    obtain ⟨isOther, later⟩ := List.forall_mem_cons.mp none
    have isMissing : (nameTemplates width).get? fragment.kind.name = Option.none := by
      have notNamed : FragmentKind.name (.opening .scope) ≠ fragment.kind.name :=
        fun same => isOther (FragmentKind.eq_of_name same.symm)
      simp [nameTemplates, OrderedMap.ofList, OrderedMap.get?_insert, notNamed]
    have noText : fragment.renderBy (nameTemplates width).render = "" := by
      rw [Fragment.renderBy, Templates.render, isMissing]
    have noRest := ih later
    rw [Wrapper.renderAll, renderAllBy] at noRest ⊢
    rw [List.map_cons, String.join_cons, noText, noRest]
    rfl

end OpensNoScope

/-! ### Names in files -/

theorem renderAll_append (templates : Templates) (first second : List Fragment) :
    renderAll templates (first ++ second) =
      renderAll templates first ++ renderAll templates second := by
  rw [renderAll, renderAllBy, List.map_append, String.join_append]
  rfl

/-- A scope leaves its name and a mark. -/
theorem renderAll_scopeFragments (width : Nat) (known : KnownTypes) (options : EmissionOptions)
    (outer : Values) (scope : Scope) :
    renderAll (nameTemplates width) (scopeFragments known options outer scope) =
      String.ofList (scope.name.toList ++ mark width) := by
  have isName : (scopeValues outer scope).textOf "namespace" = scope.name := by
    simp [scopeValues, Values.set, Values.textOf, OrderedMap.get?_insert]
  have opening : Fragment.renderBy (nameTemplates width).render
      ⟨.opening .scope, scopeValues outer scope⟩ =
        String.ofList (scope.name.toList ++ mark width) := by
    rw [Fragment.renderBy, render_nameTemplates, isName]
  obtain ⟨inside, opensNone, isScope⟩ := OpensNoScope.scopeFragments known options outer scope
  have noText := opensNone.renderAll width
  rw [renderAll, renderAllBy] at noText ⊢
  rw [isScope, List.map_cons, String.join_cons, opening, noText, String.append_empty]

/-- Scopes leave their names and marks. -/
theorem renderAll_scopes (width : Nat) (known : KnownTypes) (options : EmissionOptions)
    (outer : Values) (scopes : List Scope) :
    (renderAll (nameTemplates width) (scopes.flatMap (scopeFragments known options outer))).toList =
      (scopes.map (·.name.toList)).flatMap (· ++ mark width) := by
  induction scopes with
  | nil => rfl
  | cons scope rest ih =>
    rw [List.flatMap_cons, renderAll_append, String.toList_append, renderAll_scopeFragments,
      String.toList_ofList, ih, List.map_cons, List.flatMap_cons]

/-- The file of a header names its scopes in their order. -/
theorem renderAll_fileFragmentsOf (width : Nat) (known : KnownTypes) (options : EmissionOptions)
    (header : Header) {scopes : List Scope} (noneEmpty : ∀ scope ∈ scopes, scope.isEmpty = false) :
    (renderAll (nameTemplates width) (fileFragmentsOf known options header scopes)).toList =
      (scopes.map (·.name.toList)).flatMap (· ++ mark width) := by
  have all : scopes.filter (fun scope => !scope.isEmpty) = scopes :=
    List.filter_eq_self.mpr fun scope isScope => by simp [noneEmpty scope isScope]
  have noFile : ∀ kind : FragmentKind, kind ≠ .opening .scope →
      renderAll (nameTemplates width) [⟨kind, headerValues options header⟩] = "" :=
    fun kind isOther => OpensNoScope.renderAll (List.forall_mem_singleton.mpr isOther) width
  have parts : fileFragmentsOf known options header scopes =
      [⟨.opening .file, headerValues options header⟩] ++
        scopes.flatMap (scopeFragments known options (headerValues options header)) ++
        [⟨.closing .file, headerValues options header⟩] := by
    simp only [fileFragmentsOf, all]
    rfl
  rw [parts, renderAll_append, renderAll_append, noFile _ (by simp), noFile _ (by simp),
    String.empty_append, String.append_empty, renderAll_scopes]

/-- Files that are the same under such a template name the same scopes in the same order. -/
theorem names_eq_of_emitOrdered_eq {table : Table} {header : Header}
    (isHeader : header ∈ table.enabledHeaders) {known other : KnownTypes}
    {first second : Header → List Scope} {width : Nat}
    (noneEmpty : ∀ scope ∈ first header ++ second header, scope.isEmpty = false)
    (short : ∀ scope ∈ first header ++ second header, scope.name.toList.length ≤ width)
    (same : emitOrdered (nameTemplates width) {} known first table =
      emitOrdered (nameTemplates width) {} other second table) :
    (first header).map Scope.name = (second header).map Scope.name := by
  rw [emitOrdered, emitOrdered] at same
  have sameFile := List.map_inj_left.mp (List.append_inj_left' same rfl) header isHeader
  have sameText := congrArg (fun file : GeneratedFile => file.contents.toList) sameFile
  obtain ⟨noneFirst, noneSecond⟩ := List.forall_mem_append.mp noneEmpty
  simp only [renderAll_fileFragmentsOf width known {} header noneFirst,
    renderAll_fileFragmentsOf width other {} header noneSecond] at sameText
  obtain ⟨shortFirst, shortSecond⟩ := List.forall_mem_append.mp short
  have sameNames := eq_of_marked (List.forall_mem_map.mpr shortFirst)
    (List.forall_mem_map.mpr shortSecond) sameText
  have asNames := congrArg (List.map String.ofList) sameNames
  simpa only [List.map_map, Function.comp_def, String.ofList_toList] using asNames

end Bindery.Wrapper
