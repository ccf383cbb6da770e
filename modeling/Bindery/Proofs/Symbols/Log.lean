/-
**Logs: the edits that fill a table, read flat.**

An addition has a slot: its place, its kind and its name. Of each slot the last addition remains,
where the slot first came. Nothing here knows of headers that hold scopes that hold elements.

* `Log.remaining` — the additions that remain; `Log.headers`, `Log.enabled` and `Log.scopes` say
  which headers and scopes there are, and in which order.
* `Log.elementsAt_eq` — what remains at a place depends on the additions to it alone.
* `Log.flatMap_elementsAt_perm` — what remains at all places is what remains.
-/

import Mathlib.Algebra.GroupWithZero.Nat
import Mathlib.Data.Finset.Card
import Bindery.Proofs.LastOfEach
import Bindery.Proofs.Symbols.Replay

namespace Bindery.Symbols

/-! ### Elements and edits -/

deriving instance DecidableEq for ElementKind

namespace Element

/-- The kind of an element. -/
def kind : Element → ElementKind
  | .constant _ => .constant
  | .enumeration _ => .enumeration
  | .typeAlias _ => .typeAlias
  | .globalVariable _ => .globalVariable
  | .function _ => .function
  | .classDefinition _ => .classDefinition

/-- The element without what it knows of its place. -/
def detached : Element → Element
  | .constant c => .constant c.detached
  | .enumeration e => .enumeration e.detached
  | .typeAlias a => .typeAlias a.detached
  | .globalVariable v => .globalVariable v.detached
  | .function f => .function f.detached
  | .classDefinition c => .classDefinition c.detached

/-- The class that an element defines. -/
def class? : Element → Option Class
  | .classDefinition c => some c
  | _ => none

end Element

namespace Edit

/-- The header that an edit mentions. -/
def header : Edit → String
  | .enable header _ | .add header _ _ => header

/-- Whether an edit switches a header on or off. -/
def switch? (name : String) : Edit → Option Bool
  | .enable header enabled => if header = name then some enabled else none
  | .add .. => none

/-- The element that an edit adds, with the place that it gives it. -/
def addition? : Edit → Option (Place × Element)
  | .enable .. => none
  | .add header scope element => some (⟨header, canonicalScope scope⟩, element)

/-- An edit that adds to a scope whose canonical name is its own. -/
def IsCanonical : Edit → Prop
  | .enable .. => True
  | .add _ scope _ => canonicalScope (canonicalScope scope) = canonicalScope scope

instance : DecidablePred IsCanonical
  | .enable .. => .isTrue trivial
  | .add .. => inferInstanceAs (Decidable (_ = _))

end Edit

/-! ### Logs -/

/-- The edits that fill a table, in order. -/
abbrev Log := List Edit

namespace Log

/-- The headers in the order in which they are first mentioned. -/
def headers (log : Log) : List String := (log.map Edit.header).eraseDups

/-- The last state of a header; one that is never switched is on. -/
def enabled (log : Log) (header : String) : Bool :=
  (log.filterMap (Edit.switch? header)).getLast?.getD true

/-- The elements that are added, with their places. -/
def additions (log : Log) : List (Place × Element) := log.filterMap Edit.addition?

/-- The elements that are added at a place, in order. -/
def addedTo (log : Log) (place : Place) : List Element :=
  (log.additions.filter (·.1 = place)).map Prod.snd

/-- The scopes of a header in the order in which something is first added to them. -/
def scopes (log : Log) (header : String) : List String :=
  ((log.additions.filter (·.1.header = header)).map (·.1.scope)).eraseDups

/-- What an addition replaces and is replaced by: its place, its kind and its name. -/
def slot (addition : Place × Element) : Place × ElementKind × String :=
  (addition.1, addition.2.kind, addition.2.name)

/-- The last addition to each slot; the slots stand in the order in which they are first filled. -/
def remaining (log : Log) : List (Place × Element) := lastOfEach slot log.additions

/-- The elements of a kind that remain at a place, detached. -/
def elementsAt (log : Log) (place : Place) (kind : ElementKind) : List Element :=
  (log.remaining.filter fun addition => addition.1 = place ∧ addition.2.kind = kind).map
    (·.2.detached)

/-- How many slots of a kind are filled. -/
def slotCount (log : Log) (kind : ElementKind) : Nat :=
  ((log.additions.map slot).toFinset.filter (·.2.1 = kind)).card

/-- The classes that remain. -/
def classes (log : Log) : List Class := log.remaining.filterMap (·.2.class?)

/-- The counts of a table with the log: the slots of each kind, the enumerations of the classes that
remain among the enumerations, and their methods. -/
def counts (log : Log) : Counts where
  constants := log.slotCount .constant
  enumerations := log.slotCount .enumeration + (log.classes.map (·.enumerations.size)).sum
  aliases := log.slotCount .typeAlias
  globals := log.slotCount .globalVariable
  functions := log.slotCount .function
  classes := log.slotCount .classDefinition
  methods := (log.classes.map (·.methods.size)).sum

/-! ### The log of one header -/

theorem additions_filter (log : Log) (name : String) :
    additions (log.filter (·.header = name)) =
      log.additions.filter (·.1.header = name) := by
  rw [additions, additions, List.filter_filterMap, List.filterMap_filter]
  refine List.filterMap_congr fun edit _ => ?_
  cases edit with
  | enable header enabled => by_cases isName : header = name <;> simp [Edit.addition?]
  | add header scope element =>
    by_cases isName : header = name <;>
      simp [Edit.addition?, Edit.header, Option.filter, isName]

theorem switches_filter (log : Log) (name : String) :
    (log.filter (·.header = name)).filterMap (Edit.switch? name) =
      log.filterMap (Edit.switch? name) := by
  rw [List.filterMap_filter]
  refine List.filterMap_congr fun edit _ => ?_
  cases edit with
  | enable header enabled =>
    by_cases isName : header = name <;> simp [Edit.switch?, Edit.header, isName]
  | add header scope element => simp [Edit.switch?]

theorem canonicalScope_of_addition {log : Log}
    (canonical : ∀ edit ∈ log, edit.IsCanonical) {addition : Place × Element}
    (isAddition : addition ∈ log.additions) :
    canonicalScope addition.1.scope = addition.1.scope := by
  obtain ⟨edit, isEdit, isAdded⟩ := List.mem_filterMap.mp isAddition
  have isCanonical := canonical edit isEdit
  cases edit with
  | enable header enabled => simp [Edit.addition?] at isAdded
  | add header scope element =>
    obtain rfl := Option.some.inj isAdded
    exact isCanonical

/-! ### Slots -/

/-- The elements that remain at a place are the last ones of each name that are added there. -/
theorem elementsAt_eq (log : Log) (place : Place) (kind : ElementKind) :
    log.elementsAt place kind =
      (lastOfEach Element.name ((log.addedTo place).filter (·.kind = kind))).map
        Element.detached := by
  let isHere : Place × ElementKind × String → Bool := fun slot =>
    slot.1 = place ∧ slot.2.1 = kind
  have apart : Function.Injective fun name : String => (place, kind, name) :=
    fun _ _ same => (Prod.mk.inj (Prod.mk.inj same).2).2
  have bySlot : ∀ addition ∈ log.additions.filter (isHere ∘ slot),
      slot addition = (place, kind, addition.2.name) := by
    intro addition isAddition
    have isSlot := (List.mem_filter.mp isAddition).2
    obtain ⟨isPlace, isKind⟩ := decide_eq_true_eq.mp isSlot
    exact Prod.ext isPlace (Prod.ext isKind rfl)
  have sameItems : (log.addedTo place).filter (·.kind = kind) =
      (log.additions.filter (isHere ∘ slot)).map Prod.snd := by
    rw [addedTo, List.filter_map, List.filter_filter]
    refine congrArg _ (List.filter_congr fun addition _ => ?_)
    exact (Bool.and_comm ..).trans (Bool.decide_and ..).symm
  rw [sameItems, lastOfEach_map, List.map_map, elementsAt, remaining]
  refine (congrArg _ (filter_lastOfEach isHere slot _)).trans ?_
  rw [lastOfEach_rename apart bySlot]
  rfl

/-- The slots of a kind are those of the additions of the kind that remain. -/
theorem slotCount_eq_length (log : Log) (kind : ElementKind) :
    log.slotCount kind = (log.remaining.filter (·.2.kind = kind)).length := by
  have slots : (log.additions.map slot).toFinset = (log.remaining.map slot).toFinset := by
    ext one
    rw [List.mem_toFinset, List.mem_toFinset]
    exact (mem_map_lastOfEach slot log.additions one).symm
  have ofKind : (log.remaining.map slot).toFinset.filter (·.2.1 = kind) =
      ((log.remaining.map slot).filter (·.2.1 = kind)).toFinset := by
    ext one
    simp
  have apart : (log.remaining.map slot).Nodup := nodup_map_lastOfEach ..
  rw [slotCount, slots, ofKind, List.toFinset_card_of_nodup (apart.filter _), List.filter_map,
    List.length_map]
  rfl

/-- The places to which something is added, header by header. -/
def places (log : Log) : List Place :=
  log.headers.flatMap fun header => (log.scopes header).map fun scope => ⟨header, scope⟩

theorem nodup_places (log : Log) : log.places.Nodup := by
  refine List.nodup_flatMap.mpr ⟨fun header _ => ?_, ?_⟩
  · exact (nodup_eraseDups _).map fun _ _ same => (Place.mk.inj same).2
  · refine (nodup_eraseDups _).imp fun {first second} apart => ?_
    intro place isFirst isSecond
    obtain ⟨_, _, rfl⟩ := List.mem_map.mp isFirst
    obtain ⟨_, _, same⟩ := List.mem_map.mp isSecond
    exact apart (Place.mk.inj same).1.symm

theorem place_mem_places {log : Log} {addition : Place × Element}
    (isAddition : addition ∈ log.additions) : addition.1 ∈ log.places := by
  obtain ⟨edit, isEdit, isAdded⟩ := List.mem_filterMap.mp isAddition
  have isHeader : addition.1.header ∈ log.headers := by
    rw [headers, List.mem_eraseDups, List.mem_map]
    refine ⟨edit, isEdit, ?_⟩
    cases edit with
    | enable header enabled => simp [Edit.addition?] at isAdded
    | add header scope element =>
      obtain rfl := Option.some.inj isAdded
      rfl
  have isScope : addition.1.scope ∈ log.scopes addition.1.header := by
    rw [scopes, List.mem_eraseDups, List.mem_map]
    exact ⟨addition, by simp [isAddition], rfl⟩
  exact List.mem_flatMap.mpr ⟨_, isHeader, List.mem_map.mpr ⟨_, isScope, rfl⟩⟩

/-- The elements of a kind that remain, one place after the other. -/
theorem flatMap_elementsAt_perm (log : Log) (kind : ElementKind) :
    (log.places.flatMap fun place => log.elementsAt place kind).Perm
      ((log.remaining.filter (·.2.kind = kind)).map (·.2.detached)) := by
  have isRemaining : ∀ addition ∈ log.remaining, addition ∈ log.additions := by
    intro addition remains
    obtain ⟨name, _, isLast⟩ := List.mem_filterMap.mp remains
    exact (List.mem_filter.mp (List.mem_of_getLast? isLast)).1
  have byPlace : (log.places.flatMap fun place => log.elementsAt place kind) =
      (log.places.flatMap fun place =>
        (log.remaining.filter (·.2.kind = kind)).filter (·.1 = place)).map (·.2.detached) := by
    rw [List.map_flatMap]
    refine List.flatMap_congr fun place _ => ?_
    rw [elementsAt, List.filter_filter]
    simp only [Bool.decide_and]
  rw [byPlace]
  refine (perm_flatMap_filter log.nodup_places fun addition isIn => ?_).map _
  exact place_mem_places (isRemaining addition (List.mem_filter.mp isIn).1)

end Log

end Bindery.Symbols
