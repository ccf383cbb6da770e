/-
**Emission from the two formats of a cache.**

A script keeps a table as it is. Documents keep everything but the order of scopes, which come kind
by kind, and the generated files follow that order.

* `emit_loaded` — the files that are generated from documents.
* `arranged_eq_of_byKind`, `byKind_of_emit_eq` — when they are those of the script.
-/

import Mathlib.Algebra.Order.BigOperators.Group.List
import Mathlib.Algebra.Order.Group.Nat
import Bindery.Proofs.Cache.KindOrder
import Bindery.Proofs.Cache.RoundTrip
import Bindery.Proofs.Wrapper.ScopeNames

namespace Bindery.Wrapper

open Cache Symbols

/-- Items in another order are in the same one when their distinct names are. -/
theorem eq_of_map_eq {α β : Type} {items others : List α} {name : α → β}
    (perm : items.Perm others) (distinct : (others.map name).Nodup)
    (same : items.map name = others.map name) : items = others := by
  have injective := List.inj_on_of_nodup_map distinct
  refine List.ext_getElem perm.length_eq fun index isIn isInOther => ?_
  refine injective (perm.subset (List.getElem_mem _)) (List.getElem_mem _) ?_
  have sameName := congrArg (fun names : List β => names[index]?) same
  simpa [isIn, isInOther] using sameName

section Sound

variable {table : Table} (sound : table.IsSound)

include sound

/-- The files that are generated from documents have the scopes of each header by kind. -/
theorem emit_loaded (templates : Templates) (options : EmissionOptions) :
    emit templates options (table.arranged loadPasses) =
      emitOrdered templates options (.ofTable (table.arranged loadPasses)) Header.scopesByKind
        table := by
  rw [emit_arranged]
  refine emitOrdered_congr_order (fun header isHeader => ?_) templates options _
  exact (sound.header (List.mem_filter.mp isHeader).1).values_arranged

/-- A table with the scopes of every header by kind is loaded as it is. -/
theorem arranged_eq_of_byKind
    (byKind : ∀ header ∈ table.headerList, header.scopesByKind = header.scopes.values) :
    table.arranged loadPasses = table := by
  rw [sound.arranged_eq_self_iff]
  intro header isHeader
  have sameOrder := (sound.header isHeader).values_arranged.trans (byKind header isHeader)
  rw [Header.arranged_eq_self_iff, ← arrange_eq_self_iff, ← OrderedMap.values_arrange]
  exact sameOrder

/-- A template can tell whether the scopes of a header come by kind. -/
theorem byKind_of_emit_eq {header : Header} (isHeader : header ∈ table.enabledHeaders) {width : Nat}
    (short : ∀ scope ∈ header.scopes.values, scope.name.toList.length ≤ width)
    (same : emit (nameTemplates width) {} (table.arranged loadPasses) =
      emit (nameTemplates width) {} table) :
    header.scopesByKind = header.scopes.values := by
  have soundHeader := sound.header (List.mem_filter.mp isHeader).1
  have perm : header.scopesByKind.Perm header.scopes.values := arrange_perm _ _
  have isOwn : ∀ scope ∈ header.scopesByKind ++ header.scopes.values,
      scope ∈ header.scopes.values :=
    List.forall_mem_append.mpr ⟨fun _ isIn => perm.subset isIn, fun _ isIn => isIn⟩
  rw [emit_loaded sound, emit_eq] at same
  refine eq_of_map_eq perm soundHeader.names_nodup ?_
  refine @names_eq_of_emitOrdered_eq table header isHeader _ _ Header.scopesByKind
    (fun header => header.scopes.values) width ?_ ?_ same
  · intro scope isScope
    obtain ⟨name, found⟩ := (OrderedMap.mem_values ..).mp (isOwn scope isScope)
    exact (soundHeader name scope found).2.2
  · exact fun scope isScope => short scope (isOwn scope isScope)

end Sound

/-- What is generated from either format of a cache. The script gives the files of the table. The
documents give the same files with the scopes of each header by kind, and with the types that are
known in this order; if aliases are clear, they are the same types. The files are the same when the
scopes of every header stand by kind, and only when those of every enabled header do. -/
theorem emit_of_caches {table : Table} (built : table.Built) (plain : HasPlainMethodNames table) :
    ∃ fromData fromSource,
      Restores .data table fromData ∧ Restores .source table fromSource ∧
      (∀ templates options,
        emit templates options fromSource =
          emitOrdered templates options (.ofTable table) (·.scopes.values) table ∧
        emit templates options fromData =
          emitOrdered templates options (.ofTable fromData) Header.scopesByKind table) ∧
      (HasClearAliases table → ∀ templates options,
        emit templates options fromData =
          emitOrdered templates options (.ofTable table) Header.scopesByKind table) ∧
      ((∀ header ∈ table.headerList, header.scopesByKind = header.scopes.values) →
        ∀ templates options, emit templates options fromData = emit templates options fromSource) ∧
      ((∀ templates options, emit templates options fromData = emit templates options fromSource) →
        ∀ header ∈ table.enabledHeaders, header.scopesByKind = header.scopes.values) := by
  have sound := built.isSound
  refine ⟨table.arranged loadPasses, table, restores_data sound plain, restores_source sound,
    ?_, ?_, ?_, ?_⟩
  · exact fun templates options => ⟨rfl, emit_loaded sound templates options⟩
  · intro clear templates options
    rw [emit_loaded sound]
    exact emitOrdered_congr (KnownTypes.alike_arranged loadPasses clear).categoryOf ..
  · intro byKind templates options
    rw [arranged_eq_of_byKind sound byKind]
  · intro same header isHeader
    have short : ∀ scope ∈ header.scopes.values, scope.name.toList.length ≤
        (header.scopes.values.map fun scope => scope.name.toList.length).sum :=
      fun scope isScope => List.le_sum_of_mem (List.mem_map_of_mem isScope)
    exact byKind_of_emit_eq sound isHeader short (same _ _)

/-! ### A table in two orders -/

/-- An enumeration in one scope and a constant in another one of the same header. -/
def sampleEdits : List Edit :=
  [.add "list.hxx" "base" (.enumeration { name := "Side", options := .ofList ["left", "right"] }),
    .add "list.hxx" "" (.constant { name := "LIMIT", value := "4" })]

/-- A table with the constant first. -/
def constantFirst : Table := Table.empty.applyAll sampleEdits.reverse

/-- A table with the enumeration first. -/
def enumerationFirst : Table := Table.empty.applyAll sampleEdits

theorem built_sampleEdits : ∀ edit ∈ sampleEdits, edit.Built := by
  have canonical : ∀ scope ∈ ["base", ""], canonicalScope (canonicalScope scope) =
      canonicalScope scope := by decide
  simp only [sampleEdits, List.forall_mem_cons, List.not_mem_nil, false_implies, implies_true,
    and_true] at canonical ⊢
  exact ⟨⟨canonical.1, trivial⟩, ⟨canonical.2, trivial⟩⟩

/-- What a cache gives back can be had from a tree without files. -/
theorem load_of_restores {format : Format} {table loaded : Table}
    (restores : Restores format table loaded) :
    ∃ saved, save format table "cache" {} = .ok () saved ∧
      load format .ignore "cache" saved = .ok loaded := by
  have hasRoom : HasRoom format { entries := [(["cache"], .folder)] } "cache" := by
    cases format <;> decide
  obtain ⟨saved, saves, loads⟩ := restores "cache" {} _ (by decide) rfl hasRoom
  exact ⟨saved, saves, loads .ignore⟩

/-- With the constant first, the files are the same. -/
theorem emit_of_caches_sample :
    constantFirst.Built ∧ HasPlainMethodNames constantFirst ∧
      (∀ header ∈ constantFirst.headerList, header.scopesByKind = header.scopes.values) ∧
      ∃ savedData savedSource fromData fromSource,
        save .data constantFirst "cache" {} = .ok () savedData ∧
        load .data .ignore "cache" savedData = .ok fromData ∧
        save .source constantFirst "cache" {} = .ok () savedSource ∧
        load .source .ignore "cache" savedSource = .ok fromSource ∧
        ∀ templates options,
          emit templates options fromData = emit templates options fromSource := by
  have built : constantFirst.Built := Table.Built.empty.applyAll fun edit isEdit =>
    built_sampleEdits edit (List.mem_reverse.mp isEdit)
  have plain : HasPlainMethodNames constantFirst := by decide +kernel
  have ordered : ∀ header ∈ constantFirst.headerList, header.scopes.values.Pairwise fun a b =>
      firstPass (ElementKind.all.map fun kind (scope : Scope) => scope.has kind) a ≤
        firstPass (ElementKind.all.map fun kind (scope : Scope) => scope.has kind) b := by
    decide +kernel
  have byKind : ∀ header ∈ constantFirst.headerList, header.scopesByKind = header.scopes.values :=
    fun header isHeader => (arrange_eq_self_iff _ _).mpr (ordered header isHeader)
  obtain ⟨fromData, fromSource, data, source, _, _, same, _⟩ := emit_of_caches built plain
  obtain ⟨savedData, savesData, loadsData⟩ := load_of_restores data
  obtain ⟨savedSource, savesSource, loadsSource⟩ := load_of_restores source
  exact ⟨built, plain, byKind, savedData, savedSource, fromData, fromSource, savesData, loadsData,
    savesSource, loadsSource, same byKind⟩

/-- With the enumeration first, the files are not the same. -/
theorem emit_of_caches_differs :
    enumerationFirst.Built ∧ HasPlainMethodNames enumerationFirst ∧
      ∃ savedData savedSource fromData fromSource,
        save .data enumerationFirst "cache" {} = .ok () savedData ∧
        load .data .ignore "cache" savedData = .ok fromData ∧
        save .source enumerationFirst "cache" {} = .ok () savedSource ∧
        load .source .ignore "cache" savedSource = .ok fromSource ∧
        emit (nameTemplates 4) {} fromData ≠ emit (nameTemplates 4) {} fromSource := by
  have built : enumerationFirst.Built := Table.Built.empty.applyAll built_sampleEdits
  have plain : HasPlainMethodNames enumerationFirst := by decide +kernel
  have sound := built.isSound
  obtain ⟨savedData, savesData, loadsData⟩ := load_of_restores (restores_data sound plain)
  obtain ⟨savedSource, savesSource, loadsSource⟩ := load_of_restores (restores_source sound)
  refine ⟨built, plain, savedData, savedSource, _, _, savesData, loadsData, savesSource,
    loadsSource, fun same => ?_⟩
  have enabled : enumerationFirst.enabledHeaders = enumerationFirst.headerList :=
    List.filter_eq_self.mpr (by decide +kernel)
  have short : ∀ header ∈ enumerationFirst.headerList, ∀ scope ∈ header.scopes.values,
      scope.name.toList.length ≤ 4 := by decide +kernel
  have byKind : ∀ header ∈ enumerationFirst.headerList,
      header.scopesByKind.map Scope.name = header.scopes.values.map Scope.name := by
    intro header isHeader
    rw [byKind_of_emit_eq sound (enabled ▸ isHeader) (short header isHeader) same]
  exact absurd byKind (by decide +kernel)

end Bindery.Wrapper
