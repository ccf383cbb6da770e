/-
**What a computation returns, if it returns.**

A loader may fail at every step. Where every step is known to succeed, so does the whole. Elsewhere
what is to be shown of the result is carried along from step to step and is void where the loader
fails.

* `exists_of_isOk`, `eq_error_of_failure?` — how a single computation ends, once that is seen.
* `foldlM_keeps`, `exists_foldlM_seen` — steps that succeed, one after the other.
* `Returns` — every value that a computation returns has a property.
* `Returns.bind`, `Returns.foldlM`, `Returns.mapM` — the rule for each way of composing steps.
* `Ends` — the same of the value or of the failure, whichever the computation ends with.
-/

namespace Bindery

/-! ### How a computation ends -/

/-- Without its failure, a computation has the value that it returns. -/
theorem toOption_eq_some_iff {ε α : Type} {result : Except ε α} {value : α} :
    result.toOption = some value ↔ result = .ok value := by
  cases result <;> simp [Except.toOption]

/-- A computation that is seen to succeed returns a value. -/
theorem exists_of_isOk {ε α : Type} {result : Except ε α} (isOk : result.isOk = true) :
    ∃ value, result = .ok value := by
  cases result with
  | error failure => cases isOk
  | ok value => exact ⟨value, rfl⟩

/-- The failure with which a computation ends, if it fails. -/
def failure? {ε α : Type} : Except ε α → Option ε
  | .ok _ => none
  | .error failure => some failure

/-- A computation that is seen to fail ends with the failure that is seen. -/
theorem eq_error_of_failure? {ε α : Type} {result : Except ε α} {failure : ε}
    (fails : failure? result = some failure) : result = .error failure := by
  cases result with
  | ok value => cases fails
  | error other => rw [Option.some.inj fails]

/-! ### Steps that succeed -/

section Steps

variable {ε σ α : Type} {step : σ → α → Except ε σ} {items : List α}

theorem foldlM_cons_of_ok {item : α} {state next : σ} (steps : step state item = .ok next)
    (rest : List α) :
    (item :: rest).foldlM step state = rest.foldlM step next := by
  rw [List.foldlM_cons, steps]
  rfl

/-- Steps that succeed where an invariant holds, and keep it. -/
theorem foldlM_keeps {next : σ → α → σ} {inv : σ → Prop}
    (each : ∀ item ∈ items, ∀ state, inv state →
      step state item = .ok (next state item) ∧ inv (next state item))
    {state : σ} (holds : inv state) :
    items.foldlM step state = .ok (items.foldl next state) ∧ inv (items.foldl next state) := by
  induction items generalizing state with
  | nil => exact ⟨rfl, holds⟩
  | cons item rest ih =>
    obtain ⟨steps, kept⟩ := each item (List.mem_cons_self ..) state holds
    rw [foldlM_cons_of_ok steps, List.foldl_cons]
    exact ih (fun other isLater => each other (List.mem_cons_of_mem _ isLater)) kept

/-- Steps that succeed, one after the other. -/
theorem foldlM_eq_ok {next : σ → α → σ}
    (each : ∀ item ∈ items, ∀ state, step state item = .ok (next state item)) (state : σ) :
    items.foldlM step state = .ok (items.foldl next state) :=
  (@foldlM_keeps _ _ _ _ _ _ (fun _ => True)
    (fun item isIn state _ => ⟨each item isIn state, trivial⟩) _ trivial).1

/-- Steps that succeed from every state succeed one after the other. -/
theorem exists_foldlM_eq_ok
    (each : ∀ item ∈ items, ∀ state, ∃ next, step state item = .ok next) (state : σ) :
    ∃ last, items.foldlM step state = .ok last := by
  induction items generalizing state with
  | nil => exact ⟨state, rfl⟩
  | cons item rest ih =>
    rw [List.forall_mem_cons] at each
    obtain ⟨next, steps⟩ := each.1 state
    rw [foldlM_cons_of_ok steps]
    exact ih each.2 next

/-- Steps succeed together if each succeeds where it is ready, and leaves the others ready. What is
seen of the last state is what the steps do to what was seen of the first. -/
theorem exists_foldlM_seen {τ : Type} (see : σ → τ) {effect : τ → α → τ} (ready : τ → α → Prop)
    (each : ∀ state item, ready (see state) item →
      ∃ next, step state item = .ok next ∧ see next = effect (see state) item)
    (kept : ∀ seen item other, ready seen item → ready seen other → ready (effect seen item) other)
    (state : σ) (areReady : ∀ item ∈ items, ready (see state) item) :
    ∃ last, items.foldlM step state = .ok last ∧ see last = items.foldl effect (see state) := by
  induction items generalizing state with
  | nil => exact ⟨state, rfl, rfl⟩
  | cons item rest ih =>
    rw [List.forall_mem_cons] at areReady
    obtain ⟨next, steps, sees⟩ := each state item areReady.1
    have readyNext : ∀ other ∈ rest, ready (see next) other := fun other isOther => by
      rw [sees]
      exact kept _ item other areReady.1 (areReady.2 other isOther)
    obtain ⟨last, runs, seesLast⟩ := ih next readyNext
    refine ⟨last, ?_, ?_⟩
    · rw [foldlM_cons_of_ok steps, runs]
    · rw [seesLast, sees, List.foldl_cons]

end Steps

/-! ### What holds of the end -/

/-- Every value that a computation returns has a property. -/
def Returns {ε α : Type} (property : α → Prop) (result : Except ε α) : Prop :=
  ∀ value, result = .ok value → property value

namespace Returns

variable {ε δ α β σ : Type} {property : α → Prop} {target : β → Prop}

theorem ok {value : α} (holds : property value) :
    Returns property (.ok value : Except ε α) :=
  fun _ isValue => Except.ok.inj isValue ▸ holds

theorem error (failure : ε) : Returns property (.error failure : Except ε α) := nofun

theorem bind {first : Except ε α} {next : α → Except ε β} (ofFirst : Returns property first)
    (ofNext : ∀ value, property value → Returns target (next value)) :
    Returns target (first >>= next) := by
  cases first with
  | error failure => exact error failure
  | ok value => exact ofNext value (ofFirst value rfl)

/-- Of a first step nothing needs to be known that the rest does not rely on. -/
theorem bind_any {first : Except ε α} {next : α → Except ε β}
    (ofNext : ∀ value, Returns target (next value)) : Returns target (first >>= next) := by
  cases first with
  | error failure => exact error failure
  | ok value => exact ofNext value

theorem mapError {result : Except ε α} (returns : Returns property result) (change : ε → δ) :
    Returns property (result.mapError change) := by
  cases result with
  | error failure => exact error _
  | ok value => exact ok (returns value rfl)

/-- A property that every step keeps holds behind all steps. -/
theorem foldlM {invariant : σ → Prop} {step : σ → α → Except ε σ} {items : List α} {state : σ}
    (holds : invariant state)
    (kept : ∀ item ∈ items, ∀ state, invariant state → Returns invariant (step state item)) :
    Returns invariant (items.foldlM step state) := by
  induction items generalizing state with
  | nil => exact ok holds
  | cons item rest ih =>
    rw [List.forall_mem_cons] at kept
    rw [List.foldlM_cons]
    exact bind (kept.1 state holds) fun next holdsNext => ih holdsNext kept.2

theorem mapM {step : α → Except ε β} {items : List α}
    (each : ∀ item ∈ items, Returns target (step item)) :
    Returns (∀ result ∈ ·, target result) (items.mapM step) := by
  induction items with
  | nil => exact ok (by simp)
  | cons item rest ih =>
    rw [List.forall_mem_cons] at each
    rw [List.mapM_cons]
    refine bind each.1 fun result isTarget => bind (ih each.2) fun results areTarget => ok ?_
    exact List.forall_mem_cons.mpr ⟨isTarget, areTarget⟩

end Returns

/-- The value that a computation returns has one property, or its failure the other. -/
def Ends {ε α : Type} (returned : α → Prop) (failed : ε → Prop) : Except ε α → Prop
  | .ok value => returned value
  | .error failure => failed failure

namespace Ends

variable {ε δ α β : Type} {returned : α → Prop} {failed : ε → Prop} {target : β → Prop}

theorem imp {wider : α → Prop} {worse : ε → Prop} {result : Except ε α}
    (ends : Ends returned failed result) (ofValue : ∀ value, returned value → wider value)
    (ofFailure : ∀ failure, failed failure → worse failure) : Ends wider worse result := by
  cases result with
  | error failure => exact ofFailure failure ends
  | ok value => exact ofValue value ends

theorem bind {first : Except ε α} {next : α → Except ε β} (ofFirst : Ends returned failed first)
    (ofNext : ∀ value, returned value → Ends target failed (next value)) :
    Ends target failed (first >>= next) := by
  cases first with
  | error failure => exact ofFirst
  | ok value => exact ofNext value ofFirst

theorem returns {result : Except ε α} (ends : Ends returned failed result) :
    Returns returned result := by
  cases result with
  | error failure => exact .error failure
  | ok value => exact .ok ends

end Ends

end Bindery
