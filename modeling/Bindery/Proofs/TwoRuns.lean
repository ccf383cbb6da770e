/-
**Two computations side by side.**

Two loaders that read almost the same files take almost the same steps. What relates their states is
carried along from step to step, in a weak and in a strong form.

* `Agrees` — where both return, the results are related.
* `Follows` — where the first returns, the second does too, with a related result.
* `Matches` — both return, with related results, or neither does.
* `Agrees.foldlM`, `Follows.foldlM`, `Matches.foldlM` — two lists of steps that are compared one by
  one.
-/

import Mathlib.Data.List.Forall2
import Bindery.Proofs.Returns

namespace Bindery

variable {ε δ α β σ τ : Type}

/-- Where both computations return, the results are related. -/
def Agrees (related : σ → τ → Prop) (first : Except ε σ) (second : Except δ τ) : Prop :=
  Returns (fun result => Returns (related result) second) first

/-- Where the first computation returns, the second does too, with a related result. -/
def Follows (related : σ → τ → Prop) (first : Except ε σ) (second : Except δ τ) : Prop :=
  Returns (fun result => ∃ other, second = .ok other ∧ related result other) first

/-- Both computations return, with related results, or neither does. -/
def Matches (related : σ → τ → Prop) (first : Except ε σ) (second : Except δ τ) : Prop :=
  Follows related first second ∧ Follows (fun result other => related other result) second first

variable {related : σ → τ → Prop} {step : σ → α → Except ε σ} {otherStep : τ → β → Except δ τ}
  {items : List α} {others : List β} {state : σ} {other : τ}

theorem Follows.agrees {first : Except ε σ} {second : Except δ τ}
    (follows : Follows related first second) : Agrees related first second := by
  intro result isResult otherResult isOther
  obtain ⟨found, isFound, isRelated⟩ := follows result isResult
  exact Except.ok.inj (isOther.symm.trans isFound) ▸ isRelated

/-- Steps that agree one by one agree together. -/
theorem Agrees.foldlM (isRelated : related state other)
    (each : List.Forall₂ (fun item otherItem => ∀ state other, related state other →
      Agrees related (step state item) (otherStep other otherItem)) items others) :
    Agrees related (items.foldlM step state) (others.foldlM otherStep other) := by
  induction each generalizing state other with
  | nil => exact .ok (.ok isRelated)
  | cons first _ ih =>
    rw [List.foldlM_cons, List.foldlM_cons]
    refine .bind (first state other isRelated) fun next agrees => ?_
    intro result isResult
    exact .bind agrees fun otherNext isNext => ih isNext result isResult

/-- Steps that follow one by one follow together. -/
theorem Follows.foldlM (isRelated : related state other)
    (each : List.Forall₂ (fun item otherItem => ∀ state other, related state other →
      Follows related (step state item) (otherStep other otherItem)) items others) :
    Follows related (items.foldlM step state) (others.foldlM otherStep other) := by
  induction each generalizing state other with
  | nil => exact .ok ⟨other, rfl, isRelated⟩
  | cons first _ ih =>
    rw [List.foldlM_cons, List.foldlM_cons]
    refine .bind (first state other isRelated) fun next follows => ?_
    obtain ⟨otherNext, isNext, nextRelated⟩ := follows
    rw [isNext]
    exact ih nextRelated

namespace Matches

theorem ok {result : σ} {otherResult : τ} (isRelated : related result otherResult) :
    Matches related (.ok result : Except ε σ) (.ok otherResult : Except δ τ) :=
  ⟨.ok ⟨otherResult, rfl, isRelated⟩, .ok ⟨result, rfl, isRelated⟩⟩

theorem error (failure : ε) (otherFailure : δ) :
    Matches related (.error failure : Except ε σ) (.error otherFailure : Except δ τ) :=
  ⟨.error failure, .error otherFailure⟩

/-- Steps that match one by one match together. -/
theorem foldlM (isRelated : related state other)
    (each : List.Forall₂ (fun item otherItem => ∀ state other, related state other →
      Matches related (step state item) (otherStep other otherItem)) items others) :
    Matches related (items.foldlM step state) (others.foldlM otherStep other) := by
  refine ⟨.foldlM isRelated (each.imp fun item otherItem isMatch state other isRelated =>
    (isMatch state other isRelated).1), .foldlM isRelated (each.flip.imp ?_)⟩
  exact fun otherItem item isMatch other state isRelated => (isMatch state other isRelated).2

/-- Either both computations fail, or both return. -/
theorem cases {first : Except ε σ} {second : Except δ τ} (isMatch : Matches related first second) :
    (∃ failure otherFailure, first = .error failure ∧ second = .error otherFailure) ∨
      ∃ result otherResult, first = .ok result ∧ second = .ok otherResult ∧
        related result otherResult := by
  cases first with
  | ok result =>
    obtain ⟨otherResult, isOther, isRelated⟩ := isMatch.1 result rfl
    exact .inr ⟨result, otherResult, rfl, isOther, isRelated⟩
  | error failure =>
    cases second with
    | error otherFailure => exact .inl ⟨failure, otherFailure, rfl, rfl⟩
    | ok otherResult =>
      obtain ⟨_, isOk, _⟩ := isMatch.2 otherResult rfl
      cases isOk

end Matches

end Bindery
