import Mathlib.Logic.Relation
import Mathlib.Tactic.Common

/-!
# Traces of calls

A component is called, replies and goes on in another state: `step s a r s'`. A trace is the list of
the calls of a run with their replies. If every step of one component is a step of another with the
same call and reply, as seen through a relation of their states, then every trace of the one is a
trace of the other (`Trace.forward`).
-/

namespace RvvmHal

variable {σ τ α β : Type*}

/-- The runs of a component, by their calls and replies. -/
inductive Trace (step : σ → α → β → σ → Prop) : σ → List (α × β) → σ → Prop
  | nil (s : σ) : Trace step s [] s
  | cons {s s₁ s' : σ} {a : α} {r : β} {tr : List (α × β)} (head : step s a r s₁)
    (tail : Trace step s₁ tr s') : Trace step s ((a, r) :: tr) s'

namespace Trace

variable {step : σ → α → β → σ → Prop} {step' : τ → α → β → τ → Prop} {R : σ → τ → Prop}

/-- **Forward simulation.** -/
theorem forward (hstep : ∀ {s t a r s'}, R s t → step s a r s' → ∃ t', step' t a r t' ∧ R s' t')
    {s s' : σ} {t : τ} {tr : List (α × β)} (h : Trace step s tr s') (hR : R s t) :
    ∃ t', Trace step' t tr t' ∧ R s' t' := by
  induction h generalizing t with
  | nil s => exact ⟨t, .nil t, hR⟩
  | cons head _ ih =>
    obtain ⟨t₁, hstep', hR₁⟩ := hstep hR head
    obtain ⟨t', htail, hR'⟩ := ih hR₁
    exact ⟨t', .cons hstep' htail, hR'⟩

end Trace

end RvvmHal
