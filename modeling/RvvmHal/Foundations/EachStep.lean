import Mathlib.Data.List.Basic
import Mathlib.Data.List.Induction
import Mathlib.Tactic.Common

/-!
# Properties of the steps of a run

A run is a list of calls. `EachStep P calls` says that `P` holds of each call and of the calls
before it. Two properties of the steps that agree as long as neither has failed are the same
property of runs (`eachStep_congr`): this is how a property of all calls is traced to a condition on
them.
-/

namespace RvvmHal

variable {α : Type*} {P Q : List α → α → Prop} {I : List α → Prop} {calls past : List α} {a : α}

/-- `P` holds of each call of a run, with the calls that came before. -/
def EachStep (P : List α → α → Prop) (calls : List α) : Prop :=
  ∀ past a, past ++ [a] <+: calls → P past a

theorem eachStep_nil : EachStep P [] := by
  intro past a h
  simp at h

theorem eachStep_concat : EachStep P (calls ++ [a]) ↔ EachStep P calls ∧ P calls a := by
  constructor
  · intro h
    refine ⟨fun past b hb => h past b (hb.trans (List.prefix_append ..)), h calls a ?_⟩
    exact List.prefix_rfl
  · rintro ⟨h, ha⟩ past b hb
    rcases List.prefix_concat_iff.1 hb with heq | hb
    · obtain ⟨rfl, hab⟩ := List.append_inj' heq rfl
      obtain rfl := List.singleton_inj.1 hab
      exact ha
    · exact h past b hb

theorem eachStep_singleton : EachStep P [a] ↔ P [] a := by
  rw [← List.nil_append [a], eachStep_concat]
  exact and_iff_right eachStep_nil

/-- **Agreement rule**: if `P` keeps an invariant, and says the same as `Q` while it holds, then the
runs of `P` are the runs of `Q`, and the invariant holds at their ends. -/
theorem eachStep_congr (hnil : I []) (hagree : ∀ past a, I past → (P past a ↔ Q past a))
    (hkeep : ∀ past a, I past → P past a → I (past ++ [a])) (calls : List α) :
    (EachStep P calls ↔ EachStep Q calls) ∧ (EachStep P calls → I calls) := by
  induction calls using List.reverseRecOn with
  | nil => exact ⟨iff_of_true eachStep_nil eachStep_nil, fun _ => hnil⟩
  | append_singleton calls a ih =>
    obtain ⟨hiff, hinv⟩ := ih
    rw [eachStep_concat, eachStep_concat]
    constructor
    · rw [← hiff]
      exact and_congr_right fun h => hagree calls a (hinv h)
    · rintro ⟨h, ha⟩
      exact hkeep calls a (hinv h) ha

end RvvmHal
