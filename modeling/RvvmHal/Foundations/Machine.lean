import Mathlib.Data.List.Basic
import Mathlib.Tactic.Common

/-!
# Labelled machines

A machine has an initial state and a partial step for each label; a step that is not enabled gives
`none`. `run` is the execution of a list of labels. A state is reachable by steps that meet `ok` if
some run whose steps all meet `ok` ends in it; invariants are proved once, by
`ReachableBy.invariant`, and moved from one machine to another along a simulation, by
`Reachable.map`. `Along` says a property of each step of a run; two properties that agree on the
steps are the same property of runs (`along_congr`).
-/

namespace RvvmHal

/-- A machine with states `σ` and labels `α`. -/
structure Machine (σ α : Type*) where
  init : σ
  step : α → σ → Option σ

namespace Machine

variable {σ α τ β : Type*} (M : Machine σ α)

/-- The execution of a list of labels. -/
def run : List α → σ → Option σ
  | [], s => some s
  | a :: as, s => (M.step a s).bind (run as)

/-- The states reached by runs whose steps all meet `ok`. -/
inductive ReachableBy (ok : α → σ → Prop) : σ → Prop
  | init : ReachableBy ok M.init
  | step {s s' : σ} {a : α} : ReachableBy ok s → ok a s → M.step a s = some s' → ReachableBy ok s'

/-- The states reached by any run. -/
abbrev Reachable : σ → Prop := M.ReachableBy fun _ _ => True

variable {M}

@[simp] theorem run_cons (a : α) (as : List α) (s : σ) :
    M.run (a :: as) s = (M.step a s).bind (M.run as) := rfl

/-- Repeating a label along a family of states. -/
theorem run_replicate (f : ℕ → σ) (a : α) (n k : ℕ)
    (h : ∀ i, k ≤ i → i < k + n → M.step a (f i) = some (f (i + 1))) :
    M.run (List.replicate n a) (f k) = some (f (k + n)) := by
  induction n generalizing k with
  | zero => rfl
  | succ n ih =>
    rw [List.replicate_succ, run_cons, h k (Nat.le_refl k) (by omega), Option.bind_some,
      ih (k + 1) fun i h₁ h₂ => h i (by omega) (by omega), Nat.add_right_comm, Nat.add_assoc]

/-- **Invariant rule.** -/
theorem ReachableBy.invariant {ok : α → σ → Prop} {I : σ → Prop} (hinit : I M.init)
    (hstep : ∀ {s s' : σ} {a : α}, I s → ok a s → M.step a s = some s' → I s') {s : σ}
    (h : M.ReachableBy ok s) : I s := by
  induction h with
  | init => exact hinit
  | step _ hok hs ih => exact hstep ih hok hs

theorem ReachableBy.mono {ok ok' : α → σ → Prop} (hok : ∀ a s, ok a s → ok' a s) {s : σ}
    (h : M.ReachableBy ok s) : M.ReachableBy ok' s := by
  induction h with
  | init => exact .init
  | step _ h hs ih => exact .step ih (hok _ _ h) hs

/-- A run from a reachable state, by labels that always meet `ok`, ends in a reachable state. -/
theorem ReachableBy.of_run {ok : α → σ → Prop} {as : List α} {s s' : σ} (h : M.ReachableBy ok s)
    (hok : ∀ a ∈ as, ∀ t, ok a t) (hrun : M.run as s = some s') : M.ReachableBy ok s' := by
  induction as generalizing s with
  | nil => exact Option.some.inj hrun ▸ h
  | cons a as ih =>
    obtain ⟨t, ht, hrun⟩ := Option.bind_eq_some_iff.1 hrun
    exact ih (.step h (hok a List.mem_cons_self s) ht)
      (fun b hb => hok b (List.mem_cons_of_mem a hb)) hrun

/-- The execution of a list of labels as long as they meet `ok`. -/
def runBy (M : Machine σ α) (ok : α → σ → Prop) [∀ a s, Decidable (ok a s)] :
    List α → σ → Option σ
  | [], s => some s
  | a :: as, s => if ok a s then (M.step a s).bind (M.runBy ok as) else none

/-- A run that has been executed so ends in a state that is reachable so. -/
theorem ReachableBy.of_runBy {ok : α → σ → Prop} [∀ a s, Decidable (ok a s)] {as : List α}
    {s s' : σ} (h : M.ReachableBy ok s) (hrun : M.runBy ok as s = some s') :
    M.ReachableBy ok s' := by
  induction as generalizing s with
  | nil => exact Option.some.inj hrun ▸ h
  | cons a as ih =>
    obtain ⟨hok, hrun⟩ := Option.ite_none_right_eq_some.1 hrun
    obtain ⟨t, ht, hrun⟩ := Option.bind_eq_some_iff.1 hrun
    exact ih (.step h hok ht) hrun

/-- **Progress rule**: if no step increases a measure, and the steps with one label decrease it,
then it is zero after a run in which that label comes often enough. -/
theorem run_eq_zero_of_count [DecidableEq α] {I : σ → Prop} (m : σ → ℕ) (a : α)
    (hstep : ∀ {s s' : σ} {b : α}, I s → M.step b s = some s' →
      I s' ∧ m s' ≤ m s ∧ (b = a → m s' ≤ m s - 1)) {as : List α} {s s' : σ} (hI : I s)
    (hrun : M.run as s = some s') (hcount : m s ≤ as.count a) : I s' ∧ m s' = 0 := by
  induction as generalizing s with
  | nil =>
    obtain rfl := Option.some.inj hrun
    exact ⟨hI, Nat.le_zero.1 hcount⟩
  | cons b as ih =>
    obtain ⟨t, ht, hrun⟩ := Option.bind_eq_some_iff.1 hrun
    obtain ⟨hIt, hle, hdec⟩ := hstep hI ht
    refine ih hIt hrun ?_
    by_cases hb : b = a
    · have hlt := hdec hb
      rw [hb, List.count_cons_self] at hcount
      omega
    · rw [List.count_cons_of_ne hb] at hcount
      exact Nat.le_trans hle hcount

theorem reachable_of_run {as : List α} {s : σ} (hrun : M.run as M.init = some s) :
    M.Reachable s := ReachableBy.init.of_run (fun _ _ _ => trivial) hrun

/-! ### Properties of the steps of a run -/

/-- `P` holds of each step of the run of a list of labels, as far as it goes. -/
def Along (M : Machine σ α) (P : σ → α → σ → Prop) : List α → σ → Prop
  | [], _ => True
  | a :: as, s => ∀ s', M.step a s = some s' → P s a s' ∧ M.Along P as s'

/-- **Agreement rule**: if `P` keeps an invariant, and says the same as `Q` while it holds, then the
runs of `P` are the runs of `Q`. -/
theorem along_congr {P Q : σ → α → σ → Prop} {I : σ → Prop}
    (hagree : ∀ {s s' : σ} {a : α}, I s → M.step a s = some s' → (P s a s' ↔ Q s a s'))
    (hkeep : ∀ {s s' : σ} {a : α}, I s → M.step a s = some s' → P s a s' → I s')
    (as : List α) {s : σ} (hI : I s) : M.Along P as s ↔ M.Along Q as s := by
  induction as generalizing s with
  | nil => exact Iff.rfl
  | cons a as ih =>
    refine forall_congr' fun s' => forall_congr' fun hs => ?_
    rw [← hagree hI hs]
    exact and_congr_right fun hP => ih (hkeep hI hs hP)

/-- A step at the end of a run. -/
theorem Along.last {P : σ → α → σ → Prop} {as : List α} {a : α} {s t t' : σ}
    (h : M.Along P (as ++ [a]) s) (hrun : M.run as s = some t) (hs : M.step a t = some t') :
    P t a t' := by
  induction as generalizing s with
  | nil =>
    obtain rfl := Option.some.inj hrun
    exact (h t' hs).1
  | cons b as ih =>
    obtain ⟨u, hu, hrun⟩ := Option.bind_eq_some_iff.1 hrun
    exact ih (h u hu).2 hrun

/-- **Simulation**: if every step of `M` is, seen through `f`, a step of `N` or none at all, then
`f` takes reachable states of `M` to reachable states of `N`. -/
theorem Reachable.map {N : Machine τ β} (f : σ → τ) (hinit : f M.init = N.init)
    (hstep : ∀ {s s' : σ} {a : α}, M.step a s = some s' →
      f s' = f s ∨ ∃ b, N.step b (f s) = some (f s')) {s : σ}
    (h : M.Reachable s) : N.Reachable (f s) := by
  induction h with
  | init => exact hinit ▸ .init
  | step _ _ hs ih =>
    rcases hstep hs with he | ⟨b, hb⟩
    · exact he ▸ ih
    · exact .step ih trivial hb

end Machine

end RvvmHal
