import RvvmHal.Foundations.Reserved

/-!
# Compare and swap

`atomic_cas_u32` of `atomic.h`, instruction by instruction: a `lr.w` that finds another value ends
it, and a `sc.w` that fails is tried again up to 32 times. A result of true means that the word was
the expected one until it became the desired one (`atomicCas_cases`).
-/

namespace RvvmHal.Smp

/-- Where a hart is in `atomic_cas_u32`: before its `lr.w` or its `sc.w`. -/
inductive CasPc
  | lr (retries : ℕ)
  | sc (retries : ℕ)
  deriving DecidableEq

/-- An instruction of `atomic_cas_u32`: what it makes of the word, and the next place or the
result. -/
def atomicCas (expected desired h : ℕ) (stores : Bool) (c : Reserved) :
    CasPc → Reserved × (CasPc ⊕ Bool)
  | .lr retries => (c.lr h, if c.value ≠ expected then .inr false else .inl (.sc retries))
  | .sc retries =>
    let r := c.sc h desired stores
    (r.1, if r.2 then .inr true
      else if retries - 1 > 0 then .inl (.lr (retries - 1)) else .inr false)

variable {c : Reserved} {expected desired h h' v : ℕ} {stores : Bool} {pc : CasPc}

/-- What an instruction of the compare and swap does for its hart. -/
theorem atomicCas_cases (hlink : ∀ r, pc = .sc r → c.Linked h expected) :
    (c.value = expected ∧ (atomicCas expected desired h stores c pc).1.value = desired ∧
      (atomicCas expected desired h stores c pc).2 = .inr true) ∨
    ((atomicCas expected desired h stores c pc).1.value = c.value ∧
      ((atomicCas expected desired h stores c pc).2 = .inr false ∨
        (∃ r, (atomicCas expected desired h stores c pc).2 = .inl (.lr r)) ∨
        (∃ r, (atomicCas expected desired h stores c pc).2 = .inl (.sc r) ∧
          (atomicCas expected desired h stores c pc).1.Linked h expected))) := by
  cases pc with
  | lr r =>
    refine .inr ⟨rfl, ?_⟩
    dsimp only [atomicCas]
    by_cases hv : c.value = expected
    · rw [if_neg (not_not.2 hv)]
      exact .inr (.inr ⟨r, rfl, hv ▸ Reserved.linked_lr⟩)
    · rw [if_pos hv]
      exact .inl rfl
  | sc r =>
    dsimp only [atomicCas]
    cases hsc : (c.sc h desired stores).2 with
    | true =>
      obtain ⟨hv, hv'⟩ := (hlink r rfl).value_of_sc hsc
      exact .inl ⟨hv, hv', if_pos rfl⟩
    | false =>
      rcases c.sc_cases h desired stores with ⟨-, hok, -⟩ | ⟨-, hv, -⟩
      · rw [hok] at hsc
        cases hsc
      · refine .inr ⟨hv, ?_⟩
        rw [if_neg Bool.false_ne_true]
        split
        · exact .inr (.inl ⟨_, rfl⟩)
        · exact .inl rfl

/-- It leaves the reservations of the others alone, or takes them away. -/
theorem linked_atomicCas (hne : h' ≠ h) (hl : c.Linked h' v) :
    (atomicCas expected desired h stores c pc).1.Linked h' v := by
  cases pc with
  | lr r => exact hl.lr_of_ne hne
  | sc r => exact hl.sc_of_ne hne

end RvvmHal.Smp
