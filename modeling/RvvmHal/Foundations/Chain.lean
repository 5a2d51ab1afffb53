import Mathlib.Data.Finset.Card
import Mathlib.Data.Nat.Find
import Mathlib.Logic.Function.Iterate

/-!
# Chains

The chain of a function from a start is the start, its image, the image of that, and so on, as a
linked list is followed. A chain may come back to an element, and then goes round for ever; before
the first element with a property it does not (`First.injOn`). So that element is at a place less
than the number of elements there are (`First.lt_card`).
-/

namespace RvvmHal

/-- The element at place `k` of a chain is the first with a property. -/
structure Chain.First {α : Type*} (f : α → α) (a : α) (p : α → Prop) (k : ℕ) : Prop where
  hit : p (f^[k] a)
  before : ∀ i < k, ¬ p (f^[i] a)

namespace Chain

variable {α : Type*} {f : α → α} {a : α} {p : α → Prop} {k : ℕ}

/-- If the property holds somewhere on the chain, it holds somewhere first. -/
theorem exists_first (h : ∃ i, p (f^[i] a)) : ∃ k, First f a p k := by
  classical
  exact ⟨Nat.find h, Nat.find_spec h, fun _ hi => Nat.find_min h hi⟩

/-- A chain does not come back to an element before the first with the property: from there it would
have met that one already. -/
theorem First.injOn (h : First f a p k) : Set.InjOn (fun i => f^[i] a) (Set.Iic k) := by
  have hlt : ∀ i j, i < j → j ≤ k → f^[i] a ≠ f^[j] a := by
    intro i j hij hjk heq
    refine h.before (k - j + i) (by omega) ?_
    rw [Function.iterate_add_apply, heq, ← Function.iterate_add_apply, Nat.sub_add_cancel hjk]
    exact h.hit
  intro i hi j hj heq
  rcases Nat.lt_trichotomy i j with hij | hij | hij
  · exact absurd heq (hlt i j hij hj)
  · exact hij
  · exact absurd heq.symm (hlt j i hij hi)

/-- **Pigeonhole.** The first element with the property is at a place less than the number of
elements that the chain may have until there. -/
theorem First.lt_card (h : First f a p k) {S : Finset α} (hS : ∀ i ≤ k, f^[i] a ∈ S) : k < S.card := by
  have hle := Finset.card_le_card_of_injOn (s := Finset.range (k + 1)) (fun i => f^[i] a)
    (fun i hi => hS i (Nat.lt_succ_iff.1 (Finset.mem_range.1 hi)))
    (h.injOn.mono fun i hi => Nat.lt_succ_iff.1 (Finset.mem_range.1 hi))
  rwa [Finset.card_range] at hle

end Chain

end RvvmHal
