import Mathlib.Data.Nat.ModEq
import Mathlib.Dynamics.PeriodicPts.Defs

/-!
# The next element in cyclic order

Positions below `n` in cyclic order, some of which are marked. The next marked position after one is
the first that is met going up from it, and the previous one is that from which it is the next. A
marked position is the previous one of its next (`IsNext.isPrev`), both are unique
(`IsNext.unique`, `IsPrev.unique`), and going on from one marked position to the next meets every
marked position before the first one comes again (`exists_period`).
-/

namespace RvvmHal.Cyclic

variable {n : ℕ} {p : ℕ → Prop} {i i' j j' k k' : ℕ}

/-- `j` is `k` steps above `i`, and nothing between them is marked. -/
def Gap (n : ℕ) (p : ℕ → Prop) (i j k : ℕ) : Prop :=
  0 < k ∧ (i + k) % n = j ∧ ∀ d, 0 < d → d < k → ¬ p ((i + d) % n)

/-- `j` is the next marked position after `i`. -/
def IsNext (n : ℕ) (p : ℕ → Prop) (i j : ℕ) : Prop := p j ∧ ∃ k, Gap n p i j k

/-- `i` is the previous marked position before `j`. -/
def IsPrev (n : ℕ) (p : ℕ → Prop) (j i : ℕ) : Prop := p i ∧ i < n ∧ ∃ k, Gap n p i j k

theorem IsNext.isPrev (h : IsNext n p i j) (hi : i < n) (hp : p i) : IsPrev n p j i :=
  ⟨hp, hi, h.2⟩

theorem IsPrev.isNext (h : IsPrev n p j i) (hp : p j) : IsNext n p i j := ⟨hp, h.2.2⟩

/-- From above it is not nearer. -/
theorem Gap.le_of_marked (h : Gap n p i j k) (hk : 0 < k') (hp : p ((i + k') % n)) : k ≤ k' :=
  Nat.le_of_not_lt fun hlt => h.2.2 k' hk hlt hp

theorem IsNext.unique (h : IsNext n p i j) (h' : IsNext n p i j') : j = j' := by
  obtain ⟨hp, k, hk⟩ := h
  obtain ⟨hp', k', hk'⟩ := h'
  have hle : k ≤ k' := hk.le_of_marked hk'.1 (hk'.2.1.symm ▸ hp')
  have hle' : k' ≤ k := hk'.le_of_marked hk.1 (hk.2.1.symm ▸ hp)
  rw [← hk.2.1, ← hk'.2.1, Nat.le_antisymm hle hle']

/-- The nearer of two positions below is between the other one and `j`. -/
theorem Gap.le_of_marked_below (h : Gap n p i j k) (h' : Gap n p i' j k') (hi' : i' < n)
    (hp : p i') : k ≤ k' := by
  refine Nat.le_of_not_lt fun hlt => h.2.2 (k - k') (Nat.sub_pos_of_lt hlt) (Nat.sub_lt h.1 h'.1) ?_
  have hmod : i + (k - k') ≡ i' [MOD n] := by
    refine Nat.ModEq.add_right_cancel' k' ?_
    rw [Nat.add_assoc, Nat.sub_add_cancel (Nat.le_of_lt hlt)]
    exact h.2.1.trans h'.2.1.symm
  rwa [hmod, Nat.mod_eq_of_lt hi']

theorem IsPrev.unique (h : IsPrev n p j i) (h' : IsPrev n p j i') : i = i' := by
  obtain ⟨hp, hi, k, hk⟩ := h
  obtain ⟨hp', hi', k', hk'⟩ := h'
  obtain rfl : k = k' :=
    Nat.le_antisymm (hk.le_of_marked_below hk' hi' hp') (hk'.le_of_marked_below hk hi hp)
  have hmod : i ≡ i' [MOD n] := Nat.ModEq.add_right_cancel' k (hk.2.1.trans hk'.2.1.symm)
  rwa [Nat.ModEq, Nat.mod_eq_of_lt hi, Nat.mod_eq_of_lt hi'] at hmod

/-! ## Going around -/

/-- Every position is above every other one. -/
theorem exists_add_mod (i : ℕ) (hj : j < n) : ∃ d < n, (i + d) % n = j := by
  have hn : 0 < n := Nat.zero_lt_of_lt hj
  have hi := Nat.mod_lt i hn
  refine ⟨(n - i % n + j) % n, Nat.mod_lt _ hn, ?_⟩
  rw [Nat.add_mod_mod, ← Nat.mod_add_mod, ← Nat.add_assoc, Nat.add_sub_cancel' (Nat.le_of_lt hi),
    Nat.add_mod_left, Nat.mod_eq_of_lt hj]

section

variable {next : ℕ → ℕ}

/-- Every marked position is met. -/
theorem exists_iterate (hnext : ∀ i, i < n → p i → IsNext n p i (next i)) (hi : i < n) (hp : p i)
    (hj : j < n) (hpj : p j) : ∃ m, next^[m] i = j := by
  -- by how far `j` is above `i`
  obtain ⟨d, -, hd⟩ := exists_add_mod i hj
  induction d using Nat.strong_induction_on generalizing i with
  | _ d ih =>
    rcases Nat.eq_zero_or_pos d with rfl | hpos
    · exact ⟨0, by rw [← hd, Nat.add_zero, Nat.mod_eq_of_lt hi]; rfl⟩
    obtain ⟨hpn, k, hk⟩ := hnext i hi hp
    have hle := hk.le_of_marked hpos (hd.symm ▸ hpj)
    have hlt : next i < n := hk.2.1 ▸ Nat.mod_lt _ (by omega)
    obtain ⟨m, hm⟩ := ih (d - k) (by have := hk.1; omega) hlt hpn (by
      rw [← hk.2.1, Nat.mod_add_mod, Nat.add_assoc, Nat.add_sub_cancel' hle, hd])
    exact ⟨m + 1, hm⟩

/-- **Going around**: from a marked position all marked positions are met before it comes again,
each once. -/
theorem exists_period (hnext : ∀ i, i < n → p i → IsNext n p i (next i)) (hi : i < n)
    (hp : p i) : ∃ m, 0 < m ∧ next^[m] i = i ∧
      (∀ a < m, ∀ b < m, next^[a] i = next^[b] i → a = b) ∧
      ∀ j < n, p j → ∃ a < m, next^[a] i = j := by
  obtain ⟨hpn, k, hk⟩ := hnext i hi hp
  have hlt : next i < n := hk.2.1 ▸ Nat.mod_lt _ (by omega)
  obtain ⟨m, hm⟩ := exists_iterate hnext hlt hpn hi hp
  have hpos : 0 < Function.minimalPeriod next i :=
    Function.IsPeriodicPt.minimalPeriod_pos (Nat.succ_pos m) hm
  refine ⟨_, hpos, Function.iterate_minimalPeriod, fun a ha b hb => ?_, fun j hj hpj => ?_⟩
  · exact (Function.iterate_eq_iterate_iff_of_lt_minimalPeriod ha hb).1
  · obtain ⟨a, ha⟩ := exists_iterate hnext hi hp hj hpj
    exact ⟨_, Nat.mod_lt a hpos, Function.iterate_mod_minimalPeriod_eq.trans ha⟩

end

end RvvmHal.Cyclic
