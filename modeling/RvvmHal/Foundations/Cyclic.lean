import Mathlib.Tactic.Common

/-!
# Windows of a ring

A ring of `n` slots is used by parties that count positions without bound; position `k` lies in
slot `k % n`. A window is the set of slots of the positions from `a` up to `b`. While a window is
no longer than the ring its positions have different slots (`pos_unique`, `slot_ne_of_lt`), so that
advancing one end of a window adds or removes exactly one slot.
-/

namespace RvvmHal.Cyclic

/-- Slot `i` is that of a position from `a` up to `b`. -/
def InWindow (n a b i : ℕ) : Prop := ∃ k, a ≤ k ∧ k < b ∧ k % n = i

variable {n a b i j k : ℕ}

/-- Positions less than a lap apart that share a slot are equal. -/
theorem pos_unique (hj : a ≤ j) (hj' : j < a + n) (hk : a ≤ k) (hk' : k < a + n)
    (h : j % n = k % n) : j = k := by
  have aux : ∀ {x y : ℕ}, x ≤ y → y - x < n → x % n = y % n → x = y := by
    intro x y hle hlt hmod
    have hzero := Nat.sub_mod_eq_zero_of_mod_eq hmod.symm
    rw [Nat.mod_eq_of_lt hlt] at hzero
    omega
  rcases Nat.le_total j k with hle | hle
  · exact aux hle (by omega) h
  · exact (aux hle (by omega) h.symm).symm

/-- Distinct positions less than a lap apart have distinct slots. -/
theorem slot_ne_of_lt (h : j < k) (hk : k < j + n) : j % n ≠ k % n := by
  intro heq
  have := pos_unique (Nat.le_refl j) (by omega) (Nat.le_of_lt h) hk heq
  omega

/-- The distance of two positions less than a lap apart is the one of their slots. -/
theorem slot_distance (h : a ≤ b) (hb : b < a + n) : (b % n + n - a % n) % n = b - a := by
  obtain ⟨d, rfl⟩ := Nat.exists_eq_add_of_le h
  have hd : d < n := by omega
  have hmod : a % n < n := Nat.mod_lt _ (by omega)
  rw [Nat.add_mod, Nat.mod_eq_of_lt hd, Nat.add_sub_cancel_left]
  by_cases hwrap : a % n + d < n
  · have hsum : a % n + d + n - a % n = d + n := by omega
    rw [Nat.mod_eq_of_lt hwrap, hsum, Nat.add_mod_right, Nat.mod_eq_of_lt hd]
  · have hlap : (a % n + d) % n = a % n + d - n := by
      rw [Nat.mod_eq_sub_mod (by omega), Nat.mod_eq_of_lt (by omega)]
    have hsum : a % n + d - n + n - a % n = d := by omega
    rw [hlap, hsum, Nat.mod_eq_of_lt hd]

@[simp] theorem not_inWindow_self : ¬ InWindow n a a i := by
  rintro ⟨k, h₁, h₂, -⟩
  omega

theorem inWindow_of_lt (h₁ : a ≤ k) (h₂ : k < b) : InWindow n a b (k % n) := ⟨k, h₁, h₂, rfl⟩

/-- A window as long as the ring covers it. -/
theorem inWindow_full (hi : i < n) : InWindow n a (a + n) i := by
  have hn : 0 < n := by omega
  have hmod := Nat.mod_lt a hn
  refine ⟨a + (i + n - a % n) % n, Nat.le_add_right _ _,
    Nat.add_lt_add_left (Nat.mod_lt _ hn) a, ?_⟩
  rw [Nat.add_mod_mod, ← Nat.mod_add_mod, show a % n + (i + n - a % n) = i + n by omega,
    Nat.add_mod_right, Nat.mod_eq_of_lt hi]

/-- The front of a window moves on. -/
theorem inWindow_succ_right (h : a ≤ b) :
    InWindow n a (b + 1) i ↔ InWindow n a b i ∨ i = b % n := by
  constructor
  · rintro ⟨k, h₁, h₂, rfl⟩
    rcases Nat.lt_succ_iff_lt_or_eq.1 h₂ with h₂ | rfl
    · exact Or.inl (inWindow_of_lt h₁ h₂)
    · exact Or.inr rfl
  · rintro (⟨k, h₁, h₂, rfl⟩ | rfl)
    · exact inWindow_of_lt h₁ (by omega)
    · exact inWindow_of_lt h (Nat.lt_succ_self b)

/-- The back of a window moves on. -/
theorem inWindow_succ_left (h : a < b) (hb : b ≤ a + n) :
    InWindow n (a + 1) b i ↔ InWindow n a b i ∧ i ≠ a % n := by
  constructor
  · rintro ⟨k, h₁, h₂, rfl⟩
    refine ⟨inWindow_of_lt (by omega) h₂, fun heq => ?_⟩
    have := pos_unique (n := n) (a := a) (by omega) (by omega) (Nat.le_refl a) (by omega) heq
    omega
  · rintro ⟨⟨k, h₁, h₂, rfl⟩, hne⟩
    rcases Nat.eq_or_lt_of_le h₁ with rfl | h₁
    · exact absurd rfl hne
    · exact inWindow_of_lt h₁ h₂

/-- The first slot of a window is inside it unless the window is empty. -/
theorem inWindow_back_iff : InWindow n a b (a % n) ↔ a < b :=
  ⟨fun ⟨_, h₁, h₂, _⟩ => Nat.lt_of_le_of_lt h₁ h₂, inWindow_of_lt (Nat.le_refl a)⟩

/-- The first slot behind a window is inside it only when the window is full. -/
theorem inWindow_front_iff (h : a ≤ b) (hb : b ≤ a + n) (hn : 0 < n) :
    InWindow n a b (b % n) ↔ b = a + n := by
  constructor
  · rintro ⟨k, h₁, h₂, heq⟩
    by_contra hne
    have := pos_unique (n := n) (a := a) h₁ (by omega) h (by omega) heq
    omega
  · rintro rfl
    exact inWindow_full (Nat.mod_lt _ hn)

end RvvmHal.Cyclic
