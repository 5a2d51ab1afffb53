import Mathlib.Data.Nat.Bitwise
import Mathlib.Tactic.Common
import Mathlib.Tactic.Linarith

/-!
# Fixed-width words as natural numbers

A `w`-bit machine word is a natural number below `2 ^ w`. Sums that a program may carry out of
the word are reduced explicitly with `% 2 ^ w`; masks, shifts and bitwise unions are those of `ℕ`.
This file reads the masks and unions that programs use for alignment and for packing fields as
arithmetic: an alignment mask is a division, the union of two fields that do not overlap is a sum.
-/

namespace RvvmHal.Word

/-! ## Masks -/

theorem and_low_mask (x k : ℕ) : x &&& (2 ^ k - 1) = x % 2 ^ k := Nat.and_two_pow_sub_one_eq_mod x k

/-- **An alignment mask rounds down.** The mask keeps the bits `k ≤ i < w` of a `w`-bit word. -/
theorem and_align_mask {w k x : ℕ} (hx : x < 2 ^ w) (hk : k ≤ w) :
    x &&& (2 ^ w - 2 ^ k) = x / 2 ^ k * 2 ^ k := by
  have hmask : 2 ^ w - 2 ^ k = (2 ^ (w - k) - 1) * 2 ^ k := by
    rw [Nat.sub_mul, one_mul, ← pow_add, Nat.sub_add_cancel hk]
  apply Nat.eq_of_testBit_eq
  intro i
  rw [hmask, Nat.testBit_and, Nat.testBit_mul_two_pow, Nat.testBit_mul_two_pow,
    Nat.testBit_two_pow_sub_one, Nat.testBit_div_two_pow]
  by_cases hki : k ≤ i
  · rw [Nat.sub_add_cancel hki]
    by_cases hiw : i < w
    · have : i - k < w - k := by omega
      simp [hki, this]
    · have : x.testBit i = false :=
        Nat.testBit_lt_two_pow (hx.trans_le (Nat.pow_le_pow_right (by omega) (by omega)))
      simp [this]
  · simp [hki]

/-- Rounding a 32-bit word down to a multiple of four. -/
theorem and_not3 {x : ℕ} (hx : x < 2 ^ 32) : x &&& (2 ^ 32 - 4) = x / 4 * 4 :=
  and_align_mask (k := 2) hx (by omega)

/-- Rounding a 64-bit word down to a multiple of 4096. -/
theorem and_not4095 {x : ℕ} (hx : x < 2 ^ 64) : x &&& (2 ^ 64 - 4096) = x / 4096 * 4096 :=
  and_align_mask (k := 12) hx (by omega)

/-- A mask of `w` bits from bit `k` on takes a field out of a word. -/
theorem and_field_mask (w k x : ℕ) :
    x &&& ((2 ^ w - 1) * 2 ^ k) = x / 2 ^ k % 2 ^ w * 2 ^ k := by
  apply Nat.eq_of_testBit_eq
  intro i
  rw [Nat.testBit_and, Nat.testBit_mul_two_pow, Nat.testBit_mul_two_pow,
    Nat.testBit_two_pow_sub_one, Nat.testBit_mod_two_pow, Nat.testBit_div_two_pow]
  by_cases hki : k ≤ i
  · rw [Nat.sub_add_cancel hki, Bool.and_comm, decide_eq_true hki, Bool.true_and, Bool.true_and]
  · rw [decide_eq_false hki, Bool.false_and, Bool.and_false, Bool.false_and]

/-! ## Unions of disjoint fields -/

/-- **A union of disjoint fields is a sum.** -/
theorem or_shiftLeft {a k : ℕ} (ha : a < 2 ^ k) (b : ℕ) : a ||| b <<< k = a + b * 2 ^ k := by
  rw [Nat.or_comm, ← Nat.shiftLeft_add_eq_or_of_lt ha, Nat.shiftLeft_eq, Nat.add_comm]

theorem shiftRight_eq (x k : ℕ) : x >>> k = x / 2 ^ k := Nat.shiftRight_eq_div_pow x k

/-- A single bit, tested with a mask. -/
theorem and_two_pow_ne_zero (x k : ℕ) : (x &&& 2 ^ k ≠ 0) ↔ x / 2 ^ k % 2 = 1 := by
  rw [Nat.and_two_pow]
  have hbit : x.testBit k = decide (x / 2 ^ k % 2 = 1) := Nat.testBit_eq_decide_div_mod_eq
  rw [hbit]
  by_cases h : x / 2 ^ k % 2 = 1
  · simp [h]
  · simp [h]

end RvvmHal.Word
