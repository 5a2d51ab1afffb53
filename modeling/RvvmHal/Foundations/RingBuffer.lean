import Mathlib.Algebra.Group.Nat.Defs
import Mathlib.Data.List.Basic
import Mathlib.Logic.Function.Basic
import RvvmHal.Foundations.Cyclic

/-!
# Rings of elements

A ring of `n` slots holds the last elements of a history: `Holds n r a l` says that the elements of
the history `l` from position `a` on are in their slots. The producer stores an element in the slot
behind the last one (`Holds.store`) and then counts it (`Holds.publish`), the consumer counts
elements off (`Holds.consume`). Both may count with words, when the number of slots divides the
number of words: `mod_slot` is about slots and `wrap_eq_iff` about the test for an empty ring.
-/

namespace RvvmHal.RingBuffer

open Cyclic

variable {α : Type*} {n a b k : ℕ} {r : ℕ → α} {l : List α} {x : α}

/-- The ring `r` of `n` slots holds the elements of `l` from position `a` on. -/
def Holds (n : ℕ) (r : ℕ → α) (a : ℕ) (l : List α) : Prop :=
  ∀ k (h : k < l.length), a ≤ k → r (k % n) = l[k]

theorem holds_nil : Holds n r a [] := fun _ h => absurd h (Nat.not_lt_zero _)

/-- The element at the front. -/
theorem Holds.front (h : Holds n r a l) (ha : a < l.length) : r (a % n) = l[a] :=
  h a ha (Nat.le_refl a)

/-- A store to a slot that is free. -/
theorem Holds.store_free (h : Holds n r a l) (hb : l.length ≤ b) (hfree : b < a + n) :
    Holds n (Function.update r (b % n) x) a l := by
  intro k hk hak
  rw [Function.update_of_ne (slot_ne_of_lt (Nat.lt_of_lt_of_le hk hb) (by omega)), h k hk hak]

/-- A store to the slot behind the last element, while the ring is not full. -/
theorem Holds.store (h : Holds n r a l) (hfull : l.length < a + n) :
    Holds n (Function.update r (l.length % n) x) a l := h.store_free (Nat.le_refl _) hfull

/-- The element in the slot behind the last one is counted. -/
theorem Holds.publish (h : Holds n r a l) (hx : r (l.length % n) = x) :
    Holds n r a (l ++ [x]) := by
  intro k hk hak
  rw [List.length_append, List.length_singleton] at hk
  by_cases hlt : k < l.length
  · rw [List.getElem_append_left hlt, h k hlt hak]
  · obtain rfl : k = l.length := by omega
    rw [List.getElem_concat_length rfl, hx]

/-- The elements in several slots behind the last one are counted. -/
theorem Holds.publish_range (h : Holds n r a l) (k : ℕ) :
    Holds n r a (l ++ (List.range k).map fun i => r ((l.length + i) % n)) := by
  induction k with
  | zero => simpa using h
  | succ k ih =>
    rw [List.range_succ, List.map_append, ← List.append_assoc]
    apply ih.publish
    rw [List.length_append, List.length_map, List.length_range]

/-- Elements at the front are counted off. -/
theorem Holds.mono (h : Holds n r a l) (hab : a ≤ b) : Holds n r b l :=
  fun k hk hbk => h k hk (Nat.le_trans hab hbk)

/-- The element at the front is counted off. -/
theorem Holds.consume (h : Holds n r a l) : Holds n r (a + 1) l := h.mono (Nat.le_succ a)

/-! ## Counting with words -/

/-- The slot of a counter that wraps. -/
theorem mod_slot {w : ℕ} (h : n ∣ w) (k : ℕ) : k % w % n = k % n := Nat.mod_mod_of_dvd k h

/-- Counters that wrap are equal when the counts are, as long as the ring is smaller than the
word. -/
theorem wrap_eq_iff {w : ℕ} (hab : a ≤ b) (hb : b < a + w) : b % w = a % w ↔ a = b :=
  ⟨fun h => pos_unique (Nat.le_refl a) (by omega) hab hb h.symm, fun h => h ▸ rfl⟩

end RvvmHal.RingBuffer
