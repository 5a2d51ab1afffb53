import Mathlib.Logic.Function.Basic
import Mathlib.Order.Basic

/-!
# A word with reservations

A word of memory that several harts reach with load-reserved, store-conditional and swap. A
load-reserved takes a reservation for its hart; a store of another hart takes it away. A
store-conditional stores only while its hart has a reservation, and may fail without a reason.

`Linked h v` says that as long as the hart `h` has its reservation the word is `v`. It holds after a
load-reserved that reads `v` (`linked_lr`), whatever the other harts do (`Linked.sc_of_ne` and its
siblings), and so a store-conditional that succeeds replaces `v` (`Linked.value_of_sc`): the pair is
a compare and swap, however long it takes.
-/

namespace RvvmHal

/-- A word, with the harts that have a reservation. -/
structure Reserved where
  value : ℕ
  reserved : ℕ → Bool

namespace Reserved

variable {c : Reserved} {h h' v w : ℕ}

/-- Load-reserved. It reads `value`. -/
def lr (c : Reserved) (h : ℕ) : Reserved := { c with reserved := Function.update c.reserved h true }

/-- Store-conditional; `stores` is false when it fails without a reason. It succeeds when the
component is true. -/
def sc (c : Reserved) (h v : ℕ) (stores : Bool) : Reserved × Bool :=
  if c.reserved h = true ∧ stores = true then (⟨v, fun _ => false⟩, true)
  else ({ c with reserved := Function.update c.reserved h false }, false)

/-- Swap. -/
def amoswap (c : Reserved) (h v : ℕ) : Reserved :=
  ⟨v, fun h' => decide (h' = h) && c.reserved h'⟩

/-- The word is `v` as long as the hart `h` has its reservation. -/
def Linked (c : Reserved) (h v : ℕ) : Prop := c.reserved h = true → c.value = v

theorem linked_lr : (c.lr h).Linked h c.value := fun _ => rfl

/-- What a store-conditional does. -/
theorem sc_cases (c : Reserved) (h v : ℕ) (stores : Bool) :
    (c.reserved h = true ∧ (c.sc h v stores).2 = true ∧ (c.sc h v stores).1.value = v ∧
      ∀ h', (c.sc h v stores).1.reserved h' = false) ∨
    ((c.sc h v stores).2 = false ∧ (c.sc h v stores).1.value = c.value ∧
      (c.sc h v stores).1.reserved = Function.update c.reserved h false) := by
  unfold sc
  by_cases hs : c.reserved h = true ∧ stores = true
  · rw [if_pos hs]
    exact .inl ⟨hs.1, rfl, rfl, fun _ => rfl⟩
  · rw [if_neg hs]
    exact .inr ⟨rfl, rfl, rfl⟩

/-- **Compare and swap**: a store-conditional that succeeds replaces the value that was read. -/
theorem Linked.value_of_sc {stores : Bool} (hl : c.Linked h v)
    (hsc : (c.sc h w stores).2 = true) : c.value = v ∧ (c.sc h w stores).1.value = w := by
  rcases c.sc_cases h w stores with ⟨hres, -, hval, -⟩ | ⟨hfail, -⟩
  · exact ⟨hl hres, hval⟩
  · rw [hfail] at hsc
    cases hsc

theorem Linked.lr_of_ne (hl : c.Linked h v) (hne : h ≠ h') : (c.lr h').Linked h v := by
  intro hres
  dsimp only [lr] at hres
  rw [Function.update_of_ne hne] at hres
  exact hl hres

theorem Linked.sc_of_ne {stores : Bool} (hl : c.Linked h v) (hne : h ≠ h') :
    (c.sc h' w stores).1.Linked h v := by
  intro hres
  rcases c.sc_cases h' w stores with ⟨-, -, -, hnone⟩ | ⟨-, hval, hkeep⟩
  · rw [hnone] at hres
    cases hres
  · rw [hkeep, Function.update_of_ne hne] at hres
    rw [hval, hl hres]

theorem Linked.amoswap_of_ne (hne : h ≠ h') : (c.amoswap h' w).Linked h v := by
  intro hres
  dsimp only [amoswap] at hres
  rw [decide_eq_false hne, Bool.false_and] at hres
  cases hres

end Reserved

end RvvmHal
