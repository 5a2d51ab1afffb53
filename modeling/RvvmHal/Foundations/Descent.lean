import Mathlib.Data.Set.Card
import Mathlib.Logic.Relation

/-!
# Recursion along a relation

A function that calls itself for every successor of its argument returns within a depth if all of
these calls return within one less (`Within`). Over finitely many arguments it returns if and only if
no argument that it comes to leads back to itself, and then no deeper than there are arguments that
it comes to (`Within.acyclic`, `within_ncard`).
-/

namespace RvvmHal.Descent

open Relation

variable {α : Type*} (r : α → α → Prop)

/-- A recursion that returns within a depth. -/
def Within : ℕ → α → Prop
  | 0, _ => False
  | n + 1, a => ∀ b, r a b → Within n b

/-- What a recursion comes to. -/
def Below (a : α) : Set α := {b | ReflTransGen r a b}

/-- Nothing that the recursion comes to leads back to itself. -/
def Acyclic (a : α) : Prop := ∀ b ∈ Below r a, ¬ TransGen r b b

variable {r} {a b : α} {n m : ℕ}

theorem Within.mono (h : Within r n a) (hnm : n ≤ m) : Within r m a := by
  induction n generalizing a m with
  | zero => exact h.elim
  | succ n ih =>
    obtain ⟨m, rfl⟩ := Nat.exists_eq_add_of_le' (Nat.zero_lt_of_lt hnm)
    exact fun b hb => ih (h b hb) (Nat.le_of_succ_le_succ hnm)

/-- The calls of a recursion return within the same depth. -/
theorem Within.of_mem_below (h : Within r n a) (hb : b ∈ Below r a) : Within r n b := by
  induction hb with
  | refl => exact h
  | tail _ hbc ih =>
    cases n with
    | zero => exact ih
    | succ n => exact (ih _ hbc).mono n.le_succ

/-- Where a recursion comes back, it does not return. -/
theorem not_within_of_transGen (h : TransGen r a a) : ¬ Within r n a := by
  induction n with
  | zero => exact id
  | succ n ih =>
    intro hn
    obtain ⟨b, hab, hba⟩ := TransGen.head'_iff.1 h
    exact ih ((hn b hab).of_mem_below hba)

theorem Within.acyclic (h : Within r n a) : Acyclic r a :=
  fun _ hb hcycle => not_within_of_transGen hcycle (h.of_mem_below hb)

/-- A call comes to less than its caller: not to the caller itself. -/
theorem ncard_below_lt [Finite α] (h : Acyclic r a) (hb : r a b) :
    (Below r b).ncard < (Below r a).ncard := by
  refine Set.ncard_lt_ncard ⟨fun c hc => .head hb hc, fun hsub => ?_⟩ (Set.toFinite _)
  exact h a .refl (.head' hb (hsub .refl))

/-- **Depth.** A recursion that does not come back to an argument returns, no deeper than the number
of arguments that it comes to. -/
theorem within_ncard [Finite α] (h : Acyclic r a) : Within r (Below r a).ncard a := by
  have hdepth : ∀ n a, Acyclic r a → (Below r a).ncard ≤ n → Within r n a := by
    intro n
    induction n with
    | zero =>
      intro a _ hn
      have hpos := (Set.ncard_pos (Set.toFinite (Below r a))).2 ⟨a, .refl⟩
      omega
    | succ n ih =>
      intro a h hn b hb
      have hlt := ncard_below_lt h hb
      exact ih b (fun c hc => h c (.head hb hc)) (by omega)
  exact hdepth _ a h (Nat.le_refl _)

end RvvmHal.Descent
