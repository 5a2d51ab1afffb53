import Mathlib.Data.List.Basic
import Mathlib.Data.List.Range
import Mathlib.Logic.Function.Basic
import Mathlib.Tactic.Common

/-!
# Arrays changed in place

A loop over an array is a list of accesses, each of which sets an element or copies one to another
place; `runAll` carries them out one after the other. The elements that a list touches are written
down with it, so that one can say where a loop reads and writes. Setting a range of elements
(`runAll_sets`) and moving one towards the front (`runAll_copies`) have closed forms.
-/

namespace RvvmHal.InPlace

variable {α : Type*}

/-- An access to an array. -/
inductive Access (α : Type*)
  | set (i : ℕ) (v : α)
  | copy (dst src : ℕ)

namespace Access

/-- The element that is written. -/
def dest : Access α → ℕ
  | set i _ => i
  | copy dst _ => dst

/-- The elements that are read or written. -/
def touches : Access α → List ℕ
  | set i _ => [i]
  | copy dst src => [dst, src]

/-- The array afterwards. -/
def run (a : ℕ → α) : Access α → ℕ → α
  | set i v => Function.update a i v
  | copy dst src => Function.update a dst (a src)

end Access

/-- The array after a list of accesses. -/
def runAll (l : List (Access α)) (a : ℕ → α) : ℕ → α := l.foldl Access.run a

/-- All accesses lie below `n`. -/
def Within (n : ℕ) (l : List (Access α)) : Prop := ∀ x ∈ l, ∀ i ∈ x.touches, i < n

variable {l l' : List (Access α)} {a : ℕ → α} {i n : ℕ}

theorem runAll_append : runAll (l ++ l') a = runAll l' (runAll l a) := List.foldl_append

theorem Within.append (h : Within n l) (h' : Within n l') : Within n (l ++ l') := fun x hx =>
  (List.mem_append.1 hx).elim (h x) (h' x)

/-- **Frame rule.** -/
theorem runAll_of_not_dest (h : ∀ x ∈ l, x.dest ≠ i) : runAll l a i = a i := by
  induction l generalizing a with
  | nil => rfl
  | cons x l ih =>
    have hrest := ih (a := x.run a) fun y hy => h y (List.mem_cons_of_mem x hy)
    refine hrest.trans ?_
    have hx := h x List.mem_cons_self
    cases x with
    | set j v => exact Function.update_of_ne (Ne.symm hx) ..
    | copy dst src => exact Function.update_of_ne (Ne.symm hx) ..

/-- Nothing beyond the accesses changes. -/
theorem runAll_of_within (h : Within n l) (hi : n ≤ i) : runAll l a i = a i := by
  refine runAll_of_not_dest fun x hx heq => ?_
  have hlt := h x hx x.dest (by cases x <;> exact List.mem_cons_self)
  omega

/-- The accesses that set a range of elements. -/
def sets (k n : ℕ) (v : α) : List (Access α) := (List.range' k n).map fun i => .set i v

/-- The accesses that copy elements, the first `n` from `src`. -/
def copies (n : ℕ) (src : ℕ → ℕ) : List (Access α) :=
  (List.range n).map fun i => .copy i (src i)

/-- **A range is set.** -/
theorem runAll_sets (k n : ℕ) (v : α) (a : ℕ → α) (i : ℕ) :
    runAll (sets k n v) a i = if k ≤ i ∧ i < k + n then v else a i := by
  induction n with
  | zero => exact (if_neg (by omega)).symm
  | succ n ih =>
    have hsplit : sets k (n + 1) v = sets k n v ++ [.set (k + n) v] := by
      rw [sets, List.range'_1_concat, List.map_append]
      rfl
    have hlast : runAll [.set (k + n) v] (runAll (sets k n v) a) i =
        Function.update (runAll (sets k n v) a) (k + n) v i := rfl
    rw [hsplit, runAll_append, hlast]
    by_cases hi : i = k + n
    · rw [hi, Function.update_self, if_pos (by omega)]
    · rw [Function.update_of_ne hi, ih]
      exact if_congr (by omega) rfl rfl

/-- **A range is moved to the front**: an element is read before it is overwritten. -/
theorem runAll_copies {n : ℕ} {src : ℕ → ℕ} (hsrc : ∀ j < n, j ≤ src j) (a : ℕ → α) (i : ℕ) :
    runAll (copies n src) a i = if i < n then a (src i) else a i := by
  induction n generalizing i with
  | zero => exact (if_neg (Nat.not_lt_zero i)).symm
  | succ n ih =>
    have ih := ih fun j hj => hsrc j (Nat.lt_succ_of_lt hj)
    have hsplit : copies (α := α) (n + 1) src = copies n src ++ [.copy n (src n)] := by
      rw [copies, List.range_succ, List.map_append]
      rfl
    have hlast : runAll [.copy n (src n)] (runAll (copies n src) a) i =
        Function.update (runAll (copies n src) a) n (runAll (copies n src) a (src n)) i := rfl
    rw [hsplit, runAll_append, hlast]
    by_cases hi : i = n
    · rw [hi, Function.update_self, ih, if_neg (Nat.not_lt.2 (hsrc n (Nat.lt_succ_self n))),
        if_pos (Nat.lt_succ_self n)]
    · rw [Function.update_of_ne hi, ih]
      exact if_congr (by omega) rfl rfl

end RvvmHal.InPlace
