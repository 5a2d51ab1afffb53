import Mathlib.Data.List.Basic
import Mathlib.Tactic.Common

/-!
# Zero-order hold

A signal that is piecewise constant is given by its changes, each a time and the value from then on.
`held` is its value at a time, and `render` goes through the changes in order and emits the values
at the times below `n`, without a look at more than one change at a time. The two agree when the
changes are in order and not after `n` (`render_eq`).
-/

namespace RvvmHal.Hold

variable {α β : Type*}

/-- The value at time `k` of a signal that begins with `v`: that of the last change which is not
later. -/
def held (v : α) (changes : List (ℕ × α)) (k : ℕ) : α :=
  ((changes.filter fun e => e.1 ≤ k).getLast?.map Prod.snd).getD v

section

variable {v : α} {changes later : List (ℕ × α)} {k : ℕ}

@[simp] theorem held_nil : held v [] k = v := rfl

theorem held_append : held v (changes ++ later) k = held (held v changes k) later k := by
  unfold held
  rw [List.filter_append, List.getLast?_append]
  cases (later.filter fun e => e.1 ≤ k).getLast? with
  | none => rfl
  | some e => rfl

/-- Changes that are still to come are of no account. -/
theorem held_of_lt (h : ∀ e ∈ changes, k < e.1) : held v changes k = v := by
  have hnil : (changes.filter fun e => e.1 ≤ k) = [] := by
    refine List.filter_eq_nil_iff.2 fun e he => ?_
    have := h e he
    simpa using this
  rw [held, hnil]
  rfl

/-- When all changes have been made the value is that of the last. -/
theorem held_of_le (h : ∀ e ∈ changes, e.1 ≤ k) :
    held v changes k = (changes.getLast?.map Prod.snd).getD v := by
  rw [held, List.filter_eq_self.2 fun e he => by simpa using h e he]

theorem held_cons_of_le {e : ℕ × α} (h : e.1 ≤ k) :
    held v (e :: changes) k = held e.2 changes k := by
  have hcons : held v (e :: changes) k = held (held v [e] k) changes k := by
    rw [← held_append, List.singleton_append]
  have hone : held v [e] k = e.2 := held_of_le (by simpa using h)
  rw [hcons, hone]

/-- The signal with its times counted from `a`. -/
theorem held_sub {a : ℕ} :
    held v (changes.map fun e => (e.1 - a, e.2)) k = held v changes (a + k) := by
  unfold held
  rw [List.filter_map, List.getLast?_map, Option.map_map]
  have hcomp : ((fun e : ℕ × α => decide (e.1 ≤ k)) ∘ fun e : ℕ × α => (e.1 - a, e.2)) =
      fun e => decide (e.1 ≤ a + k) := by
    funext e
    exact decide_eq_decide.2 (by dsimp only; omega)
  rw [hcomp]
  rfl

end

/-! ## Rendering -/

/-- The next change: the value before it is emitted up to its time. The state is the time up to
which values have been emitted, the value, and what has been emitted. -/
def holdStep (emit : ℕ → α → β) (s : ℕ × α × List β) (e : ℕ × α) : ℕ × α × List β :=
  (e.1, e.2, s.2.2 ++ (List.range' s.1 (e.1 - s.1)).map fun i => emit i s.2.1)

/-- The values up to `n`, and the value at the end. -/
def render (emit : ℕ → α → β) (v : α) (n : ℕ) (changes : List (ℕ × α)) : List β × α :=
  let s := changes.foldl (holdStep emit) (0, v, [])
  (s.2.2 ++ (List.range' s.1 (n - s.1)).map fun i => emit i s.2.1, s.2.1)

variable {emit : ℕ → α → β} {n a : ℕ}

theorem foldl_holdStep_snd (s : ℕ × α × List β) (changes : List (ℕ × α)) :
    (changes.foldl (holdStep emit) s).2.1 = (changes.getLast?.map Prod.snd).getD s.2.1 := by
  induction changes generalizing s with
  | nil => rfl
  | cons e changes ih =>
    rw [List.foldl_cons, ih, List.getLast?_cons]
    cases changes.getLast? with
    | none => rfl
    | some e' => rfl

/-- What is emitted from `a` on. -/
theorem foldl_holdStep (v : α) (out : List β) {changes : List (ℕ × α)}
    (hsorted : (changes.map Prod.fst).Pairwise (· ≤ ·)) (hge : ∀ e ∈ changes, a ≤ e.1)
    (hle : ∀ e ∈ changes, e.1 ≤ n) (han : a ≤ n) :
    (changes.foldl (holdStep emit) (a, v, out)).2.2 ++
      (List.range' (changes.foldl (holdStep emit) (a, v, out)).1
        (n - (changes.foldl (holdStep emit) (a, v, out)).1)).map
          (fun i => emit i (changes.foldl (holdStep emit) (a, v, out)).2.1) =
    out ++ (List.range' a (n - a)).map fun i => emit i (held v changes i) := by
  induction changes generalizing a v out with
  | nil => rfl
  | cons e changes ih =>
    rw [List.map_cons, List.pairwise_cons] at hsorted
    rw [List.forall_mem_cons] at hge hle
    have hlater : ∀ e' ∈ changes, e.1 ≤ e'.1 := fun e' he' =>
      hsorted.1 e'.1 (List.mem_map_of_mem he')
    have hsplit : List.range' a (n - a) =
        List.range' a (e.1 - a) ++ List.range' e.1 (n - e.1) := by
      have hlen : n - a = (e.1 - a) + (n - e.1) := by omega
      rw [hlen, ← List.range'_append_1, Nat.add_sub_cancel' hge.1]
    rw [List.foldl_cons]
    refine (ih e.2 _ hsorted.2 hlater hle.2 hle.1).trans ?_
    rw [hsplit, List.map_append, ← List.append_assoc]
    refine congrArg₂ _ (congrArg _ (List.map_congr_left fun i hi => ?_))
      (List.map_congr_left fun i hi => ?_)
    · -- before the change
      rw [List.mem_range'_1] at hi
      rw [held_of_lt]
      rintro e' (_ | ⟨_, he'⟩)
      · omega
      · have := hlater e' he'
        omega
    · -- from the change on
      rw [List.mem_range'_1] at hi
      rw [held_cons_of_le hi.1]

/-- **Rendering** emits the held values. -/
theorem render_eq (v : α) {changes : List (ℕ × α)}
    (hsorted : (changes.map Prod.fst).Pairwise (· ≤ ·)) (hle : ∀ e ∈ changes, e.1 ≤ n) :
    render emit v n changes =
      ((List.range n).map fun i => emit i (held v changes i),
        (changes.getLast?.map Prod.snd).getD v) := by
  refine Prod.ext ?_ (foldl_holdStep_snd ..)
  rw [List.range_eq_range']
  exact foldl_holdStep v [] hsorted (fun _ _ => Nat.zero_le _) hle (Nat.zero_le n)

end RvvmHal.Hold
