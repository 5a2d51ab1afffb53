import Mathlib.Data.Set.Insert

/-!
# Replaying insertions and removals

An event inserts an element into a set or removes it. Events replayed on a set make it the set `t`
if each of them says what `t` says of its element, and every element in which the two sets differ
has an event (`replay_eq`).
-/

namespace RvvmHal

variable {α : Type*}

/-- The set after an event: the element is inserted if the flag is true, and removed otherwise. -/
def replayOne (s : Set α) (e : α × Bool) : Set α :=
  if e.2 = true then insert e.1 s else s \ {e.1}

/-- The set after events. -/
def replay (l : List (α × Bool)) (s : Set α) : Set α := l.foldl replayOne s

theorem replay_append (l l' : List (α × Bool)) (s : Set α) :
    replay (l ++ l') s = replay l' (replay l s) := List.foldl_append

/-- An event decides its own element. -/
theorem mem_replayOne_self (s : Set α) (e : α × Bool) : e.1 ∈ replayOne s e ↔ e.2 = true := by
  by_cases he : e.2 = true <;> simp [replayOne, he]

/-- **Frame rule**: an event leaves the other elements. -/
theorem mem_replayOne_of_ne {s : Set α} {e : α × Bool} {x : α} (h : x ≠ e.1) :
    x ∈ replayOne s e ↔ x ∈ s := by
  by_cases he : e.2 = true <;> simp [replayOne, he, h]

/-- **Replay rule.** -/
theorem replay_eq {l : List (α × Bool)} {s t : Set α} (hl : ∀ e ∈ l, e.2 = true ↔ e.1 ∈ t)
    (hdiff : ∀ x, ¬ (x ∈ s ↔ x ∈ t) → ∃ e ∈ l, e.1 = x) : replay l s = t := by
  induction l generalizing s with
  | nil =>
    refine Set.ext fun x => by_contra fun hx => ?_
    obtain ⟨e, he, -⟩ := hdiff x hx
    cases he
  | cons e l ih =>
    refine ih (fun e' he' => hl e' (List.mem_cons_of_mem e he')) fun x hx => ?_
    have hne : x ≠ e.1 := by
      rintro rfl
      exact hx ((mem_replayOne_self s e).trans (hl e List.mem_cons_self))
    rw [mem_replayOne_of_ne hne] at hx
    obtain ⟨e', he', rfl⟩ := hdiff x hx
    rcases List.mem_cons.1 he' with rfl | he'
    · exact absurd rfl hne
    · exact ⟨e', he', rfl⟩

end RvvmHal
