import Mathlib.Data.List.Nodup
import Mathlib.Data.List.Perm.Basic
import Mathlib.Logic.Function.Basic
import Mathlib.Tactic.Common

/-!
# Lists threaded through a table

A table of nodes has a successor for every node, and a list is given by its first node and its
length: `thread` follows the successors. Nothing marks the end of the list, so the successor of its
last node is of no account, and the successors of nodes outside it may be anything.

`Pool` says that the nodes are divided between the list and those who hold the others. The first
node is taken off the list (`Pool.take`), a held node is put back at its front (`Pool.put`), and who
holds a node may overwrite its successor (`Pool.write`).
-/

namespace RvvmHal.Threaded

variable {ι : Type*}

/-- The first `k` nodes of the list that begins at `a`. -/
def thread (next : ι → ι) : ℕ → ι → List ι
  | 0, _ => []
  | k + 1, a => a :: thread next k (next a)

variable {next : ι → ι} {k : ℕ} {a i v : ι}

@[simp] theorem length_thread : (thread next k a).length = k := by
  induction k generalizing a with
  | zero => rfl
  | succ k ih => rw [thread, List.length_cons, ih]

/-- The list depends on the successors of its own nodes only. -/
theorem thread_congr {next' : ι → ι} (h : ∀ i ∈ thread next k a, next' i = next i) :
    thread next' k a = thread next k a := by
  induction k generalizing a with
  | zero => rfl
  | succ k ih =>
    rw [thread, List.forall_mem_cons] at h
    rw [thread, thread, h.1, ih h.2]

/-- **Frame rule**: the successor of a node outside the list may change. -/
theorem thread_update [DecidableEq ι] (h : i ∉ thread next k a) :
    thread (Function.update next i v) k a = thread next k a := by
  refine thread_congr fun j hj => Function.update_of_ne ?_ v next
  rintro rfl
  exact h hj

/-- The nodes `all` are divided between the list of `k` nodes from `a` and those that are held. -/
structure Pool (all : List ι) (next : ι → ι) (a : ι) (k : ℕ) (held : List ι) : Prop where
  perm : (thread next k a ++ held).Perm all
  nodup : all.Nodup

namespace Pool

variable {all held : List ι}

theorem nodup_append (h : Pool all next a k held) : (thread next k a ++ held).Nodup :=
  h.perm.nodup_iff.2 h.nodup

theorem length_eq (h : Pool all next a k held) : k + held.length = all.length := by
  have hlen := h.perm.length_eq
  rwa [List.length_append, length_thread] at hlen

/-- The nodes of the list are those that are not held. -/
theorem mem_thread_iff (h : Pool all next a k held) :
    i ∈ thread next k a ↔ i ∈ all ∧ i ∉ held := by
  rw [← h.perm.mem_iff, List.mem_append]
  have hdisj := (List.nodup_append.1 h.nodup_append).2.2
  exact ⟨fun hi => ⟨.inl hi, fun hi' => hdisj _ hi _ hi' rfl⟩, fun hi => hi.1.resolve_right hi.2⟩

theorem not_mem_thread (h : Pool all next a k held) (hi : i ∈ held) : i ∉ thread next k a :=
  fun hmem => (h.mem_thread_iff.1 hmem).2 hi

/-- The first node of a list that is not empty is not held. -/
theorem head_free (h : Pool all next a (k + 1) held) : a ∈ all ∧ a ∉ held :=
  h.mem_thread_iff.1 List.mem_cons_self

/-- Taking the first node. -/
theorem take (h : Pool all next a (k + 1) held) : Pool all next (next a) k (a :: held) where
  perm := List.perm_middle.trans h.perm
  nodup := h.nodup

variable [DecidableEq ι]

/-- Overwriting the successor of a held node. -/
theorem write (h : Pool all next a k held) (hi : i ∈ held) :
    Pool all (Function.update next i v) a k held where
  perm := by
    rw [thread_update (h.not_mem_thread hi)]
    exact h.perm
  nodup := h.nodup

/-- Putting a held node back. -/
theorem put (h : Pool all next a k held) (hi : i ∈ held) :
    Pool all (Function.update next i a) i (k + 1) (held.erase i) where
  perm := by
    rw [thread, Function.update_self, thread_update (h.not_mem_thread hi)]
    exact (List.perm_middle.symm.trans ((List.perm_cons_erase hi).symm.append_left _)).trans h.perm
  nodup := h.nodup

end Pool

/-- A list whose nodes follow each other in order. -/
theorem thread_eq_range' {next : ℕ → ℕ} {a k : ℕ}
    (h : ∀ i, a ≤ i → i + 1 < a + k → next i = i + 1) : thread next k a = List.range' a k := by
  induction k generalizing a with
  | zero => rfl
  | succ k ih =>
    rw [thread, List.range'_succ]
    cases k with
    | zero => rfl
    | succ k => rw [h a (Nat.le_refl a) (by omega), ih fun i h₁ h₂ => h i (by omega) (by omega)]

end RvvmHal.Threaded
