import RvvmHal.Foundations.Machine
import RvvmHal.Foundations.Threaded
import RvvmHal.Virtio.Virtq

/-!
# The free descriptors of a virtqueue

The descriptors of a queue are those of the free list and those that are held: allocated, and with
fields that their holder may overwrite. `Owned q held` says so, as an instance of the pool of
`Foundations/Threaded`, and each of the three functions keeps it: an allocation takes the first
descriptor of the list, and a release puts one back.

`allocator` is the machine of all runs of allocations, releases and stores to held descriptors;
`owned_of_reachable` is its invariant.
-/

namespace RvvmHal.Virtio

open Threaded

/-- The successors in the free list. -/
def nextOf (desc : ℕ → VirtqDesc) (i : ℕ) : ℕ := (desc i).next

/-- The free list: `next` from `free_head`, for `num_free` steps. -/
def freeList (q : Virtq) : List ℕ := thread (nextOf q.desc) q.numFree q.freeHead

/-- The descriptors `0` to `size - 1` are the free ones and the held ones. -/
structure Owned (q : Virtq) (held : List ℕ) : Prop where
  size_pos : 0 < q.size
  size_le : q.size ≤ 32768
  pool : Pool (List.range q.size) (nextOf q.desc) q.freeHead q.numFree held

theorem nextOf_update (desc : ℕ → VirtqDesc) (i : ℕ) (d : VirtqDesc) :
    nextOf (Function.update desc i d) = Function.update (nextOf desc) i d.next := by
  funext j
  by_cases hj : j = i
  · subst hj
    rw [nextOf, Function.update_self, Function.update_self]
  · rw [nextOf, Function.update_of_ne hj, Function.update_of_ne hj, nextOf]

theorem nextOf_setNext (desc : ℕ → VirtqDesc) (i next : ℕ) :
    nextOf (setNext desc i next) = Function.update (nextOf desc) i next :=
  nextOf_update ..

/-! ## Initialisation -/

theorem nextOf_foldl_setNext (desc : ℕ → VirtqDesc) (f : ℕ → ℕ) (n i : ℕ) :
    nextOf ((List.range n).foldl (fun d i => setNext d i (f i)) desc) i =
      if i < n then f i else nextOf desc i := by
  induction n with
  | zero => rfl
  | succ n ih =>
    rw [List.range_succ, List.foldl_append, List.foldl_cons, List.foldl_nil, nextOf_setNext]
    by_cases hi : i = n
    · rw [hi, Function.update_self, if_pos (Nat.lt_succ_self n)]
    · rw [Function.update_of_ne hi, ih]
      exact if_congr (by omega) rfl rfl

/-- After `virtq_free_init` every descriptor is free. -/
theorem owned_virtqFreeInit {q : Virtq} (hpos : 0 < q.size) (hle : q.size ≤ 32768) :
    Owned (virtqFreeInit q) [] where
  size_pos := hpos
  size_le := hle
  pool := by
    refine ⟨?_, List.nodup_range⟩
    rw [List.append_nil, List.range_eq_range']
    refine .of_eq (thread_eq_range' fun i _ hi => ?_)
    dsimp only [virtqFreeInit] at hi ⊢
    rw [nextOf_setNext, Function.update_of_ne (by omega), nextOf_foldl_setNext, if_pos (by omega),
      Nat.mod_eq_of_lt (by omega)]

/-! ## The operations -/

theorem size_virtqAllocDesc (q : Virtq) : (virtqAllocDesc q).2.size = q.size := by
  unfold virtqAllocDesc
  split
  · rfl
  · rfl

namespace Owned

variable {q : Virtq} {held : List ℕ} {idx : ℕ}

theorem numFree_add_length (h : Owned q held) : q.numFree + held.length = q.size := by
  rw [h.pool.length_eq, List.length_range]

theorem nodup_held (h : Owned q held) : held.Nodup :=
  (List.nodup_append.1 h.pool.nodup_append).2.1

theorem nodup_freeList (h : Owned q held) : (freeList q).Nodup :=
  (List.nodup_append.1 h.pool.nodup_append).1

theorem mem_freeList_iff (h : Owned q held) : idx ∈ freeList q ↔ idx < q.size ∧ idx ∉ held := by
  rw [← List.mem_range (n := q.size)]
  exact h.pool.mem_thread_iff

theorem lt_of_mem (h : Owned q held) (hidx : idx ∈ held) : idx < q.size :=
  List.mem_range.1 (h.pool.perm.mem_iff.1 (List.mem_append_right _ hidx))

/-- An allocation fails when all descriptors are held, and then it changes nothing. -/
theorem alloc_full (hfree : q.numFree = 0) : virtqAllocDesc q = (0xFFFF, q) := if_pos hfree

/-- **An allocation** takes a descriptor that is not held. -/
theorem alloc (h : Owned q held) (hfree : q.numFree ≠ 0) :
    (virtqAllocDesc q).1 < q.size ∧ (virtqAllocDesc q).1 ∉ held ∧
      Owned (virtqAllocDesc q).2 ((virtqAllocDesc q).1 :: held) := by
  have hle := h.size_le
  have hlen := h.numFree_add_length
  obtain ⟨k, hk⟩ := Nat.exists_eq_succ_of_ne_zero hfree
  have hpool := h.pool
  rw [hk] at hpool
  obtain ⟨hmem, hnot⟩ := hpool.head_free
  have hnum : (q.numFree + (2 ^ 16 - 1)) % 2 ^ 16 = k := by omega
  rw [virtqAllocDesc, if_neg hfree, hnum]
  exact ⟨List.mem_range.1 hmem, hnot, h.size_pos, hle, hpool.take⟩

/-- An allocation fails exactly when all descriptors are held. -/
theorem alloc_eq_iff (h : Owned q held) :
    (virtqAllocDesc q).1 = 0xFFFF ↔ held.length = q.size := by
  have hle := h.size_le
  have hlen := h.numFree_add_length
  by_cases hfree : q.numFree = 0
  · rw [alloc_full hfree]
    exact iff_of_true rfl (by omega)
  · have hlt := (h.alloc hfree).1
    exact iff_of_false (by omega) (by omega)

/-- **A release** puts a held descriptor back. -/
theorem free (h : Owned q held) (hidx : idx ∈ held) :
    Owned (virtqFreeDesc q idx) (held.erase idx) := by
  have hle := h.size_le
  have hlen := h.numFree_add_length
  have hpos := List.length_pos_of_mem hidx
  refine ⟨h.size_pos, hle, ?_⟩
  rw [virtqFreeDesc, nextOf_setNext, Nat.mod_eq_of_lt (by omega)]
  exact h.pool.put hidx

/-- The holder of a descriptor may overwrite it. -/
theorem write (h : Owned q held) (hidx : idx ∈ held) (d : VirtqDesc) :
    Owned (writeDesc q idx d) held := by
  refine ⟨h.size_pos, h.size_le, ?_⟩
  rw [writeDesc, nextOf_update]
  exact h.pool.write hidx

theorem congr {held' : List ℕ} (h : Owned q held) (hp : held.Perm held') :
    Owned q held' :=
  ⟨h.size_pos, h.size_le, (hp.append_left _).symm.trans h.pool.perm, h.pool.nodup⟩

/-- The descriptors do not depend on the rings. -/
theorem rings (h : Owned q held) {last avail used : ℕ}
    {availRing : ℕ → ℕ} {usedRing : ℕ → VirtqUsedElem} :
    Owned { q with
      lastUsedIdx := last
      availIdx := avail
      availRing := availRing
      usedIdx := used
      usedRing := usedRing } held :=
  ⟨h.size_pos, h.size_le, h.pool⟩

end Owned

/-! ## Runs -/

/-- The steps of a run: an allocation, the release of a descriptor, and a store to one. -/
inductive AllocOp
  | alloc
  | free (idx : ℕ)
  | write (idx : ℕ) (d : VirtqDesc)

/-- A queue and the descriptors that are held. -/
structure Allocator where
  q : Virtq
  held : List ℕ

/-- One step of a run. Only held descriptors are released and overwritten. -/
def allocStep : AllocOp → Allocator → Option Allocator
  | .alloc, s => some {
      q := (virtqAllocDesc s.q).2
      held := if (virtqAllocDesc s.q).1 = 0xFFFF then s.held else (virtqAllocDesc s.q).1 :: s.held }
  | .free idx, s =>
    if idx ∈ s.held then some ⟨virtqFreeDesc s.q idx, s.held.erase idx⟩ else none
  | .write idx d, s => if idx ∈ s.held then some ⟨writeDesc s.q idx d, s.held⟩ else none

/-- All runs from `virtq_free_init`. -/
def allocator (q : Virtq) : Machine Allocator AllocOp := ⟨⟨virtqFreeInit q, []⟩, allocStep⟩

theorem owned_allocStep {s s' : Allocator} {op : AllocOp} (h : Owned s.q s.held)
    (hs : allocStep op s = some s') : s'.q.size = s.q.size ∧ Owned s'.q s'.held := by
  cases op with
  | alloc =>
    rw [allocStep, Option.some.injEq] at hs
    subst hs
    by_cases hfree : s.q.numFree = 0
    · rw [Owned.alloc_full hfree, if_pos rfl]
      exact ⟨rfl, h⟩
    · obtain ⟨hlt, -, howned⟩ := h.alloc hfree
      have hle := h.size_le
      have hne : (virtqAllocDesc s.q).1 ≠ 0xFFFF := by omega
      rw [if_neg hne]
      exact ⟨size_virtqAllocDesc s.q, howned⟩
  | free idx =>
    obtain ⟨hidx, hs⟩ := Option.ite_none_right_eq_some.1 hs
    obtain rfl := Option.some.inj hs
    exact ⟨rfl, h.free hidx⟩
  | write idx d =>
    obtain ⟨hidx, hs⟩ := Option.ite_none_right_eq_some.1 hs
    obtain rfl := Option.some.inj hs
    exact ⟨rfl, h.write hidx d⟩

theorem owned_of_reachable {q : Virtq} (hpos : 0 < q.size) (hle : q.size ≤ 32768) {s : Allocator}
    (h : (allocator q).Reachable s) : s.q.size = q.size ∧ Owned s.q s.held := by
  refine h.invariant (I := fun s => s.q.size = q.size ∧ Owned s.q s.held)
    ⟨rfl, owned_virtqFreeInit hpos hle⟩ fun hI _ hs => ?_
  obtain ⟨hsize, howned⟩ := owned_allocStep hI.2 hs
  exact ⟨hsize.trans hI.1, howned⟩

end RvvmHal.Virtio
