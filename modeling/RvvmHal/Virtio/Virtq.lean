import Mathlib.Algebra.Group.Nat.Defs
import Mathlib.Data.List.Basic
import Mathlib.Logic.Function.Basic
import Mathlib.Tactic.Common

/-!
# Virtqueues

A split virtqueue: a table of descriptors, the ring on which the driver makes chains available and
the ring on which the device returns them. The indices of both rings run freely over 16 bits and
are reduced to a slot when a ring is accessed. The descriptors that are not in use form a list
threaded through their `next` fields, of which the driver keeps the first and the number.

`virtq_avail_push` and `virtq_used_pop` are also given as the two steps between which a fence
stands, or which the device may come between.
-/

namespace RvvmHal.Virtio

/-- `struct virtq_desc`. -/
structure VirtqDesc where
  addr : ℕ
  len : ℕ
  flags : ℕ
  next : ℕ
  deriving DecidableEq

/-- `struct virtq_used_elem`. -/
structure VirtqUsedElem where
  id : ℕ
  len : ℕ
  deriving DecidableEq

/-- `virtq_t`, with the descriptor table and the two rings behind its pointers. -/
structure Virtq where
  size : ℕ
  lastUsedIdx : ℕ
  freeHead : ℕ
  numFree : ℕ
  desc : ℕ → VirtqDesc
  availIdx : ℕ
  availRing : ℕ → ℕ
  usedIdx : ℕ
  usedRing : ℕ → VirtqUsedElem

abbrev VIRTQ_DESC_F_NEXT : ℕ := 1

abbrev VIRTQ_DESC_F_WRITE : ℕ := 2

/-- `virtio_queue_setup`, on what the queue is in memory; `qmax` is what the device has in
`QUEUE_NUM_MAX`. -/
def virtioQueueSetup (q : Virtq) (size qmax : ℕ) : Option Virtq :=
  if qmax = 0 ∨ size > qmax then none
  else some { q with
    size := size
    lastUsedIdx := 0
    desc := fun i => if i < size then ⟨0, 0, 0, 0⟩ else q.desc i
    availIdx := 0
    usedIdx := 0 }

/-! ## The rings -/

/-- The first step of `virtq_avail_push`: the head is stored in the ring. -/
def availStore (q : Virtq) (head : ℕ) : Virtq :=
  { q with availRing := Function.update q.availRing (q.availIdx % q.size) head }

/-- The second step of `virtq_avail_push`, after the fence: the index moves on. -/
def availPublish (q : Virtq) : Virtq := { q with availIdx := (q.availIdx + 1) % 2 ^ 16 }

/-- `virtq_avail_push`. -/
def virtqAvailPush (q : Virtq) (head : ℕ) : Virtq := availPublish (availStore q head)

/-- The first step of `virtq_used_pop`: nothing new is in the ring. -/
def UsedEmpty (q : Virtq) : Prop := q.usedIdx = q.lastUsedIdx

instance (q : Virtq) : Decidable (UsedEmpty q) := inferInstanceAs (Decidable (_ = _))

/-- The element that `virtq_used_pop` finds: the id as a 16-bit word, and the length. -/
def usedFront (q : Virtq) : ℕ × ℕ :=
  ((q.usedRing (q.lastUsedIdx % q.size)).id % 2 ^ 16, (q.usedRing (q.lastUsedIdx % q.size)).len)

/-- The second step of `virtq_used_pop`: the element has been read, and the index moves on. -/
def usedAdvance (q : Virtq) : Virtq := { q with lastUsedIdx := (q.lastUsedIdx + 1) % 2 ^ 16 }

/-- `virtq_used_pop`: the id and the length, when it returns true. -/
def virtqUsedPop (q : Virtq) : Option (ℕ × ℕ) × Virtq :=
  if UsedEmpty q then (none, q) else (some (usedFront q), usedAdvance q)

/-! ## The free descriptors -/

/-- A table of descriptors after a store to a field `next`. -/
def setNext (desc : ℕ → VirtqDesc) (i next : ℕ) : ℕ → VirtqDesc :=
  Function.update desc i { desc i with next := next }

/-- `virtq_free_init`. -/
def virtqFreeInit (q : Virtq) : Virtq :=
  let desc := (List.range (q.size - 1)).foldl (fun d i => setNext d i ((i + 1) % 2 ^ 16)) q.desc
  { q with
    desc := setNext desc (q.size - 1) 0
    freeHead := 0
    numFree := q.size }

/-- `virtq_alloc_desc`. -/
def virtqAllocDesc (q : Virtq) : ℕ × Virtq :=
  if q.numFree = 0 then (0xFFFF, q)
  else (q.freeHead, { q with
    freeHead := (q.desc q.freeHead).next
    numFree := (q.numFree + (2 ^ 16 - 1)) % 2 ^ 16 })

/-- `virtq_free_desc`. -/
def virtqFreeDesc (q : Virtq) (idx : ℕ) : Virtq :=
  { q with
    desc := setNext q.desc idx q.freeHead
    freeHead := idx
    numFree := (q.numFree + 1) % 2 ^ 16 }

/-- The owner of a descriptor stores all its fields. -/
def writeDesc (q : Virtq) (idx : ℕ) (d : VirtqDesc) : Virtq :=
  { q with desc := Function.update q.desc idx d }

end RvvmHal.Virtio
