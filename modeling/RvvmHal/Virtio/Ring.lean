import Mathlib.Data.List.Infix
import RvvmHal.Foundations.Machine
import RvvmHal.Foundations.RingBuffer
import RvvmHal.Virtio.Virtq

/-!
# The rings of a virtqueue

Driver and device of a virtqueue, statement by statement. The driver stores a head and then moves
`avail.idx`; it compares `used.idx` with its own index and then reads the element. The device takes
heads from the available ring in order and returns them in any order: it stores an element and then
moves `used.idx`. All four indices run freely over 16 bits.

`RingInv` counts the heads pushed and taken and the elements written and popped; each index is one
of these counts modulo `2 ^ 16`, and each ring holds the part of a history that the other party has
not come to yet. `ring_fifo` is the main result.
-/

namespace RvvmHal.Virtio

open RingBuffer

/-! ## Driver and device -/

/-- Where the driver is: outside of the two functions; with the head in the ring and the index not
yet moved; with `used.idx` found to differ. -/
inductive DrvPc
  | idle
  | stored (head : ℕ)
  | loaded

/-- Where the device is: with no element in the making, or with one in the ring and the index not
yet moved. -/
inductive DevPc
  | idle
  | filled (e : VirtqUsedElem)

/-- A queue, the device's index into the available ring, the chains it has taken and not returned,
and the histories: heads pushed and taken, elements written and popped. -/
structure RingSys where
  q : Virtq
  devIdx : ℕ
  inflight : List ℕ
  pushed : List ℕ
  consumed : List ℕ
  written : List VirtqUsedElem
  popped : List (ℕ × ℕ)
  drv : DrvPc
  dev : DevPc

namespace RingSys

/-- `virtq_avail_push` stores the head. No more chains than the ring has slots are outstanding. -/
def store (head : ℕ) (s : RingSys) : Option RingSys :=
  match s.drv with
  | .idle =>
    if head < 2 ^ 16 ∧ s.pushed.length < s.popped.length + s.q.size then
      some { s with q := availStore s.q head, drv := .stored head }
    else none
  | _ => none

/-- `virtq_avail_push` moves the index. -/
def publish (s : RingSys) : Option RingSys :=
  match s.drv with
  | .stored head => some { s with
      q := availPublish s.q
      pushed := s.pushed ++ [head]
      drv := .idle }
  | _ => none

/-- `virtq_used_pop` compares the indices; it returns false if they are equal. -/
def check (s : RingSys) : Option RingSys :=
  match s.drv with
  | .idle => some (if UsedEmpty s.q then s else { s with drv := .loaded })
  | _ => none

/-- `virtq_used_pop` reads the element and returns true. -/
def take (s : RingSys) : Option RingSys :=
  match s.drv with
  | .loaded => some { s with
      q := usedAdvance s.q
      popped := s.popped ++ [usedFront s.q]
      drv := .idle }
  | _ => none

/-- The device takes the next head, if its index is not that of the driver. -/
def consume (s : RingSys) : Option RingSys :=
  if s.q.availIdx = s.devIdx then none
  else
    let head := s.q.availRing (s.devIdx % s.q.size)
    some { s with
      devIdx := (s.devIdx + 1) % 2 ^ 16
      consumed := s.consumed ++ [head]
      inflight := s.inflight ++ [head] }

/-- The device stores the element for one of the chains it has taken. -/
def fill (id len : ℕ) (s : RingSys) : Option RingSys :=
  match s.dev with
  | .idle =>
    if id ∈ s.inflight then
      some { s with
        q := { s.q with
          usedRing := Function.update s.q.usedRing (s.q.usedIdx % s.q.size) ⟨id, len⟩ }
        inflight := s.inflight.erase id
        dev := .filled ⟨id, len⟩ }
    else none
  | _ => none

/-- The device moves `used.idx`. -/
def giveBack (s : RingSys) : Option RingSys :=
  match s.dev with
  | .filled e => some { s with
      q := { s.q with usedIdx := (s.q.usedIdx + 1) % 2 ^ 16 }
      written := s.written ++ [e]
      dev := .idle }
  | _ => none

end RingSys

/-- The steps of the driver and of the device. -/
inductive RingStep
  | store (head : ℕ)
  | publish
  | check
  | take
  | consume
  | fill (id len : ℕ)
  | giveBack

/-- One step. -/
def ringStep : RingStep → RingSys → Option RingSys
  | .store head => RingSys.store head
  | .publish => RingSys.publish
  | .check => RingSys.check
  | .take => RingSys.take
  | .consume => RingSys.consume
  | .fill id len => RingSys.fill id len
  | .giveBack => RingSys.giveBack

/-- All runs on a queue that has just been set up. -/
def ringSystem (q : Virtq) : Machine RingSys RingStep where
  init := ⟨q, 0, [], [], [], [], [], .idle, .idle⟩
  step := ringStep

/-! ## The invariant -/

/-- The element as `virtq_used_pop` returns it. -/
def VirtqUsedElem.pair (e : VirtqUsedElem) : ℕ × ℕ := (e.id, e.len)

/-- The head that is in the ring and not yet counted. -/
def DrvPc.pending : DrvPc → List ℕ
  | .idle => []
  | .stored head => [head]
  | .loaded => []

/-- The element that is in the ring and not yet counted. -/
def DevPc.pending : DevPc → List VirtqUsedElem
  | .idle => []
  | .filled e => [e]

/-- The invariant of the rings. -/
structure RingInv (s : RingSys) : Prop where
  size_dvd : s.q.size ∣ 2 ^ 16
  size_le : s.q.size ≤ 32768
  avail_idx : s.q.availIdx = s.pushed.length % 2 ^ 16
  dev_idx : s.devIdx = s.consumed.length % 2 ^ 16
  used_idx : s.q.usedIdx = s.written.length % 2 ^ 16
  last_idx : s.q.lastUsedIdx = s.popped.length % 2 ^ 16
  popped_le : s.popped.length ≤ s.written.length
  taken : s.written.length + s.dev.pending.length + s.inflight.length = s.consumed.length
  consumed_le : s.consumed.length ≤ s.pushed.length
  pushed_le : s.pushed.length + s.drv.pending.length ≤ s.popped.length + s.q.size
  loaded : s.drv = .loaded → s.popped.length < s.written.length
  avail : Holds s.q.size s.q.availRing s.consumed.length s.pushed
  stored : ∀ head ∈ s.drv.pending, s.q.availRing (s.pushed.length % s.q.size) = head
  used : Holds s.q.size s.q.usedRing s.popped.length s.written
  filled : ∀ e ∈ s.dev.pending, s.q.usedRing (s.written.length % s.q.size) = e
  consumed_prefix : s.consumed <+: s.pushed
  popped_prefix : s.popped <+: s.written.map VirtqUsedElem.pair
  heads_lt : ∀ head ∈ s.pushed ++ s.drv.pending ++ s.inflight, head < 2 ^ 16
  ids_lt : ∀ e ∈ s.written ++ s.dev.pending, e.id < 2 ^ 16

/-! ## What each step does -/

namespace RingSys

variable {s s' : RingSys} {head id len : ℕ}

theorem store_inv (h : s.store head = some s') :
    s.drv = .idle ∧ head < 2 ^ 16 ∧ s.pushed.length < s.popped.length + s.q.size ∧
      s' = { s with q := availStore s.q head, drv := .stored head } := by
  unfold store at h
  cases hdrv : s.drv with
  | idle =>
    rw [hdrv] at h
    obtain ⟨⟨hhead, hroom⟩, h⟩ := Option.ite_none_right_eq_some.1 h
    exact ⟨rfl, hhead, hroom, (Option.some.inj h).symm⟩
  | stored head => rw [hdrv] at h; cases h
  | loaded => rw [hdrv] at h; cases h

theorem publish_inv (h : s.publish = some s') :
    ∃ head, s.drv = .stored head ∧
      s' = { s with q := availPublish s.q, pushed := s.pushed ++ [head], drv := .idle } := by
  unfold publish at h
  cases hdrv : s.drv with
  | idle => rw [hdrv] at h; cases h
  | stored head => rw [hdrv] at h; exact ⟨head, rfl, (Option.some.inj h).symm⟩
  | loaded => rw [hdrv] at h; cases h

theorem check_inv (h : s.check = some s') :
    s.drv = .idle ∧ (UsedEmpty s.q ∧ s' = s ∨ ¬UsedEmpty s.q ∧ s' = { s with drv := .loaded }) := by
  unfold check at h
  cases hdrv : s.drv with
  | idle =>
    rw [hdrv] at h
    refine ⟨rfl, ?_⟩
    obtain rfl := Option.some.inj h
    by_cases hempty : UsedEmpty s.q
    · exact .inl ⟨hempty, if_pos hempty⟩
    · exact .inr ⟨hempty, if_neg hempty⟩
  | stored head => rw [hdrv] at h; cases h
  | loaded => rw [hdrv] at h; cases h

theorem take_inv (h : s.take = some s') :
    s.drv = .loaded ∧ s' = { s with
      q := usedAdvance s.q, popped := s.popped ++ [usedFront s.q], drv := .idle } := by
  unfold take at h
  cases hdrv : s.drv with
  | idle => rw [hdrv] at h; cases h
  | stored head => rw [hdrv] at h; cases h
  | loaded => rw [hdrv] at h; exact ⟨rfl, (Option.some.inj h).symm⟩

theorem consume_inv (h : s.consume = some s') :
    s.q.availIdx ≠ s.devIdx ∧ s' = { s with
      devIdx := (s.devIdx + 1) % 2 ^ 16
      consumed := s.consumed ++ [s.q.availRing (s.devIdx % s.q.size)]
      inflight := s.inflight ++ [s.q.availRing (s.devIdx % s.q.size)] } := by
  obtain ⟨hne, h⟩ := Option.ite_none_left_eq_some.1 h
  exact ⟨hne, (Option.some.inj h).symm⟩

theorem fill_inv (h : s.fill id len = some s') :
    s.dev = .idle ∧ id ∈ s.inflight ∧ s' = { s with
      q := { s.q with
        usedRing := Function.update s.q.usedRing (s.q.usedIdx % s.q.size) ⟨id, len⟩ }
      inflight := s.inflight.erase id
      dev := .filled ⟨id, len⟩ } := by
  unfold fill at h
  cases hdev : s.dev with
  | idle =>
    rw [hdev] at h
    obtain ⟨hid, h⟩ := Option.ite_none_right_eq_some.1 h
    exact ⟨rfl, hid, (Option.some.inj h).symm⟩
  | filled e => rw [hdev] at h; cases h

theorem giveBack_inv (h : s.giveBack = some s') :
    ∃ e, s.dev = .filled e ∧ s' = { s with
      q := { s.q with usedIdx := (s.q.usedIdx + 1) % 2 ^ 16 }
      written := s.written ++ [e]
      dev := .idle } := by
  unfold giveBack at h
  cases hdev : s.dev with
  | idle => rw [hdev] at h; cases h
  | filled e => rw [hdev] at h; exact ⟨e, rfl, (Option.some.inj h).symm⟩

end RingSys

/-! ## Each step keeps the invariant -/

namespace RingInv

variable {s s' : RingSys} {head id len : ℕ}

/-- The slot behind the last head. -/
theorem avail_slot (h : RingInv s) : s.q.availIdx % s.q.size = s.pushed.length % s.q.size := by
  rw [h.avail_idx, mod_slot h.size_dvd]

/-- The slot of the head that the device takes next. -/
theorem dev_slot (h : RingInv s) : s.devIdx % s.q.size = s.consumed.length % s.q.size := by
  rw [h.dev_idx, mod_slot h.size_dvd]

/-- The slot behind the last element. -/
theorem used_slot (h : RingInv s) : s.q.usedIdx % s.q.size = s.written.length % s.q.size := by
  rw [h.used_idx, mod_slot h.size_dvd]

/-- The slot of the element that the driver pops next. -/
theorem last_slot (h : RingInv s) : s.q.lastUsedIdx % s.q.size = s.popped.length % s.q.size := by
  rw [h.last_idx, mod_slot h.size_dvd]

/-- **The device sees an empty ring** exactly when it has taken all heads. -/
theorem avail_empty_iff (h : RingInv s) :
    s.q.availIdx = s.devIdx ↔ s.consumed.length = s.pushed.length := by
  have hcons := h.consumed_le
  have htaken := h.taken
  have hpop := h.popped_le
  have hpush := h.pushed_le
  have hsize := h.size_le
  rw [h.avail_idx, h.dev_idx]
  exact wrap_eq_iff h.consumed_le (by omega)

/-- **The driver sees an empty ring** exactly when it has popped all elements. -/
theorem used_empty_iff (h : RingInv s) :
    UsedEmpty s.q ↔ s.popped.length = s.written.length := by
  have hcons := h.consumed_le
  have htaken := h.taken
  have hpush := h.pushed_le
  have hsize := h.size_le
  rw [UsedEmpty, h.used_idx, h.last_idx]
  exact wrap_eq_iff h.popped_le (by omega)

/-- What `virtq_used_pop` finds is the next element. -/
theorem usedFront_eq (h : RingInv s) (hlt : s.popped.length < s.written.length) :
    usedFront s.q = s.written[s.popped.length].pair := by
  have hid : s.written[s.popped.length].id < 2 ^ 16 :=
    h.ids_lt _ (List.mem_append_left _ (List.getElem_mem _))
  rw [usedFront, h.last_slot, h.used.front hlt, Nat.mod_eq_of_lt hid, VirtqUsedElem.pair]

/-- What the device takes is the next head. -/
theorem availFront_eq (h : RingInv s) (hlt : s.consumed.length < s.pushed.length) :
    s.q.availRing (s.devIdx % s.q.size) = s.pushed[s.consumed.length] := by
  rw [h.dev_slot, h.avail.front hlt]

theorem store (h : RingInv s) (hs : s.store head = some s') : RingInv s' := by
  obtain ⟨hdrv, hhead, hroom, rfl⟩ := RingSys.store_inv hs
  have hcons := h.consumed_le
  have htaken := h.taken
  have hpop := h.popped_le
  have hslot := h.avail_slot
  have hheads := h.heads_lt
  rw [hdrv, DrvPc.pending, List.append_nil] at hheads
  exact { h with
    pushed_le := by
      simp only [availStore, DrvPc.pending, List.length_singleton]
      omega
    loaded := nofun
    avail := by
      simp only [availStore, hslot]
      exact h.avail.store (by omega)
    stored := by
      intro head' hmem
      obtain rfl := List.mem_singleton.1 hmem
      simp only [availStore, hslot, Function.update_self]
    heads_lt := by
      intro head' hmem
      simp only [DrvPc.pending, List.append_assoc, List.mem_append, List.mem_singleton] at hmem
      rcases hmem with hmem | rfl | hmem
      · exact hheads _ (List.mem_append_left _ hmem)
      · exact hhead
      · exact hheads _ (List.mem_append_right _ hmem) }

theorem publish (h : RingInv s) (hs : s.publish = some s') : RingInv s' := by
  obtain ⟨head, hdrv, rfl⟩ := RingSys.publish_inv hs
  have hcons := h.consumed_le
  have hpush := h.pushed_le
  have hstored := h.stored
  have hheads := h.heads_lt
  rw [hdrv, DrvPc.pending] at hpush hstored hheads
  exact { h with
    avail_idx := by
      simp only [availPublish, h.avail_idx, List.length_append, List.length_singleton]
      omega
    consumed_le := by
      simp only [List.length_append]
      omega
    pushed_le := by
      simp only [availPublish, DrvPc.pending, List.length_append, List.length_nil] at hpush ⊢
      omega
    loaded := nofun
    avail := h.avail.publish (hstored head (List.mem_singleton_self head))
    stored := nofun
    consumed_prefix := h.consumed_prefix.trans (List.prefix_append ..)
    heads_lt := by
      rw [DrvPc.pending, List.append_nil]
      exact hheads }

theorem check (h : RingInv s) (hs : s.check = some s') : RingInv s' := by
  obtain ⟨hdrv, ⟨-, rfl⟩ | ⟨hne, rfl⟩⟩ := RingSys.check_inv hs
  · exact h
  · have hlt : s.popped.length < s.written.length :=
      Nat.lt_of_le_of_ne h.popped_le fun heq => hne (h.used_empty_iff.2 heq)
    have hpush := h.pushed_le
    have hheads := h.heads_lt
    rw [hdrv] at hpush hheads
    exact { h with
      pushed_le := hpush
      loaded := fun _ => hlt
      stored := nofun
      heads_lt := hheads }

theorem take (h : RingInv s) (hs : s.take = some s') : RingInv s' := by
  obtain ⟨hdrv, rfl⟩ := RingSys.take_inv hs
  have hlt := h.loaded hdrv
  have hfront := h.usedFront_eq hlt
  have hpush := h.pushed_le
  have hheads := h.heads_lt
  rw [hdrv] at hpush hheads
  exact { h with
    last_idx := by
      simp only [usedAdvance, h.last_idx, List.length_append, List.length_singleton]
      omega
    popped_le := by
      simp only [List.length_append, List.length_singleton]
      omega
    pushed_le := by
      simp only [usedAdvance, DrvPc.pending, List.length_append] at hpush ⊢
      omega
    loaded := nofun
    stored := nofun
    used := by
      rw [List.length_append, List.length_singleton]
      exact h.used.consume
    popped_prefix := by
      have hmap : s.popped.length < (s.written.map VirtqUsedElem.pair).length := by
        rwa [List.length_map]
      have hget : usedFront s.q = (s.written.map VirtqUsedElem.pair)[s.popped.length] := by
        rw [hfront, List.getElem_map]
      rw [hget]
      exact List.concat_get_prefix h.popped_prefix hmap
    heads_lt := hheads }

theorem consume (h : RingInv s) (hs : s.consume = some s') : RingInv s' := by
  obtain ⟨hne, rfl⟩ := RingSys.consume_inv hs
  have htaken := h.taken
  have hlt : s.consumed.length < s.pushed.length :=
    Nat.lt_of_le_of_ne h.consumed_le fun heq => hne (h.avail_empty_iff.2 heq)
  rw [h.availFront_eq hlt]
  exact { h with
    dev_idx := by
      simp only [h.dev_idx, List.length_append, List.length_singleton]
      omega
    taken := by
      simp only [List.length_append, List.length_singleton]
      omega
    consumed_le := by
      simp only [List.length_append, List.length_singleton]
      omega
    avail := by
      rw [List.length_append, List.length_singleton]
      exact h.avail.consume
    consumed_prefix := List.concat_get_prefix h.consumed_prefix hlt
    heads_lt := by
      intro head hmem
      rw [← List.append_assoc, List.mem_append, List.mem_singleton] at hmem
      rcases hmem with hmem | rfl
      · exact h.heads_lt head hmem
      · exact h.heads_lt _ (List.mem_append_left _ (List.mem_append_left _ (List.getElem_mem _))) }

theorem fill (h : RingInv s) (hs : s.fill id len = some s') : RingInv s' := by
  obtain ⟨hdev, hid, rfl⟩ := RingSys.fill_inv hs
  have hcons := h.consumed_le
  have hpush := h.pushed_le
  have htaken := h.taken
  have hslot := h.used_slot
  have hlen := List.length_erase_of_mem hid
  have hpos := List.length_pos_of_mem hid
  have hids := h.ids_lt
  rw [hdev, DevPc.pending] at htaken hids
  rw [List.append_nil] at hids
  rw [List.length_nil] at htaken
  exact { h with
    taken := by
      simp only [DevPc.pending, List.length_singleton, hlen]
      omega
    used := by
      simp only [hslot]
      exact h.used.store (by omega)
    filled := by
      intro e hmem
      obtain rfl := List.mem_singleton.1 hmem
      simp only [hslot, Function.update_self]
    heads_lt := by
      intro head hmem
      rcases List.mem_append.1 hmem with hmem | hmem
      · exact h.heads_lt head (List.mem_append_left _ hmem)
      · exact h.heads_lt head (List.mem_append_right _ (List.mem_of_mem_erase hmem))
    ids_lt := by
      intro e hmem
      rcases List.mem_append.1 hmem with hmem | hmem
      · exact hids e hmem
      · obtain rfl := List.mem_singleton.1 hmem
        exact h.heads_lt id (List.mem_append_right _ hid) }

theorem giveBack (h : RingInv s) (hs : s.giveBack = some s') : RingInv s' := by
  obtain ⟨e, hdev, rfl⟩ := RingSys.giveBack_inv hs
  have hpop := h.popped_le
  have htaken := h.taken
  have hfilled := h.filled
  have hids := h.ids_lt
  rw [hdev, DevPc.pending] at htaken hfilled hids
  rw [List.length_singleton] at htaken
  exact { h with
    used_idx := by
      simp only [h.used_idx, List.length_append, List.length_singleton]
      omega
    popped_le := by
      simp only [List.length_append]
      omega
    taken := by
      simp only [DevPc.pending, List.length_append, List.length_singleton, List.length_nil]
      omega
    loaded := fun hdrv => by
      have hlt := h.loaded hdrv
      simp only [List.length_append]
      omega
    used := h.used.publish (hfilled e (List.mem_singleton_self e))
    filled := nofun
    popped_prefix := by
      rw [List.map_append]
      exact h.popped_prefix.trans (List.prefix_append ..)
    ids_lt := by
      rw [DevPc.pending, List.append_nil]
      exact hids }

/-- **Every step keeps the invariant.** -/
theorem step {a : RingStep} (h : RingInv s) (hs : ringStep a s = some s') : RingInv s' := by
  cases a with
  | store head => exact h.store hs
  | publish => exact h.publish hs
  | check => exact h.check hs
  | take => exact h.take hs
  | consume => exact h.consume hs
  | fill id len => exact h.fill hs
  | giveBack => exact h.giveBack hs

end RingInv

/-- A queue that has been set up, with a size that divides the range of the indices. -/
theorem ringInv_init {q₀ q : Virtq} {k qmax : ℕ} (hk : k ≤ 15)
    (hsetup : virtioQueueSetup q₀ (2 ^ k) qmax = some q) : RingInv (ringSystem q).init := by
  obtain ⟨-, hsetup⟩ := Option.ite_none_left_eq_some.1 hsetup
  obtain rfl := Option.some.inj hsetup
  have hle : 2 ^ k ≤ 2 ^ 15 := Nat.pow_le_pow_right (by omega) hk
  exact {
    size_dvd := Nat.pow_dvd_pow 2 (by omega)
    size_le := hle
    avail_idx := rfl
    dev_idx := rfl
    used_idx := rfl
    last_idx := rfl
    popped_le := Nat.le_refl 0
    taken := rfl
    consumed_le := Nat.le_refl 0
    pushed_le := Nat.zero_le _
    loaded := nofun
    avail := holds_nil
    stored := nofun
    used := holds_nil
    filled := nofun
    consumed_prefix := List.prefix_refl []
    popped_prefix := List.prefix_refl []
    heads_lt := nofun
    ids_lt := nofun }

/-! ## The two functions as steps -/

/-- The two steps of a push are `virtq_avail_push`. -/
theorem store_publish {s : RingSys} {head : ℕ} (hdrv : s.drv = .idle) (hhead : head < 2 ^ 16)
    (hroom : s.pushed.length < s.popped.length + s.q.size) :
    (s.store head).bind RingSys.publish =
      some { s with q := virtqAvailPush s.q head, pushed := s.pushed ++ [head], drv := .idle } := by
  rw [RingSys.store, hdrv]
  dsimp only
  rw [if_pos ⟨hhead, hroom⟩]
  rfl

/-- The steps of a pop are `virtq_used_pop`, when it returns true. -/
theorem check_take {s : RingSys} {e : ℕ × ℕ} {q : Virtq} (hdrv : s.drv = .idle)
    (hpop : virtqUsedPop s.q = (some e, q)) :
    s.check.bind RingSys.take = some { s with q := q, popped := s.popped ++ [e], drv := .idle } := by
  unfold virtqUsedPop at hpop
  split at hpop
  next => cases hpop
  next hne =>
    cases hpop
    rw [RingSys.check, hdrv]
    dsimp only
    rw [if_neg hne]
    rfl

/-- The step of a pop that returns false changes nothing. -/
theorem check_of_none {s : RingSys} {q : Virtq} (hdrv : s.drv = .idle)
    (hpop : virtqUsedPop s.q = (none, q)) : s.check = some s ∧ q = s.q := by
  unfold virtqUsedPop at hpop
  split at hpop
  next hempty =>
    cases hpop
    rw [RingSys.check, hdrv]
    exact ⟨congrArg some (if_pos hempty), rfl⟩
  next => cases hpop

/-! ## Main result -/

/-- **The rings are queues**, however often their indices wrap. In every state that driver and
device reach on a queue whose size is a power of two up to 32768, with at most as many chains
outstanding as the queue has descriptors:

* the heads that the device has taken are those pushed, in the order in which they were, and it
  sees an empty ring exactly when it has taken them all;
* the elements that the driver has popped are those the device has written, id and length, in the
  order in which they were, and `virtq_used_pop` returns false exactly when it has popped them all;
* the next head and the next element are those that follow in these orders. -/
theorem ring_fifo {q₀ q : Virtq} {k qmax : ℕ} (hk : k ≤ 15)
    (hsetup : virtioQueueSetup q₀ (2 ^ k) qmax = some q) {s : RingSys}
    (h : (ringSystem q).Reachable s) :
    s.consumed <+: s.pushed ∧
    (s.q.availIdx = s.devIdx ↔ s.consumed.length = s.pushed.length) ∧
    (∀ hlt : s.consumed.length < s.pushed.length,
      s.q.availRing (s.devIdx % s.q.size) = s.pushed[s.consumed.length]) ∧
    s.popped <+: s.written.map VirtqUsedElem.pair ∧
    ((virtqUsedPop s.q).1 = none ↔ s.popped.length = s.written.length) ∧
    ∀ hlt : s.popped.length < s.written.length,
      (virtqUsedPop s.q).1 = some s.written[s.popped.length].pair := by
  have hinv : RingInv s := h.invariant (ringInv_init hk hsetup) fun hI _ hs => hI.step hs
  refine ⟨hinv.consumed_prefix, hinv.avail_empty_iff, hinv.availFront_eq, hinv.popped_prefix,
    ?_, fun hlt => ?_⟩
  · rw [← hinv.used_empty_iff, virtqUsedPop]
    split
    next hempty => exact iff_of_true rfl hempty
    next hne => exact iff_of_false nofun hne
  · have hne : ¬UsedEmpty s.q := fun hempty => by
      have := hinv.used_empty_iff.1 hempty
      omega
    rw [virtqUsedPop, if_neg hne, hinv.usedFront_eq hlt]

/-- A queue in memory that nothing has been stored to. -/
def blankQueue : Virtq where
  size := 0
  lastUsedIdx := 0
  freeHead := 0
  numFree := 0
  desc _ := ⟨0, 0, 0, 0⟩
  availIdx := 0
  availRing _ := 0
  usedIdx := 0
  usedRing _ := ⟨0, 0⟩

/-- Two heads are pushed, the second is returned first, and the driver has popped it. -/
theorem ring_fifo_two :
    ∃ (q : Virtq) (s : RingSys), (ringSystem q).Reachable s ∧ s.popped = [(5, 8)] ∧
      s.consumed = [3, 5] ∧ s.popped <+: s.written.map VirtqUsedElem.pair := by
  have hrun : (ringSystem { blankQueue with size := 2 ^ 4 }).run
      [.store 3, .publish, .store 5, .consume, .publish, .consume, .fill 5 8, .giveBack, .check,
        .take] (ringSystem { blankQueue with size := 2 ^ 4 }).init = some _ := rfl
  have hsetup : virtioQueueSetup blankQueue (2 ^ 4) 16 = some { blankQueue with size := 2 ^ 4 } := by
    rw [virtioQueueSetup, if_neg (by decide)]
    congr 2
    funext i
    exact ite_self _
  have hreach := Machine.reachable_of_run hrun
  exact ⟨_, _, hreach, rfl, rfl, (ring_fifo (by decide) hsetup hreach).2.2.2.1⟩

end RvvmHal.Virtio
