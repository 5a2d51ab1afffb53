import RvvmHal.Foundations.EachStep
import RvvmHal.Foundations.Loop
import RvvmHal.Virtio.Input

/-!
# The ids of the input device

`virtio_input_poll` as a whole, against a device that may have anything in the used ring. The driver
sees a new content of the ring in every round of its loop (`UsedView`), so the device may change it
while the loop runs.

The test of the id stands before the event is read, and not before the descriptor is freed: an
element whose id is out of range is put into the free list, and posted with the next refill. As long
as all ids are in range, whatever is popped and however often, the free list stays inside of the
table, and is empty when the call returns; and this is the only way (`input_ids_iff`).
-/

namespace RvvmHal.Virtio

open Bytes Loop

/-! ## A call of `virtio_input_poll` -/

/-- What the driver finds in one round of its loop: `used.idx`, the used ring, and the memory of the
event buffers. -/
structure UsedView where
  usedIdx : ℕ
  usedRing : ℕ → VirtqUsedElem
  mem : Mem

/-- An access to an entry of the table of descriptors, or to an event buffer. -/
inductive Access
  | desc (i : ℕ)
  | evt (i : ℕ)
  deriving DecidableEq

/-- The index of the entry or of the buffer. -/
def Access.index : Access → ℕ
  | .desc i => i
  | .evt i => i

/-- The queue as the driver finds it. -/
def Virtq.withView (q : Virtq) (v : UsedView) : Virtq :=
  { q with usedIdx := v.usedIdx, usedRing := v.usedRing }

/-- A call of `virtio_input_poll`: the queue, the locals `any` and `events`, the callbacks, and the
elements popped, each with the accesses made for it. -/
structure InputPoll where
  q : Virtq
  any : Bool
  events : ℕ
  calls : List (ℕ × Bool)
  popped : List (VirtqUsedElem × List Access)

/-- The accesses for an element: its event is read, if it has one, and its descriptor is freed. -/
def elemAccesses (id len : ℕ) : List Access :=
  (if id < VIRTIO_INPUT_QSIZE ∧ 8 ≤ len then [.evt id] else []) ++ [.desc id]

section

variable (evtBuf : ℕ)

/-- A round of the loop; `none` when `virtq_used_pop` returns false. -/
def inputRound (v : UsedView) (s : InputPoll) : Option InputPoll :=
  let q := s.q.withView v
  match virtqUsedPop q with
  | (none, _) => none
  | (some (id, len), q') =>
    let call := inputEvent evtBuf v.mem id len
    some {
      q := virtqFreeDesc q' id
      any := true
      events := if call.isSome then s.events + 1 else s.events
      calls := s.calls ++ call.toList
      popped := s.popped ++ [(q.usedRing (q.lastUsedIdx % q.size), elemAccesses id len)] }

/-- The loop, for what it finds round by round; `none` when it has not been left by then. -/
def drainEventq : List UsedView → InputPoll → Option InputPoll
  | [], _ => none
  | v :: vs, s =>
    match inputRound evtBuf v s with
    | none => some { s with q := s.q.withView v }
    | some s => drainEventq vs s

/-- A round of the loop in `refill_eventq`, with the accesses so far. -/
def refillBody (s : Virtq × List Access) : Iter (Virtq × List Access) (Virtq × List Access) :=
  if s.1.numFree = 0 then .stop s
  else
    let (idx, q) := virtqAllocDesc s.1
    if idx = 0xFFFF then .stop (q, s.2 ++ [.desc idx])
    else .next (virtqAvailPush (writeDesc q idx (Input.eventDesc evtBuf idx)) idx,
      s.2 ++ [.desc idx, .evt idx])

/-- `refill_eventq`, with the accesses that it makes. -/
def refillEventq (q : Virtq) : Option (Virtq × List Access) :=
  iterate (refillBody evtBuf) (2 ^ 16) (q, [])

/-- `virtio_input_poll`, with the accesses of the refill. -/
def virtioInputPoll (views : List UsedView) (q : Virtq) : Option (InputPoll × List Access) :=
  (drainEventq evtBuf views ⟨q, false, 0, [], []⟩).bind fun s =>
    if s.any then (refillEventq evtBuf s.q).map fun r => ({ s with q := r.1 }, r.2)
    else some (s, [])

/-- Calls one after the other. -/
def inputPolls (polls : List (List UsedView)) (q : Virtq) : Option Virtq :=
  polls.foldlM (fun q views => (virtioInputPoll evtBuf views q).map (·.1.q)) q

/-- The elements that a call pops, from what it finds: those up to the first round in which
`used.idx` is the driver's index. -/
def usedElems (size : ℕ) : List UsedView → ℕ → List VirtqUsedElem
  | [], _ => []
  | v :: vs, last =>
    if v.usedIdx = last then []
    else v.usedRing (last % size) :: usedElems size vs ((last + 1) % 2 ^ 16)

end

/-- **A safe call**: all accesses are inside of the table and the buffers, none is made for an
element whose id is out of range, and the free list that is left is well formed. -/
structure PollSafe (r : InputPoll × List Access) : Prop where
  inside : ∀ p ∈ r.1.popped, ∀ a ∈ p.2, a.index < VIRTIO_INPUT_QSIZE
  refill : ∀ a ∈ r.2, a.index < VIRTIO_INPUT_QSIZE
  ignored : ∀ p ∈ r.1.popped, VIRTIO_INPUT_QSIZE ≤ p.1.id → p.2 = []
  numFree_le : r.1.q.numFree ≤ VIRTIO_INPUT_QSIZE
  nodup : (freeList r.1.q).Nodup
  freeList_lt : ∀ i ∈ freeList r.1.q, i < VIRTIO_INPUT_QSIZE

/-! ## Rounds -/

section

variable {evtBuf : ℕ} {q q' : Virtq} {v : UsedView} {s s' : InputPoll}

theorem inputRound_empty (h : UsedEmpty (s.q.withView v)) : inputRound evtBuf v s = none := by
  simp only [inputRound, virtqUsedPop, if_pos h]

theorem inputRound_some (h : ¬ UsedEmpty (s.q.withView v)) :
    inputRound evtBuf v s =
      let e := usedFront (s.q.withView v)
      let call := inputEvent evtBuf v.mem e.1 e.2
      some {
        q := virtqFreeDesc (usedAdvance (s.q.withView v)) e.1
        any := true
        events := if call.isSome then s.events + 1 else s.events
        calls := s.calls ++ call.toList
        popped := s.popped ++
          [(v.usedRing (s.q.lastUsedIdx % s.q.size), elemAccesses e.1 e.2)] } := by
  simp only [inputRound, virtqUsedPop, if_neg h]
  rfl

theorem inputRound_inv (hs : inputRound evtBuf v s = some s') :
    ¬ UsedEmpty (s.q.withView v) ∧ s' =
      let e := usedFront (s.q.withView v)
      let call := inputEvent evtBuf v.mem e.1 e.2
      { q := virtqFreeDesc (usedAdvance (s.q.withView v)) e.1
        any := true
        events := if call.isSome then s.events + 1 else s.events
        calls := s.calls ++ call.toList
        popped := s.popped ++
          [(v.usedRing (s.q.lastUsedIdx % s.q.size), elemAccesses e.1 e.2)] } := by
  by_cases hempty : UsedEmpty (s.q.withView v)
  · rw [inputRound_empty hempty] at hs
    cases hs
  · rw [inputRound_some hempty] at hs
    exact ⟨hempty, (Option.some.inj hs).symm⟩

/-- A round that goes on is what the statements of the driver do, as long as the device does nothing
between them. -/
theorem inputRound_steps {t : Input} {q₀ : Virtq} {mem₀ : Mem} {any : Bool}
    (hpc : t.pc = .drain any s.events) (hdrv : t.ring.drv = .idle)
    (hq : t.ring.q = s.q.withView v) (hmem : t.mem = v.mem) (hcalls : t.calls = s.calls)
    (hs : inputRound evtBuf v s = some s') :
    ∃ t', (inputSystem evtBuf q₀ mem₀).run [.check, .take, .handle, .release] t = some t' ∧
      t'.pc = .drain true s'.events ∧ t'.ring.drv = .idle ∧ t'.ring.q = s'.q ∧
      t'.calls = s'.calls := by
  obtain ⟨hne, rfl⟩ := inputRound_inv hs
  obtain ⟨ring, mem, pc, coming, events, calls⟩ := t
  dsimp only at hpc hdrv hq hmem hcalls
  subst hpc hmem hcalls
  simp only [Machine.run, inputSystem, inputStep, Input.check, Input.take, Input.handle,
    Input.release, RingSys.take, hdrv, hq, if_neg hne, Option.bind_some, Option.map_some]
  cases hcall : inputEvent evtBuf v.mem (usedFront (s.q.withView v)).1
      (usedFront (s.q.withView v)).2 with
  | none => exact ⟨_, rfl, rfl, rfl, rfl, (List.append_nil _).symm⟩
  | some call => exact ⟨_, rfl, rfl, rfl, rfl, rfl⟩

theorem refillBody_of_zero {r : Virtq × List Access} (h : r.1.numFree = 0) :
    refillBody evtBuf r = .stop r := if_pos h

/-- A round of the refill while descriptors are free. -/
theorem refillBody_of_ne {r : Virtq × List Access} (h : r.1.numFree ≠ 0) :
    refillBody evtBuf r =
      if r.1.freeHead = 0xFFFF then
        .stop ((virtqAllocDesc r.1).2, r.2 ++ [.desc r.1.freeHead])
      else
        .next (virtqAvailPush (writeDesc (virtqAllocDesc r.1).2 r.1.freeHead
          (Input.eventDesc evtBuf r.1.freeHead)) r.1.freeHead,
          r.2 ++ [.desc r.1.freeHead, .evt r.1.freeHead]) := by
  have hidx : (virtqAllocDesc r.1).1 = r.1.freeHead := by
    rw [virtqAllocDesc, if_neg h]
  simp only [refillBody, if_neg h, hidx]

/-- **A round of the refill** that goes on has posted the first free descriptor. -/
theorem refillBody_eq_next {r r' : Virtq × List Access} (hb : refillBody evtBuf r = .next r') :
    r.1.numFree ≠ 0 ∧ r.1.freeHead ≠ 0xFFFF ∧
      r' = (virtqAvailPush (writeDesc (virtqAllocDesc r.1).2 r.1.freeHead
        (Input.eventDesc evtBuf r.1.freeHead)) r.1.freeHead,
        r.2 ++ [.desc r.1.freeHead, .evt r.1.freeHead]) := by
  by_cases hzero : r.1.numFree = 0
  · rw [refillBody_of_zero hzero] at hb
    cases hb
  · rw [refillBody_of_ne hzero] at hb
    split at hb
    next => cases hb
    next hhead => exact ⟨hzero, hhead, (Iter.next.inj hb).symm⟩

/-- Such a round, too, is what the statements of the driver do. -/
theorem refillBody_steps {t : Input} {q₀ : Virtq} {mem₀ : Mem} {events : ℕ}
    {r r' : Virtq × List Access} (hpc : t.pc = .refill events) (hdrv : t.ring.drv = .idle)
    (hq : t.ring.q = r.1) (hb : refillBody evtBuf r = .next r') :
    ∃ t', (inputSystem evtBuf q₀ mem₀).run [.refill, .store, .publish] t = some t' ∧
      t'.pc = .refill events ∧ t'.ring.drv = .idle ∧ t'.ring.q = r'.1 ∧ t'.calls = t.calls := by
  obtain ⟨hne, hhead, rfl⟩ := refillBody_eq_next hb
  obtain ⟨ring, mem, pc, coming, evs, calls⟩ := t
  dsimp only at hpc hdrv hq
  subst hpc
  have hidx : (virtqAllocDesc r.1).1 = r.1.freeHead := by
    rw [virtqAllocDesc, if_neg hne]
  simp only [Machine.run, inputSystem, inputStep, Input.refill, Input.store, Input.publish,
    RingSys.publish, hdrv, hq, hidx, if_neg hne, if_neg hhead, Option.bind_some, Option.map_some]
  exact ⟨_, rfl, rfl, rfl, rfl, rfl⟩

/-! ## The table -/

/-- The free list stays inside of the table, wherever it goes. -/
structure InRange (q : Virtq) : Prop where
  size : q.size = VIRTIO_INPUT_QSIZE
  head_lt : q.freeHead < VIRTIO_INPUT_QSIZE
  next_lt : ∀ i < VIRTIO_INPUT_QSIZE, nextOf q.desc i < VIRTIO_INPUT_QSIZE

/-- The counters of the queue are words. -/
structure Words (q : Virtq) : Prop where
  numFree_lt : q.numFree < 2 ^ 16
  last_lt : q.lastUsedIdx < 2 ^ 16

/-- A descriptor of the table that is freed. -/
theorem InRange.free {id : ℕ} (h : InRange q) (hid : id < VIRTIO_INPUT_QSIZE) :
    InRange (virtqFreeDesc q id) where
  size := h.size
  head_lt := hid
  next_lt i hi := by
    rw [virtqFreeDesc, nextOf_setNext]
    by_cases heq : i = id
    · rw [heq, Function.update_self]
      exact h.head_lt
    · rw [Function.update_of_ne heq]
      exact h.next_lt i hi

/-- The first free descriptor is taken, filled in and posted. -/
theorem InRange.post {d : VirtqDesc} (h : InRange q) (hfree : q.numFree ≠ 0)
    (hd : d.next < VIRTIO_INPUT_QSIZE) :
    InRange (virtqAvailPush (writeDesc (virtqAllocDesc q).2 q.freeHead d) q.freeHead) := by
  rw [virtqAllocDesc, if_neg hfree]
  refine ⟨h.size, h.next_lt _ h.head_lt, fun i hi => ?_⟩
  simp only [virtqAvailPush, availPublish, availStore, writeDesc, nextOf_update]
  by_cases heq : i = q.freeHead
  · rw [heq, Function.update_self]
    exact hd
  · rw [Function.update_of_ne heq]
    exact h.next_lt i hi

/-- The table that `virtq_free_init` leaves. -/
theorem inRange_virtqFreeInit (hsize : q.size = VIRTIO_INPUT_QSIZE) :
    InRange (virtqFreeInit q) where
  size := hsize
  head_lt := by
    show 0 < 16
    omega
  next_lt i hi := by
    simp only [VIRTIO_INPUT_QSIZE] at hsize hi
    simp only [virtqFreeInit, VIRTIO_INPUT_QSIZE, nextOf_setNext, hsize]
    by_cases heq : i = 16 - 1
    · rw [heq, Function.update_self]
      omega
    · rw [Function.update_of_ne heq, nextOf_foldl_setNext, if_pos (by omega)]
      omega

/-! ## The refill -/

/-- A round of the refill takes one descriptor off the list. -/
theorem numFree_of_next {r r' : Virtq × List Access} (hb : refillBody evtBuf r = .next r') :
    r'.1.numFree < r.1.numFree := by
  obtain ⟨hne, -, rfl⟩ := refillBody_eq_next hb
  simp only [virtqAvailPush, availPublish, availStore, writeDesc, virtqAllocDesc, if_neg hne]
  omega

/-- **The refill** returns. -/
theorem refillEventq_returns (h : q.numFree < 2 ^ 16) : ∃ r, refillEventq evtBuf q = some r := by
  refine iterate_of_measure (fun r => r.1.numFree) (fun _ _ _ hb => numFree_of_next hb)
    (fun r _ hb => ?_) h
  by_cases hzero : r.1.numFree = 0
  · rw [refillBody_of_zero hzero] at hb
    cases hb
  · rw [refillBody_of_ne hzero] at hb
    split at hb <;> cases hb

/-- A refill from a free list inside of the table empties it, and makes no access outside. -/
theorem InRange.refillEventq {r : Virtq × List Access} (h : InRange q)
    (hr : refillEventq evtBuf q = some r) :
    InRange r.1 ∧ r.1.numFree = 0 ∧ ∀ a ∈ r.2, a.index < VIRTIO_INPUT_QSIZE := by
  obtain ⟨t, hv, hstop⟩ := exists_stop_of_iterate hr
  obtain ⟨hrange, hlog⟩ : InRange t.1 ∧ ∀ a ∈ t.2, a.index < VIRTIO_INPUT_QSIZE := by
    refine hv.invariant (I := fun t => InRange t.1 ∧ ∀ a ∈ t.2, a.index < VIRTIO_INPUT_QSIZE)
      ⟨h, fun _ ha => absurd ha List.not_mem_nil⟩ ?_
    rintro t t' ⟨hrange, hlog⟩ hb
    obtain ⟨hne, -, rfl⟩ := refillBody_eq_next hb
    refine ⟨hrange.post hne (Nat.succ_pos 15), List.forall_mem_append.2 ⟨hlog, fun a ha => ?_⟩⟩
    have hhead := hrange.head_lt
    rcases List.mem_pair.1 ha with rfl | rfl
    · exact hhead
    · exact hhead
  by_cases hzero : t.1.numFree = 0
  · rw [refillBody_of_zero hzero] at hstop
    obtain rfl := Iter.stop.inj hstop
    exact ⟨hrange, hzero, hlog⟩
  · have hhead := hrange.head_lt
    rw [refillBody_of_ne hzero, if_neg (by simp only [VIRTIO_INPUT_QSIZE] at hhead; omega)] at hstop
    cases hstop

theorem Words.refill {r : Virtq × List Access} (h : Words q)
    (hr : refillEventq evtBuf q = some r) : Words r.1 := by
  obtain ⟨t, hv, hstop⟩ := exists_stop_of_iterate hr
  have hwords : Words t.1 := by
    refine hv.invariant (I := fun t => Words t.1) h fun {t t'} ht hb => ?_
    have hlt := numFree_of_next hb
    obtain ⟨hne, -, rfl⟩ := refillBody_eq_next hb
    refine ⟨Nat.lt_trans hlt ht.numFree_lt, ?_⟩
    rw [virtqAllocDesc, if_neg hne]
    exact ht.last_lt
  by_cases hzero : t.1.numFree = 0
  · rw [refillBody_of_zero hzero] at hstop
    exact Iter.stop.inj hstop ▸ hwords
  · rw [refillBody_of_ne hzero] at hstop
    split at hstop
    · obtain rfl := Iter.stop.inj hstop
      rw [virtqAllocDesc, if_neg hzero]
      exact ⟨Nat.mod_lt _ (by norm_num), hwords.last_lt⟩
    · cases hstop

/-! ## The loop -/

variable {views : List UsedView}

theorem elemAccesses_ne_nil (id len : ℕ) : elemAccesses id len ≠ [] := by
  simp [elemAccesses]

/-- An element whose id is in range is handled inside of the table. -/
theorem elemAccesses_lt {id len : ℕ} (hid : id < VIRTIO_INPUT_QSIZE) :
    ∀ a ∈ elemAccesses id len, a.index < VIRTIO_INPUT_QSIZE := by
  intro a ha
  rcases List.mem_append.1 ha with ha | ha
  · split at ha
    · obtain rfl := List.mem_singleton.1 ha
      exact hid
    · cases ha
  · obtain rfl := List.mem_singleton.1 ha
    exact hid

/-- **Invariant rule** for the loop: what a round keeps, and the look at a ring that is empty, holds
when the loop has been left. -/
theorem drainEventq_invariant {I : InputPoll → Prop}
    (hround : ∀ {v s s'}, I s → inputRound evtBuf v s = some s' → I s')
    (hview : ∀ {v s}, I s → I { s with q := s.q.withView v }) (h : I s)
    (hs : drainEventq evtBuf views s = some s') : I s' := by
  induction views generalizing s with
  | nil => cases hs
  | cons v vs ih =>
    rw [drainEventq] at hs
    cases hr : inputRound evtBuf v s with
    | none =>
      rw [hr] at hs
      exact Option.some.inj hs ▸ hview h
    | some t =>
      rw [hr] at hs
      exact ih (hround h hr) hs

/-- What the loop pops is what it finds. -/
theorem drainEventq_popped (hs : drainEventq evtBuf views s = some s') :
    s'.popped.map Prod.fst =
      s.popped.map Prod.fst ++ usedElems s.q.size views s.q.lastUsedIdx := by
  induction views generalizing s with
  | nil => cases hs
  | cons v vs ih =>
    rw [drainEventq] at hs
    rw [usedElems]
    by_cases hempty : v.usedIdx = s.q.lastUsedIdx
    · rw [inputRound_empty hempty] at hs
      obtain rfl := Option.some.inj hs
      rw [if_pos hempty, List.append_nil]
    · rw [inputRound_some hempty] at hs
      rw [ih hs, if_neg hempty, List.map_append, List.append_assoc]
      rfl

/-- No element is popped without an access. -/
theorem inputRound_ne_nil (hs : inputRound evtBuf v s = some s') (h : ∀ p ∈ s.popped, p.2 ≠ []) :
    ∀ p ∈ s'.popped, p.2 ≠ [] := by
  obtain ⟨-, rfl⟩ := inputRound_inv hs
  intro p hp
  rcases List.mem_append.1 hp with hp | hp
  · exact h p hp
  · obtain rfl := List.mem_singleton.1 hp
    exact elemAccesses_ne_nil _ _

/-- The counters stay words. -/
theorem Words.drain (h : Words s.q) (hs : drainEventq evtBuf views s = some s') : Words s'.q := by
  refine drainEventq_invariant (I := fun s => Words s.q) (fun h hs => ?_) (fun h => ?_) h hs
  · obtain ⟨-, rfl⟩ := inputRound_inv hs
    exact ⟨Nat.mod_lt _ (by norm_num), Nat.mod_lt _ (by norm_num)⟩
  · exact ⟨h.numFree_lt, h.last_lt⟩

/-- A loop that pops nothing leaves the free list as it is. -/
theorem drainEventq_numFree (h : s.q.numFree = 0) (hs : drainEventq evtBuf views s = some s') :
    s'.any = true ∨ s'.q.numFree = 0 := by
  refine drainEventq_invariant (I := fun s => s.any = true ∨ s.q.numFree = 0) (fun h hs => ?_)
    (fun h => h) (.inr h) hs
  obtain ⟨-, rfl⟩ := inputRound_inv hs
  exact .inl rfl

/-- The free list is inside of the table, and so are all accesses. -/
structure DrainOk (s : InputPoll) : Prop where
  inRange : InRange s.q
  inside : ∀ p ∈ s.popped, ∀ a ∈ p.2, a.index < VIRTIO_INPUT_QSIZE

/-- **A round** stays inside of the table, when the id that it finds is in range. -/
theorem DrainOk.round (h : DrainOk s) (hs : inputRound evtBuf v s = some s')
    (hids : ∀ p ∈ s'.popped, p.1.id < VIRTIO_INPUT_QSIZE) : DrainOk s' := by
  obtain ⟨-, rfl⟩ := inputRound_inv hs
  have hid : (v.usedRing (s.q.lastUsedIdx % s.q.size)).id < VIRTIO_INPUT_QSIZE :=
    hids _ (List.mem_append_right _ (List.mem_singleton_self _))
  have hfront : (usedFront (s.q.withView v)).1 < VIRTIO_INPUT_QSIZE :=
    Nat.lt_of_le_of_lt (Nat.mod_le _ _) hid
  have hrange : InRange (usedAdvance (s.q.withView v)) :=
    ⟨h.inRange.size, h.inRange.head_lt, h.inRange.next_lt⟩
  refine ⟨hrange.free hfront, fun p hp => ?_⟩
  rcases List.mem_append.1 hp with hp | hp
  · exact h.inside p hp
  · obtain rfl := List.mem_singleton.1 hp
    exact elemAccesses_lt hfront

/-- **The loop** stays inside of the table, when all ids that it finds are in range. -/
theorem DrainOk.drain (h : DrainOk s) (hs : drainEventq evtBuf views s = some s')
    (hids : ∀ p ∈ s'.popped, p.1.id < VIRTIO_INPUT_QSIZE) : DrainOk s' := by
  refine drainEventq_invariant
    (I := fun s => (∀ p ∈ s.popped, p.1.id < VIRTIO_INPUT_QSIZE) → DrainOk s) (fun h hs hids => ?_)
    (fun h hids => ?_) (fun _ => h) hs hids
  · refine (h fun p hp => hids p ?_).round hs hids
    obtain ⟨-, rfl⟩ := inputRound_inv hs
    exact List.mem_append_left _ hp
  · obtain ⟨hrange, hinside⟩ := h hids
    exact ⟨⟨hrange.size, hrange.head_lt, hrange.next_lt⟩, hinside⟩

/-! ## Calls -/

/-- Between two calls every descriptor is posted. -/
structure Posted (q : Virtq) : Prop extends InRange q where
  numFree_eq : q.numFree = 0

variable {r : InputPoll × List Access}

/-- What a call has done: it has left the loop, and has refilled the queue if it popped anything. -/
theorem virtioInputPoll_inv (hr : virtioInputPoll evtBuf views q = some r) :
    ∃ s, drainEventq evtBuf views ⟨q, false, 0, [], []⟩ = some s ∧ r.1.popped = s.popped ∧
      ((s.any = true ∧ refillEventq evtBuf s.q = some (r.1.q, r.2)) ∨
        s.any = false ∧ r.1.q = s.q ∧ r.2 = []) := by
  obtain ⟨s, hs, hr⟩ := Option.bind_eq_some_iff.1 hr
  refine ⟨s, hs, ?_⟩
  cases hany : s.any with
  | true =>
    rw [hany, if_pos rfl] at hr
    obtain ⟨p, hp, rfl⟩ := Option.map_eq_some_iff.1 hr
    exact ⟨rfl, .inl ⟨rfl, hp⟩⟩
  | false =>
    rw [hany, if_neg Bool.false_ne_true] at hr
    obtain rfl := Option.some.inj hr
    exact ⟨rfl, .inr ⟨rfl, rfl, rfl⟩⟩

/-- A call pops the elements that it finds. -/
theorem virtioInputPoll_popped (hr : virtioInputPoll evtBuf views q = some r) :
    r.1.popped.map Prod.fst = usedElems q.size views q.lastUsedIdx := by
  obtain ⟨s, hs, hpopped, -⟩ := virtioInputPoll_inv hr
  rw [hpopped, drainEventq_popped hs]
  rfl

/-- **A call** is safe when all ids that it finds are in range, and then all descriptors are posted
again. -/
theorem Posted.poll (h : Posted q) (hr : virtioInputPoll evtBuf views q = some r)
    (hids : ∀ e ∈ usedElems VIRTIO_INPUT_QSIZE views q.lastUsedIdx, e.id < VIRTIO_INPUT_QSIZE) :
    PollSafe r ∧ Posted r.1.q := by
  have hpopped := virtioInputPoll_popped hr
  rw [h.size] at hpopped
  have hlt : ∀ p ∈ r.1.popped, p.1.id < VIRTIO_INPUT_QSIZE := fun p hp =>
    hids p.1 (hpopped ▸ List.mem_map_of_mem hp)
  obtain ⟨s, hs, heq, hcases⟩ := virtioInputPoll_inv hr
  have hstart : DrainOk ⟨q, false, 0, [], []⟩ :=
    ⟨h.toInRange, fun _ hp => absurd hp List.not_mem_nil⟩
  have hdrain := hstart.drain hs (heq ▸ hlt)
  obtain ⟨hposted, hrefill⟩ : Posted r.1.q ∧ ∀ a ∈ r.2, a.index < VIRTIO_INPUT_QSIZE := by
    rcases hcases with ⟨-, hrefill⟩ | ⟨hany, hq, hlog⟩
    · obtain ⟨hrange, hzero, hlog⟩ := hdrain.inRange.refillEventq hrefill
      exact ⟨⟨hrange, hzero⟩, hlog⟩
    · rw [hq, hlog]
      refine ⟨⟨hdrain.inRange, ?_⟩, fun _ ha => absurd ha List.not_mem_nil⟩
      rcases drainEventq_numFree h.numFree_eq hs with hany' | hzero
      · rw [hany] at hany'
        cases hany'
      · exact hzero
  have hlist : freeList r.1.q = [] := by
    rw [freeList, hposted.numFree_eq]
    rfl
  refine ⟨?_, hposted⟩
  exact {
    inside := heq ▸ hdrain.inside
    refill := hrefill
    ignored := fun p hp hge => absurd (hlt p hp) (Nat.not_lt.2 hge)
    numFree_le := by rw [hposted.numFree_eq]; exact Nat.zero_le _
    nodup := by rw [hlist]; exact .nil
    freeList_lt := by rw [hlist]; exact fun i hi => absurd hi List.not_mem_nil }

/-- A call that is safe has found no other ids: no element is ignored. -/
theorem PollSafe.ids (h : PollSafe r) (hsize : q.size = VIRTIO_INPUT_QSIZE)
    (hr : virtioInputPoll evtBuf views q = some r) :
    ∀ e ∈ usedElems VIRTIO_INPUT_QSIZE views q.lastUsedIdx, e.id < VIRTIO_INPUT_QSIZE := by
  intro e he
  rw [← hsize, ← virtioInputPoll_popped hr] at he
  obtain ⟨p, hp, rfl⟩ := List.mem_map.1 he
  by_contra hge
  obtain ⟨s, hs, heq, -⟩ := virtioInputPoll_inv hr
  have hne : ∀ p ∈ s.popped, p.2 ≠ [] :=
    drainEventq_invariant (I := fun s => ∀ p ∈ s.popped, p.2 ≠ [])
      (fun h hs => inputRound_ne_nil hs h) (fun h => h) (fun _ hp => absurd hp List.not_mem_nil) hs
  exact hne p (heq ▸ hp) (h.ignored p hp (Nat.le_of_not_lt hge))

/-- The loop is left when the device leaves the ring alone. -/
theorem drainEventq_static (hv : v.usedIdx < 2 ^ 16) (h : s.q.lastUsedIdx < 2 ^ 16) :
    ∃ n s', drainEventq evtBuf (List.replicate n v) s = some s' := by
  obtain ⟨n, hn⟩ : ∃ n, n = (v.usedIdx + 2 ^ 16 - s.q.lastUsedIdx) % 2 ^ 16 := ⟨_, rfl⟩
  induction n generalizing s with
  | zero =>
    have hempty : UsedEmpty (s.q.withView v) := by
      simp only [UsedEmpty, Virtq.withView]
      omega
    exact ⟨1, _, by rw [List.replicate_one, drainEventq, inputRound_empty hempty]⟩
  | succ n ih =>
    have hne : ¬ UsedEmpty (s.q.withView v) := by
      simp only [UsedEmpty, Virtq.withView]
      omega
    obtain ⟨t, hround, hlast⟩ : ∃ t, inputRound evtBuf v s = some t ∧
        t.q.lastUsedIdx = (s.q.lastUsedIdx + 1) % 2 ^ 16 := ⟨_, inputRound_some hne, rfl⟩
    obtain ⟨k, s', hk⟩ := ih (s := t) (by omega) (by omega)
    exact ⟨k + 1, s', by rw [List.replicate_succ, drainEventq, hround]; exact hk⟩

/-- So the call returns. -/
theorem virtioInputPoll_static (h : Words q) (hv : v.usedIdx < 2 ^ 16) :
    ∃ n r, virtioInputPoll evtBuf (List.replicate n v) q = some r := by
  obtain ⟨n, s, hs⟩ : ∃ n s,
      drainEventq evtBuf (List.replicate n v) ⟨q, false, 0, [], []⟩ = some s :=
    drainEventq_static hv h.last_lt
  have hwords : Words s.q := Words.drain h hs
  refine ⟨n, ?_⟩
  rw [virtioInputPoll, hs, Option.bind_some]
  cases s.any with
  | false => exact ⟨_, rfl⟩
  | true =>
    obtain ⟨p, hp⟩ : ∃ p, refillEventq evtBuf s.q = some p :=
      refillEventq_returns hwords.numFree_lt
    exact ⟨_, by rw [if_pos rfl, hp]; rfl⟩

theorem Words.poll (h : Words q) (hr : virtioInputPoll evtBuf views q = some r) : Words r.1.q := by
  obtain ⟨s, hs, -, ⟨-, hrefill⟩ | ⟨-, hq, -⟩⟩ := virtioInputPoll_inv hr
  · exact (Words.drain h hs).refill hrefill
  · rw [hq]
    exact Words.drain h hs

/-! ## Runs -/

theorem inputPolls_concat {polls : List (List UsedView)} {q'' : Virtq}
    (hrun : inputPolls evtBuf (polls ++ [views]) q = some q'') :
    ∃ q' r, inputPolls evtBuf polls q = some q' ∧ virtioInputPoll evtBuf views q' = some r ∧
      q'' = r.1.q := by
  rw [inputPolls, List.foldlM_append] at hrun
  obtain ⟨q', hq', hrun⟩ := Option.bind_eq_some_iff.1 hrun
  rw [List.foldlM_cons] at hrun
  obtain ⟨q₁, hq₁, hrun⟩ := Option.bind_eq_some_iff.1 hrun
  obtain ⟨r, hr, rfl⟩ := Option.map_eq_some_iff.1 hq₁
  exact ⟨q', r, hq', hr, (Option.some.inj hrun).symm⟩

theorem Words.polls {polls : List (List UsedView)} (h : Words q)
    (hrun : inputPolls evtBuf polls q = some q') : Words q' := by
  induction polls using List.reverseRecOn generalizing q' with
  | nil => exact Option.some.inj hrun ▸ h
  | append_singleton polls views ih =>
    obtain ⟨q₁, r, hq₁, hr, rfl⟩ := inputPolls_concat hrun
    exact (ih hq₁).poll hr

end

/-! ## Main result -/

variable (evtBuf : ℕ)

/-- A call behind others is safe. -/
def SafeAfter (q : Virtq) (past : List (List UsedView)) (views : List UsedView) : Prop :=
  ∀ q' r, inputPolls evtBuf past q = some q' → virtioInputPoll evtBuf views q' = some r → PollSafe r

/-- A call behind others finds no id that is out of range. -/
def IdsAfter (q : Virtq) (past : List (List UsedView)) (views : List UsedView) : Prop :=
  ∀ q' r, inputPolls evtBuf past q = some q' → virtioInputPoll evtBuf views q' = some r →
    ∀ e ∈ usedElems VIRTIO_INPUT_QSIZE views q'.lastUsedIdx, e.id < VIRTIO_INPUT_QSIZE

/-- **The ids in the used ring**: behind the refill of `virtio_input_init_fdt`, all calls of
`virtio_input_poll` are safe, in every run and whatever the device has in the ring, exactly when no
element that is popped has an id out of range. Every call returns when the device leaves the ring
alone. -/
theorem input_ids_iff {q q₁ : Virtq} {qmax : ℕ}
    (hsetup : virtioQueueSetup q VIRTIO_INPUT_QSIZE qmax = some q₁) :
    ∃ q₀ log, refillEventq evtBuf (virtqFreeInit q₁) = some (q₀, log) ∧
      (∀ a ∈ log, a.index < VIRTIO_INPUT_QSIZE) ∧
      (∀ polls, EachStep (SafeAfter evtBuf q₀) polls ↔ EachStep (IdsAfter evtBuf q₀) polls) ∧
      ∀ polls q', inputPolls evtBuf polls q₀ = some q' → ∀ v : UsedView, v.usedIdx < 2 ^ 16 →
        ∃ n r, virtioInputPoll evtBuf (List.replicate n v) q' = some r := by
  obtain ⟨hsize, hlast⟩ : q₁.size = VIRTIO_INPUT_QSIZE ∧ q₁.lastUsedIdx = 0 := by
    obtain ⟨-, hq₁⟩ := Option.ite_none_left_eq_some.1 hsetup
    obtain rfl := Option.some.inj hq₁
    exact ⟨rfl, rfl⟩
  have hrange := inRange_virtqFreeInit hsize
  have hwords : Words (virtqFreeInit q₁) := by
    refine ⟨?_, ?_⟩
    · show q₁.size < 2 ^ 16
      rw [hsize]
      norm_num
    · show q₁.lastUsedIdx < 2 ^ 16
      rw [hlast]
      norm_num
  obtain ⟨⟨q₀, log⟩, hrefill⟩ : ∃ p, refillEventq evtBuf (virtqFreeInit q₁) = some p :=
    refillEventq_returns hwords.numFree_lt
  obtain ⟨hrange₀, hzero, hlog⟩ := hrange.refillEventq hrefill
  refine ⟨q₀, log, hrefill, hlog, fun polls => ?_, fun polls q' hrun v hv => ?_⟩
  · refine (eachStep_congr (I := fun past => ∀ q', inputPolls evtBuf past q₀ = some q' → Posted q')
      ?_ ?_ ?_ polls).1
    · intro q' hrun
      exact Option.some.inj hrun ▸ ⟨hrange₀, hzero⟩
    · intro past views hposted
      constructor
      · intro hsafe q' r hrun hr
        exact (hsafe q' r hrun hr).ids (hposted q' hrun).size hr
      · intro hids q' r hrun hr
        exact ((hposted q' hrun).poll hr (hids q' r hrun hr)).1
    · intro past views hposted hsafe q'' hrun
      obtain ⟨q', r, hq', hr, rfl⟩ := inputPolls_concat hrun
      exact ((hposted q' hq').poll hr ((hsafe q' r hq' hr).ids (hposted q' hq').size hr)).2
  · exact virtioInputPoll_static ((hwords.refill hrefill).polls hrun) hv

/-- The elements that a call finds are in the ring. -/
theorem mem_usedElems {size last : ℕ} {views : List UsedView} {e : VirtqUsedElem}
    (h : e ∈ usedElems size views last) : ∃ v ∈ views, ∃ slot, e = v.usedRing slot := by
  induction views generalizing last with
  | nil => cases h
  | cons v vs ih =>
    rw [usedElems] at h
    split at h
    · cases h
    · rcases List.mem_cons.1 h with rfl | h
      · exact ⟨v, List.mem_cons_self, _, rfl⟩
      · obtain ⟨v', hv', hslot⟩ := ih h
        exact ⟨v', List.mem_cons_of_mem v hv', hslot⟩

/-- A ring with the same element in every slot, of which one is new. -/
def oneElem (id : ℕ) : UsedView := ⟨1, fun _ => ⟨id, 8⟩, fun _ => 0⟩

/-- A call that finds one id, in range. -/
theorem input_ids_iff_three :
    ∃ q₁ q₀ log, virtioQueueSetup blankQueue VIRTIO_INPUT_QSIZE 16 = some q₁ ∧
      refillEventq 0 (virtqFreeInit q₁) = some (q₀, log) ∧
      EachStep (SafeAfter 0 q₀) [[oneElem 3, oneElem 3]] := by
  have hsetup : virtioQueueSetup blankQueue VIRTIO_INPUT_QSIZE 16 = some _ := rfl
  obtain ⟨q₀, log, hrefill, -, hiff, -⟩ := input_ids_iff 0 hsetup
  refine ⟨_, q₀, log, hsetup, hrefill, (hiff _).2 ?_⟩
  refine eachStep_singleton.2 fun q' r _ _ e he => ?_
  obtain ⟨v, hv, slot, rfl⟩ := mem_usedElems he
  rcases List.mem_pair.1 hv with rfl | rfl
  · exact Nat.le_of_ble_eq_true rfl
  · exact Nat.le_of_ble_eq_true rfl

/-- A call that finds the id 16, behind the set-up of the queue. -/
def sixteenPoll : Option (InputPoll × List Access) :=
  (virtioQueueSetup blankQueue VIRTIO_INPUT_QSIZE 16).bind fun q₁ =>
    (refillEventq 0 (virtqFreeInit q₁)).bind fun p =>
      virtioInputPoll 0 [oneElem 16, oneElem 16] p.1

/-- **An id out of range is used**: descriptor 16 of the 16 is freed, and posted again with the
address of the event buffer behind the last. -/
theorem id_not_ignored :
    ∃ q₁ q₀ log r, virtioQueueSetup blankQueue VIRTIO_INPUT_QSIZE 16 = some q₁ ∧
      refillEventq 0 (virtqFreeInit q₁) = some (q₀, log) ∧
      virtioInputPoll 0 [oneElem 16, oneElem 16] q₀ = some r ∧
      r.1.popped = [(⟨16, 8⟩, [.desc 16])] ∧ r.2 = [.desc 16, .evt 16] ∧ ¬ PollSafe r := by
  have hpoll : sixteenPoll.map (fun r => (r.1.popped, r.2)) =
      some ([(⟨16, 8⟩, [.desc 16])], [.desc 16, .evt 16]) := by
    decide +kernel
  obtain ⟨r, hr, heq⟩ := Option.map_eq_some_iff.1 hpoll
  obtain ⟨hpopped, hlog⟩ := Prod.mk.inj heq
  obtain ⟨q₁, hsetup, hr⟩ := Option.bind_eq_some_iff.1 hr
  obtain ⟨⟨q₀, log⟩, hrefill, hr⟩ := Option.bind_eq_some_iff.1 hr
  refine ⟨q₁, q₀, log, r, hsetup, hrefill, hr, hpopped, hlog, fun hsafe => ?_⟩
  have hlt := hsafe.refill (.desc 16) (by rw [hlog]; exact List.mem_cons_self)
  exact absurd hlt (by decide)

end RvvmHal.Virtio
