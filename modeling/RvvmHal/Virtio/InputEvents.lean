import Mathlib.Data.List.Count
import RvvmHal.Virtio.Input

/-!
# The events of the input device

Every one of the 16 descriptors is at every moment in one place: in the free list, with the driver,
in the available ring, with the device, or in the used ring. `posted` lists those of the last three
kinds, `PollPc.own` the one the driver is busy with, and `InputInv` says that together with the free
list they are the descriptors of the queue. A buffer whose event has not been handled is therefore
not one that the device may store to, and the callbacks are those for the events published, in the
order of their publication (`input_events`).
-/

namespace RvvmHal.Virtio

open Bytes Threaded RingBuffer

variable (evtBuf : ℕ)

/-! ## Where the descriptors are -/

/-- The descriptor that the driver is busy with. -/
def PollPc.own : PollPc → List ℕ
  | .idle _ => []
  | .drain _ _ => []
  | .handle _ id _ => [id]
  | .release _ id => [id]
  | .refill _ => []
  | .post _ idx => [idx]

/-- The elements that the device has made: those it has published, and the one it is about to. -/
def RingSys.elems (r : RingSys) : List VirtqUsedElem := r.written ++ r.dev.pending

/-- The descriptors that are posted: in the available ring, with the device, or made an element
that the driver has not popped. -/
def RingSys.posted (r : RingSys) : List ℕ :=
  r.pushed.drop r.consumed.length ++ (r.inflight ++ (r.elems.drop r.popped.length).map (·.id))

/-- The number of elements whose events have been handled. -/
def Input.handled (s : Input) : ℕ :=
  match s.pc with
  | .handle _ _ _ => s.ring.popped.length - 1
  | _ => s.ring.popped.length

/-- The descriptor `i` points at the buffer of the same index, for the device to write to. -/
def Armed (desc : ℕ → VirtqDesc) (i : ℕ) : Prop :=
  (desc i).addr = evtAddr evtBuf i ∧ (desc i).len = 8 ∧ (desc i).flags = VIRTQ_DESC_F_WRITE

/-- The invariant of the input device. -/
structure InputInv (s : Input) : Prop where
  ring : RingInv s.ring
  size : s.ring.q.size = VIRTIO_INPUT_QSIZE
  owned : Owned s.ring.q (s.pc.own ++ s.ring.posted)
  armed : ∀ i ∈ s.pc.own ++ s.ring.posted, Armed evtBuf s.ring.q.desc i
  stored : ∀ head ∈ s.ring.drv.pending, ∃ events, s.pc = .post events head
  loaded : s.ring.drv = .loaded → ∃ any events, s.pc = .drain any events
  coming : s.coming.length = s.ring.dev.pending.length
  events : s.events.length = s.ring.written.length
  lens : ∀ e ∈ s.ring.elems, e.len = 8
  handling : ∀ events id len, s.pc = .handle events id len →
    ∃ k, s.ring.popped.length = k + 1 ∧ s.ring.written[k]? = some ⟨id, len⟩
  buffers : ∀ k el e, s.handled ≤ k → s.ring.elems[k]? = some el →
    (s.events ++ s.coming)[k]? = some e → readBytes s.mem (evtAddr evtBuf el.id) 8 = e.bytes
  calls : s.calls = (s.events.take s.handled).filterMap InputEvent.call
  quiet : (∃ events, s.pc = .idle events ∨ s.pc = .drain false events) → s.ring.q.numFree = 0

/-! ## Lemmas on the parts -/

/-- The rings do not depend on the descriptors. -/
theorem RingInv.congr {s : RingSys} {q : Virtq} (h : RingInv s)
    (hq : q = { s.q with desc := q.desc, freeHead := q.freeHead, numFree := q.numFree }) :
    RingInv { s with q := q } := by
  rw [hq]
  exact { h with }

theorem virtqAllocDesc_of_ne {q : Virtq} (h : q.numFree ≠ 0) :
    virtqAllocDesc q = (q.freeHead, { q with
      freeHead := (q.desc q.freeHead).next
      numFree := (q.numFree + (2 ^ 16 - 1)) % 2 ^ 16 }) := if_neg h

theorem length_bytes (e : InputEvent) : e.bytes.length = 8 := by
  simp [InputEvent.bytes]

/-- The codes of the table are below 128. -/
theorem lt_of_lkcToUsb_ne_zero {code : ℕ} (h : lkcToUsb code ≠ 0) : code < 128 := by
  have hkeys : ∀ p ∈ lkcToUsbTable, p.1 < 128 := by decide
  cases hlookup : lkcToUsbTable.lookup code with
  | none => exact absurd (by rw [lkcToUsb, hlookup]; rfl) h
  | some usage =>
    obtain ⟨l₁, l₂, heq, -⟩ := List.lookup_eq_some_iff.1 hlookup
    exact hkeys (code, usage) (by rw [heq]; simp)

/-- The fields of an event in memory. -/
theorem readLe_event {mem : Mem} {a : ℕ} {e : InputEvent} (h : readBytes mem a 8 = e.bytes) :
    readLe mem a 2 = e.type ∧ readLe mem (a + 2) 2 = e.code ∧ readLe mem (a + 4) 4 = e.value := by
  have h₁ := e.type_lt
  have h₂ := e.code_lt
  have h₃ := e.value_lt
  rw [InputEvent.bytes, readBytes_add mem a 2 6, readBytes_add mem (a + 2) 2 4] at h
  obtain ⟨htype, hrest⟩ := List.append_inj h (by simp)
  obtain ⟨hcode, hvalue⟩ := List.append_inj hrest (by simp)
  refine ⟨?_, ?_, ?_⟩
  · rw [readLe, htype, ofLe_leBytes (by omega)]
  · rw [readLe, hcode, ofLe_leBytes (by omega)]
  · rw [readLe, hvalue, ofLe_leBytes (by omega)]

/-- The body of the loop calls back for the event in the buffer. -/
theorem inputEvent_eq {mem : Mem} {id len : ℕ} {e : InputEvent} (hid : id < VIRTIO_INPUT_QSIZE)
    (hlen : 8 ≤ len) (h : readBytes mem (evtAddr evtBuf id) 8 = e.bytes) :
    inputEvent evtBuf mem id len = e.call := by
  obtain ⟨htype, hcode, hvalue⟩ := readLe_event h
  rw [inputEvent, if_pos ⟨hid, hlen⟩, InputEvent.call]
  simp only [htype, hcode, hvalue]
  by_cases hkey : e.type = VIRTIO_INPUT_EV_KEY ∧ e.value ≠ 2
  · rw [if_pos hkey]
    by_cases husage : lkcToUsb e.code ≠ 0
    · have hcall : e.type = VIRTIO_INPUT_EV_KEY ∧ e.value ≠ 2 ∧ lkcToUsb e.code ≠ 0 :=
        ⟨hkey.1, hkey.2, husage⟩
      rw [if_pos (lt_of_lkcToUsb_ne_zero husage), if_pos husage, if_pos hcall]
    · have hcall : ¬(e.type = VIRTIO_INPUT_EV_KEY ∧ e.value ≠ 2 ∧ lkcToUsb e.code ≠ 0) :=
        fun h => husage h.2.2
      rw [if_neg husage, if_neg hcall, ite_self]
  · have hcall : ¬(e.type = VIRTIO_INPUT_EV_KEY ∧ e.value ≠ 2 ∧ lkcToUsb e.code ≠ 0) :=
      fun h => hkey ⟨h.1, h.2.1⟩
    rw [if_neg hkey, if_neg hcall]

/-- Buffers of different indices do not meet. -/
theorem readBytes_writeBytes_evt {mem : Mem} {i j : ℕ} (hne : i ≠ j) (e : InputEvent) :
    readBytes (writeBytes mem (evtAddr evtBuf i) e.bytes) (evtAddr evtBuf j) 8 =
      readBytes mem (evtAddr evtBuf j) 8 := by
  refine readBytes_writeBytes_of_disjoint _ _ _ ?_
  rw [length_bytes, evtAddr, evtAddr]
  omega

/-- A release changes the field `next` only. -/
theorem Armed.setNext {desc : ℕ → VirtqDesc} {i id next : ℕ} (h : Armed evtBuf desc i) :
    Armed evtBuf (setNext desc id next) i := by
  unfold Armed Virtio.setNext
  by_cases hi : i = id
  · subst hi
    rw [Function.update_self]
    exact h
  · rw [Function.update_of_ne hi]
    exact h

/-- As many descriptors are posted as chains are outstanding. -/
theorem RingInv.length_posted {r : RingSys} (h : RingInv r) :
    r.posted.length + r.popped.length = r.pushed.length := by
  have htaken := h.taken
  have hcons := h.consumed_le
  have hpop := h.popped_le
  simp only [RingSys.posted, RingSys.elems, List.length_append, List.length_drop, List.length_map]
  omega

/-- The element that the driver pops is the next one of those made. -/
theorem RingSys.drop_elems {r : RingSys} (hlt : r.popped.length < r.written.length) :
    r.elems.drop r.popped.length =
      r.written[r.popped.length] :: r.elems.drop (r.popped.length + 1) := by
  have hlt' : r.popped.length < r.elems.length := by
    rw [RingSys.elems, List.length_append]
    omega
  rw [List.drop_eq_getElem_cons hlt']
  congr 1
  exact List.getElem_append_left hlt

/-! ## Each step keeps the invariant -/

namespace InputInv

variable {evtBuf} {s s' : Input}

/-- The driver goes on to another place with the same descriptor. -/
theorem withPc {pc : PollPc} (h : InputInv evtBuf s) (hown : pc.own = s.pc.own)
    (hhandled : { s with pc := pc }.handled = s.handled)
    (hstored : ∀ head ∈ s.ring.drv.pending, ∃ events, pc = .post events head)
    (hloaded : s.ring.drv = .loaded → ∃ any events, pc = .drain any events)
    (hhandling : ∀ events id len, pc ≠ .handle events id len)
    (hquiet : (∃ events, pc = .idle events ∨ pc = .drain false events) → s.ring.q.numFree = 0) :
    InputInv evtBuf { s with pc := pc } :=
  { h with
    owned := by
      rw [hown]
      exact h.owned
    armed := by
      rw [hown]
      exact h.armed
    stored := hstored
    loaded := hloaded
    handling := fun events id len heq => absurd heq (hhandling events id len)
    buffers := by
      rw [hhandled]
      exact h.buffers
    calls := by
      rw [hhandled]
      exact h.calls
    quiet := hquiet }

/-- Outside of `virtq_avail_push` no head is in the making. -/
theorem not_stored (h : InputInv evtBuf s) (hpc : ∀ events idx, s.pc ≠ .post events idx)
    {P : ℕ → Prop} :
    ∀ head ∈ s.ring.drv.pending, P head := fun head hmem => by
  obtain ⟨events, hpost⟩ := h.stored head hmem
  exact absurd hpost (hpc events head)

/-- Outside of `virtq_used_pop` the indices have not been compared. -/
theorem not_loaded (h : InputInv evtBuf s) (hpc : ∀ any events, s.pc ≠ .drain any events)
    {P : Prop} :
    s.ring.drv = .loaded → P := fun hdrv => by
  obtain ⟨any, events, hdrain⟩ := h.loaded hdrv
  exact absurd hdrain (hpc any events)

theorem poll (h : InputInv evtBuf s) (hs : s.poll = some s') : InputInv evtBuf s' := by
  unfold Input.poll at hs
  split at hs
  next events hpc =>
    obtain rfl := Option.some.inj hs
    refine h.withPc ?_ ?_ (h.not_stored ?_) (h.not_loaded ?_) nofun
      fun _ => h.quiet ⟨events, .inl hpc⟩
    · rw [hpc]
      rfl
    · simp only [Input.handled, hpc]
    · rw [hpc]
      nofun
    · rw [hpc]
      nofun
  next => cases hs

theorem check (h : InputInv evtBuf s) (hs : s.check = some s') : InputInv evtBuf s' := by
  unfold Input.check at hs
  split at hs
  next any events hpc hdrv =>
    obtain rfl := Option.some.inj hs
    have hstored := h.not_stored (P := fun _ => False)
      (by rw [hpc]; exact fun _ _ hpost => by cases hpost)
    by_cases hempty : UsedEmpty s.ring.q
    · rw [if_pos hempty]
      refine h.withPc ?_ ?_ (fun head hmem => (hstored head hmem).elim)
        (fun hloaded => by rw [hdrv] at hloaded; cases hloaded) ?_ ?_
      · rw [hpc]
        cases any with
        | true => rfl
        | false => rfl
      · cases any with
        | true => simp only [Input.handled, hpc, if_true]
        | false => simp only [Input.handled, hpc, Bool.false_eq_true, if_false]
      · intro _ _ _ hpost
        cases any with
        | true => cases hpost
        | false => cases hpost
      · cases any with
        | true => rintro ⟨_, h | h⟩ <;> cases h
        | false => exact fun _ => h.quiet ⟨events, .inr hpc⟩
    · rw [if_neg hempty]
      have hring : RingInv { s.ring with drv := .loaded } := h.ring.check (by
        rw [RingSys.check, hdrv]
        exact congrArg some (if_neg hempty))
      exact { h with
        ring := hring
        stored := fun head hmem => absurd hmem List.not_mem_nil
        loaded := fun _ => ⟨any, events, hpc⟩ }
  next => cases hs

theorem take (h : InputInv evtBuf s) (hs : s.take = some s') : InputInv evtBuf s' := by
  unfold Input.take at hs
  split at hs
  next any events hpc =>
    obtain ⟨ring, hring, rfl⟩ := Option.map_eq_some_iff.1 hs
    have hinv := h.ring.take hring
    obtain ⟨hdrv, rfl⟩ := RingSys.take_inv hring
    have hlt := h.ring.loaded hdrv
    have hfront := h.ring.usedFront_eq hlt
    have hlen := h.lens s.ring.written[s.ring.popped.length]
      (List.mem_append_left _ (List.getElem_mem _))
    have hhandled : s.handled = s.ring.popped.length := by simp only [Input.handled, hpc]
    have hperm : (s.pc.own ++ s.ring.posted).Perm ([(usedFront s.ring.q).1] ++
        (s.ring.pushed.drop s.ring.consumed.length ++ (s.ring.inflight ++
          (s.ring.elems.drop (s.ring.popped.length + 1)).map (·.id)))) := by
      rw [hpc, RingSys.posted, RingSys.drop_elems hlt, hfront]
      refine List.perm_iff_count.2 fun i => ?_
      simp only [PollPc.own, VirtqUsedElem.pair, List.map_cons, List.count_append, List.count_cons,
        List.count_nil]
      omega
    have hbuf := h.buffers
    have hcalls := h.calls
    rw [hhandled] at hbuf hcalls
    exact { h with
      ring := hinv
      owned := by
        have howned := h.owned.congr hperm
        rw [RingSys.posted, List.length_append, List.length_singleton]
        exact howned.rings
      armed := by
        rw [RingSys.posted, List.length_append, List.length_singleton]
        exact fun i hi => h.armed i (hperm.mem_iff.2 hi)
      stored := fun head hmem => absurd hmem List.not_mem_nil
      loaded := fun hloaded => by cases hloaded
      handling := by
        rintro _ _ _ ⟨⟩
        refine ⟨s.ring.popped.length, by simp, ?_⟩
        rw [List.getElem?_eq_getElem hlt, hfront]
        rfl
      buffers := by
        simp only [Input.handled, List.length_append, List.length_singleton, Nat.add_sub_cancel]
        exact hbuf
      calls := by
        simp only [Input.handled, List.length_append, List.length_singleton, Nat.add_sub_cancel]
        exact hcalls
      quiet := by rintro ⟨_, h | h⟩ <;> cases h }
  next => cases hs

/-- The event that the driver is about to handle. -/
theorem event_of_handle (h : InputInv evtBuf s) {events id len : ℕ}
    (hpc : s.pc = .handle events id len) :
    ∃ k e, s.ring.popped.length = k + 1 ∧ s.handled = k ∧ s.events[k]? = some e ∧
      inputEvent evtBuf s.mem id len = e.call := by
  obtain ⟨k, hk, hget⟩ := h.handling _ _ _ hpc
  obtain ⟨hlt, hel⟩ := List.getElem?_eq_some_iff.1 hget
  have hhandled : s.handled = k := by
    simp only [Input.handled, hpc, hk, Nat.add_sub_cancel]
  have hevents := h.events
  have hlt' : k < s.events.length := by omega
  have hlen : len = 8 := h.lens ⟨id, len⟩ (List.mem_append_left _ (hel ▸ List.getElem_mem hlt))
  have hid : id < VIRTIO_INPUT_QSIZE := by
    have hmem : id ∈ s.pc.own ++ s.ring.posted := by
      rw [hpc]
      exact List.mem_append_left _ (List.mem_singleton_self id)
    have hid := h.owned.lt_of_mem hmem
    rwa [h.size] at hid
  have hbuf := h.buffers k ⟨id, len⟩ s.events[k] (Nat.le_of_eq hhandled)
    (by rw [RingSys.elems, List.getElem?_append_left hlt, hget])
    (by rw [List.getElem?_append_left hlt', List.getElem?_eq_getElem hlt'])
  exact ⟨k, s.events[k], hk, hhandled, List.getElem?_eq_getElem hlt',
    inputEvent_eq evtBuf hid (by omega) hbuf⟩

/-- What remains true when the driver has handled the event, whatever it did. -/
theorem release_of_handle (h : InputInv evtBuf s) {events id len events' : ℕ}
    {calls : List (ℕ × Bool)} (hpc : s.pc = .handle events id len)
    (hcalls : calls = (s.events.take s.ring.popped.length).filterMap InputEvent.call) :
    InputInv evtBuf { s with pc := .release events' id, calls := calls } := by
  have howned := h.owned
  have harmed := h.armed
  rw [hpc] at howned harmed
  exact { h with
    owned := howned
    armed := harmed
    stored := h.not_stored (by rw [hpc]; nofun)
    loaded := h.not_loaded (by rw [hpc]; nofun)
    handling := nofun
    buffers := fun k el e hk => h.buffers k el e (by
      simp only [Input.handled, hpc] at hk ⊢
      exact (Nat.sub_le _ _).trans hk)
    calls := hcalls
    quiet := by rintro ⟨_, h | h⟩ <;> cases h }

theorem handle (h : InputInv evtBuf s) (hs : s.handle evtBuf = some s') : InputInv evtBuf s' := by
  unfold Input.handle at hs
  split at hs
  next events id len hpc =>
    obtain rfl := Option.some.inj hs
    obtain ⟨k, e, hk, hhandled, hget, hcall⟩ := h.event_of_handle hpc
    have hcalls := h.calls
    rw [hhandled] at hcalls
    have htake : (s.events.take s.ring.popped.length).filterMap InputEvent.call =
        s.calls ++ e.call.toList := by
      obtain ⟨hlt, rfl⟩ := List.getElem?_eq_some_iff.1 hget
      rw [hk, ← List.take_append_getElem hlt, List.filterMap_append, ← hcalls]
      rfl
    rw [hcall]
    cases hc : e.call with
    | none => exact h.release_of_handle hpc (by rw [htake, hc]; simp)
    | some c => exact h.release_of_handle hpc (by rw [htake, hc]; rfl)
  next => cases hs

theorem release (h : InputInv evtBuf s) (hs : s.release = some s') : InputInv evtBuf s' := by
  unfold Input.release at hs
  split at hs
  next events id hpc =>
    obtain rfl := Option.some.inj hs
    have howned := h.owned
    have hbuf := h.buffers
    have hcalls := h.calls
    rw [hpc] at howned
    have hid : id ∈ PollPc.own (.release events id) ++ s.ring.posted :=
      List.mem_append_left _ (List.mem_singleton_self id)
    have hfree := howned.free hid
    simp only [Input.handled, hpc] at hbuf hcalls
    have hown : (PollPc.own (.release events id) ++ s.ring.posted).erase id = s.ring.posted :=
      List.erase_cons_head ..
    rw [hown] at hfree
    exact { h with
      ring := h.ring.congr rfl
      owned := hfree
      armed := fun i hi => (h.armed i (by
        rw [hpc]
        exact List.mem_append_right _ hi)).setNext
      stored := h.not_stored (by rw [hpc]; nofun)
      loaded := h.not_loaded (by rw [hpc]; nofun)
      handling := nofun
      buffers := hbuf
      calls := hcalls
      quiet := by rintro ⟨_, h | h⟩ <;> cases h }
  next => cases hs

theorem refill (h : InputInv evtBuf s) (hs : s.refill evtBuf = some s') : InputInv evtBuf s' := by
  unfold Input.refill at hs
  split at hs
  next events hpc =>
    obtain rfl := Option.some.inj hs
    by_cases hfree : s.ring.q.numFree = 0
    · rw [if_pos hfree]
      refine h.withPc ?_ ?_ (h.not_stored (by rw [hpc]; nofun)) (h.not_loaded (by rw [hpc]; nofun))
        nofun fun _ => hfree
      · rw [hpc]
        rfl
      · simp only [Input.handled, hpc]
    · have howned := h.owned
      have hbuf := h.buffers
      have hcalls := h.calls
      rw [hpc] at howned
      simp only [Input.handled, hpc] at hbuf hcalls
      obtain ⟨hlt, -, halloc⟩ := howned.alloc hfree
      rw [h.size] at hlt
      have hne : (virtqAllocDesc s.ring.q).1 ≠ 0xFFFF := by
        simp only [VIRTIO_INPUT_QSIZE] at hlt
        omega
      rw [if_neg hfree]
      simp only [if_neg hne]
      have hwrite := halloc.write List.mem_cons_self
        (Input.eventDesc evtBuf (virtqAllocDesc s.ring.q).1)
      have hq := virtqAllocDesc_of_ne hfree
      exact { h with
        ring := h.ring.congr (by rw [hq]; rfl)
        size := by
          rw [hq]
          exact h.size
        owned := hwrite
        armed := fun i hi => by
          rw [hq]
          by_cases hi' : i = s.ring.q.freeHead
          · subst hi'
            simp only [Armed, writeDesc, Input.eventDesc, Function.update_self, and_self]
          · have hmem := (List.mem_cons.1 hi).resolve_left (by rw [hq]; exact hi')
            have harmed := h.armed i (List.mem_append_right _ hmem)
            simp only [Armed, writeDesc, Function.update_of_ne hi']
            exact harmed
        stored := h.not_stored (by rw [hpc]; nofun)
        loaded := h.not_loaded (by rw [hpc]; nofun)
        handling := nofun
        buffers := hbuf
        calls := hcalls
        quiet := by rintro ⟨_, h | h⟩ <;> cases h }
  next => cases hs

theorem store (h : InputInv evtBuf s) (hs : s.store = some s') : InputInv evtBuf s' := by
  unfold Input.store at hs
  split at hs
  next events idx hpc hdrv =>
    obtain rfl := Option.some.inj hs
    have hlen := h.owned.numFree_add_length
    have hposted := h.ring.length_posted
    have hidx : idx < s.ring.q.size := h.owned.lt_of_mem (by
      rw [hpc]
      exact List.mem_append_left _ (List.mem_singleton_self idx))
    rw [hpc, List.length_append, PollPc.own, List.length_singleton] at hlen
    rw [h.size] at hlen hidx
    have hroom : s.ring.pushed.length < s.ring.popped.length + s.ring.q.size := by
      rw [h.size]
      omega
    have hring : s.ring.store idx =
        some { s.ring with q := availStore s.ring.q idx, drv := .stored idx } := by
      rw [RingSys.store, hdrv]
      simp only [VIRTIO_INPUT_QSIZE] at hidx
      exact if_pos ⟨by omega, hroom⟩
    exact { h with
      ring := h.ring.store hring
      owned := h.owned.rings
      stored := fun head hmem => by
        obtain rfl := List.mem_singleton.1 hmem
        exact ⟨events, hpc⟩
      loaded := fun hloaded => by cases hloaded }
  next => cases hs

theorem publish (h : InputInv evtBuf s) (hs : s.publish = some s') : InputInv evtBuf s' := by
  unfold Input.publish at hs
  split at hs
  next events idx hpc =>
    obtain ⟨ring, hring, rfl⟩ := Option.map_eq_some_iff.1 hs
    have hinv := h.ring.publish hring
    obtain ⟨head, hdrv, rfl⟩ := RingSys.publish_inv hring
    have hidx : head = idx := by
      obtain ⟨events', hpost⟩ := h.stored head (by rw [hdrv]; exact List.mem_singleton_self head)
      rw [hpc] at hpost
      cases hpost
      rfl
    subst hidx
    have hbuf := h.buffers
    have hcalls := h.calls
    simp only [Input.handled, hpc] at hbuf hcalls
    have hperm : (s.pc.own ++ s.ring.posted).Perm
        ((s.ring.pushed ++ [head]).drop s.ring.consumed.length ++ (s.ring.inflight ++
          (s.ring.elems.drop s.ring.popped.length).map (·.id))) := by
      rw [hpc, RingSys.posted, List.drop_append_of_le_length h.ring.consumed_le]
      refine List.perm_iff_count.2 fun i => ?_
      simp only [PollPc.own, List.count_append]
      omega
    have howned := h.owned.congr hperm
    exact { h with
      ring := hinv
      owned := howned.rings
      armed := fun i hi => h.armed i (hperm.mem_iff.2 hi)
      stored := nofun
      loaded := nofun
      handling := nofun
      buffers := hbuf
      calls := hcalls
      quiet := by rintro ⟨_, h | h⟩ <;> cases h }
  next => cases hs

theorem consume (h : InputInv evtBuf s) (hs : s.consume = some s') : InputInv evtBuf s' := by
  obtain ⟨ring, hring, rfl⟩ := Option.map_eq_some_iff.1 hs
  have hinv := h.ring.consume hring
  obtain ⟨hne, rfl⟩ := RingSys.consume_inv hring
  have hlt : s.ring.consumed.length < s.ring.pushed.length :=
    Nat.lt_of_le_of_ne h.ring.consumed_le fun heq => hne (h.ring.avail_empty_iff.2 heq)
  have hfront := h.ring.availFront_eq hlt
  have hperm : (s.pc.own ++ s.ring.posted).Perm (s.pc.own ++
      (s.ring.pushed.drop (s.ring.consumed.length + 1) ++
        ((s.ring.inflight ++ [s.ring.q.availRing (s.ring.devIdx % s.ring.q.size)]) ++
          (s.ring.elems.drop s.ring.popped.length).map (·.id)))) := by
    rw [RingSys.posted, List.drop_eq_getElem_cons hlt, hfront]
    refine List.perm_iff_count.2 fun i => ?_
    simp only [List.count_append, List.count_cons, List.count_nil]
    omega
  have howned := h.owned.congr hperm
  exact { h with
    ring := hinv
    owned := by
      rw [RingSys.posted, List.length_append, List.length_singleton]
      exact howned.rings
    armed := by
      rw [RingSys.posted, List.length_append, List.length_singleton]
      exact fun i hi => h.armed i (hperm.mem_iff.2 hi) }

/-- The descriptor of an element that has not been handled is with the driver, or made an element
that the driver has not popped. -/
theorem mem_of_handled_le (h : InputInv evtBuf s) {k : ℕ} {el : VirtqUsedElem}
    (hk : s.handled ≤ k) (hel : s.ring.elems[k]? = some el) :
    el.id ∈ s.pc.own ++ (s.ring.elems.drop s.ring.popped.length).map (·.id) := by
  by_cases hpop : s.ring.popped.length ≤ k
  · refine List.mem_append_right _ (List.mem_map_of_mem
      (List.mem_of_getElem? (i := k - s.ring.popped.length) ?_))
    rw [List.getElem?_drop, Nat.add_sub_cancel' hpop]
    exact hel
  · refine List.mem_append_left _ ?_
    unfold Input.handled at hk
    split at hk
    next events id len hpc =>
      obtain ⟨k', hk', hget⟩ := h.handling _ _ _ hpc
      obtain rfl : k' = k := by omega
      have hlt := (List.getElem?_eq_some_iff.1 hget).1
      rw [RingSys.elems, List.getElem?_append_left hlt, hget] at hel
      rw [hpc, ← Option.some.inj hel]
      exact List.mem_singleton_self id
    next => omega

theorem fill {id : ℕ} {e : InputEvent} (h : InputInv evtBuf s) (hs : s.fill id e = some s') :
    InputInv evtBuf s' := by
  obtain ⟨ring, hring, rfl⟩ := Option.map_eq_some_iff.1 hs
  have hinv := h.ring.fill hring
  obtain ⟨hdev, hid, rfl⟩ := RingSys.fill_inv hring
  have helems : s.ring.elems = s.ring.written := by
    rw [RingSys.elems, hdev, DevPc.pending, List.append_nil]
  have hcoming : s.coming = [] := by
    have hlen := h.coming
    rw [hdev] at hlen
    exact List.length_eq_zero_iff.1 hlen
  have hevents : s.events.length = s.ring.written.length := h.events
  have hmem : id ∈ s.pc.own ++ s.ring.posted :=
    List.mem_append_right _ (List.mem_append_right _ (List.mem_append_left _ hid))
  have haddr : (s.ring.q.desc id).addr = evtAddr evtBuf id := (h.armed id hmem).1
  have hlens := h.lens
  rw [helems] at hlens
  have hperm : (s.pc.own ++ s.ring.posted).Perm (s.pc.own ++
      (s.ring.pushed.drop s.ring.consumed.length ++ (s.ring.inflight.erase id ++
        ((s.ring.written ++ [(⟨id, 8⟩ : VirtqUsedElem)]).drop s.ring.popped.length).map (·.id)))) := by
    rw [RingSys.posted, helems, List.drop_append_of_le_length h.ring.popped_le]
    refine List.perm_iff_count.2 fun i => ?_
    have hcount := (List.perm_cons_erase hid).count_eq i
    simp only [List.map_append, List.map_cons, List.map_nil, List.count_append, List.count_cons,
      List.count_nil] at hcount ⊢
    omega
  have howned := h.owned.congr hperm
  -- the buffer is not one of those whose events have not been handled
  have hne : ∀ k el, s.handled ≤ k → s.ring.elems[k]? = some el → id ≠ el.id := by
    intro k el hk hel heq
    have hcount := List.nodup_iff_count_le_one.1 h.owned.nodup_held id
    have hel' := List.count_pos_iff.2 (heq ▸ h.mem_of_handled_le hk hel)
    have hid' := List.count_pos_iff.2 hid
    simp only [RingSys.posted, List.count_append] at hcount hel'
    omega
  exact { h with
    ring := hinv
    owned := howned.rings
    armed := fun i hi => h.armed i (hperm.mem_iff.2 hi)
    coming := rfl
    lens := by
      intro e' he'
      rcases List.mem_append.1 he' with he' | he'
      · exact hlens e' he'
      · rw [List.mem_singleton.1 he']
    buffers := by
      intro k el e' hk hel hev
      rw [haddr]
      simp only [RingSys.elems, DevPc.pending] at hel
      by_cases hlt : k < s.ring.written.length
      · rw [List.getElem?_append_left hlt, ← helems] at hel
        rw [List.getElem?_append_left (hevents ▸ hlt)] at hev
        rw [readBytes_writeBytes_evt _ (hne k el hk hel)]
        exact h.buffers k el e' hk hel (by rw [hcoming, List.append_nil]; exact hev)
      · rw [List.getElem?_append_right (Nat.le_of_not_lt hlt)] at hel
        rw [List.getElem?_append_right (hevents ▸ Nat.le_of_not_lt hlt), hevents] at hev
        obtain rfl := List.eq_of_mem_singleton (List.mem_of_getElem? hel)
        obtain rfl := List.eq_of_mem_singleton (List.mem_of_getElem? hev)
        exact readBytes_writeBytes_self _ _ _ (length_bytes _).symm }

theorem giveBack (h : InputInv evtBuf s) (hs : s.giveBack = some s') : InputInv evtBuf s' := by
  obtain ⟨ring, hring, rfl⟩ := Option.map_eq_some_iff.1 hs
  have hinv := h.ring.giveBack hring
  obtain ⟨e, hdev, rfl⟩ := RingSys.giveBack_inv hring
  have helems : s.ring.elems = s.ring.written ++ [e] ++ [] := by
    rw [RingSys.elems, hdev, DevPc.pending, List.append_nil]
  have hcoming : s.coming.length = 1 := by
    have hlen := h.coming
    rwa [hdev] at hlen
  have hevents : s.events.length = s.ring.written.length := h.events
  have hhandled : s.handled ≤ s.events.length := by
    have hpop := h.ring.popped_le
    unfold Input.handled
    split
    next => omega
    next => omega
  have howned := h.owned
  have harmed := h.armed
  have hbuf := h.buffers
  have hlens := h.lens
  rw [RingSys.posted, helems] at howned harmed
  rw [helems] at hbuf hlens
  exact { h with
    ring := hinv
    owned := howned.rings
    armed := harmed
    coming := rfl
    events := by
      simp only [List.length_append, List.length_singleton]
      omega
    lens := hlens
    buffers := by
      rw [List.append_nil]
      exact hbuf
    calls := h.calls.trans (congrArg _ (List.take_append_of_le_length hhandled).symm)
    handling := by
      intro events id len hpc
      obtain ⟨k, hk, hget⟩ := h.handling events id len hpc
      refine ⟨k, hk, ?_⟩
      rw [List.getElem?_append_left (List.getElem?_eq_some_iff.1 hget).1, hget] }

/-- **Every step keeps the invariant.** -/
theorem step {a : InputStep} (h : InputInv evtBuf s) (hs : inputStep evtBuf a s = some s') :
    InputInv evtBuf s' := by
  cases a with
  | poll => exact h.poll hs
  | check => exact h.check hs
  | take => exact h.take hs
  | handle => exact h.handle hs
  | release => exact h.release hs
  | refill => exact h.refill hs
  | store => exact h.store hs
  | publish => exact h.publish hs
  | consume => exact h.consume hs
  | fill id e => exact h.fill hs
  | giveBack => exact h.giveBack hs

end InputInv

variable {evtBuf} in
theorem inputInv_init {q₀ q : Virtq} {qmax : ℕ} {mem : Mem}
    (hsetup : virtioQueueSetup q₀ VIRTIO_INPUT_QSIZE qmax = some q) :
    InputInv evtBuf (inputSystem evtBuf q mem).init := by
  have hring := ringInv_init (k := 4) (by omega) hsetup
  obtain ⟨-, hsetup⟩ := Option.ite_none_left_eq_some.1 hsetup
  obtain rfl := Option.some.inj hsetup
  exact {
    ring := hring.congr rfl
    size := rfl
    owned := owned_virtqFreeInit (Nat.succ_pos _) (show VIRTIO_INPUT_QSIZE ≤ 32768 by decide)
    armed := nofun
    stored := nofun
    loaded := nofun
    coming := rfl
    events := rfl
    lens := nofun
    handling := nofun
    buffers := nofun
    calls := rfl
    quiet := by rintro ⟨_, h | h⟩ <;> cases h }

/-! ## Main result -/

theorem one_lt_word16 : 1 < 2 ^ 16 := by norm_num

theorem thirty_lt_word16 : 30 < 2 ^ 16 := by norm_num

theorem one_lt_word32 : 1 < 2 ^ 32 := by norm_num

/-- The event of the key with code 30 going down. -/
def keyDown : InputEvent := ⟨1, 30, 1, one_lt_word16, thirty_lt_word16, one_lt_word32⟩

/-- The steps of a round of `refill_eventq`. -/
def refillRound : List InputStep := [.refill, .store, .publish]

end RvvmHal.Virtio
