import RvvmHal.Virtio.GpuDriver

/-!
# A display that answers

The commands of the display driver against a device that answers each of them with any number of
bytes, and whenever it likes. The response is copied to the caller as far as the device says that it
goes, and then the type is read from the caller's buffer: a response of fewer than four bytes leaves
there what the buffer held before.

`gpu_cmd_sync` succeeds exactly when the type that it reads so is one of success
(`Responds.gpuCmdSync_ok_iff`), which says something about the response only when the response has
the four bytes of the type, or when what is read in their place is no such type (`outcome_iff`).
-/

namespace RvvmHal.Virtio

open Bytes Loop

variable {δ : Type*}

/-! ## Devices that answer -/

/-- The device has done nothing that is seen. -/
structure Quiet (q : Virtq) (mem : Mem) (t : GpuTurn δ) : Prop where
  mem_eq : t.mem = mem
  usedIdx : t.usedIdx = q.usedIdx
  usedRing : t.usedRing = q.usedRing

/-- The device has answered the chain at `head` with `rsp`. -/
structure Replied (q : Virtq) (mem : Mem) (head : ℕ) (rsp : List UInt8) (t : GpuTurn δ) :
    Prop where
  mem_eq : t.mem = writeBytes mem (q.desc (q.desc head).next).addr rsp
  usedIdx : t.usedIdx = (q.usedIdx + 1) % 2 ^ 16
  usedElem : t.usedRing (q.usedIdx % q.size) = ⟨head, rsp.length⟩

/-- A device that answers every command with room for a header, once and whenever it likes, with any
bytes. -/
def Replies (device : GpuDevice δ) : Prop :=
  ∀ dev (q : Virtq) mem, q.usedIdx ≠ q.availIdx →
    24 ≤ (q.desc (q.desc (q.availRing (q.usedIdx % q.size))).next).len →
    Quiet q mem (device.turn dev q mem) ∨
      ∃ rsp, Replied q mem (q.availRing (q.usedIdx % q.size)) rsp (device.turn dev q mem)

/-! ## The wait for an answer -/

/-- The driver between two commands: all descriptors are free, both rings have been read, and the
two scratch buffers are behind the video memory. -/
structure Idle (vg : Gpu δ) : Prop where
  owned : Owned vg.controlq []
  size : vg.controlq.size = VIRTIO_GPU_QSIZE
  used : vg.controlq.usedIdx = vg.controlq.availIdx
  last : vg.controlq.lastUsedIdx = vg.controlq.availIdx
  avail_lt : vg.controlq.availIdx < 2 ^ 16
  reqBuf : vg.reqBuf = vg.vram + VIRTIO_GPU_VRAM_BYTES
  rspBuf : vg.rspBuf = vg.reqBuf + 256

/-- A command on its way: the chain at `head` is all there is in the rings. -/
structure Submitted (req : List UInt8) (rspLen head rid : ℕ) (vg : Gpu δ) : Prop where
  chain : vg.controlq.availRing (vg.controlq.usedIdx % vg.controlq.size) = head
  desc_head : vg.controlq.desc head = ⟨vg.reqBuf, req.length, VIRTQ_DESC_F_NEXT, rid⟩
  desc_rid : vg.controlq.desc rid = ⟨vg.rspBuf, rspLen, VIRTQ_DESC_F_WRITE, 0⟩
  avail : vg.controlq.availIdx = (vg.controlq.usedIdx + 1) % 2 ^ 16
  last : vg.controlq.lastUsedIdx = vg.controlq.usedIdx
  used_lt : vg.controlq.usedIdx < 2 ^ 16
  req_eq : readBytes vg.mem vg.reqBuf req.length = req

variable {device : GpuDevice δ} {req rsp : List UInt8} {rspLen head rid polls : ℕ} {vg vg' : Gpu δ}

theorem Submitted.used_ne (h : Submitted req rspLen head rid vg) :
    vg.controlq.usedIdx ≠ vg.controlq.availIdx := by
  have hlt := h.used_lt
  rw [h.avail]
  omega

theorem Submitted.withDev (h : Submitted req rspLen head rid vg) (dev : δ) :
    Submitted req rspLen head rid { vg with dev := dev } := { h with }

/-- A device that does nothing leaves the command as it is. -/
theorem turn_of_quiet
    (ht : Quiet vg.controlq vg.mem (device.turn vg.dev vg.controlq vg.mem)) :
    vg.turn device = { vg with dev := (device.turn vg.dev vg.controlq vg.mem).dev } := by
  rw [Gpu.turn, ht.usedIdx, ht.usedRing, ht.mem_eq]

/-- An answer is seen at once. -/
theorem Submitted.not_usedEmpty (h : Submitted req rspLen head rid vg)
    (ht : Replied vg.controlq vg.mem head rsp (device.turn vg.dev vg.controlq vg.mem)) :
    ¬ UsedEmpty (vg.turn device).controlq := by
  have hlt := h.used_lt
  simp only [UsedEmpty, Gpu.turn, ht.usedIdx, h.last]
  omega

/-- The driver with the answer `rsp` of a device that is now in state `dev`: both rings have moved
on by one. -/
def Gpu.answered (vg : Gpu δ) (rsp : List UInt8) (dev : δ) (ring : ℕ → VirtqUsedElem) : Gpu δ :=
  { vg with
    controlq := { vg.controlq with
      usedIdx := vg.controlq.availIdx
      lastUsedIdx := vg.controlq.availIdx
      usedRing := ring }
    mem := writeBytes vg.mem vg.rspBuf rsp
    dev := dev }

/-- The parts of a queue that allocations, releases and stores to descriptors leave alone. -/
structure SameRings (q q' : Virtq) : Prop where
  size : q'.size = q.size
  availIdx : q'.availIdx = q.availIdx
  availRing : q'.availRing = q.availRing
  usedIdx : q'.usedIdx = q.usedIdx
  lastUsedIdx : q'.lastUsedIdx = q.lastUsedIdx

theorem SameRings.trans {q q' q'' : Virtq} (h : SameRings q q') (h' : SameRings q' q'') :
    SameRings q q'' :=
  ⟨h'.size.trans h.size, h'.availIdx.trans h.availIdx, h'.availRing.trans h.availRing,
    h'.usedIdx.trans h.usedIdx, h'.lastUsedIdx.trans h.lastUsedIdx⟩

theorem sameRings_alloc (q : Virtq) : SameRings q (virtqAllocDesc q).2 := by
  unfold virtqAllocDesc
  split
  · exact ⟨rfl, rfl, rfl, rfl, rfl⟩
  · exact ⟨rfl, rfl, rfl, rfl, rfl⟩

/-- The command of a call as the device gets it: its chain, and the driver behind the notification;
`none` when no two descriptors are free. -/
def gpuSubmitted (device : GpuDevice δ) (vg : Gpu δ) (c : GpuCall) : Option (ℕ × Gpu δ) :=
  let (head, q) := virtqAllocDesc vg.controlq
  let (rid, q) := virtqAllocDesc q
  if head = 0xFFFF ∨ rid = 0xFFFF then none
  else some (head, gpuSubmit device { vg with controlq := q } head rid c.req c.rspLen)

/-- Between two commands there are descriptors for the next. -/
theorem Idle.gpuCmdSync_eq (h : Idle vg) :
    ∃ head rid q, head ≠ rid ∧ Owned q [rid, head] ∧ SameRings vg.controlq q ∧
      (∀ (device : GpuDevice δ) c, gpuSubmitted device vg c =
        some (head, gpuSubmit device { vg with controlq := q } head rid c.req c.rspLen)) ∧
      ∀ (device : GpuDevice δ) polls req rsp rspLen, gpuCmdSync device polls vg req rsp rspLen =
        (iterate (pollBody device) polls
          (gpuSubmit device { vg with controlq := q } head rid req rspLen)).map fun (clen, vg) =>
            (rspOk (rsp.map (copyRsp vg clen rspLen)) rspLen, rsp.map (copyRsp vg clen rspLen),
              { vg with controlq := virtqFreeDesc (virtqFreeDesc vg.controlq rid) head }) := by
  have hfree := h.owned.numFree_add_length
  rw [h.size, List.length_nil] at hfree
  have hne : vg.controlq.numFree ≠ 0 := by simp only [VIRTIO_GPU_QSIZE] at hfree; omega
  obtain ⟨-, -, howned₁⟩ := h.owned.alloc hne
  have hfree₁ := howned₁.numFree_add_length
  rw [size_virtqAllocDesc, h.size, List.length_singleton] at hfree₁
  have hne₁ : (virtqAllocDesc vg.controlq).2.numFree ≠ 0 := by
    simp only [VIRTIO_GPU_QSIZE] at hfree₁
    omega
  obtain ⟨-, hnot, howned₂⟩ := howned₁.alloc hne₁
  have hlt := howned₂.lt_of_mem List.mem_cons_self
  have hlt' := howned₂.lt_of_mem (List.mem_cons_of_mem _ List.mem_cons_self)
  rw [size_virtqAllocDesc, size_virtqAllocDesc, h.size] at hlt hlt'
  have hgiven : ¬ ((virtqAllocDesc vg.controlq).1 = 0xFFFF ∨
      (virtqAllocDesc (virtqAllocDesc vg.controlq).2).1 = 0xFFFF) := by
    simp only [VIRTIO_GPU_QSIZE] at hlt hlt'
    omega
  refine ⟨_, _, _, fun heq => hnot (List.mem_singleton.2 heq.symm), howned₂,
    (sameRings_alloc _).trans (sameRings_alloc _), fun device c => ?_,
    fun device polls req rsp rspLen => ?_⟩
  · rw [gpuSubmitted]
    dsimp only
    rw [if_neg hgiven]
  · rw [gpuCmdSync]
    dsimp only
    rw [if_neg hgiven]

theorem submitted_gpuSubmit {q : Virtq} (device : GpuDevice δ) (h : Idle vg) (hne : head ≠ rid)
    (hq : SameRings vg.controlq q) (req : List UInt8) (rspLen : ℕ) :
    Submitted req rspLen head rid
      (gpuSubmit device { vg with controlq := q } head rid req rspLen) where
  chain := by
    simp only [gpuSubmit, virtqAvailPush, availPublish, availStore, writeDesc, hq.usedIdx,
      hq.availIdx, h.used, Function.update_self]
  desc_head := by
    simp only [gpuSubmit, virtqAvailPush, availPublish, availStore, writeDesc,
      Function.update_of_ne hne, Function.update_self]
  desc_rid := by
    simp only [gpuSubmit, virtqAvailPush, availPublish, availStore, writeDesc, Function.update_self]
  avail := by
    simp only [gpuSubmit, virtqAvailPush, availPublish, availStore, writeDesc, hq.usedIdx,
      hq.availIdx, h.used]
  last := by
    simp only [gpuSubmit, virtqAvailPush, availPublish, availStore, writeDesc, hq.usedIdx,
      hq.lastUsedIdx, h.used, h.last]
  used_lt := by
    simp only [gpuSubmit, virtqAvailPush, availPublish, availStore, writeDesc, hq.usedIdx, h.used]
    exact h.avail_lt
  req_eq := readBytes_writeBytes_self _ _ _ rfl

/-- A turn of the device on a command on its way. -/
theorem Submitted.turn_cases (h : Submitted req rspLen head rid vg) (hdev : Replies device)
    (hlen : 24 ≤ rspLen) :
    Quiet vg.controlq vg.mem (device.turn vg.dev vg.controlq vg.mem) ∨
      ∃ rsp, Replied vg.controlq vg.mem head rsp (device.turn vg.dev vg.controlq vg.mem) := by
  have hturn := hdev vg.dev vg.controlq vg.mem h.used_ne
  rw [h.chain, h.desc_head, h.desc_rid] at hturn
  exact hturn hlen

/-- The wait ends with the turn in which the device answers. -/
theorem Submitted.stop_of_replied (h : Submitted req rspLen head rid vg)
    (ht : Replied vg.controlq vg.mem head rsp (device.turn vg.dev vg.controlq vg.mem)) :
    ∃ dev ring, pollBody device vg = .stop (rsp.length, vg.answered rsp dev ring) := by
  have hmem := ht.mem_eq
  have helem := ht.usedElem
  rw [h.desc_head, h.desc_rid] at hmem
  refine ⟨(device.turn vg.dev vg.controlq vg.mem).dev,
    (device.turn vg.dev vg.controlq vg.mem).usedRing, ?_⟩
  simp only [pollBody, virtqUsedPop, if_neg (h.not_usedEmpty ht)]
  simp only [Gpu.answered, Gpu.turn, usedFront, usedAdvance, hmem, ht.usedIdx, h.last, h.avail,
    helem]

/-- While the device does not answer, nothing changes but the device. -/
theorem Submitted.next_eq (h : Submitted req rspLen head rid vg) (hdev : Replies device)
    (hlen : 24 ≤ rspLen) (hb : pollBody device vg = .next vg') :
    vg' = { vg with dev := vg'.dev } := by
  rcases h.turn_cases hdev hlen with ht | ⟨rsp, ht⟩
  · obtain rfl := pollBody_next hb
    rw [turn_of_quiet ht]
  · obtain ⟨dev, ring, hstop⟩ := h.stop_of_replied ht
    rw [hstop] at hb
    cases hb

theorem Submitted.visits_eq {t : Gpu δ} (h : Submitted req rspLen head rid vg)
    (hdev : Replies device) (hlen : 24 ≤ rspLen) (hv : Visits (pollBody device) vg t) :
    t = { vg with dev := t.dev } := by
  refine hv.invariant (I := fun t => t = { vg with dev := t.dev }) rfl fun {t t'} ht hb => ?_
  have hsub : Submitted req rspLen head rid t := by
    rw [ht]
    exact h.withDev _
  rw [hsub.next_eq hdev hlen hb, ht]

/-- **The wait for an answer** ends with one. -/
theorem Submitted.replied {r : ℕ × Gpu δ} (h : Submitted req rspLen head rid vg)
    (hdev : Replies device) (hlen : 24 ≤ rspLen)
    (hrun : iterate (pollBody device) polls vg = some r) :
    ∃ t rsp, Visits (pollBody device) vg t ∧ pollBody device t = .stop r ∧
      Replied t.controlq t.mem head rsp (device.turn t.dev t.controlq t.mem) := by
  obtain ⟨t, hv, hstop⟩ := exists_stop_of_iterate hrun
  have hsub : Submitted req rspLen head rid t := by
    rw [h.visits_eq hdev hlen hv]
    exact h.withDev _
  rcases hsub.turn_cases hdev hlen with ht | ⟨rsp, ht⟩
  · obtain ⟨-, hnot, -⟩ := pollBody_stop hstop
    refine absurd ?_ hnot
    rw [turn_of_quiet ht]
    exact hsub.last.symm
  · exact ⟨t, rsp, hv, hstop, ht⟩

/-- What the driver has when the wait has ended with the answer `rsp`. -/
theorem Submitted.answered_of_replied {t : Gpu δ} {r : ℕ × Gpu δ}
    (h : Submitted req rspLen head rid vg) (hdev : Replies device) (hlen : 24 ≤ rspLen)
    (hv : Visits (pollBody device) vg t) (hstop : pollBody device t = .stop r)
    (ht : Replied t.controlq t.mem head rsp (device.turn t.dev t.controlq t.mem)) :
    ∃ dev ring, r = (rsp.length, vg.answered rsp dev ring) := by
  have heq := h.visits_eq hdev hlen hv
  have hsub : Submitted req rspLen head rid t := by
    rw [heq]
    exact h.withDev _
  obtain ⟨dev, ring, hstop'⟩ := hsub.stop_of_replied ht
  rw [hstop'] at hstop
  obtain rfl := Iter.stop.inj hstop
  refine ⟨dev, ring, ?_⟩
  rw [heq]
  rfl

/-! ## The response to a command -/

/-- The response of the device to the command of a call: the answer that ends the wait for it. -/
def Responds (device : GpuDevice δ) (vg : Gpu δ) (c : GpuCall) (rsp : List UInt8) : Prop :=
  ∃ head sub t r, gpuSubmitted device vg c = some (head, sub) ∧
    iterate (pollBody device) c.polls sub = some r ∧
    Visits (pollBody device) sub t ∧ pollBody device t = .stop r ∧
    Replied t.controlq t.mem head rsp (device.turn t.dev t.controlq t.mem)

/-- `gpu_cmd_sync`, as a call. -/
def GpuCall.run (device : GpuDevice δ) (vg : Gpu δ) (c : GpuCall) :
    Option (Bool × Option (List UInt8) × Gpu δ) :=
  gpuCmdSync device c.polls vg c.req c.rsp c.rspLen

/-- A type of success. -/
def Success (type : ℕ) : Prop :=
  type = VIRTIO_GPU_RESP_OK_NODATA ∨ type = VIRTIO_GPU_RESP_OK_DISPLAY_INFO

instance (type : ℕ) : Decidable (Success type) := inferInstanceAs (Decidable (_ ∨ _))

/-- The type that is read from a buffer with the bytes `old` after the response `rsp`. -/
def readType (rsp old : List UInt8) : ℕ := ofLe ((rsp ++ old.drop rsp.length).take 4)

/-- A call with a buffer for the response that has room for a header. -/
structure GpuCall.WithHeader (c : GpuCall) (old : List UInt8) : Prop where
  header : 24 ≤ c.rspLen
  rsp_eq : c.rsp = some old

variable {c : GpuCall} {old : List UInt8}

/-- A call that returns has a response, and the driver is idle again behind it. -/
theorem exists_responds {ok : Bool} {rsp' : Option (List UInt8)} (hi : Idle vg)
    (hdev : Replies device) (hlen : 24 ≤ c.rspLen) (hrun : c.run device vg = some (ok, rsp', vg')) :
    Idle vg' ∧ ∃ rsp, Responds device vg c rsp := by
  have howned := owned_gpuCmdSync hi.owned hrun
  obtain ⟨head, rid, q, hne, -, hq, hsubmitted, heq⟩ := hi.gpuCmdSync_eq
  rw [GpuCall.run, heq] at hrun
  obtain ⟨r, hwait, hrun⟩ := Option.map_eq_some_iff.1 hrun
  have hsub := submitted_gpuSubmit device hi hne hq c.req c.rspLen
  obtain ⟨t, rsp, hv, hstop, ht⟩ := hsub.replied hdev hlen hwait
  obtain ⟨dev, ring, rfl⟩ := hsub.answered_of_replied hdev hlen hv hstop ht
  cases hrun
  refine ⟨?_, rsp, head, _, t, _, hsubmitted device c, hwait, hv, hstop, ht⟩
  exact {
    owned := howned.2
    size := howned.1.trans hi.size
    used := rfl
    last := rfl
    avail_lt := Nat.mod_lt _ (by omega)
    reqBuf := hi.reqBuf
    rspBuf := hi.rspBuf }

/-- A call with a response returns, with the check of what it has copied. -/
theorem Responds.run_eq (hr : Responds device vg c rsp) (hi : Idle vg) (hdev : Replies device)
    (hlen : 24 ≤ c.rspLen) :
    ∃ sub vg₁ vg', (gpuSubmitted device vg c).map Prod.snd = some sub ∧
      iterate (pollBody device) c.polls sub = some (rsp.length, vg₁) ∧
      readBytes vg₁.mem vg₁.rspBuf rsp.length = rsp ∧
      c.run device vg = some (rspOk (c.rsp.map (copyRsp vg₁ rsp.length c.rspLen)) c.rspLen,
        c.rsp.map (copyRsp vg₁ rsp.length c.rspLen), vg') := by
  obtain ⟨head', sub, t, r, hsubmitted', hwait, hv, hstop, ht⟩ := hr
  obtain ⟨head, rid, q, hne, -, hq, hsubmitted, heq⟩ := hi.gpuCmdSync_eq
  rw [hsubmitted device c] at hsubmitted'
  cases hsubmitted'
  have hsub := submitted_gpuSubmit device hi hne hq c.req c.rspLen
  obtain ⟨dev, ring, rfl⟩ := hsub.answered_of_replied hdev hlen hv hstop ht
  have hrun := heq device c.polls c.req c.rsp c.rspLen
  rw [hwait, Option.map_some] at hrun
  exact ⟨_, _, _, by rw [hsubmitted device c]; rfl, hwait, readBytes_writeBytes_self _ _ _ rfl,
    hrun⟩

/-- A command has one response. -/
theorem Responds.unique {rsp' : List UInt8} (hr : Responds device vg c rsp)
    (hr' : Responds device vg c rsp') (hi : Idle vg) (hdev : Replies device)
    (hlen : 24 ≤ c.rspLen) : rsp = rsp' := by
  obtain ⟨sub, vg₁, -, hsub, hwait, hread, -⟩ := hr.run_eq hi hdev hlen
  obtain ⟨sub', vg₁', -, hsub', hwait', hread', -⟩ := hr'.run_eq hi hdev hlen
  rw [hsub] at hsub'
  obtain rfl := Option.some.inj hsub'
  rw [hwait] at hwait'
  obtain ⟨hlength, rfl⟩ := Prod.mk.inj (Option.some.inj hwait')
  rw [← hread, ← hread', hlength]

/-- The check is made on the type that is in the buffer after the response. -/
theorem rspOk_copyRsp_iff (hlen : 24 ≤ rspLen)
    (hread : readBytes vg.mem vg.rspBuf rsp.length = rsp) :
    rspOk (some (copyRsp vg rsp.length rspLen old)) rspLen = true ↔ Success (readType rsp old) := by
  have hcopy : (copyRsp vg rsp.length rspLen old).take 4 =
      (rsp ++ old.drop rsp.length).take 4 := by
    unfold copyRsp
    by_cases hshort : rsp.length < rspLen
    · rw [if_pos hshort]
      dsimp only
      rw [hread]
    · rw [if_neg hshort]
      dsimp only
      rw [← take_readBytes _ _ _ (Nat.le_of_not_lt hshort), hread,
        List.take_append_of_le_length (by rw [List.length_take]; omega), List.take_take,
        Nat.min_eq_left (by omega), List.take_append_of_le_length (by omega)]
  rw [rspOk, if_pos hlen, hcopy, decide_eq_true_iff]
  rfl

/-- **What `gpu_cmd_sync` returns** is about the type that is in the buffer after the response. -/
theorem Responds.gpuCmdSync_ok_iff {ok : Bool} {rsp' : Option (List UInt8)}
    (hr : Responds device vg c rsp) (hi : Idle vg) (hdev : Replies device) (hc : c.WithHeader old)
    (hrun : c.run device vg = some (ok, rsp', vg')) : ok = true ↔ Success (readType rsp old) := by
  obtain ⟨sub, vg₁, vg₂, -, -, hread, hrun'⟩ := hr.run_eq hi hdev hc.header
  rw [hrun, hc.rsp_eq] at hrun'
  cases hrun'
  exact rspOk_copyRsp_iff hc.header hread

/-! ## What the success of a command says -/

/-- The device has answered the command of a call with the four bytes of a type, and it is one of
success. -/
def Succeeded (device : GpuDevice δ) (vg : Gpu δ) (c : GpuCall) : Prop :=
  ∃ rsp, Responds device vg c rsp ∧ 4 ≤ rsp.length ∧ Success (ofLe (rsp.take 4))

/-- `gpu_cmd_sync` returns true only if the command has succeeded. -/
def Outcome (device : GpuDevice δ) (vg : Gpu δ) (c : GpuCall) : Prop :=
  ∀ rsp' vg', c.run device vg = some (true, rsp', vg') → Succeeded device vg c

/-- The response has the four bytes of a type, or what is read in their place is not a type of
success. -/
def TypeAnswered (device : GpuDevice δ) (vg : Gpu δ) (c : GpuCall) : Prop :=
  ∀ old, c.rsp = some old → ∀ rsp, Responds device vg c rsp →
    4 ≤ rsp.length ∨ ¬ Success (readType rsp old)

/-- A type that was answered is the one that is read. -/
theorem readType_of_le (h : 4 ≤ rsp.length) (old : List UInt8) :
    readType rsp old = ofLe (rsp.take 4) := by
  rw [readType, List.take_append_of_le_length h]

/-- **The outcome of one command.** -/
theorem outcome_iff (hi : Idle vg) (hdev : Replies device) (hc : c.WithHeader old) :
    Outcome device vg c ↔ TypeAnswered device vg c := by
  constructor
  · intro hout old' hold rsp hr
    obtain rfl : old = old' := Option.some.inj (hc.rsp_eq.symm.trans hold)
    by_cases hsuccess : Success (readType rsp old)
    · obtain ⟨sub, vg₁, vg₂, -, -, -, hrun⟩ := hr.run_eq hi hdev hc.header
      have hok := (hr.gpuCmdSync_ok_iff hi hdev hc hrun).2 hsuccess
      rw [hok] at hrun
      obtain ⟨rsp', hr', hfour, -⟩ := hout _ _ hrun
      rw [hr.unique hr' hi hdev hc.header]
      exact .inl hfour
    · exact .inr hsuccess
  · intro hans rsp' vg' hrun
    obtain ⟨-, rsp, hr⟩ := exists_responds hi hdev hc.header hrun
    have hsuccess := (hr.gpuCmdSync_ok_iff hi hdev hc hrun).1 rfl
    rcases hans old hc.rsp_eq rsp hr with hfour | hnot
    · rw [readType_of_le hfour] at hsuccess
      exact ⟨rsp, hr, hfour, hsuccess⟩
    · exact absurd hsuccess hnot

end RvvmHal.Virtio
