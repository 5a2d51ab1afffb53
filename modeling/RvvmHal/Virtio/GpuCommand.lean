import RvvmHal.Foundations.Bytes
import RvvmHal.Foundations.Loop
import RvvmHal.Foundations.Machine
import RvvmHal.Virtio.FreeList
import RvvmHal.Virtio.Ring

/-!
# Commands of the display device

`gpu_cmd_sync` of `virtio_gpu.c`: a request is copied into a buffer that the device can see, a chain
of two descriptors is made available, and the driver looks at the used ring until the device has
returned the chain. The device is a parameter: between two looks it may store anything to memory and
to the used ring.

Whatever the device does, and on whichever path the call returns, both descriptors are free again
(`owned_gpuCmdSync`).
-/

namespace RvvmHal.Virtio

open Bytes Loop

abbrev VIRTIO_GPU_QSIZE : ℕ := 16

abbrev VIRTIO_GPU_RESP_OK_NODATA : ℕ := 0x1100

abbrev VIRTIO_GPU_RESP_OK_DISPLAY_INFO : ℕ := 0x1101

/-- What a device has done: its own state, memory, `used.idx` and the used ring. -/
structure GpuTurn (δ : Type*) where
  dev : δ
  mem : Mem
  usedIdx : ℕ
  usedRing : ℕ → VirtqUsedElem

/-- A device with states `δ`: how it takes a notification, and what it does between two looks of
the driver at the used ring. -/
structure GpuDevice (δ : Type*) where
  notify : δ → δ
  turn : δ → Virtq → Mem → GpuTurn δ

/-- `virtio_gpu_t`, with the addresses of its buffers, the memory they are in, and the device. -/
structure Gpu (δ : Type*) where
  controlq : Virtq
  width : ℕ
  height : ℕ
  resourceId : ℕ
  vram : ℕ
  reqBuf : ℕ
  rspBuf : ℕ
  mem : Mem
  dev : δ

section

variable {δ : Type*} (device : GpuDevice δ)

/-- The device takes its turn. -/
def Gpu.turn (vg : Gpu δ) : Gpu δ :=
  let t := device.turn vg.dev vg.controlq vg.mem
  { vg with
    controlq := { vg.controlq with usedIdx := t.usedIdx, usedRing := t.usedRing }
    mem := t.mem
    dev := t.dev }

/-- A round of the loop that waits for the device: the length that the device returns. -/
def pollBody (vg : Gpu δ) : Iter (Gpu δ) (ℕ × Gpu δ) :=
  let vg := vg.turn device
  match virtqUsedPop vg.controlq with
  | (none, _) => .next vg
  | (some (_, clen), q) => .stop (clen, { vg with controlq := q })

/-- The first `min(clen, rsp_len)` bytes of the response, copied to `rsp`. -/
def copyRsp (vg : Gpu δ) (clen rspLen : ℕ) (rsp : List UInt8) : List UInt8 :=
  let n := if clen < rspLen then clen else rspLen
  readBytes vg.mem vg.rspBuf n ++ rsp.drop n

/-- The check of the response: a header is there, and its type is one of success. -/
def rspOk (rsp : Option (List UInt8)) (rspLen : ℕ) : Bool :=
  match rsp with
  | none => true
  | some bytes =>
    if 24 ≤ rspLen then
      ofLe (bytes.take 4) = VIRTIO_GPU_RESP_OK_NODATA ∨
        ofLe (bytes.take 4) = VIRTIO_GPU_RESP_OK_DISPLAY_INFO
    else true

/-- The request and the response as a chain that is made available: `gpu_cmd_sync` up to the
notification. -/
def gpuSubmit (vg : Gpu δ) (head rid : ℕ) (req : List UInt8) (rspLen : ℕ) : Gpu δ :=
  let q := writeDesc vg.controlq head ⟨vg.reqBuf, req.length, VIRTQ_DESC_F_NEXT, rid⟩
  let q := writeDesc q rid ⟨vg.rspBuf, rspLen, VIRTQ_DESC_F_WRITE, 0⟩
  { vg with
    controlq := virtqAvailPush q head
    mem := writeBytes vg.mem vg.reqBuf req
    dev := device.notify vg.dev }

/-- `gpu_cmd_sync`, with `rsp` as the bytes at a pointer that may be null: the value returned and
the bytes at `rsp`. `none` when the device has not answered after `polls` looks. -/
def gpuCmdSync (polls : ℕ) (vg : Gpu δ) (req : List UInt8) (rsp : Option (List UInt8))
    (rspLen : ℕ) : Option (Bool × Option (List UInt8) × Gpu δ) :=
  let (head, q) := virtqAllocDesc vg.controlq
  let (rid, q) := virtqAllocDesc q
  if head = 0xFFFF ∨ rid = 0xFFFF then
    let q := if rid ≠ 0xFFFF then virtqFreeDesc q rid else q
    let q := if head ≠ 0xFFFF then virtqFreeDesc q head else q
    some (false, rsp, { vg with controlq := q })
  else
    let vg := gpuSubmit device { vg with controlq := q } head rid req rspLen
    (iterate (pollBody device) polls vg).map fun (clen, vg) =>
      let rsp := rsp.map (copyRsp vg clen rspLen)
      let q := virtqFreeDesc (virtqFreeDesc vg.controlq rid) head
      (rspOk rsp rspLen, rsp, { vg with controlq := q })

/-! ## The descriptors -/

variable {device}

/-- What the wait does to the queue. -/
theorem pollBody_next {vg vg' : Gpu δ} (h : pollBody device vg = .next vg') :
    vg' = vg.turn device := by
  unfold pollBody at h
  dsimp only at h
  split at h
  · exact (Iter.next.inj h).symm
  · cases h

theorem pollBody_stop {vg vg' : Gpu δ} {clen : ℕ} (h : pollBody device vg = .stop (clen, vg')) :
    vg' = { vg.turn device with controlq := usedAdvance (vg.turn device).controlq } ∧
      ¬ UsedEmpty (vg.turn device).controlq ∧ clen = (usedFront (vg.turn device).controlq).2 := by
  unfold pollBody at h
  dsimp only at h
  unfold virtqUsedPop at h
  by_cases hempty : UsedEmpty (vg.turn device).controlq
  · rw [if_pos hempty] at h
    cases h
  · rw [if_neg hempty] at h
    cases h
    exact ⟨rfl, hempty, rfl⟩

/-- The wait allocates and frees nothing. -/
theorem owned_iterate_pollBody {vg vg' : Gpu δ} {held : List ℕ} {polls clen : ℕ}
    (h : Owned vg.controlq held)
    (hrun : iterate (pollBody device) polls vg = some (clen, vg')) :
    vg'.controlq.size = vg.controlq.size ∧ Owned vg'.controlq held := by
  obtain ⟨t, hv, hstop⟩ := exists_stop_of_iterate hrun
  obtain ⟨rfl, -, -⟩ := pollBody_stop hstop
  have hinv := hv.invariant
    (I := fun t => t.controlq.size = vg.controlq.size ∧ Owned t.controlq held) ⟨rfl, h⟩
    fun hI hb => by
      obtain rfl := pollBody_next hb
      exact ⟨hI.1, hI.2.rings⟩
  exact ⟨hinv.1, hinv.2.rings⟩

/-- What an allocation does, as far as `gpu_cmd_sync` looks at it: it gives `0xFFFF` and changes
nothing, or it gives a descriptor. -/
theorem Owned.alloc_cases {q : Virtq} {held : List ℕ} (h : Owned q held) :
    virtqAllocDesc q = (0xFFFF, q) ∨ ∃ idx q', virtqAllocDesc q = (idx, q') ∧ idx ≠ 0xFFFF ∧
      q'.size = q.size ∧ Owned q' (idx :: held) := by
  by_cases hfree : q.numFree = 0
  · exact .inl (Owned.alloc_full hfree)
  · obtain ⟨hlt, -, howned⟩ := h.alloc hfree
    have hle := h.size_le
    have hne : (virtqAllocDesc q).1 ≠ 0xFFFF := by omega
    exact .inr ⟨_, _, rfl, hne, size_virtqAllocDesc q, howned⟩

/-- The release of the descriptor that was allocated last. -/
theorem Owned.free_head {q : Virtq} {held : List ℕ} {idx : ℕ} (h : Owned q (idx :: held)) :
    Owned (virtqFreeDesc q idx) held := by
  have hfree := h.free List.mem_cons_self
  rwa [List.erase_cons_head] at hfree

theorem owned_gpuSubmit (device : GpuDevice δ) (vg : Gpu δ) (rspLen : ℕ) (req : List UInt8)
    {held : List ℕ}
    {head rid : ℕ} (h : Owned vg.controlq (rid :: head :: held)) :
    Owned (gpuSubmit device vg head rid req rspLen).controlq (rid :: head :: held) :=
  ((h.write (List.mem_cons_of_mem rid List.mem_cons_self) _).write List.mem_cons_self _).rings

/-- **Every return of `gpu_cmd_sync`** leaves the descriptors free that were free before. -/
theorem owned_gpuCmdSync {vg vg' : Gpu δ} {held : List ℕ} {polls rspLen : ℕ} {req : List UInt8}
    {rsp rsp' : Option (List UInt8)} {ok : Bool} (h : Owned vg.controlq held)
    (hrun : gpuCmdSync device polls vg req rsp rspLen = some (ok, rsp', vg')) :
    vg'.controlq.size = vg.controlq.size ∧ Owned vg'.controlq held := by
  rw [gpuCmdSync] at hrun
  rcases h.alloc_cases with hfull | ⟨head, q₁, halloc, hhead, hsize₁, howned₁⟩
  · -- no descriptor is free
    rw [hfull] at hrun
    dsimp only at hrun
    rw [hfull, if_pos (.inl rfl), Option.some.injEq] at hrun
    cases hrun
    exact ⟨rfl, h⟩
  rw [halloc] at hrun
  dsimp only at hrun
  rcases howned₁.alloc_cases with hfull | ⟨rid, q₂, halloc, hrid, hsize₂, howned₂⟩
  · -- one is, and it is freed again
    rw [hfull, if_pos (.inr rfl), if_pos hhead, Option.some.injEq] at hrun
    cases hrun
    exact ⟨hsize₁, howned₁.free_head⟩
  · rw [halloc] at hrun
    dsimp only at hrun
    rw [if_neg (by simp [hhead, hrid])] at hrun
    obtain ⟨⟨clen, vg₁⟩, hwait, hrun⟩ := Option.map_eq_some_iff.1 hrun
    cases hrun
    have hsubmit := owned_gpuSubmit device { vg with controlq := q₂ } rspLen req howned₂
    obtain ⟨hsize, howned⟩ := owned_iterate_pollBody hsubmit hwait
    exact ⟨hsize.trans (hsize₂.trans hsize₁), howned.free_head.free_head⟩

end

/-! ## Runs -/

/-- A command as `gpu_cmd_sync` is called with it, and for how long the driver looks for the
answer. -/
structure GpuCall where
  req : List UInt8
  rsp : Option (List UInt8)
  rspLen : ℕ
  polls : ℕ

/-- All sequences of commands from `virtq_free_init`. -/
def gpuCalls {δ : Type*} (device : GpuDevice δ) (vg : Gpu δ) : Machine (Gpu δ) GpuCall where
  init := { vg with controlq := virtqFreeInit vg.controlq }
  step call vg := (gpuCmdSync device call.polls vg call.req call.rsp call.rspLen).map (·.2.2)

theorem owned_of_reachable_gpuCalls {δ : Type*} {device : GpuDevice δ} {vg vg' : Gpu δ}
    (hpos : 0 < vg.controlq.size) (hle : vg.controlq.size ≤ 32768)
    (h : (gpuCalls device vg).Reachable vg') :
    vg'.controlq.size = vg.controlq.size ∧ Owned vg'.controlq [] := by
  refine h.invariant (I := fun t => t.controlq.size = vg.controlq.size ∧ Owned t.controlq [])
    ⟨rfl, owned_virtqFreeInit hpos hle⟩ fun hI _ hs => ?_
  obtain ⟨⟨ok, rsp, t⟩, hcall, rfl⟩ := Option.map_eq_some_iff.1 hs
  obtain ⟨hsize, howned⟩ := owned_gpuCmdSync hI.2 hcall
  exact ⟨hsize.trans hI.1, howned⟩

/-- **Descriptors are neither lost nor given out twice**: in every run of allocations and releases
an allocated descriptor is in the table and not held, the free list is without repetition and has
the descriptors that are not held, and an allocation fails exactly when all are held. Every command
returns with all descriptors free, whatever the device does. -/
theorem descriptors_conserved {δ : Type*} (device : GpuDevice δ) (vg : Gpu δ)
    (hpos : 0 < vg.controlq.size) (hle : vg.controlq.size ≤ 32768) :
    (∀ s, (allocator vg.controlq).Reachable s →
      ((virtqAllocDesc s.q).1 ≠ 0xFFFF →
        (virtqAllocDesc s.q).1 < vg.controlq.size ∧ (virtqAllocDesc s.q).1 ∉ s.held) ∧
      s.held.Nodup ∧ (∀ i ∈ s.held, i < vg.controlq.size) ∧
      (freeList s.q).Nodup ∧
      (∀ i, i ∈ freeList s.q ↔ i < vg.controlq.size ∧ i ∉ s.held) ∧
      s.held.length + s.q.numFree = vg.controlq.size ∧
      ((virtqAllocDesc s.q).1 = 0xFFFF ↔ s.held.length = vg.controlq.size)) ∧
    ∀ vg', (gpuCalls device vg).Reachable vg' →
      vg'.controlq.numFree = vg.controlq.size ∧ (freeList vg'.controlq).Nodup ∧
      ∀ i, i ∈ freeList vg'.controlq ↔ i < vg.controlq.size := by
  refine ⟨fun s hs => ?_, fun vg' hvg => ?_⟩
  · obtain ⟨hsize, howned⟩ := owned_of_reachable hpos hle hs
    rw [← hsize]
    refine ⟨fun hne => ?_, howned.nodup_held, fun i => howned.lt_of_mem, howned.nodup_freeList,
      fun i => howned.mem_freeList_iff, ?_, howned.alloc_eq_iff⟩
    · have hfree : s.q.numFree ≠ 0 := fun hzero => hne (by rw [Owned.alloc_full hzero])
      obtain ⟨hlt, hnot, -⟩ := howned.alloc hfree
      exact ⟨hlt, hnot⟩
    · rw [Nat.add_comm]
      exact howned.numFree_add_length
  · obtain ⟨hsize, howned⟩ := owned_of_reachable_gpuCalls hpos hle hvg
    rw [← hsize]
    refine ⟨howned.numFree_add_length, howned.nodup_freeList, fun i => ?_⟩
    rw [howned.mem_freeList_iff]
    exact and_iff_left List.not_mem_nil

/-- A device that answers every command at its next turn, without a look at the request. -/
def okDevice : GpuDevice Unit where
  notify := id
  turn _ q mem :=
    if q.usedIdx = q.availIdx then ⟨(), mem, q.usedIdx, q.usedRing⟩
    else
      let head := q.availRing (q.usedIdx % q.size)
      { dev := ()
        mem := writeBytes mem (q.desc (q.desc head).next).addr
          (leBytes 4 VIRTIO_GPU_RESP_OK_NODATA ++ List.replicate 20 0)
        usedIdx := (q.usedIdx + 1) % 2 ^ 16
        usedRing := Function.update q.usedRing (q.usedIdx % q.size) ⟨head, 24⟩ }

/-- A display with a queue of 16 descriptors and nothing in memory. -/
def blankGpu : Gpu Unit where
  controlq := { blankQueue with size := VIRTIO_GPU_QSIZE }
  width := 0
  height := 0
  resourceId := 0
  vram := 0x400000
  reqBuf := 0x1000
  rspBuf := 0x2000
  mem _ := 0
  dev := ()

/-- After two commands all descriptors are free. -/
theorem descriptors_conserved_twice :
    ∃ vg, (gpuCalls okDevice blankGpu).Reachable vg ∧ vg.controlq.lastUsedIdx = 2 ∧
      vg.controlq.numFree = 16 := by
  have hrun : (gpuCalls okDevice blankGpu).run
      [⟨[0], some (List.replicate 24 0), 24, 1⟩, ⟨[1], none, 0, 3⟩]
      (gpuCalls okDevice blankGpu).init = some _ := rfl
  have hreach := Machine.reachable_of_run hrun
  exact ⟨_, hreach, rfl,
    ((descriptors_conserved okDevice blankGpu (by decide) (by decide)).2 _ hreach).1⟩

end RvvmHal.Virtio
