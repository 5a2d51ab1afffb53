import RvvmHal.Virtio.GpuReply

/-!
# A display that copies

The host's side of the display: a resource with pixels of its own, to which a transfer copies
pixels of the driver's video memory. A `CopyingDevice` is any device that executes the commands of
the queue in this way, after any delay, and answers each with success.

Against such a device every command succeeds, and is executed on the memory that the driver sees
(`gpuCmdSync_copies`); commands one after the other are executed one after the other
(`gpuCmds_cons`), and nothing but the two scratch buffers of the driver is written.
-/

namespace RvvmHal.Virtio

open Bytes Loop

/-! ## The host -/

/-- The display resource: its width, the address of the memory behind it, and its pixels. -/
structure HostResource where
  width : ℕ
  backing : ℕ
  pixel : ℕ → ℕ → List UInt8

/-- The number in `n` bytes of a request. -/
def field (req : List UInt8) (off n : ℕ) : ℕ := ofLe ((req.drop off).take n)

namespace HostResource

/-- Row `j` of a rectangle is copied from `j` rows of the resource behind the offset. -/
def transfer (x y w h offset : ℕ) (mem : Mem) (r : HostResource) : HostResource :=
  { r with pixel := fun i j =>
      if (x ≤ i ∧ i < x + w) ∧ y ≤ j ∧ j < y + h then
        readBytes mem (r.backing + (offset + (j - y) * r.width * 4 + (i - x) * 4)) 4
      else r.pixel i j }

/-- What a command does to the resource. -/
def execute (req : List UInt8) (mem : Mem) (r : HostResource) : HostResource :=
  let type := field req 0 4
  if type = VIRTIO_GPU_CMD_RESOURCE_CREATE_2D then
    { r with width := field req 32 4, pixel := fun _ _ => [0, 0, 0, 0] }
  else if type = VIRTIO_GPU_CMD_RESOURCE_ATTACH_BACKING then { r with backing := field req 32 8 }
  else if type = VIRTIO_GPU_CMD_TRANSFER_TO_HOST_2D then
    r.transfer (field req 24 4) (field req 28 4) (field req 32 4) (field req 36 4) (field req 40 8)
      mem
  else r

end HostResource

/-! ## Reading the commands back -/

theorem length_ctrlHdr (type : ℕ) : (ctrlHdr type).length = 24 := by
  rw [ctrlHdr, List.length_append, length_leBytes, List.length_replicate]

theorem le32s_cons (v : ℕ) (vs : List ℕ) : le32s (v :: vs) = leBytes 4 v ++ le32s vs := rfl

theorem field_append_right {a b : List UInt8} {off n : ℕ} (h : a.length ≤ off) :
    field (a ++ b) off n = field b (off - a.length) n := by
  rw [field, List.drop_append, List.drop_eq_nil_of_le h, List.nil_append, field]

theorem field_leBytes {b : List UInt8} {n v : ℕ} (hv : v < 256 ^ n) :
    field (leBytes n v ++ b) 0 n = v := by
  rw [field, List.drop_zero, List.take_left' (length_leBytes ..), ofLe_leBytes hv]

/-- The type of a command. -/
theorem field_ctrlHdr {type : ℕ} (htype : type < 2 ^ 32) (b : List UInt8) :
    field (ctrlHdr type ++ b) 0 4 = type := by
  rw [ctrlHdr, List.append_assoc]
  exact field_leBytes htype

/-- A field behind the header. -/
theorem field_body (type : ℕ) (b : List UInt8) {off n : ℕ} (hoff : 24 ≤ off) :
    field (ctrlHdr type ++ b) off n = field b (off - 24) n := by
  rw [field_append_right (by rwa [length_ctrlHdr]), length_ctrlHdr]

/-- A field of 32 bits. -/
theorem field_le32s (vs : List ℕ) (b : List UInt8) {i : ℕ} (hi : i < vs.length)
    (hv : vs[i] < 2 ^ 32) : field (le32s vs ++ b) (4 * i) 4 = vs[i] := by
  induction i generalizing vs with
  | zero =>
    obtain ⟨v, vs, rfl⟩ := List.exists_cons_of_length_pos hi
    rw [le32s_cons, List.append_assoc]
    exact field_leBytes hv
  | succ i ih =>
    obtain ⟨v, vs, rfl⟩ := List.exists_cons_of_length_pos (Nat.zero_lt_of_lt hi)
    rw [le32s_cons, List.append_assoc, field_append_right (by rw [length_leBytes]; omega),
      length_leBytes, Nat.mul_succ, Nat.add_sub_cancel]
    exact ih vs (Nat.lt_of_succ_lt_succ hi) hv

theorem length_le32s (vs : List ℕ) : (le32s vs).length = 4 * vs.length := by
  induction vs with
  | nil => rfl
  | cons v vs ih =>
    rw [le32s_cons, List.length_append, length_leBytes, ih, List.length_cons]
    omega

namespace HostResource

variable {mem : Mem} {r : HostResource} {x y w h id offset : ℕ}

theorem execute_create (hw : w < 2 ^ 32) :
    r.execute (resourceCreate2d id VIRTIO_GPU_FORMAT_B8G8R8X8_UNORM w h) mem =
      { r with width := w, pixel := fun _ _ => [0, 0, 0, 0] } := by
  have hfield : field (resourceCreate2d id VIRTIO_GPU_FORMAT_B8G8R8X8_UNORM w h) 32 4 = w := by
    rw [resourceCreate2d, field_body _ _ (by omega), ← List.append_nil (le32s _)]
    exact field_le32s [id, 1, w, h] [] (i := 2) (by simp) hw
  rw [execute, hfield, resourceCreate2d, field_ctrlHdr (by norm_num)]
  exact if_pos rfl

theorem execute_attach {n len addr : ℕ} (haddr : addr < 2 ^ 64) :
    r.execute (resourceAttachBacking id n addr len) mem = { r with backing := addr } := by
  have hfield : field (resourceAttachBacking id n addr len) 32 8 = addr := by
    rw [resourceAttachBacking, field_body _ _ (by omega),
      field_append_right (by simp [length_le32s])]
    exact field_leBytes haddr
  rw [execute, hfield, resourceAttachBacking, field_ctrlHdr (by norm_num)]
  exact (if_neg (by norm_num)).trans (if_pos rfl)

theorem execute_transfer (hx : x < 2 ^ 32) (hy : y < 2 ^ 32) (hw : w < 2 ^ 32) (hh : h < 2 ^ 32)
    (hoffset : offset < 2 ^ 64) :
    r.execute (transferToHost2d x y w h offset id) mem = r.transfer x y w h offset mem := by
  have hrect : ∀ i (hi : i < [x, y, w, h].length), [x, y, w, h][i] < 2 ^ 32 →
      field (transferToHost2d x y w h offset id) (24 + 4 * i) 4 = [x, y, w, h][i] := by
    intro i hi hv
    rw [transferToHost2d, field_body _ _ (by omega), Nat.add_sub_cancel_left]
    exact field_le32s _ _ hi hv
  have hfield : field (transferToHost2d x y w h offset id) 40 8 = offset := by
    rw [transferToHost2d, field_body _ _ (by omega), field_append_right (by simp [length_le32s])]
    exact field_leBytes hoffset
  rw [execute, hfield, hrect 0 (by simp) hx, hrect 1 (by simp) hy, hrect 2 (by simp) hw,
    hrect 3 (by simp) hh, transferToHost2d, field_ctrlHdr (by norm_num)]
  exact (if_neg (by norm_num)).trans ((if_neg (by norm_num)).trans (if_pos rfl))

/-- A command of any other type does not change the resource. -/
theorem execute_other {type : ℕ} {b : List UInt8} (htype : type < 2 ^ 32)
    (hc : type ≠ VIRTIO_GPU_CMD_RESOURCE_CREATE_2D)
    (ha : type ≠ VIRTIO_GPU_CMD_RESOURCE_ATTACH_BACKING)
    (ht : type ≠ VIRTIO_GPU_CMD_TRANSFER_TO_HOST_2D) :
    r.execute (ctrlHdr type ++ b) mem = r := by
  rw [execute, field_ctrlHdr htype]
  exact (if_neg hc).trans ((if_neg ha).trans (if_neg ht))

end HostResource

section

variable {δ : Type*}

/-- The device has done nothing that is seen, and takes its time. -/
structure Delayed (res : δ → HostResource) (wait : δ → ℕ) (dev : δ) (q : Virtq) (mem : Mem)
    (t : GpuTurn δ) : Prop where
  res_eq : res t.dev = res dev
  mem_eq : t.mem = mem
  usedIdx : t.usedIdx = q.usedIdx
  usedRing : t.usedRing = q.usedRing
  wait_lt : wait t.dev < wait dev

/-- The device has executed the chain at `head`, and has answered `rsp`. -/
structure Answered (res : δ → HostResource) (dev : δ) (q : Virtq) (mem : Mem) (head : ℕ)
    (rsp : List UInt8) (t : GpuTurn δ) : Prop where
  res_eq : res t.dev =
    (res dev).execute (readBytes mem (q.desc head).addr (q.desc head).len) mem
  mem_eq : t.mem = writeBytes mem (q.desc (q.desc head).next).addr rsp
  usedIdx : t.usedIdx = (q.usedIdx + 1) % 2 ^ 16
  usedElem : t.usedRing (q.usedIdx % q.size) = ⟨head, rsp.length⟩
  header : 24 ≤ rsp.length
  length_le : rsp.length ≤ (q.desc (q.desc head).next).len
  success : ofLe (rsp.take 4) = VIRTIO_GPU_RESP_OK_NODATA ∨
    ofLe (rsp.take 4) = VIRTIO_GPU_RESP_OK_DISPLAY_INFO

/-- A device that executes every command that is available, sooner or later, and answers success:
its resource, and for how many turns it takes its time. -/
structure CopyingDevice (device : GpuDevice δ) where
  res : δ → HostResource
  wait : δ → ℕ
  notify : ∀ dev, res (device.notify dev) = res dev
  turn : ∀ dev (q : Virtq) mem, q.usedIdx ≠ q.availIdx →
    24 ≤ (q.desc (q.desc (q.availRing (q.usedIdx % q.size))).next).len →
    Delayed res wait dev q mem (device.turn dev q mem) ∨
      ∃ rsp, Answered res dev q mem (q.availRing (q.usedIdx % q.size)) rsp (device.turn dev q mem)

theorem Delayed.quiet {res : δ → HostResource} {wait : δ → ℕ} {dev : δ} {q : Virtq} {mem : Mem}
    {t : GpuTurn δ} (h : Delayed res wait dev q mem t) : Quiet q mem t :=
  ⟨h.mem_eq, h.usedIdx, h.usedRing⟩

theorem Answered.replied {res : δ → HostResource} {dev : δ} {q : Virtq} {mem : Mem} {head : ℕ}
    {rsp : List UInt8} {t : GpuTurn δ} (h : Answered res dev q mem head rsp t) :
    Replied q mem head rsp t :=
  ⟨h.mem_eq, h.usedIdx, h.usedElem⟩

theorem CopyingDevice.replies {device : GpuDevice δ} (hdev : CopyingDevice device) :
    Replies device := by
  intro dev q mem hne hlen
  rcases hdev.turn dev q mem hne hlen with ht | ⟨rsp, ht⟩
  · exact .inl ht.quiet
  · exact .inr ⟨rsp, ht.replied⟩

/-- The mode is the same, and the memory outside of the scratch buffers. -/
structure SameSurface (vg vg' : Gpu δ) : Prop extends SameMode vg vg' where
  mem : ∀ a, a < vg.reqBuf ∨ vg.rspBuf + 1024 ≤ a → vg'.mem a = vg.mem a

/-- The state after a command: as before it, and the command has been executed. -/
structure Executed {device : GpuDevice δ} (hdev : CopyingDevice device) (req : List UInt8)
    (vg vg' : Gpu δ) : Prop extends SameSurface vg vg' where
  idle : Idle vg'
  res_eq : hdev.res vg'.dev =
    (hdev.res vg.dev).execute req (writeBytes vg.mem vg.reqBuf req)

/-! ## One command -/

variable {device : GpuDevice δ} {req rsp : List UInt8} {rspLen head rid polls : ℕ} {vg vg' : Gpu δ}

/-- What a turn of the device makes of a command on its way. -/
theorem Submitted.turn (h : Submitted req rspLen head rid vg) (hdev : CopyingDevice device)
    (hlen : 24 ≤ rspLen) :
    Delayed hdev.res hdev.wait vg.dev vg.controlq vg.mem
        (device.turn vg.dev vg.controlq vg.mem) ∨
      ∃ rsp, Answered hdev.res vg.dev vg.controlq vg.mem head rsp
        (device.turn vg.dev vg.controlq vg.mem) := by
  have hturn := hdev.turn vg.dev vg.controlq vg.mem h.used_ne
  rw [h.chain, h.desc_head, h.desc_rid] at hturn
  exact hturn hlen

/-- The wait for the answer: the driver goes on only while the device takes its time. -/
theorem Submitted.next (h : Submitted req rspLen head rid vg) (hdev : CopyingDevice device)
    (hlen : 24 ≤ rspLen) (hb : pollBody device vg = .next vg') :
    vg' = { vg with dev := vg'.dev } ∧ hdev.res vg'.dev = hdev.res vg.dev ∧
      hdev.wait vg'.dev < hdev.wait vg.dev := by
  obtain rfl := pollBody_next hb
  rcases h.turn hdev hlen with ht | ⟨rsp, ht⟩
  · have hvg := turn_of_quiet ht.quiet
    refine ⟨by rw [hvg], ?_, ?_⟩
    · rw [hvg]
      exact ht.res_eq
    · rw [hvg]
      exact ht.wait_lt
  · have hstop : pollBody device vg = .stop ((usedFront (vg.turn device).controlq).2,
        { vg.turn device with controlq := usedAdvance (vg.turn device).controlq }) := by
      simp only [pollBody, virtqUsedPop, if_neg (h.not_usedEmpty ht.replied)]
    rw [hstop] at hb
    cases hb

/-- While the driver waits the command stays as it is. -/
theorem Submitted.visits {t : Gpu δ} (h : Submitted req rspLen head rid vg)
    (hdev : CopyingDevice device) (hlen : 24 ≤ rspLen) (hv : Visits (pollBody device) vg t) :
    t = { vg with dev := t.dev } ∧ hdev.res t.dev = hdev.res vg.dev := by
  refine hv.invariant (I := fun t => t = { vg with dev := t.dev } ∧
    hdev.res t.dev = hdev.res vg.dev) ⟨rfl, rfl⟩ fun {t t'} hI hb => ?_
  have ht : Submitted req rspLen head rid t := by
    rw [hI.1]
    exact h.withDev _
  obtain ⟨hvg, hres, -⟩ := ht.next hdev hlen hb
  refine ⟨?_, hres.trans hI.2⟩
  rw [hvg, hI.1]

/-- **The wait ends**: a driver that waits long enough gets its answer. -/
theorem Submitted.returns (h : Submitted req rspLen head rid vg) (hdev : CopyingDevice device)
    (hlen : 24 ≤ rspLen) (hpolls : hdev.wait vg.dev < polls) :
    ∃ r, iterate (pollBody device) polls vg = some r := by
  have hsub : ∀ {t}, Visits (pollBody device) vg t → Submitted req rspLen head rid t := by
    intro t hv
    rw [(h.visits hdev hlen hv).1]
    exact h.withDev _
  refine iterate_of_measure (fun t => hdev.wait t.dev) (fun t t' hv hb => ?_) (fun t hv hb => ?_)
    hpolls
  · exact ((hsub hv).next hdev hlen hb).2.2
  · unfold pollBody at hb
    dsimp only at hb
    split at hb <;> cases hb

/-- A response as the driver looks at it: a header is there, it fits, and it says success. -/
structure GoodResponse (rspLen : ℕ) (rsp : List UInt8) : Prop where
  header : 24 ≤ rsp.length
  length_le : rsp.length ≤ rspLen
  success : ofLe (rsp.take 4) = VIRTIO_GPU_RESP_OK_NODATA ∨
    ofLe (rsp.take 4) = VIRTIO_GPU_RESP_OK_DISPLAY_INFO

/-- What the wait gives: the answer, to a command that has been executed. -/
theorem Submitted.received {clen : ℕ} (h : Submitted req rspLen head rid vg)
    (hdev : CopyingDevice device) (hlen : 24 ≤ rspLen)
    (hrun : iterate (pollBody device) polls vg = some (clen, vg')) :
    ∃ rsp dev ring, GoodResponse rspLen rsp ∧ clen = rsp.length ∧ vg' = vg.answered rsp dev ring ∧
      hdev.res dev = (hdev.res vg.dev).execute req vg.mem := by
  obtain ⟨t, hv, hstop⟩ := exists_stop_of_iterate hrun
  obtain ⟨ht, hres⟩ := h.visits hdev hlen hv
  have hsub : Submitted req rspLen head rid t := by
    rw [ht]
    exact h.withDev _
  obtain ⟨rfl, hnot, rfl⟩ := pollBody_stop hstop
  rcases hsub.turn hdev hlen with hdel | ⟨rsp, hans⟩
  · -- the device has not answered, and the loop goes on
    refine absurd ?_ hnot
    rw [turn_of_quiet hdel.quiet]
    exact hsub.last.symm
  · have hle := hans.length_le
    have hmem := hans.mem_eq
    have hexec := hans.res_eq
    rw [hsub.desc_head, hsub.desc_rid] at hle hmem
    rw [hsub.desc_head, hsub.req_eq, hres] at hexec
    have helem : (usedFront (t.turn device).controlq).2 = rsp.length := by
      simp only [usedFront, Gpu.turn, hsub.last, hans.usedElem]
    refine ⟨rsp, (t.turn device).dev, (t.turn device).controlq.usedRing,
      ⟨hans.header, hle, hans.success⟩, helem, ?_, ?_⟩
    · obtain ⟨dev, rfl⟩ : ∃ dev, t = { vg with dev := dev } := ⟨t.dev, ht⟩
      simp only [Gpu.answered, Gpu.turn, usedAdvance, hmem, hans.usedIdx, h.last, h.avail]
    · rw [show (t.turn device).dev = (device.turn t.dev t.controlq t.mem).dev from rfl, hexec, ht]

/-- The response is copied to the caller as far as it goes, and says success. -/
theorem GoodResponse.rspOk (h : GoodResponse rspLen rsp) (hlen : 24 ≤ rspLen) (buf : List UInt8)
    (hmem : readBytes vg.mem vg.rspBuf rsp.length = rsp) :
    rspOk (some (copyRsp vg rsp.length rspLen buf)) rspLen = true := by
  have hle := h.length_le
  have hheader := h.header
  have hn : (if rsp.length < rspLen then rsp.length else rspLen) = rsp.length := by
    split
    · rfl
    · omega
  simp only [Virtio.rspOk, if_pos hlen, copyRsp, hn, hmem]
  rw [List.take_append_of_le_length (by omega)]
  exact decide_eq_true h.success

/-- **Every command succeeds and is executed**, on the memory that the driver has. -/
theorem gpuCmdSync_copies {rsp' : Option (List UInt8)} {ok : Bool} (hdev : CopyingDevice device)
    (h : Idle vg) (hreq : req.length ≤ 256) (hlen : 24 ≤ rspLen) (hle : rspLen ≤ 1024)
    (hrun : gpuCmdSync device polls vg req (some rsp) rspLen = some (ok, rsp', vg')) :
    ok = true ∧ (∃ info, rsp' = some info) ∧ Executed hdev req vg vg' := by
  have howned := owned_gpuCmdSync h.owned hrun
  obtain ⟨head, rid, q, hne, -, hq, -, heq⟩ := h.gpuCmdSync_eq
  rw [heq] at hrun
  obtain ⟨⟨clen, vg₁⟩, hwait, hrun⟩ := Option.map_eq_some_iff.1 hrun
  have hsub := submitted_gpuSubmit device h hne hq req rspLen
  obtain ⟨ans, dev, ring, hgood, rfl, rfl, hres⟩ := hsub.received hdev hlen hwait
  cases hrun
  have hreqBuf := h.reqBuf
  have hrspBuf := h.rspBuf
  have hanslen := hgood.length_le
  refine ⟨hgood.rspOk hlen rsp (readBytes_writeBytes_self _ _ _ rfl), ⟨_, rfl⟩, ?_⟩
  exact {
    width := rfl
    height := rfl
    resourceId := rfl
    vram := rfl
    mem := fun a ha => by
      refine (writeBytes_of_not_mem _ _ _ ?_).trans (writeBytes_of_not_mem _ _ _ ?_)
      · simp only [gpuSubmit]
        omega
      · dsimp only
        omega
    idle := {
      owned := howned.2
      size := howned.1.trans h.size
      used := rfl
      last := rfl
      avail_lt := Nat.mod_lt _ (by omega)
      reqBuf := h.reqBuf
      rspBuf := h.rspBuf }
    res_eq := hres.trans (by rw [gpuSubmit, hdev.notify]) }

/-- **Every command returns**, for a driver that waits long enough. -/
theorem gpuCmdSync_returns (hdev : CopyingDevice device) (h : Idle vg) (hlen : 24 ≤ rspLen)
    (rsp : Option (List UInt8)) (req : List UInt8) :
    ∃ n, ∃ r, ∀ polls, n ≤ polls → gpuCmdSync device polls vg req rsp rspLen = some r := by
  obtain ⟨head, rid, q, hne, -, hq, -, heq⟩ := h.gpuCmdSync_eq
  have hsub := submitted_gpuSubmit device h hne hq req rspLen
  obtain ⟨r, hr⟩ := hsub.returns hdev hlen (Nat.lt_succ_self _)
  have hmap := fun polls hpolls => (heq device polls req rsp rspLen).trans
    (congrArg (Option.map _) (iterate_mono (m := polls) hr hpolls))
  exact ⟨_, _, hmap⟩

/-! ## Commands one after the other -/

/-- The first of several commands is executed, and the others follow. -/
theorem gpuCmds_cons {reqs : List (List UInt8)} {ok : Bool} (hdev : CopyingDevice device)
    (h : Idle vg) (hreq : req.length ≤ 256)
    (hrun : gpuCmds device polls (req :: reqs) rsp vg = some (ok, vg')) :
    ∃ vg₁ rsp₁, Executed hdev req vg vg₁ ∧ gpuCmds device polls reqs rsp₁ vg₁ = some (ok, vg') := by
  rw [gpuCmds] at hrun
  obtain ⟨⟨ok₁, rsp₁, vg₁⟩, hcmd, hrun⟩ := Option.bind_eq_some_iff.1 hrun
  obtain ⟨rfl, -, hex⟩ := gpuCmdSync_copies hdev h hreq (Nat.le_refl 24) (by omega) hcmd
  exact ⟨vg₁, _, hex, hrun⟩

/-- Commands one after the other return. -/
theorem gpuCmds_returns (hdev : CopyingDevice device) {reqs : List (List UInt8)} (h : Idle vg)
    (hreqs : ∀ req ∈ reqs, req.length ≤ 256) (rsp : List UInt8) :
    ∃ n, ∃ r, ∀ polls, n ≤ polls → gpuCmds device polls reqs rsp vg = some r := by
  induction reqs generalizing vg rsp with
  | nil => exact ⟨0, _, fun _ _ => rfl⟩
  | cons req reqs ih =>
    obtain ⟨n₁, ⟨ok, rsp₁, vg₁⟩, hcmd⟩ :=
      gpuCmdSync_returns hdev h (Nat.le_refl 24) (some rsp) req
    have hreq := hreqs req List.mem_cons_self
    obtain ⟨rfl, -, hex⟩ := gpuCmdSync_copies hdev h hreq (Nat.le_refl 24) (by omega)
      (hcmd n₁ (Nat.le_refl n₁))
    obtain ⟨n₂, r, hrest⟩ := ih hex.idle (fun r hr => hreqs r (List.mem_cons_of_mem req hr))
      (rsp₁.getD rsp)
    refine ⟨n₁ + n₂, r, fun polls hpolls => ?_⟩
    rw [gpuCmds, hcmd polls (by omega), Option.bind_some]
    exact hrest polls (by omega)

end

end RvvmHal.Virtio
