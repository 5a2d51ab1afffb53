import RvvmHal.DeviceTree.Walk
import RvvmHal.Virtio.GpuCommand

/-!
# The display driver

The bring-up of a device in `virtio.c`, and `virtio_gpu.c` above `gpu_cmd_sync`: the display is
found in the device tree, asked for its preferred mode, and given a resource with the driver's video
memory behind it. `virtio_gpu_present` pushes a rectangle of that memory to the host.

A register access may change the device, so the device is threaded through all of them. What a call
meets from outside is a parameter (`GpuEnv`): for how many looks it waits for an answer of the
device, and what is on the stack where it has its response.
-/

namespace RvvmHal.Virtio

open Bytes DeviceTree Loop

/-! ## Bringing a device up -/

/-- The registers of a device with states `δ`: reads and writes of 32 bits at an address. -/
structure Mmio (δ : Type*) where
  r32 : ℕ → δ → ℕ × δ
  w32 : ℕ → ℕ → δ → δ

section

variable {δ : Type*} (mmio : Mmio δ)

/-- `r`, a read of the register at an offset. -/
def Mmio.r (base off : ℕ) (dev : δ) : ℕ × δ := mmio.r32 ((base + off) % 2 ^ 64) dev

/-- `w`, a write to the register at an offset. -/
def Mmio.w (base off v : ℕ) (dev : δ) : δ := mmio.w32 ((base + off) % 2 ^ 64) v dev

/-- A round of the loop in `virtio_init` that waits for the reset. -/
def resetBody (base : ℕ) (dev : δ) : Iter δ δ :=
  let (status, dev) := mmio.r base 0x070 dev
  if status ≠ 0 then .next dev else .stop dev

/-- `virtio_init` after the reset: the features are negotiated. -/
def negotiate (base wantLo wantHi : ℕ) (dev : δ) : Bool × δ :=
  let dev := mmio.w base 0x070 0x01 dev
  let dev := mmio.w base 0x070 (0x01 ||| 0x02) dev
  let wantHi := wantHi ||| 1 <<< (32 - 32)
  let dev := mmio.w base 0x014 0 dev
  let (devLo, dev) := mmio.r base 0x010 dev
  let dev := mmio.w base 0x014 1 dev
  let (devHi, dev) := mmio.r base 0x010 dev
  let dev := mmio.w base 0x024 0 dev
  let dev := mmio.w base 0x020 (devLo &&& wantLo) dev
  let dev := mmio.w base 0x024 1 dev
  let dev := mmio.w base 0x020 (devHi &&& wantHi) dev
  let dev := mmio.w base 0x070 (0x01 ||| 0x02 ||| 0x08) dev
  let (status, dev) := mmio.r base 0x070 dev
  if status &&& 0x08 = 0 then (false, mmio.w base 0x070 0x80 dev) else (true, dev)

/-- `virtio_init`; `none` when the device has not been reset after `polls` looks. -/
def virtioInit (polls base wantLo wantHi : ℕ) (dev : δ) : Option (Bool × δ) :=
  let dev := (mmio.r base 0x008 dev).2
  let dev := mmio.w base 0x070 0 dev
  (iterate (resetBody mmio base) polls dev).map (negotiate mmio base wantLo wantHi)

/-- The registers that `virtio_queue_setup` writes when it has the queue: its size, the addresses
of its parts, and that it is ready. -/
def announceQueue (base size desc avail used : ℕ) (dev : δ) : δ :=
  let dev := mmio.w base 0x038 size dev
  let dev := mmio.w base 0x080 (desc % 2 ^ 32) dev
  let dev := mmio.w base 0x084 (desc >>> 32 % 2 ^ 32) dev
  let dev := mmio.w base 0x090 (avail % 2 ^ 32) dev
  let dev := mmio.w base 0x094 (avail >>> 32 % 2 ^ 32) dev
  let dev := mmio.w base 0x0a0 (used % 2 ^ 32) dev
  let dev := mmio.w base 0x0a4 (used >>> 32 % 2 ^ 32) dev
  mmio.w base 0x044 1 dev

/-- `virtio_finalize`. -/
def virtioFinalize (base : ℕ) (dev : δ) : δ :=
  mmio.w base 0x070 (0x01 ||| 0x02 ||| 0x08 ||| 0x04) dev

end

/-! ## The commands -/

abbrev VIRTIO_GPU_CMD_GET_DISPLAY_INFO : ℕ := 0x0100

abbrev VIRTIO_GPU_CMD_RESOURCE_CREATE_2D : ℕ := 0x0101

abbrev VIRTIO_GPU_CMD_SET_SCANOUT : ℕ := 0x0103

abbrev VIRTIO_GPU_CMD_RESOURCE_FLUSH : ℕ := 0x0104

abbrev VIRTIO_GPU_CMD_TRANSFER_TO_HOST_2D : ℕ := 0x0105

abbrev VIRTIO_GPU_CMD_RESOURCE_ATTACH_BACKING : ℕ := 0x0106

abbrev VIRTIO_GPU_FORMAT_B8G8R8X8_UNORM : ℕ := 1

/-- `sizeof(vg->vram)`. -/
abbrev VIRTIO_GPU_VRAM_BYTES : ℕ := 4 * 1024 * 1024

/-- `struct virtio_gpu_ctrl_hdr`, with all fields zero but the type. -/
def ctrlHdr (type : ℕ) : List UInt8 := leBytes 4 type ++ List.replicate 20 0

/-- Fields of 32 bits, one after the other. -/
def le32s (vs : List ℕ) : List UInt8 := vs.flatMap (leBytes 4)

/-- `struct virtio_gpu_resource_create_2d`. -/
def resourceCreate2d (id format width height : ℕ) : List UInt8 :=
  ctrlHdr VIRTIO_GPU_CMD_RESOURCE_CREATE_2D ++ le32s [id, format, width, height]

/-- `struct virtio_gpu_resource_attach_backing`. -/
def resourceAttachBacking (id nrEntries addr length : ℕ) : List UInt8 :=
  ctrlHdr VIRTIO_GPU_CMD_RESOURCE_ATTACH_BACKING ++
    (le32s [id, nrEntries] ++ (leBytes 8 addr ++ le32s [length, 0]))

/-- `struct virtio_gpu_set_scanout`. -/
def setScanout (x y w h scanout id : ℕ) : List UInt8 :=
  ctrlHdr VIRTIO_GPU_CMD_SET_SCANOUT ++ le32s [x, y, w, h, scanout, id]

/-- `struct virtio_gpu_transfer_to_host_2d`. -/
def transferToHost2d (x y w h offset id : ℕ) : List UInt8 :=
  ctrlHdr VIRTIO_GPU_CMD_TRANSFER_TO_HOST_2D ++
    (le32s [x, y, w, h] ++ (leBytes 8 offset ++ le32s [id, 0]))

/-- `struct virtio_gpu_resource_flush`. -/
def resourceFlush (x y w h id : ℕ) : List UInt8 :=
  ctrlHdr VIRTIO_GPU_CMD_RESOURCE_FLUSH ++ le32s [x, y, w, h, id, 0]

/-- What a call meets: for how many looks it waits, and the 24 bytes on the stack in which it
receives the response. -/
structure GpuEnv where
  polls : ℕ
  stack : List UInt8

section

variable {δ : Type*} (device : GpuDevice δ)

/-- Commands one after the other, with one response header for all, until one fails. -/
def gpuCmds (polls : ℕ) : List (List UInt8) → List UInt8 → Gpu δ → Option (Bool × Gpu δ)
  | [], _, vg => some (true, vg)
  | req :: reqs, rsp, vg =>
    (gpuCmdSync device polls vg req (some rsp) 24).bind fun
      | (true, rsp', vg) => gpuCmds polls reqs (rsp'.getD rsp) vg
      | (false, _, vg) => some (false, vg)

/-! ## The mode -/

/-- The request for the display info, with the response in a buffer of zeros. -/
def getDisplayInfo (env : GpuEnv) (vg : Gpu δ) : Option (Bool × Option (List UInt8) × Gpu δ) :=
  gpuCmdSync device env.polls vg (ctrlHdr VIRTIO_GPU_CMD_GET_DISPLAY_INFO)
    (some (List.replicate 408 0)) 408

/-- The requested size, clamped to the first mode of the display info. -/
def clampMode (info : List UInt8) (wantW wantH : ℕ) : ℕ × ℕ :=
  let width := ofLe ((info.drop 32).take 4)
  let height := ofLe ((info.drop 36).take 4)
  let enabled := ofLe ((info.drop 40).take 4)
  if enabled ≠ 0 ∧ width ≠ 0 then
    (if wantW > width then width else wantW, if wantH > height then height else wantH)
  else (wantW, wantH)

/-- `virtio_gpu_init_fdt` from the size check on. -/
def setMode (env : GpuEnv) (vg : Gpu δ) (w h : ℕ) : Option (Bool × Gpu δ) :=
  if w * h * 4 % 2 ^ 32 > VIRTIO_GPU_VRAM_BYTES then some (false, vg)
  else
    let vg := { vg with width := w, height := h, resourceId := 1 }
    gpuCmds device env.polls
      [resourceCreate2d vg.resourceId VIRTIO_GPU_FORMAT_B8G8R8X8_UNORM w h,
        resourceAttachBacking vg.resourceId 1 vg.vram (w * h * 4 % 2 ^ 32),
        setScanout 0 0 w h 0 vg.resourceId]
      env.stack vg

/-- `virtio_gpu_init_fdt` when the queue is there. -/
def setUpDisplay (env : GpuEnv) (vg : Gpu δ) (wantW wantH : ℕ) : Option (Bool × Gpu δ) :=
  (getDisplayInfo device env vg).bind fun
    | (true, some info, vg) =>
      let (w, h) := clampMode info wantW wantH
      setMode device env vg w h
    | (_, _, vg) => some (false, vg)

/-- A length `w` from `x` on, clipped to a limit. -/
def clip (limit x w : ℕ) : ℕ := if (x + w) % 2 ^ 32 > limit then limit - x else w

/-- `virtio_gpu_present`. -/
def virtioGpuPresent (env : GpuEnv) (vg : Gpu δ) (x y w h : ℕ) : Option (Bool × Gpu δ) :=
  if vg.resourceId = 0 then some (false, vg)
  else if x ≥ vg.width ∨ y ≥ vg.height then some (true, vg)
  else
    let w := clip vg.width x w
    let h := clip vg.height y h
    if w = 0 ∨ h = 0 then some (true, vg)
    else
      gpuCmds device env.polls
        [transferToHost2d x y w h ((y * vg.width + x) % 2 ^ 32 * 4) vg.resourceId,
          resourceFlush x y w h vg.resourceId]
        env.stack vg

end

/-! ## The probe -/

/-- A display: the device behind the queue, its registers, and the addresses of the parts of the
queue. -/
structure GpuBoard (δ : Type*) where
  device : GpuDevice δ
  mmio : Mmio δ
  desc : ℕ
  avail : ℕ
  used : ℕ

/-- `first_gpu`. -/
def firstGpu {δ : Type*} (_base id : ℕ) (dev : δ) : Bool × δ := (id = 16, dev)

section

variable {δ : Type*} (board : GpuBoard δ)

/-- `virtio_queue_setup` for the control queue: it is set up in memory, and the device is told. -/
def setUpControlq (base : ℕ) (vg : Gpu δ) : Bool × Gpu δ :=
  let dev := board.mmio.w base 0x030 0 vg.dev
  let (qmax, dev) := board.mmio.r base 0x034 dev
  match virtioQueueSetup vg.controlq VIRTIO_GPU_QSIZE qmax with
  | none => (false, { vg with dev := dev })
  | some q =>
    (true, { vg with
      controlq := q
      dev := announceQueue board.mmio base VIRTIO_GPU_QSIZE board.desc board.avail board.used dev })

/-- `virtio_gpu_init_fdt` up to the first command. -/
def bringUpGpu (env : GpuEnv) (fdt : Fdt) (vg : Gpu δ) : Option (Bool × Gpu δ) :=
  (virtioFindFdt fdt board.mmio.r32 firstGpu vg.dev).bind fun (base, dev) =>
    let vg := { vg with dev := dev }
    if base = 0 then some (false, vg)
    else
      (virtioInit board.mmio env.polls base 0 0 vg.dev).map fun (ok, dev) =>
        let vg := { vg with dev := dev }
        if ok then
          let (ok, vg) := setUpControlq board base vg
          if ok then
            (true, { vg with
              controlq := virtqFreeInit vg.controlq
              dev := virtioFinalize board.mmio base vg.dev })
          else (false, vg)
        else (false, vg)

/-- `virtio_gpu_init_fdt`. -/
def virtioGpuInitFdt (env : GpuEnv) (fdt : Fdt) (vg : Gpu δ) (wantW wantH : ℕ) :
    Option (Bool × Gpu δ) :=
  (bringUpGpu board env fdt vg).bind fun (ok, vg) =>
    if ok then setUpDisplay board.device env vg wantW wantH else some (false, vg)

end

/-! ## What the commands leave alone -/

/-- The fields of the driver that no command changes. -/
structure SameMode {δ : Type*} (vg vg' : Gpu δ) : Prop where
  width : vg'.width = vg.width
  height : vg'.height = vg.height
  resourceId : vg'.resourceId = vg.resourceId
  vram : vg'.vram = vg.vram

section

variable {δ : Type*} {device : GpuDevice δ} {polls : ℕ} {vg vg' vg'' : Gpu δ}

theorem SameMode.trans (h : SameMode vg vg') (h' : SameMode vg' vg'') : SameMode vg vg'' :=
  ⟨h'.width.trans h.width, h'.height.trans h.height, h'.resourceId.trans h.resourceId,
    h'.vram.trans h.vram⟩

theorem sameMode_iterate_pollBody {clen : ℕ}
    (hrun : iterate (pollBody device) polls vg = some (clen, vg')) : SameMode vg vg' := by
  obtain ⟨t, hv, hstop⟩ := exists_stop_of_iterate hrun
  obtain ⟨rfl, -, -⟩ := pollBody_stop hstop
  have ht : SameMode vg t := hv.invariant ⟨rfl, rfl, rfl, rfl⟩ fun hI hb => by
    obtain rfl := pollBody_next hb
    exact hI.trans ⟨rfl, rfl, rfl, rfl⟩
  exact ht.trans ⟨rfl, rfl, rfl, rfl⟩

theorem sameMode_gpuCmdSync {req : List UInt8} {rsp rsp' : Option (List UInt8)} {rspLen : ℕ}
    {ok : Bool} (hrun : gpuCmdSync device polls vg req rsp rspLen = some (ok, rsp', vg')) :
    SameMode vg vg' := by
  unfold gpuCmdSync at hrun
  dsimp only at hrun
  split at hrun
  · cases hrun
    exact ⟨rfl, rfl, rfl, rfl⟩
  · obtain ⟨⟨clen, vg₁⟩, hwait, hrun⟩ := Option.map_eq_some_iff.1 hrun
    cases hrun
    have hsame := sameMode_iterate_pollBody hwait
    exact ⟨hsame.width, hsame.height, hsame.resourceId, hsame.vram⟩

theorem sameMode_gpuCmds {reqs : List (List UInt8)} {rsp : List UInt8} {ok : Bool}
    (hrun : gpuCmds device polls reqs rsp vg = some (ok, vg')) : SameMode vg vg' := by
  induction reqs generalizing vg rsp with
  | nil =>
    cases hrun
    exact ⟨rfl, rfl, rfl, rfl⟩
  | cons req reqs ih =>
    obtain ⟨⟨ok₁, rsp₁, vg₁⟩, hcmd, hrun⟩ := Option.bind_eq_some_iff.1 hrun
    have hsame := sameMode_gpuCmdSync hcmd
    cases ok₁ with
    | false =>
      cases hrun
      exact hsame
    | true => exact hsame.trans (ih hrun)

/-- A mode that was set has passed the size check. -/
theorem setMode_spec {env : GpuEnv} {w h : ℕ}
    (hrun : setMode device env vg w h = some (true, vg')) :
    w * h * 4 % 2 ^ 32 ≤ VIRTIO_GPU_VRAM_BYTES ∧ vg'.width = w ∧ vg'.height = h := by
  unfold setMode at hrun
  split at hrun
  · cases hrun
  next hcheck =>
    have hsame := sameMode_gpuCmds hrun
    exact ⟨Nat.le_of_not_lt hcheck, hsame.width, hsame.height⟩

end

end RvvmHal.Virtio
