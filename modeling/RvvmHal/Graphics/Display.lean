import RvvmHal.DeviceTree.Copies
import RvvmHal.Graphics.Init
import RvvmHal.Virtio.GpuHost

/-!
# What a virtio display shows

A virtio display shows a resource of the host, to which the driver's video memory is transferred by
rectangles. `gfx_fill` and `gfx_rect` transfer what they have drawn: the region that is modified,
the region that is presented, clipped once more by `virtio_gpu_present`, and the byte offset of the
transfer are about the same pixels, as long as the positions of the pixels do not wrap in 32 bits.

So in a mode whose size does not wrap, what is drawn is shown, and pixels on which host and guest
agree stay in agreement (`display_coherent`). In a mode that wraps, a rectangle at the bottom is
drawn over the first pixel, and is not shown there (`wrapped_rect_stale`).
-/

namespace RvvmHal.Graphics

open Bytes DeviceTree Raster Virtio

section

variable {δ : Type*} {device : GpuDevice δ}

/-- The surface is a virtio display between two calls: the resource is as wide as the surface, and
backed by its memory. -/
structure OnDisplay (hdev : CopyingDevice device) (g : Gfx) (s : GfxSys δ) : Prop where
  backend : g.backend = .virtioGpu
  active : s.vgpuActive = true
  idle : Idle s.vgpu
  resourceId : s.vgpu.resourceId ≠ 0
  vram : g.vram = s.vgpu.vram
  width : g.width = s.vgpu.width
  height : g.height = s.vgpu.height
  stride : g.stridePx = s.vgpu.width
  resWidth : (hdev.res s.vgpu.dev).width = s.vgpu.width
  backing : (hdev.res s.vgpu.dev).backing = s.vgpu.vram

/-- A pixel of the host's resource. -/
def hostPixel (hdev : CopyingDevice device) (s : GfxSys δ) (i j : ℕ) : List UInt8 :=
  (hdev.res s.vgpu.dev).pixel i j

/-- A pixel of the surface. -/
def guestPixel (g : Gfx) (s : GfxSys δ) (i j : ℕ) : List UInt8 :=
  cell 4 s.mem g.vram (pos g.stridePx i j)

/-- The visible pixels on which host and guest differ. -/
def Differ (hdev : CopyingDevice device) (g : Gfx) (s : GfxSys δ) : Set (ℕ × ℕ) :=
  {p | p.1 < g.width ∧ p.2 < g.height ∧ hostPixel hdev s p.1 p.2 ≠ guestPixel g s p.1 p.2}

/-! ## The calls -/

/-- `gfx_pixel`, and the three calls that end with `gfx_present`. -/
inductive GfxCall
  | pixel (x y color : ℕ)
  | fill (color : ℕ)
  | rect (x y w h color : ℕ)
  | present (x y w h : ℕ)

/-- `gfx_pixel`. -/
def gfxPixel (g : Gfx) (s : GfxSys δ) (x y color : ℕ) : GfxSys δ :=
  s.withMem (writeBytes s.mem (g.vram + 4 * ((y * g.stridePx + x) % 2 ^ 32))
    (leBytes 4 (swizzle g color)))

/-- A call. -/
def gfxCall (device : GpuDevice δ) (env : GpuEnv) (g : Gfx) (s : GfxSys δ) :
    GfxCall → Option (GfxSys δ)
  | .pixel x y color => some (gfxPixel g s x y color)
  | .fill color => gfxFill device env g s color
  | .rect x y w h color => gfxRect device env g s x y w h color
  | .present x y w h => gfxPresent device env g s x y w h

namespace GfxCall

/-- The arguments are words, no rectangle that is drawn ends beyond the last word, and the pixel
that is plotted without a check is there. -/
def Bounded (g : Gfx) : GfxCall → Prop
  | pixel x y color => x < g.width ∧ y < g.height ∧ color < 2 ^ 32
  | fill color => color < 2 ^ 32
  | rect x y w h color => x + w < 2 ^ 32 ∧ y + h < 2 ^ 32 ∧ color < 2 ^ 32
  | present x y w h => x < 2 ^ 32 ∧ y < 2 ^ 32 ∧ w < 2 ^ 32 ∧ h < 2 ^ 32

/-- The call ends with `gfx_present`. -/
def Presents : GfxCall → Prop
  | pixel .. => False
  | _ => True

/-- The visible pixels that a call draws and presents. -/
def Draws : GfxCall → ℕ → ℕ → Prop
  | fill _, _, _ => True
  | rect x y w h _, i, j => (x ≤ i ∧ i < x + w) ∧ y ≤ j ∧ j < y + h
  | _, _, _ => False

end GfxCall

/-- All sequences of calls on a surface. -/
def drawing (device : GpuDevice δ) (g : Gfx) (s : GfxSys δ) :
    Machine (GfxSys δ) (GpuEnv × GfxCall) where
  init := s
  step a s := gfxCall device a.1 g s a.2

/-! ## Presenting -/

variable {hdev : CopyingDevice device} {g : Gfx} {s s' : GfxSys δ} {env : GpuEnv} {x y w h : ℕ}

theorem clip_pos {limit a n : ℕ} (ha : a < limit) (hn : n ≠ 0) : clip limit a n ≠ 0 := by
  unfold clip
  split <;> omega

/-- What is clipped to nothing is empty. -/
theorem eq_zero_of_clip {limit a n : ℕ} (ha : a < limit) (h : clip limit a n = 0) : n = 0 := by
  by_contra hne
  exact clip_pos ha hne h

theorem clip_lt {limit a n : ℕ} (hlimit : limit < 2 ^ 32) (hn : n < 2 ^ 32) :
    clip limit a n < 2 ^ 32 := by
  unfold clip
  split <;> omega

/-- A transfer copies the visible pixels of its rectangle. -/
theorem OnDisplay.transfer (hd : OnDisplay hdev g s) (hfits : Fits g VIRTIO_GPU_VRAM_BYTES)
    (hx : x < g.width) (hy : y < g.height) (hw : w < 2 ^ 32) (hh : h < 2 ^ 32) {i j : ℕ}
    (hi : i < g.width) (hj : j < g.height) (id : ℕ) (req : List UInt8) :
    (((hdev.res s.vgpu.dev).execute
        (transferToHost2d x y w h ((y * g.width + x) % 2 ^ 32 * 4) id)
        (writeBytes s.mem s.vgpu.reqBuf req)).pixel i j) =
      if (x ≤ i ∧ i < x + w) ∧ y ≤ j ∧ j < y + h then guestPixel g s i j
      else hostPixel hdev s i j := by
  have hreq := hd.idle.reqBuf
  have hxy := hfits.pixel hx hy
  have hij := hfits.pixel hi hj
  obtain ⟨hwidth, hheight⟩ := sides_le hfits.width_le hx hy
  have hsize := hfits.size_le
  simp only [VIRTIO_GPU_VRAM_BYTES] at hreq hxy hij hsize
  have hstride : g.width = g.stridePx := hd.width.trans hd.stride.symm
  rw [hstride, ← pos, Nat.mod_eq_of_lt (by omega),
    HostResource.execute_transfer (by omega) (by omega) hw hh (by omega)]
  simp only [HostResource.transfer]
  split
  next hin =>
    rw [hd.backing, hd.resWidth, ← hd.vram, ← hd.stride]
    have haddr : pos g.stridePx x y * 4 + (j - y) * g.stridePx * 4 + (i - x) * 4 =
        4 * pos g.stridePx i j := by
      obtain ⟨d, rfl⟩ := Nat.exists_eq_add_of_le hin.2.1
      obtain ⟨e, rfl⟩ := Nat.exists_eq_add_of_le hin.1.1
      rw [Nat.add_sub_cancel_left, Nat.add_sub_cancel_left, pos_add, pos, pos]
      omega
    rw [haddr, readBytes_writeBytes_of_disjoint]
    · rfl
    · rw [hd.vram]
      omega
  next => rfl

/-- A command that keeps the resource's width and backing keeps the surface a display. -/
theorem OnDisplay.executed (hd : OnDisplay hdev g s) {req : List UInt8} {vg : Gpu δ}
    (hex : Executed hdev req s.vgpu vg)
    (hres : (hdev.res vg.dev).width = (hdev.res s.vgpu.dev).width ∧
      (hdev.res vg.dev).backing = (hdev.res s.vgpu.dev).backing) :
    OnDisplay hdev g { s with vgpu := vg } where
  backend := hd.backend
  active := hd.active
  idle := hex.idle
  resourceId := by
    rw [hex.resourceId]
    exact hd.resourceId
  vram := hd.vram.trans hex.vram.symm
  width := hd.width.trans hex.width.symm
  height := hd.height.trans hex.height.symm
  stride := hd.stride.trans hex.width.symm
  resWidth := hres.1.trans (hd.resWidth.trans hex.width.symm)
  backing := hres.2.trans (hd.backing.trans hex.vram.symm)

/-- A command does not change the pixels of the surface. -/
theorem OnDisplay.guestPixel_executed (hd : OnDisplay hdev g s)
    (hfits : Fits g VIRTIO_GPU_VRAM_BYTES) {req : List UInt8} {vg : Gpu δ}
    (hex : Executed hdev req s.vgpu vg) {i j : ℕ} (hi : i < g.width) (hj : j < g.height) :
    guestPixel g { s with vgpu := vg } i j = guestPixel g s i j := by
  have hij := hfits.pixel hi hj
  have hreq := hd.idle.reqBuf
  have hvram := hd.vram
  refine readBytes_congr _ fun a _ hlt => hex.mem a (.inl ?_)
  omega

/-- **`gfx_present`** makes host and guest agree on its rectangle, and changes nothing else. -/
theorem OnDisplay.present (hd : OnDisplay hdev g s) (hfits : Fits g VIRTIO_GPU_VRAM_BYTES)
    (hw : w < 2 ^ 32) (hh : h < 2 ^ 32) (hrun : gfxPresent device env g s x y w h = some s') :
    OnDisplay hdev g s' ∧ ∀ i j, i < g.width → j < g.height →
      guestPixel g s' i j = guestPixel g s i j ∧
      hostPixel hdev s' i j = if (x ≤ i ∧ i < x + w) ∧ y ≤ j ∧ j < y + h then guestPixel g s i j
        else hostPixel hdev s i j := by
  rw [gfxPresent, if_neg (by simp [hd.backend, hd.active])] at hrun
  obtain ⟨⟨ok, vg⟩, hpresent, rfl⟩ := Option.map_eq_some_iff.1 hrun
  rw [virtioGpuPresent, if_neg hd.resourceId] at hpresent
  by_cases hout : x ≥ s.vgpu.width ∨ y ≥ s.vgpu.height
  · -- the rectangle has no visible pixel
    rw [if_pos hout, Option.some.injEq] at hpresent
    cases hpresent
    refine ⟨hd, fun i j hi hj => ⟨rfl, (if_neg ?_).symm⟩⟩
    rw [hd.width] at hi
    rw [hd.height] at hj
    omega
  rw [if_neg hout] at hpresent
  dsimp only at hpresent
  by_cases hempty : clip s.vgpu.width x w = 0 ∨ clip s.vgpu.height y h = 0
  · -- it is empty
    rw [if_pos hempty, Option.some.injEq] at hpresent
    cases hpresent
    refine ⟨hd, fun i j hi hj => ⟨rfl, (if_neg ?_).symm⟩⟩
    rcases hempty with hzero | hzero
    · have hw0 : w = 0 := eq_zero_of_clip (by omega) hzero
      omega
    · have hh0 : h = 0 := eq_zero_of_clip (by omega) hzero
      omega
  rw [if_neg hempty] at hpresent
  rw [not_or, Nat.not_le, Nat.not_le, ← hd.width, ← hd.height] at hout
  obtain ⟨vg₁, rsp₁, hex₁, hpresent⟩ := gpuCmds_cons hdev hd.idle
    (by simp [transferToHost2d, length_ctrlHdr, length_le32s]) hpresent
  obtain ⟨vg₂, rsp₂, hex₂, hpresent⟩ := gpuCmds_cons hdev hex₁.idle
    (by simp [resourceFlush, length_ctrlHdr, length_le32s]) hpresent
  cases hpresent
  obtain ⟨hwidth, hheight⟩ := sides_le hfits.width_le hout.1 hout.2
  have hsize := hfits.size_le
  simp only [VIRTIO_GPU_VRAM_BYTES] at hsize
  rw [← hd.width, ← hd.height] at hex₁
  have hcw : clip g.width x w < 2 ^ 32 := clip_lt (by omega) hw
  have hch : clip g.height y h < 2 ^ 32 := clip_lt (by omega) hh
  have hres₁ := hex₁.res_eq
  have hres₂ := hex₂.res_eq
  rw [resourceFlush, HostResource.execute_other (by norm_num) (by norm_num) (by norm_num)
    (by norm_num)] at hres₂
  have hkeep₁ : (hdev.res vg₁.dev).width = (hdev.res s.vgpu.dev).width ∧
      (hdev.res vg₁.dev).backing = (hdev.res s.vgpu.dev).backing := by
    rw [hres₁, HostResource.execute_transfer (by omega) (by omega) hcw hch (by omega)]
    exact ⟨rfl, rfl⟩
  have hd₁ := hd.executed hex₁ hkeep₁
  refine ⟨hd₁.executed hex₂ (by rw [hres₂]; exact ⟨rfl, rfl⟩), fun i j hi hj => ⟨?_, ?_⟩⟩
  · exact (hd₁.guestPixel_executed hfits hex₂ hi hj).trans (hd.guestPixel_executed hfits hex₁ hi hj)
  · have htransfer := hd.transfer hfits hout.1 hout.2 hcw hch hi hj s.vgpu.resourceId
      (transferToHost2d x y (clip g.width x w) (clip g.height y h)
        ((y * g.width + x) % 2 ^ 32 * 4) s.vgpu.resourceId)
    simp only [lt_add_clip hi, lt_add_clip hj] at htransfer
    rw [hostPixel, hres₂, hres₁]
    exact htransfer

/-! ## Drawing and presenting -/

theorem OnDisplay.withMem (hd : OnDisplay hdev g s) (mem : Mem) :
    OnDisplay hdev g (s.withMem mem) :=
  ⟨hd.backend, hd.active, ⟨hd.idle.owned, hd.idle.size, hd.idle.used, hd.idle.last,
    hd.idle.avail_lt, hd.idle.reqBuf, hd.idle.rspBuf⟩, hd.resourceId, hd.vram, hd.width, hd.height,
    hd.stride, hd.resWidth, hd.backing⟩

/-- What a call does to the visible pixels: host and guest agree on what it draws, and elsewhere the
guest's pixel is as before, and the host's as before or like the guest's. -/
structure Shown (hdev : CopyingDevice device) (g : Gfx) (draws : ℕ → ℕ → Prop)
    (s s' : GfxSys δ) (i j : ℕ) : Prop where
  drawn : draws i j → hostPixel hdev s' i j = guestPixel g s' i j
  kept : ¬ draws i j → guestPixel g s' i j = guestPixel g s i j
  host : ¬ draws i j → hostPixel hdev s' i j = guestPixel g s' i j ∨
    hostPixel hdev s' i j = hostPixel hdev s i j

variable {color : ℕ} {call : GfxCall}

theorem guestPixel_paint_of_not_mem {S : Set ℕ} {F : ℕ → List UInt8} {i j : ℕ}
    (h : pos g.stridePx i j ∉ S) :
    guestPixel g (s.withMem (paint 4 g.vram S F s.mem)) i j = guestPixel g s i j :=
  cell_paint_of_not_mem h

theorem OnDisplay.fill (hd : OnDisplay hdev g s) (hfits : Fits g VIRTIO_GPU_VRAM_BYTES)
    (hwidth : g.width < 2 ^ 32) (hheight : g.height < 2 ^ 32)
    (hrun : gfxFill device env g s color = some s') :
    OnDisplay hdev g s' ∧ ∀ i j, i < g.width → j < g.height →
      Shown hdev g (fun _ _ => True) s s' i j := by
  rw [gfxFill, if_neg (by simp [hd.backend])] at hrun
  obtain ⟨hd', hshown⟩ := (hd.withMem _).present hfits hwidth hheight hrun
  refine ⟨hd', fun i j hi hj => ⟨fun _ => ?_, fun hnot => (hnot trivial).elim,
    fun hnot => (hnot trivial).elim⟩⟩
  obtain ⟨hguest, hhost⟩ := hshown i j hi hj
  rw [hguest, hhost, if_pos (by omega)]

theorem OnDisplay.rect (hd : OnDisplay hdev g s) (hfits : Fits g VIRTIO_GPU_VRAM_BYTES)
    (hw : x + w < 2 ^ 32) (hh : y + h < 2 ^ 32) (hcolor : color < 2 ^ 32)
    (hrun : gfxRect device env g s x y w h color = some s') :
    OnDisplay hdev g s' ∧ ∀ i j, i < g.width → j < g.height →
      Shown hdev g (fun i j => (x ≤ i ∧ i < x + w) ∧ y ≤ j ∧ j < y + h) s s' i j := by
  rw [gfxRect, if_neg (by simp [hd.backend])] at hrun
  by_cases hout : x ≥ g.width ∨ y ≥ g.height
  · -- nothing of the rectangle is visible
    rw [if_pos hout, Option.some.injEq] at hrun
    subst hrun
    refine ⟨hd, fun i j hi hj => ⟨fun hin => ?_, fun _ => rfl, fun _ => .inr rfl⟩⟩
    omega
  rw [if_neg hout] at hrun
  rw [not_or, Nat.not_le, Nat.not_le] at hout
  dsimp only at hrun
  have hcw := clip_le hout.1 hw
  have hch := clip_le hout.2 hh
  rw [hfits.rectFilled_eq (by norm_num) hcolor hout.1 hout.2 hcw] at hrun
  obtain ⟨hwidth, hheight⟩ := sides_le hfits.width_le hout.1 hout.2
  have hsize := hfits.size_le
  simp only [VIRTIO_GPU_VRAM_BYTES] at hsize
  obtain ⟨hd', hshown⟩ := (hd.withMem _).present hfits (by omega) (by omega) hrun
  refine ⟨hd', fun i j hi hj => ?_⟩
  obtain ⟨hguest, hhost⟩ := hshown i j hi hj
  simp only [lt_add_clip hi, lt_add_clip hj] at hhost
  refine ⟨fun hin => ?_, fun hnot => ?_, fun hnot => .inr ?_⟩
  · rw [hguest, hhost, if_pos hin]
  · rw [hguest]
    refine guestPixel_paint_of_not_mem fun hmem => hnot ?_
    rwa [pos_mem_rect (Nat.lt_of_lt_of_le hi hfits.width_le), lt_add_clip hi, lt_add_clip hj] at hmem
  · rw [hhost, if_neg hnot]
    rfl

/-- **Every call** keeps the display in order, and the calls that present show what they draw. -/
theorem OnDisplay.step (hd : OnDisplay hdev g s) (hfits : Fits g VIRTIO_GPU_VRAM_BYTES)
    (hwidth : g.width < 2 ^ 32) (hheight : g.height < 2 ^ 32) (hb : call.Bounded g)
    (hrun : gfxCall device env g s call = some s') :
    OnDisplay hdev g s' ∧ (call.Presents → ∀ i j, i < g.width → j < g.height →
      Shown hdev g call.Draws s s' i j) := by
  cases call with
  | pixel x y color =>
    obtain rfl := Option.some.inj hrun
    exact ⟨hd.withMem _, False.elim⟩
  | fill color =>
    obtain ⟨hd', hshown⟩ := hd.fill hfits hwidth hheight hrun
    exact ⟨hd', fun _ => hshown⟩
  | rect x y w h color =>
    obtain ⟨hd', hshown⟩ := hd.rect hfits hb.1 hb.2.1 hb.2.2 hrun
    exact ⟨hd', fun _ => hshown⟩
  | present x y w h =>
    obtain ⟨hd', hshown⟩ := hd.present hfits hb.2.2.1 hb.2.2.2 hrun
    refine ⟨hd', fun _ i j hi hj => ⟨False.elim, fun _ => (hshown i j hi hj).1, fun _ => ?_⟩⟩
    obtain ⟨hguest, hhost⟩ := hshown i j hi hj
    rw [hguest, hhost]
    split
    · exact .inl rfl
    · exact .inr rfl

/-- **Every call returns**, for a driver that waits long enough. -/
theorem OnDisplay.returns (hd : OnDisplay hdev g s) (call : GfxCall) (stack : List UInt8) :
    ∃ n, ∀ polls, n ≤ polls → ∃ s', gfxCall device ⟨polls, stack⟩ g s call = some s' := by
  have hpresent : ∀ {t : GfxSys δ}, OnDisplay hdev g t → ∀ x y w h, ∃ n, ∀ polls, n ≤ polls →
      ∃ s', gfxPresent device ⟨polls, stack⟩ g t x y w h = some s' := by
    intro t ht x y w h
    have hreqs : ∀ req ∈ [transferToHost2d x y (clip t.vgpu.width x w) (clip t.vgpu.height y h)
          ((y * t.vgpu.width + x) % 2 ^ 32 * 4) t.vgpu.resourceId,
        resourceFlush x y (clip t.vgpu.width x w) (clip t.vgpu.height y h) t.vgpu.resourceId],
        req.length ≤ 256 := by
      simp [transferToHost2d, resourceFlush, length_ctrlHdr, length_le32s]
    obtain ⟨n, r, hcmds⟩ := gpuCmds_returns hdev ht.idle hreqs stack
    refine ⟨n, fun polls hpolls => ?_⟩
    rw [gfxPresent, if_neg (by simp [ht.backend, ht.active]), virtioGpuPresent,
      if_neg ht.resourceId]
    dsimp only
    split
    · exact ⟨_, rfl⟩
    · split
      · exact ⟨_, rfl⟩
      · rw [hcmds polls hpolls]
        exact ⟨_, rfl⟩
  cases call with
  | pixel x y color => exact ⟨0, fun _ _ => ⟨_, rfl⟩⟩
  | fill color =>
    obtain ⟨n, hn⟩ := hpresent (hd.withMem (filled g s.mem color)) 0 0 g.width g.height
    refine ⟨n, fun polls hpolls => ?_⟩
    rw [gfxCall, gfxFill, if_neg (by simp [hd.backend])]
    exact hn polls hpolls
  | rect x y w h color =>
    obtain ⟨n, hn⟩ := hpresent (hd.withMem (rectFilled g s.mem x y (clip g.width x w)
      (clip g.height y h) color)) x y (clip g.width x w) (clip g.height y h)
    refine ⟨n, fun polls hpolls => ?_⟩
    rw [gfxCall, gfxRect, if_neg (by simp [hd.backend])]
    split
    · exact ⟨_, rfl⟩
    · exact hn polls hpolls
  | present x y w h => exact hpresent hd x y w h

/-! ## Bringing the display up -/

/-- The buffers of `virtio_gpu_t` in memory: behind the video memory are the scratch buffers. -/
structure Layout (vg : Gpu δ) : Prop where
  reqBuf : vg.reqBuf = vg.vram + VIRTIO_GPU_VRAM_BYTES
  rspBuf : vg.rspBuf = vg.reqBuf + 256
  vram_lt : vg.vram < 2 ^ 64

variable {board : GpuBoard δ} {fdt : Fdt} {vg vg' : Gpu δ}

theorem setUpControlq_spec {base : ℕ} (hrun : setUpControlq board base vg = (true, vg')) :
    ∃ qmax q dev, virtioQueueSetup vg.controlq VIRTIO_GPU_QSIZE qmax = some q ∧
      vg' = { vg with controlq := q, dev := dev } := by
  unfold setUpControlq at hrun
  dsimp only at hrun
  cases hq : virtioQueueSetup vg.controlq VIRTIO_GPU_QSIZE
      (board.mmio.r base 0x034 (board.mmio.w base 0x030 0 vg.dev)).1 with
  | none =>
    rw [hq] at hrun
    cases hrun
  | some q =>
    rw [hq] at hrun
    cases hrun
    exact ⟨_, q, _, hq, rfl⟩

/-- When the queue is there, the driver is between two commands. -/
theorem idle_of_bringUpGpu (hlayout : Layout vg)
    (hrun : bringUpGpu board env fdt vg = some (true, vg')) : Idle vg' ∧ vg'.vram = vg.vram := by
  obtain ⟨⟨base, dev⟩, -, hrun⟩ := Option.bind_eq_some_iff.1 hrun
  dsimp only at hrun
  split at hrun
  · cases hrun
  · obtain ⟨⟨ok, dev⟩, -, hrun⟩ := Option.map_eq_some_iff.1 hrun
    dsimp only at hrun
    split at hrun
    · cases hctl : setUpControlq board base { vg with dev := dev } with
      | mk ok₁ vg₁ =>
        rw [hctl] at hrun
        cases ok₁ with
        | false => cases hrun
        | true =>
          obtain ⟨qmax, q, dev', hq, rfl⟩ := setUpControlq_spec hctl
          cases hrun
          unfold virtioQueueSetup at hq
          split at hq
          · cases hq
          · obtain rfl := Option.some.inj hq
            refine ⟨⟨owned_virtqFreeInit ?_ ?_, rfl, rfl, rfl, Nat.two_pow_pos 16, hlayout.reqBuf,
              hlayout.rspBuf⟩, rfl⟩
            · exact Nat.succ_pos 15
            · norm_num
    · cases hrun

/-- Setting the mode gives the device a resource of the right width, backed by the video memory. -/
theorem setMode_copies (hdev : CopyingDevice device) (hi : Idle vg)
    (hvram : vg.vram < 2 ^ 64) (hw : w < 2 ^ 32)
    (hrun : setMode device env vg w h = some (true, vg')) :
    Idle vg' ∧ vg'.resourceId = 1 ∧ vg'.width = w ∧ vg'.height = h ∧
      (hdev.res vg'.dev).width = w ∧ (hdev.res vg'.dev).backing = vg'.vram := by
  unfold setMode at hrun
  split at hrun
  · cases hrun
  have hi₀ : Idle { vg with width := w, height := h, resourceId := 1 } := { hi with }
  obtain ⟨vg₁, rsp₁, hex₁, hrun⟩ := gpuCmds_cons hdev hi₀
    (by simp [resourceCreate2d, length_ctrlHdr, length_le32s]) hrun
  obtain ⟨vg₂, rsp₂, hex₂, hrun⟩ := gpuCmds_cons hdev hex₁.idle
    (by simp [resourceAttachBacking, length_ctrlHdr, length_le32s]) hrun
  obtain ⟨vg₃, rsp₃, hex₃, hrun⟩ := gpuCmds_cons hdev hex₂.idle
    (by simp [setScanout, length_ctrlHdr, length_le32s]) hrun
  cases hrun
  have hsame := hex₁.toSameMode.trans (hex₂.toSameMode.trans hex₃.toSameMode)
  have hres : hdev.res vg'.dev = { hdev.res vg.dev with
      width := w, pixel := fun _ _ => [0, 0, 0, 0], backing := vg.vram } := by
    rw [hex₃.res_eq, setScanout, HostResource.execute_other (by norm_num) (by norm_num)
      (by norm_num) (by norm_num), hex₂.res_eq, HostResource.execute_attach hvram, hex₁.res_eq,
      HostResource.execute_create hw]
  refine ⟨hex₃.idle, hsame.resourceId, hsame.width, hsame.height, ?_, ?_⟩
  · rw [hres]
  · rw [hres]
    exact hsame.vram.symm

theorem clampMode_le (info : List UInt8) (wantW wantH : ℕ) :
    (clampMode info wantW wantH).1 ≤ wantW ∧ (clampMode info wantW wantH).2 ≤ wantH := by
  unfold clampMode
  dsimp only
  split
  · constructor
    · dsimp only
      split <;> omega
    · dsimp only
      split <;> omega
  · exact ⟨Nat.le_refl _, Nat.le_refl _⟩

/-- **A display that was brought up** is one: whatever the mode, the resource has its width and is
backed by the video memory. -/
theorem onDisplay_of_init {g₀ : Gfx} (hdev : CopyingDevice board.device) (hlayout : Layout s.vgpu)
    (hw : w < 2 ^ 32) (hh : h < 2 ^ 32)
    (hrun : gfxVirtioGpuInit board env fdt g₀ s w h = some (true, g, s')) :
    OnDisplay hdev g s' ∧ g.width < 2 ^ 32 ∧ g.height < 2 ^ 32 ∧
      g.width * g.height * 4 % 2 ^ 32 ≤ VIRTIO_GPU_VRAM_BYTES := by
  obtain ⟨vg₁, vg, hup, hinit, rfl, rfl⟩ := gfxVirtioGpuInit_true hrun
  obtain ⟨hidle₁, hvram₁⟩ := idle_of_bringUpGpu hlayout hup
  obtain ⟨⟨ok₂, rsp, vg₂⟩, hquery, hmode⟩ := Option.bind_eq_some_iff.1 hinit
  obtain ⟨rfl, ⟨info, rfl⟩, hex⟩ := gpuCmdSync_copies hdev hidle₁
    (by rw [length_ctrlHdr]; omega) (by omega) (by omega) hquery
  have hclamp := clampMode_le info w h
  obtain ⟨hidle, hid, hwidth, hheight, hresWidth, hbacking⟩ :=
    setMode_copies (w := (clampMode info w h).1) (h := (clampMode info w h).2) hdev
      hex.idle (by rw [hex.vram, hvram₁]; exact hlayout.vram_lt) (by omega) hmode
  refine ⟨⟨rfl, rfl, hidle, ?_, rfl, rfl, rfl, rfl, hresWidth.trans hwidth.symm, hbacking⟩,
    ?_, ?_, ?_⟩
  · dsimp only
    omega
  · dsimp only
    omega
  · dsimp only
    omega
  · dsimp only
    rw [hwidth, hheight]
    exact (setMode_spec (w := (clampMode info w h).1) (h := (clampMode info w h).2) hmode).1

/-- **What is drawn is shown**: on a display that was brought up in a mode whose size does not wrap,
after any sequence of calls, a call that ends with `gfx_present` leaves every pixel it has drawn the
same on the host and in video memory, and with it every pixel it has modified, and host and guest do
not differ on more pixels than before. So once they agree, they agree after any further sequence of
such calls. And every call returns. -/
theorem display_coherent {g₀ : Gfx} {s₀ s₁ : GfxSys δ} (hdev : CopyingDevice board.device)
    (hlayout : Layout s₀.vgpu) (hw : w < 2 ^ 32) (hh : h < 2 ^ 32)
    (hinit : gfxVirtioGpuInit board env fdt g₀ s₀ w h = some (true, g, s₁))
    (hfit : g.width * g.height * 4 < 2 ^ 32)
    (hreach : (drawing board.device g s₁).ReachableBy (fun a _ => a.2.Bounded g) s) :
    (∀ env call s', call.Bounded g → call.Presents →
      gfxCall board.device env g s call = some s' →
      (∀ i j, i < g.width → j < g.height →
        call.Draws i j ∨ guestPixel g s' i j ≠ guestPixel g s i j →
        hostPixel hdev s' i j = guestPixel g s' i j) ∧
      Differ hdev g s' ⊆ Differ hdev g s) ∧
    (∀ calls s', (∀ a ∈ calls, a.2.Bounded g ∧ a.2.Presents) →
      (drawing board.device g s₁).run calls s = some s' → Differ hdev g s = ∅ →
      Differ hdev g s' = ∅) ∧
    ∀ call stack, ∃ n, ∀ polls, n ≤ polls →
      ∃ s', gfxCall board.device ⟨polls, stack⟩ g s call = some s' := by
  obtain ⟨hd₁, hwidth, hheight, hcheck⟩ := onDisplay_of_init hdev hlayout hw hh hinit
  have hstride : g.width = g.stridePx := hd₁.width.trans hd₁.stride.symm
  have hfits : Fits g VIRTIO_GPU_VRAM_BYTES := by
    rw [Nat.mod_eq_of_lt hfit] at hcheck
    exact ⟨Nat.le_of_eq hstride, hstride ▸ hcheck⟩
  have hd : OnDisplay hdev g s := hreach.invariant (I := OnDisplay hdev g) hd₁
    fun hI hb hs => (hI.step hfits hwidth hheight hb hs).1
  have hstep : ∀ {t t' : GfxSys δ} {env : GpuEnv} {call : GfxCall}, OnDisplay hdev g t →
      call.Bounded g → call.Presents → gfxCall board.device env g t call = some t' →
      Differ hdev g t' ⊆ Differ hdev g t := by
    intro t t' env call ht hb hp hs
    rintro ⟨i, j⟩ ⟨hi, hj, hne⟩
    have hshown := (ht.step hfits hwidth hheight hb hs).2 hp i j hi hj
    have hnot : ¬ call.Draws i j := fun hdraws => hne (hshown.drawn hdraws)
    refine ⟨hi, hj, fun heq => hne ?_⟩
    rcases hshown.host hnot with hhost | hhost
    · exact hhost
    · rw [hhost, hshown.kept hnot]
      exact heq
  refine ⟨fun env call s' hb hp hs => ⟨fun i j hi hj hmod => ?_, hstep hd hb hp hs⟩,
    fun calls s' hok hrun hagree => ?_, fun call stack => hd.returns call stack⟩
  · have hshown := (hd.step hfits hwidth hheight hb hs).2 hp i j hi hj
    by_cases hdraws : call.Draws i j
    · exact hshown.drawn hdraws
    · exact absurd (hshown.kept hdraws) (hmod.resolve_left hdraws)
  · induction calls generalizing s with
    | nil =>
      obtain rfl := Option.some.inj hrun
      exact hagree
    | cons a calls ih =>
      obtain ⟨t, ht, hrun⟩ := Option.bind_eq_some_iff.1 hrun
      obtain ⟨hb, hp⟩ := hok a List.mem_cons_self
      refine ih (.step hreach hb ht) ((hd.step hfits hwidth hheight hb ht).1)
        (fun b hmem => hok b (List.mem_cons_of_mem a hmem)) hrun ?_
      exact Set.subset_eq_empty (hstep hd hb hp ht) hagree

end

/-! ## A display -/

/-- A device that executes a command at its next turn. Its state is the resource and the status
register. -/
def copyDevice : GpuDevice (HostResource × ℕ) where
  notify := id
  turn dev q mem :=
    let head := q.availRing (q.usedIdx % q.size)
    let d := q.desc head
    if q.usedIdx = q.availIdx then ⟨dev, mem, q.usedIdx, q.usedRing⟩
    else
      { dev := (dev.1.execute (readBytes mem d.addr d.len) mem, dev.2)
        mem := writeBytes mem (q.desc d.next).addr (ctrlHdr VIRTIO_GPU_RESP_OK_NODATA)
        usedIdx := (q.usedIdx + 1) % 2 ^ 16
        usedRing := Function.update q.usedRing (q.usedIdx % q.size) ⟨head, 24⟩ }

def copyingDevice : CopyingDevice copyDevice where
  res := Prod.fst
  wait _ := 0
  notify _ := rfl
  turn dev q mem hne hlen := by
    refine .inr ⟨ctrlHdr VIRTIO_GPU_RESP_OK_NODATA, ?_⟩
    simp only [copyDevice, if_neg hne]
    exact {
      res_eq := rfl
      mem_eq := rfl
      usedIdx := rfl
      usedElem := (Function.update_self ..).trans (by rw [length_ctrlHdr])
      header := by rw [length_ctrlHdr]
      length_le := by rwa [length_ctrlHdr]
      success := .inl rfl }

/-- The registers of the device, at the address that the device tree has. -/
def copyBoard : GpuBoard (HostResource × ℕ) where
  device := copyDevice
  mmio :=
    { r32 := fun a dev =>
        (if a = 0x10001000 then 0x74726976 else if a = 0x10001004 then 2
          else if a = 0x10001008 then 16 else if a = 0x10001034 then 16
          else if a = 0x10001070 then dev.2 else 0, dev)
      w32 := fun a v dev => if a = 0x10001070 then (dev.1, v) else dev }
  desc := 0
  avail := 0
  used := 0

/-- A board with this display and no other. -/
def copySys : GfxSys (HostResource × ℕ) where
  vgpu :=
    { controlq := blankQueue
      width := 0
      height := 0
      resourceId := 0
      vram := 0x400000
      reqBuf := 0x800000
      rspBuf := 0x800100
      mem := fun _ => 0
      dev := (⟨0, 0, fun _ _ => []⟩, 0) }
  vgpuActive := false
  bd := ⟨0, 0, 0, 0, 0, 0, 0, false⟩
  bdActive := false
  ecam := ⟨0, fun _ => 0xFF⟩
  bochsReg _ := 0

theorem layout_copySys : Layout copySys.vgpu := ⟨rfl, rfl, by norm_num [copySys]⟩

/-- The display is brought up, and a call is made: the surface, and the first pixel of the host and
of the guest before the call and after it. -/
def firstPixels (w h : ℕ) (call : GfxCall) : Option (Bool × Gfx × List (List UInt8)) :=
  (gfxVirtioGpuInit copyBoard ⟨1, []⟩ virtioBlob blankSurface copySys w h).bind fun r =>
    (gfxCall copyDevice ⟨1, []⟩ r.2.1 r.2.2 call).map fun s =>
      (r.1, r.2.1, [hostPixel copyingDevice r.2.2 0 0, guestPixel r.2.1 r.2.2 0 0,
        hostPixel copyingDevice s 0 0, guestPixel r.2.1 s 0 0])

theorem firstPixels_spec {w h : ℕ} {call : GfxCall} {g : Gfx} {pixels : List (List UInt8)}
    (hrun : firstPixels w h call = some (true, g, pixels)) :
    ∃ s₁ s', gfxVirtioGpuInit copyBoard ⟨1, []⟩ virtioBlob blankSurface copySys w h =
        some (true, g, s₁) ∧
      gfxCall copyDevice ⟨1, []⟩ g s₁ call = some s' ∧
      pixels = [hostPixel copyingDevice s₁ 0 0, guestPixel g s₁ 0 0, hostPixel copyingDevice s' 0 0,
        guestPixel g s' 0 0] := by
  obtain ⟨⟨ok, g', s₁⟩, hinit, hrun⟩ := Option.bind_eq_some_iff.1 hrun
  obtain ⟨s', hcall, heq⟩ := Option.map_eq_some_iff.1 hrun
  cases heq
  exact ⟨s₁, s', hinit, hcall, rfl⟩

/-- On a display of 8 by 8 pixels a white pixel is drawn, and shown. -/
theorem display_coherent_white :
    ∃ g s₁ s', gfxVirtioGpuInit copyBoard ⟨1, []⟩ virtioBlob blankSurface copySys 8 8 =
        some (true, g, s₁) ∧
      gfxCall copyDevice ⟨1, []⟩ g s₁ (.rect 0 0 1 1 0xFFFFFF) = some s' ∧
      guestPixel g s' 0 0 = [255, 255, 255, 0] ∧
      hostPixel copyingDevice s' 0 0 = guestPixel g s' 0 0 := by
  have hrun : firstPixels 8 8 (.rect 0 0 1 1 0xFFFFFF) =
      some (true, ⟨0x400000, 8, 8, 8, .virtioGpu, .xrgb8888⟩,
        [[0, 0, 0, 0], [0, 0, 0, 0], [255, 255, 255, 0], [255, 255, 255, 0]]) := by
    decide +kernel
  obtain ⟨s₁, s', hinit, hcall, hpixels⟩ := firstPixels_spec hrun
  simp only [List.cons.injEq] at hpixels
  have hcoherent := (display_coherent copyingDevice layout_copySys (by norm_num) (by norm_num) hinit
    (by norm_num) .init).1 ⟨1, []⟩ (.rect 0 0 1 1 0xFFFFFF) s'
    ⟨by norm_num, by norm_num, by norm_num⟩ trivial hcall
  exact ⟨_, s₁, s', hinit, hcall, hpixels.2.2.2.1.symm,
    hcoherent.1 0 0 (by norm_num) (by norm_num) (.inl (by simp [GfxCall.Draws]))⟩

/-- **A rectangle that is not shown**: in a mode of 131072 by 65536 pixels, which is accepted, a
rectangle of one pixel in row 32768 changes the first pixel of the surface, and the host's first
pixel stays as it was. -/
theorem wrapped_rect_stale :
    ∃ g s₁ s', gfxVirtioGpuInit copyBoard ⟨1, []⟩ virtioBlob blankSurface copySys 131072 65536 =
        some (true, g, s₁) ∧
      (GfxCall.rect 0 32768 1 1 0xFFFFFF).Bounded g ∧
      gfxCall copyDevice ⟨1, []⟩ g s₁ (.rect 0 32768 1 1 0xFFFFFF) = some s' ∧
      hostPixel copyingDevice s₁ 0 0 = guestPixel g s₁ 0 0 ∧
      guestPixel g s' 0 0 ≠ guestPixel g s₁ 0 0 ∧
      hostPixel copyingDevice s' 0 0 ≠ guestPixel g s' 0 0 := by
  have hrun : firstPixels 131072 65536 (.rect 0 32768 1 1 0xFFFFFF) =
      some (true, ⟨0x400000, 131072, 65536, 131072, .virtioGpu, .xrgb8888⟩,
        [[0, 0, 0, 0], [0, 0, 0, 0], [0, 0, 0, 0], [255, 255, 255, 0]]) := by
    decide +kernel
  obtain ⟨s₁, s', hinit, hcall, hpixels⟩ := firstPixels_spec hrun
  simp only [List.cons.injEq, and_true] at hpixels
  obtain ⟨hhost, hguest, hhost', hguest'⟩ := hpixels
  refine ⟨_, s₁, s', hinit, ⟨by norm_num, by norm_num, by norm_num⟩, hcall, ?_, ?_, ?_⟩
  · rw [← hhost, ← hguest]
  · rw [← hguest', ← hguest]
    decide
  · rw [← hhost', ← hguest']
    decide

end RvvmHal.Graphics
