import RvvmHal.DeviceTree.Walk
import RvvmHal.Graphics.Surface

/-!
# Finding a display

`gfx_init_fdt` tries a Bochs display on the PCI bus, a simple framebuffer in the device tree and a
virtio display, in this order. Each of the three makes a surface of a memory of its own: 16 MiB
behind a base address register, the memory that the device tree gives the framebuffer, and the
driver's `vram`.

Does the surface fit this memory? The Bochs path does not look, the simple framebuffer is checked
for the width of its rows in 32 bits and not for their number, and the size of the virtio display is
compared as a product in 32 bits. So it does exactly when the mode is small enough
(`framebuffer_fits`).
-/

namespace RvvmHal.Graphics

open Bytes CString DeviceTree Virtio

/-! ## The Bochs display -/

abbrev RVVM_PCI_ID_BOCHS_DISPLAY : ℕ := 0x11111234

section

variable {δ : Type*}

/-- `bochs_init` after the id register: the writes that set the mode. -/
def bochsSetMode (s : GfxSys δ) (w h : ℕ) : GfxSys δ :=
  { s with bochsReg :=
      [(0x0508, 0), (0x0502, w), (0x0504, h), (0x0506, 32), (0x050C, w), (0x050E, h), (0x0510, 0),
        (0x0512, 0), (0x0508, 0x01)].foldl (fun reg a => w16 reg a.1 a.2) s.bochsReg }

/-- `bochs_init`. -/
def bochsInit (depth : ℕ) (s : GfxSys δ) (w h : ℕ) : Option (Bool × GfxSys δ) :=
  (Pci.pciFindDevice s.ecam depth RVVM_PCI_ID_BOCHS_DISPLAY).map fun
    | none => (false, s)
    | some pf =>
      let (pf, ecam) := Pci.pciSetupBars s.ecam pf
      let s := { s with ecam := ecam }
      if pf.bar 0 = 0 ∨ pf.bar 2 = 0 then (false, s)
      else
        let s := { s with bd := ⟨pf.bar 0, pf.bar 0, pf.bar 2, w, h, w, 0, false⟩ }
        if s.bochsReg 0x0500 &&& 0xFFF0 ≠ 0xB0C0 then (false, s) else (true, bochsSetMode s w h)

/-- `gfx_bochs_init`. -/
def gfxBochsInit (depth : ℕ) (g : Gfx) (s : GfxSys δ) (w h : ℕ) : Option (Bool × Gfx × GfxSys δ) :=
  (Pci.pciFindDevice s.ecam depth RVVM_PCI_ID_BOCHS_DISPLAY).bind fun
    | none => some (false, g, s)
    | some _ =>
      (bochsInit depth s w h).map fun
        | (false, s) => (false, g, s)
        | (true, s) =>
          (true, ⟨s.bd.vram, s.bd.width, s.bd.height, s.bd.stridePx, .bochs, .xrgb8888⟩,
            { s with bdActive := true })

end

/-! ## The simple framebuffer -/

section

variable (fdt : Fdt)

/-- The property of a node, as a pointer. -/
def propData (off : ℕ) (name : String) : Option (Option Mem) :=
  (fdtNodeProp fdt off (cstr name)).map fun p =>
    p.map fun (q : ℕ × ℕ) => fun i => fdt.structBlob (q.1 + i)

/-- The properties of a framebuffer node. -/
structure SimplefbNode where
  addr : ℕ
  size : ℕ
  width : ℕ
  height : ℕ
  stride : ℕ
  format : Mem

/-- `gfx_simplefb_from_fdt` as far as it reads the device tree. -/
def simplefbNode : Option (Option SimplefbNode) :=
  (fdtFindCompatible fdt (cstr "simple-framebuffer")).bind fun off =>
    if off = uint32Max then some none
    else
      (fdtNodeReg64 fdt off 0).bind fun
        | none => some none
        | some (addr, size) =>
          (propData fdt off "width").bind fun w =>
          (propData fdt off "height").bind fun h =>
          (propData fdt off "stride").bind fun stride =>
          (propData fdt off "format").map fun fmt =>
            match w, h, stride, fmt with
            | some w, some h, some stride, some fmt =>
              some ⟨addr, size, fdtReadBe32 w 0, fdtReadBe32 h 0, fdtReadBe32 stride 0, fmt⟩
            | _, _, _, _ => none

/-- The format of the pixels, by its name. -/
def simplefbFormat (fmt : Mem) : Option GfxFormat :=
  if strEq fmt 0 (cstr "a8r8g8b8") then some .xrgb8888
  else if strEq fmt 0 (cstr "a8b8g8r8") then some .xbgr8888
  else none

/-- `gfx_simplefb_from_fdt` with the properties of the node. -/
def simplefbSurface (g : Gfx) (node : SimplefbNode) : Bool × Gfx :=
  if node.stride < node.width * 4 % 2 ^ 32 ∨ node.stride &&& 3 ≠ 0 then (false, g)
  else
    match simplefbFormat node.format with
    | none => (false, g)
    | some format =>
      (true, ⟨node.addr, node.width, node.height, node.stride / 4, .simplefb, format⟩)

/-- `gfx_simplefb_from_fdt`. -/
def gfxSimplefbFromFdt (g : Gfx) : Option (Bool × Gfx) :=
  (simplefbNode fdt).map fun
    | none => (false, g)
    | some node => simplefbSurface g node

end

/-! ## The three in order -/

section

variable {δ : Type*} (board : GpuBoard δ) (env : GpuEnv) (depth : ℕ) (fdt : Fdt)

/-- `gfx_virtio_gpu_init`. -/
def gfxVirtioGpuInit (g : Gfx) (s : GfxSys δ) (w h : ℕ) : Option (Bool × Gfx × GfxSys δ) :=
  (virtioGpuInitFdt board env fdt s.vgpu w h).map fun
    | (false, vg) => (false, g, { s with vgpu := vg })
    | (true, vg) =>
      (true, ⟨vg.vram, vg.width, vg.height, vg.width, .virtioGpu, .xrgb8888⟩,
        { s with vgpu := vg, vgpuActive := true })

/-- `gfx_init_fdt`. -/
def gfxInitFdt (g : Gfx) (s : GfxSys δ) (wantW wantH : ℕ) : Option (Bool × Gfx × GfxSys δ) :=
  let g := { g with backend := .none }
  (gfxBochsInit depth g s wantW wantH).bind fun
    | (true, g, s) => some (true, g, s)
    | (false, g, s) =>
      (gfxSimplefbFromFdt fdt g).bind fun
        | (true, g) => some (true, g, s)
        | (false, g) => gfxVirtioGpuInit board env fdt g s wantW wantH

/-! ## What is found -/

/-- The first of the three displays that is there. -/
def displayFound (g : Gfx) (s : GfxSys δ) (wantW wantH : ℕ) : GfxBackend :=
  let g := { g with backend := .none }
  if (gfxBochsInit depth g s wantW wantH).any (·.1) then .bochs
  else if (gfxSimplefbFromFdt fdt g).any (·.1) then .simplefb
  else .virtioGpu

/-- The response to the request for the display info. -/
def displayInfo (vg : Gpu δ) : Option (List UInt8) :=
  (bringUpGpu board env fdt vg).bind fun (ok, vg) =>
    if ok then (getDisplayInfo board.device env vg).bind (·.2.1) else none

/-- The size of the memory behind the surface of a display. -/
def surfaceBytes : GfxBackend → ℕ
  | .none => 0
  | .bochs => RVVM_BOCHS_VRAM_SIZE
  | .simplefb => ((simplefbNode fdt).getD none).elim 0 SimplefbNode.size
  | .virtioGpu => VIRTIO_GPU_VRAM_BYTES

/-- The mode that a display is to show is small enough. -/
def ModeFits (vg : Gpu δ) (wantW wantH : ℕ) : GfxBackend → Prop
  | .none => False
  | .bochs => wantW * wantH * 4 ≤ RVVM_BOCHS_VRAM_SIZE
  | .simplefb => ∀ node, simplefbNode fdt = some (some node) →
      node.width < 2 ^ 30 ∧ node.stride * node.height ≤ node.size
  | .virtioGpu => ∀ info, displayInfo board env fdt vg = some info →
      (clampMode info wantW wantH).1 * (clampMode info wantW wantH).2 * 4 < 2 ^ 32

variable {board env depth fdt} {g g' : Gfx} {s s' : GfxSys δ} {w h : ℕ}

/-- The probe of the PCI bus leaves the virtio device alone, and fails without a change to the
surface. -/
theorem gfxBochsInit_cases {ok : Bool} (hrun : gfxBochsInit depth g s w h = some (ok, g', s')) :
    s'.vgpu = s.vgpu ∧ if ok then
      g'.width = w ∧ g'.height = h ∧ g'.stridePx = w else g' = g := by
  obtain ⟨pf, hpf, hrun⟩ := Option.bind_eq_some_iff.1 hrun
  cases pf with
  | none =>
    cases hrun
    exact ⟨rfl, rfl⟩
  | some pf =>
    obtain ⟨⟨ok₁, s₁⟩, hinit, hrun⟩ := Option.map_eq_some_iff.1 hrun
    rw [bochsInit, hpf, Option.map_some, Option.some.injEq] at hinit
    dsimp only at hinit
    split at hinit
    · cases hinit
      cases hrun
      exact ⟨rfl, rfl⟩
    · split at hinit
      · cases hinit
        cases hrun
        exact ⟨rfl, rfl⟩
      · rw [Prod.mk.injEq] at hinit
        obtain ⟨rfl, rfl⟩ := hinit
        cases hrun
        exact ⟨rfl, rfl, rfl, rfl⟩

theorem fdtReadBe32_simplefbNode {node : SimplefbNode} (h : simplefbNode fdt = some (some node)) :
    node.stride < 2 ^ 32 := by
  obtain ⟨off, -, h⟩ := Option.bind_eq_some_iff.1 h
  split at h
  · cases h
  · obtain ⟨reg, -, h⟩ := Option.bind_eq_some_iff.1 h
    cases reg with
    | none => cases h
    | some reg =>
      obtain ⟨w, -, h⟩ := Option.bind_eq_some_iff.1 h
      obtain ⟨hh, -, h⟩ := Option.bind_eq_some_iff.1 h
      obtain ⟨stride, -, h⟩ := Option.bind_eq_some_iff.1 h
      obtain ⟨fmt, -, h⟩ := Option.map_eq_some_iff.1 h
      split at h
      · cases h
        exact fdtReadBe32_lt _ _
      · cases h

/-- A simple framebuffer that is accepted fits the memory of its node exactly when its rows are
shorter than `2 ^ 30` pixels and all of them are in the memory. -/
theorem fits_simplefbSurface {node : SimplefbNode} (hstride : node.stride < 2 ^ 32)
    (hacc : simplefbSurface g node = (true, g')) :
    Fits g' node.size ↔ node.width < 2 ^ 30 ∧ node.stride * node.height ≤ node.size := by
  unfold simplefbSurface at hacc
  split at hacc
  · cases hacc
  next hcheck =>
    rw [not_or, not_not, show 3 = 2 ^ 2 - 1 from rfl, Word.and_low_mask] at hcheck
    split at hacc
    · cases hacc
    · cases hacc
      have hmul : node.stride / 4 * node.height * 4 = node.stride * node.height := by
        have hdvd : 4 ∣ node.stride := Nat.dvd_of_mod_eq_zero hcheck.2
        rw [Nat.mul_right_comm, Nat.div_mul_cancel hdvd]
      constructor
      · rintro ⟨hwidth, hsize⟩
        dsimp only at hwidth hsize
        exact ⟨by omega, by rwa [hmul] at hsize⟩
      · rintro ⟨hwidth, hsize⟩
        refine ⟨?_, ?_⟩
        · dsimp only
          omega
        · dsimp only
          rwa [hmul]

/-- What a virtio display that was found went through. -/
theorem gfxVirtioGpuInit_true
    (hrun : gfxVirtioGpuInit board env fdt g s w h = some (true, g', s')) :
    ∃ vg₁ vg, bringUpGpu board env fdt s.vgpu = some (true, vg₁) ∧
      setUpDisplay board.device env vg₁ w h = some (true, vg) ∧
      g' = ⟨vg.vram, vg.width, vg.height, vg.width, .virtioGpu, .xrgb8888⟩ ∧
      s' = { s with vgpu := vg, vgpuActive := true } := by
  obtain ⟨⟨ok, vg⟩, hinit, hrun⟩ := Option.map_eq_some_iff.1 hrun
  cases ok with
  | false => cases hrun
  | true =>
    obtain ⟨⟨up, vg₁⟩, hup, hinit⟩ := Option.bind_eq_some_iff.1 hinit
    cases up with
    | false => cases hinit
    | true =>
      cases hrun
      exact ⟨vg₁, vg, hup, hinit, rfl, rfl⟩

/-- A virtio display fits the driver's memory exactly when the product in the size check does not
wrap. -/
theorem fits_gfxVirtioGpuInit (hrun : gfxVirtioGpuInit board env fdt g s w h = some (true, g', s')) :
    Fits g' VIRTIO_GPU_VRAM_BYTES ↔ ∀ info, displayInfo board env fdt s.vgpu = some info →
      (clampMode info w h).1 * (clampMode info w h).2 * 4 < 2 ^ 32 := by
  obtain ⟨vg₁, vg, hup, hinit, rfl, rfl⟩ := gfxVirtioGpuInit_true hrun
  obtain ⟨⟨ok₂, rsp, vg₂⟩, hquery, hmode⟩ := Option.bind_eq_some_iff.1 hinit
  have hinfo : displayInfo board env fdt s.vgpu = rsp := by
    rw [displayInfo, hup, Option.bind_some]
    exact congrArg (Option.bind · _) hquery
  cases rsp with
  | none =>
    cases ok₂ with
    | true => cases hmode
    | false => cases hmode
  | some info =>
    cases ok₂ with
    | false => cases hmode
    | true =>
      obtain ⟨hcheck, hwidth, hheight⟩ := setMode_spec (w := (clampMode info w h).1)
        (h := (clampMode info w h).2) hmode
      rw [hinfo]
      simp only [Option.some.injEq, forall_eq']
      generalize (clampMode info w h).1 = w' at *
      generalize (clampMode info w h).2 = h' at *
      simp only [VIRTIO_GPU_VRAM_BYTES] at hcheck ⊢
      constructor
      · rintro ⟨-, hsize⟩
        dsimp only at hsize
        rw [hwidth, hheight] at hsize
        omega
      · intro hlt
        rw [Nat.mod_eq_of_lt hlt] at hcheck
        refine ⟨Nat.le_refl _, ?_⟩
        dsimp only
        rwa [hwidth, hheight]

/-- **The surface fits its memory** exactly when the mode is small enough: what `gfx_init_fdt`
accepts has all its pixels in the memory behind `vram` if and only if the requested size fits the
memory of the Bochs display, or the rows of the simple framebuffer are shorter than `2 ^ 30` pixels
and all in its memory, or the product in the size check of the virtio display does not wrap. -/
theorem framebuffer_fits
    (hrun : gfxInitFdt board env depth fdt g s w h = some (true, g', s')) :
    Fits g' (surfaceBytes fdt (displayFound depth fdt g s w h)) ↔
      ModeFits board env fdt s.vgpu w h (displayFound depth fdt g s w h) := by
  obtain ⟨⟨ok₁, g₁, s₁⟩, hbochs, hrun⟩ := Option.bind_eq_some_iff.1 hrun
  obtain ⟨hvgpu, hcase⟩ := gfxBochsInit_cases hbochs
  cases ok₁ with
  | true =>
    have hfound : displayFound depth fdt g s w h = .bochs := by
      rw [displayFound, hbochs]
      rfl
    cases hrun
    obtain ⟨hwidth, hheight, hstride⟩ := hcase
    rw [hfound]
    constructor
    · rintro ⟨-, hsize⟩
      rwa [hheight, hstride] at hsize
    · intro hsize
      refine ⟨by rw [hwidth, hstride], ?_⟩
      rwa [hheight, hstride]
  | false =>
    obtain rfl : g₁ = _ := hcase
    obtain ⟨⟨ok₂, g₂⟩, hsimple, hrun⟩ := Option.bind_eq_some_iff.1 hrun
    cases ok₂ with
    | true =>
      have hfound : displayFound depth fdt g s w h = .simplefb := by
        rw [displayFound, hbochs, hsimple]
        rfl
      cases hrun
      obtain ⟨node, hnode, hsurface⟩ := Option.map_eq_some_iff.1 hsimple
      cases node with
      | none => cases hsurface
      | some node =>
        rw [hfound]
        simp only [surfaceBytes, ModeFits, hnode, Option.getD_some, Option.elim_some,
          Option.some.injEq, forall_eq']
        exact fits_simplefbSurface (fdtReadBe32_simplefbNode hnode) hsurface
    | false =>
      have hfound : displayFound depth fdt g s w h = .virtioGpu := by
        rw [displayFound, hbochs, hsimple]
        rfl
      have hfits := fits_gfxVirtioGpuInit hrun
      rw [hvgpu] at hfits
      rw [hfound]
      exact hfits

end

/-- Configuration space with a Bochs display in its first slot and nothing else. -/
def bochsEcam : Pci.Ecam where
  base := 0x30000000
  mem a := [0x34, 0x12, 0x11, 0x11, 7, 0, 0, 0, 0, 0, 0, 0, 0, 0, 0, 0, 0, 0, 0, 0x40, 0, 0, 0, 0,
    0, 0, 0, 0x41, 0, 0, 0, 0].getD (a - 0x30000000) 0xFF

/-- A board with this display. -/
def bochsSys : GfxSys Unit where
  vgpu := blankGpu
  vgpuActive := false
  bd := ⟨0, 0, 0, 0, 0, 0, 0, false⟩
  bdActive := false
  ecam := bochsEcam
  bochsReg := Function.update (fun _ => 0) 0x0500 0xB0C5

def blankSurface : Gfx := ⟨0, 0, 0, 0, .none, .xrgb8888⟩

def blankBoard : GpuBoard Unit := ⟨okDevice, ⟨fun _ dev => (0, dev), fun _ _ dev => dev⟩, 0, 0, 0⟩

theorem zero_lt_word : 0 < 2 ^ 32 := Nat.two_pow_pos 32

/-- A device tree without nodes. -/
def blankFdt : Fdt := ⟨fun _ => 0, fun _ => 0, 0, zero_lt_word⟩

/-- The surface that the Bochs display gets. -/
def bochsSurface (w h : ℕ) : Gfx := ⟨0x40000000, w, h, w, .bochs, .xrgb8888⟩

theorem bochs_accepts (w h : ℕ) (hw : w = 640 ∧ h = 400 ∨ w = 4096 ∧ h = 4096) :
    (∃ s', gfxInitFdt blankBoard ⟨0, []⟩ 1 blankFdt blankSurface bochsSys w h =
      some (true, bochsSurface w h, s')) ∧
    displayFound 1 blankFdt blankSurface bochsSys w h = .bochs := by
  have hrun : (gfxInitFdt blankBoard ⟨0, []⟩ 1 blankFdt blankSurface bochsSys w h).map
      (fun r => (r.1, r.2.1)) = some (true, bochsSurface w h) ∧
      displayFound 1 blankFdt blankSurface bochsSys w h = .bochs := by
    rcases hw with ⟨rfl, rfl⟩ | ⟨rfl, rfl⟩
    · decide +kernel
    · decide +kernel
  refine ⟨?_, hrun.2⟩
  obtain ⟨⟨ok, g, s'⟩, hsome, heq⟩ := Option.map_eq_some_iff.1 hrun.1
  cases heq
  exact ⟨s', hsome⟩

/-- A small mode fits. -/
theorem framebuffer_fits_bochs :
    ∃ s', gfxInitFdt blankBoard ⟨0, []⟩ 1 blankFdt blankSurface bochsSys 640 400 =
        some (true, bochsSurface 640 400, s') ∧
      Fits (bochsSurface 640 400) RVVM_BOCHS_VRAM_SIZE := by
  obtain ⟨⟨s', hrun⟩, hfound⟩ := bochs_accepts 640 400 (.inl ⟨rfl, rfl⟩)
  have hiff := framebuffer_fits hrun
  rw [hfound] at hiff
  exact ⟨s', hrun, hiff.2 (by simp only [ModeFits, RVVM_BOCHS_VRAM_SIZE]; omega)⟩

/-- **A mode that does not fit is accepted**: four times the memory that the display has. -/
theorem bochs_overflows :
    ∃ s', gfxInitFdt blankBoard ⟨0, []⟩ 1 blankFdt blankSurface bochsSys 4096 4096 =
        some (true, bochsSurface 4096 4096, s') ∧
      ¬ Fits (bochsSurface 4096 4096)
        (surfaceBytes blankFdt (displayFound 1 blankFdt blankSurface bochsSys 4096 4096)) := by
  obtain ⟨⟨s', hrun⟩, hfound⟩ := bochs_accepts 4096 4096 (.inr ⟨rfl, rfl⟩)
  refine ⟨s', hrun, fun hfits => ?_⟩
  have hsize := hfits.size_le
  rw [hfound] at hsize
  simp only [bochsSurface, surfaceBytes, RVVM_BOCHS_VRAM_SIZE] at hsize
  omega

end RvvmHal.Graphics
