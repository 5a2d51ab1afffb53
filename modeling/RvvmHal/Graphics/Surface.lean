import RvvmHal.Foundations.Raster
import RvvmHal.Pci.Scan
import RvvmHal.Virtio.GpuDriver

/-!
# The drawing surface

`gfx.c` and `bochs.c`: a surface of 32-bit pixels in memory, which is shown in one of three ways. A
simple framebuffer and the Bochs display show the memory itself, the latter one of two halves of it
when it is double-buffered. A virtio display shows a copy, to which `gfx_present` transfers.

A filled rectangle is drawn by rows, and a row by `memset` when the bytes of the pixel are equal, or
else by two pixels at a time. Whichever way it takes, on a surface that fits its memory it paints
the rectangle and nothing else (`filled_eq`, `rectFilled_eq`).
-/

namespace RvvmHal.Graphics

open Bytes Raster Virtio

/-- `gfx_backend_t`. -/
inductive GfxBackend
  | none
  | bochs
  | simplefb
  | virtioGpu
  deriving DecidableEq

/-- `gfx_format_t`. -/
inductive GfxFormat
  | xrgb8888
  | xbgr8888
  deriving DecidableEq

/-- `gfx_t`. -/
structure Gfx where
  vram : ℕ
  width : ℕ
  height : ℕ
  stridePx : ℕ
  backend : GfxBackend
  format : GfxFormat
  deriving DecidableEq

/-- `bochs_t`. -/
structure Bochs where
  vram : ℕ
  vramBase : ℕ
  regs : ℕ
  width : ℕ
  height : ℕ
  stridePx : ℕ
  backOffRows : ℕ
  doubleBuffered : Bool

/-- What the calls work on: the two static instances of `gfx.c`, with the memory and the virtio
device in the first, the PCI bus, and the registers of the Bochs display. -/
structure GfxSys (δ : Type*) where
  vgpu : Gpu δ
  vgpuActive : Bool
  bd : Bochs
  bdActive : Bool
  ecam : Pci.Ecam
  bochsReg : ℕ → ℕ

section

variable {δ : Type*}

/-- The memory. -/
abbrev GfxSys.mem (s : GfxSys δ) : Mem := s.vgpu.mem

/-- The memory is now `mem`. -/
def GfxSys.withMem (s : GfxSys δ) (mem : Mem) : GfxSys δ := { s with vgpu := { s.vgpu with mem := mem } }

end

/-! ## Drawing -/

/-- The colour as a pixel of the surface. -/
def swizzle (g : Gfx) (color : ℕ) : ℕ :=
  if g.format = .xbgr8888 then
    let r := (color >>> 16) &&& 0xFF
    let b := (color >>> 0) &&& 0xFF
    (color &&& 0xFF00FF00) ||| (b <<< 16) ||| r
  else color

/-- `gfx_fill_row` from an aligned pointer on: two pixels at a time, and one that may be left. -/
def fillPairs (mem : Mem) (p w pix : ℕ) : Mem :=
  let pix64 := pix <<< 32 ||| pix
  let pairs := w >>> 1
  let mem := (List.range pairs).foldl (fun m i => writeBytes m (p + 8 * i) (leBytes 8 pix64)) mem
  if w &&& 1 ≠ 0 then writeBytes mem (p + 8 * pairs) (leBytes 4 pix) else mem

/-- `gfx_fill_row`. -/
def gfxFillRow (mem : Mem) (p w pix : ℕ) : Mem :=
  let b0 := pix % 256
  if (pix >>> 8) &&& 0xFF = b0 ∧ (pix >>> 16) &&& 0xFF = b0 ∧ (pix >>> 24) &&& 0xFF = b0 then
    writeBytes mem p (List.replicate (w * 4) (UInt8.ofNat b0))
  else if p &&& 7 ≠ 0 ∧ w ≠ 0 then
    fillPairs (writeBytes mem p (leBytes 4 pix)) (p + 4) (w - 1) pix
  else fillPairs mem p w pix

/-- The loop over `h` rows of `gfx_fill` and `gfx_rect`. -/
def fillRows (stride w pix : ℕ) : ℕ → Mem → ℕ → Mem
  | 0, mem, _ => mem
  | h + 1, mem, p => fillRows stride w pix h (gfxFillRow mem p w pix) (p + 4 * stride)

/-- The memory after `gfx_fill`. -/
def filled (g : Gfx) (mem : Mem) (color : ℕ) : Mem :=
  let pix := swizzle g color
  if g.stridePx = g.width then gfxFillRow mem g.vram (g.width * g.height % 2 ^ 32) pix
  else fillRows g.stridePx g.width pix g.height mem g.vram

/-- The memory after `gfx_rect`. -/
def rectFilled (g : Gfx) (mem : Mem) (x y w h color : ℕ) : Mem :=
  fillRows g.stridePx w (swizzle g color) h mem (g.vram + 4 * ((y * g.stridePx + x) % 2 ^ 32))

section

variable {δ : Type*} (device : GpuDevice δ) (env : GpuEnv) (g : Gfx) (s : GfxSys δ)

/-- `gfx_present`. -/
def gfxPresent (x y w h : ℕ) : Option (GfxSys δ) :=
  if g.backend ≠ .virtioGpu ∨ s.vgpuActive = false then some s
  else (virtioGpuPresent device env s.vgpu x y w h).map fun (_, vg) => { s with vgpu := vg }

/-- `gfx_fill`. -/
def gfxFill (color : ℕ) : Option (GfxSys δ) :=
  if g.backend = .none then some s
  else gfxPresent device env g (s.withMem (filled g s.mem color)) 0 0 g.width g.height

/-- `gfx_rect`. -/
def gfxRect (x y w h color : ℕ) : Option (GfxSys δ) :=
  if g.backend = .none then some s
  else if x ≥ g.width ∨ y ≥ g.height then some s
  else
    let w := clip g.width x w
    let h := clip g.height y h
    gfxPresent device env g (s.withMem (rectFilled g s.mem x y w h color)) x y w h

end

/-! ## Double buffering -/

abbrev RVVM_BOCHS_VRAM_SIZE : ℕ := 0x01000000

/-- `w16`, a write to a register of the Bochs display. -/
def w16 (reg : ℕ → ℕ) (off v : ℕ) : ℕ → ℕ := Function.update reg off (v % 2 ^ 16)

section

variable {δ : Type*} (device : GpuDevice δ) (env : GpuEnv)

/-- `bochs_enable_double_buffer`. -/
def bochsEnableDoubleBuffer (s : GfxSys δ) : Bool × GfxSys δ :=
  let bd := s.bd
  if bd.doubleBuffered then (true, s)
  else
    let perFrameBytes := bd.stridePx * bd.height * 4 % 2 ^ 64
    if perFrameBytes * 2 % 2 ^ 64 > RVVM_BOCHS_VRAM_SIZE then (false, s)
    else
      (true, { s with
        bochsReg := w16 (w16 s.bochsReg 0x050E (bd.height * 2)) 0x0512 0
        bd := { bd with
          backOffRows := bd.height
          vram := bd.vramBase + 4 * (bd.stridePx * bd.height)
          doubleBuffered := true } })

/-- `bochs_flip`. -/
def bochsFlip (s : GfxSys δ) : GfxSys δ :=
  let bd := s.bd
  if bd.doubleBuffered = false then s
  else
    let backOffRows := if bd.backOffRows ≠ 0 then 0 else bd.height
    { s with
      bochsReg := w16 s.bochsReg 0x0512 bd.backOffRows
      bd := { bd with
        backOffRows := backOffRows
        vram := bd.vramBase + 4 * (bd.stridePx * backOffRows) } }

/-- `gfx_enable_double_buffer`. -/
def gfxEnableDoubleBuffer (g : Gfx) (s : GfxSys δ) : Bool × Gfx × GfxSys δ :=
  match g.backend with
  | .bochs =>
    if s.bdActive = false then (false, g, s)
    else
      let (ok, s) := bochsEnableDoubleBuffer s
      if ok then (true, { g with vram := s.bd.vram }, s) else (false, g, s)
  | .virtioGpu => (true, g, s)
  | _ => (false, g, s)

/-- `gfx_flip`. -/
def gfxFlip (g : Gfx) (s : GfxSys δ) : Option (Gfx × GfxSys δ) :=
  match g.backend with
  | .bochs =>
    if s.bdActive ∧ s.bd.doubleBuffered then
      let s := bochsFlip s
      some ({ g with vram := s.bd.vram }, s)
    else some (g, s)
  | .virtioGpu =>
    if s.vgpuActive then
      (virtioGpuPresent device env s.vgpu 0 0 g.width g.height).map fun (_, vg) =>
        (g, { s with vgpu := vg })
    else some (g, s)
  | _ => some (g, s)

end

/-! ## What filling does -/

theorem leBytes_uniform {pix : ℕ}
    (h : (pix >>> 8) &&& 0xFF = pix % 256 ∧ (pix >>> 16) &&& 0xFF = pix % 256 ∧
      (pix >>> 24) &&& 0xFF = pix % 256) :
    leBytes 4 pix = List.replicate 4 (UInt8.ofNat (pix % 256)) := by
  obtain ⟨h₁, h₂, h₃⟩ := h
  have hand : ∀ k, (pix >>> k) &&& 0xFF = pix / 2 ^ k % 256 := fun k => by
    rw [Word.shiftRight_eq]
    exact Word.and_low_mask _ 8
  have hbyte : ∀ v, UInt8.ofNat (v % 256) = UInt8.ofNat v := fun v => by
    rw [← UInt8.toNat_inj, toNat_ofNat_uint8, toNat_ofNat_uint8, Nat.mod_mod]
  rw [hand] at h₁ h₂ h₃
  simp only [leBytes, List.replicate, Nat.div_div_eq_div_mul]
  rw [hbyte, ← hbyte (pix / 256), ← hbyte (pix / (256 * 256)), ← hbyte (pix / (256 * 256 * 256))]
  norm_num at h₁ h₂ h₃ ⊢
  rw [h₁, h₂, h₃, hbyte]
  exact ⟨rfl, rfl, rfl⟩

/-- Two equal pixels in a word of 64 bits. -/
theorem leBytes_pair {pix : ℕ} (hpix : pix < 2 ^ 32) :
    leBytes 8 (pix <<< 32 ||| pix) = leBytes 4 pix ++ leBytes 4 pix := by
  have hdiv : (pix + pix * 2 ^ 32) / 256 ^ 4 = pix := by omega
  have hmod : (pix + pix * 2 ^ 32) % 256 ^ 4 = pix := by omega
  rw [Nat.or_comm, Word.or_shiftLeft hpix, leBytes_add 4 4, hdiv, ← leBytes_mod 4, hmod]

/-- The pairs paint the row. -/
theorem fillPairs_eq {pix : ℕ} (hpix : pix < 2 ^ 32) (mem : Mem) (p w : ℕ) :
    fillPairs mem p w pix = paint 4 p (Set.Iio w) (fun _ => leBytes 4 pix) mem := by
  have hlen : (leBytes 4 pix).length = 4 := length_leBytes 4 pix
  have hpair : ∀ i ∈ List.range (w >>> 1), ∀ m : Mem,
      writeBytes m (p + 8 * i) (leBytes 8 (pix <<< 32 ||| pix)) =
        paint 4 p {2 * i, 2 * i + 1} (fun _ => leBytes 4 pix) m := by
    intro i _ m
    have hpos : p + 8 * i = p + 4 * (2 * i) := by omega
    have hnext : p + 4 * (2 * i) + (leBytes 4 pix).length = p + 4 * (2 * i + 1) := by omega
    rw [leBytes_pair hpix, ← writeBytes_append, hpos, hnext, writeBytes_eq_paint (by omega) hlen,
      writeBytes_eq_paint (by omega) hlen, paint_paint, Set.singleton_union]
  have hhalf : w >>> 1 = w / 2 := Word.shiftRight_eq w 1
  have hodd : w &&& 1 = w % 2 := Word.and_low_mask w 1
  unfold fillPairs
  dsimp only
  rw [foldl_paint _ hpair, hhalf, hodd]
  split
  · have hpos : p + 8 * (w / 2) = p + 4 * (2 * (w / 2)) := by omega
    rw [hpos, writeBytes_eq_paint (by omega) hlen, paint_paint]
    congr 1
    ext i
    simp only [Set.mem_union, Set.mem_ofPred_eq, List.mem_range, Set.mem_insert_iff,
      Set.mem_singleton_iff, Set.mem_Iio]
    constructor
    · rintro (⟨b, hb, h⟩ | h) <;> omega
    · intro h
      by_cases hi : i < 2 * (w / 2)
      · exact .inl ⟨i / 2, by omega, by omega⟩
      · exact .inr (by omega)
  · congr 1
    ext i
    simp only [Set.mem_ofPred_eq, List.mem_range, Set.mem_insert_iff, Set.mem_singleton_iff,
      Set.mem_Iio]
    constructor
    · rintro ⟨b, hb, h⟩
      omega
    · intro h
      exact ⟨i / 2, by omega, by omega⟩

/-- **A row is painted**, whichever way `gfx_fill_row` takes. -/
theorem gfxFillRow_eq {pix : ℕ} (hpix : pix < 2 ^ 32) (mem : Mem) (p w : ℕ) :
    gfxFillRow mem p w pix = paint 4 p (Set.Iio w) (fun _ => leBytes 4 pix) mem := by
  have hlen : (leBytes 4 pix).length = 4 := length_leBytes 4 pix
  unfold gfxFillRow
  dsimp only
  split
  next hbytes =>
    rw [← List.flatten_replicate_replicate, ← leBytes_uniform hbytes]
    exact writeBytes_replicate (by omega) hlen w
  next =>
    split
    next hodd =>
      -- one pixel to the next multiple of eight, and the rest behind it
      rw [fillPairs_eq hpix, show p + 4 = p + 4 * 1 from rfl, paint_shift (by omega)]
      rw [show writeBytes mem p (leBytes 4 pix) = writeBytes mem (p + 4 * 0) (leBytes 4 pix) from rfl,
        writeBytes_eq_paint (by omega) hlen, paint_paint]
      congr 1
      ext i
      simp only [Set.mem_union, Set.mem_singleton_iff, Set.mem_ofPred_eq, Set.mem_Iio]
      omega
    next => exact fillPairs_eq hpix mem p w

/-- **The loop over the rows** paints them, also when they are longer than those of the surface. -/
theorem fillRows_rows {pix stride x w : ℕ} (hpix : pix < 2 ^ 32) (mem : Mem) (base y h : ℕ) :
    fillRows stride w pix h mem (base + 4 * pos stride x y) =
      paint 4 base (rows stride x y w h) (fun _ => leBytes 4 pix) mem := by
  induction h generalizing mem y with
  | zero => rw [fillRows, rows_zero, paint_empty]
  | succ h ih =>
    have hnext : base + 4 * pos stride x y + 4 * stride = base + 4 * pos stride x (y + 1) := by
      rw [pos_add]
      omega
    rw [fillRows, hnext, ih, gfxFillRow_eq hpix, paint_shift (by omega), paint_paint, rows_succ]
    congr 2
    ext i
    simp only [Set.mem_ofPred_eq, Set.mem_Iio, Set.mem_Ico]
    omega

/-- **The rows of a rectangle** paint the rectangle. -/
theorem fillRows_eq {pix stride x w : ℕ} (hpix : pix < 2 ^ 32) (hw : x + w ≤ stride) (mem : Mem)
    (base y h : ℕ) :
    fillRows stride w pix h mem (base + 4 * pos stride x y) =
      paint 4 base (rect stride x y w h) (fun _ => leBytes 4 pix) mem := by
  rw [fillRows_rows hpix, rows_eq_rect hw]

/-- The surface fits a memory of so many bytes. -/
structure Fits (g : Gfx) (bytes : ℕ) : Prop where
  width_le : g.width ≤ g.stridePx
  size_le : g.stridePx * g.height * 4 ≤ bytes

theorem swizzle_lt (g : Gfx) {color : ℕ} (h : color < 2 ^ 32) : swizzle g color < 2 ^ 32 := by
  unfold swizzle
  split
  · have hlow : ∀ v : ℕ, v &&& 0xFF < 2 ^ 8 := fun v => by
      rw [show 0xFF = 2 ^ 8 - 1 from rfl, Word.and_low_mask]
      exact Nat.mod_lt _ (by omega)
    have hb := hlow (color >>> 0)
    have hr := hlow (color >>> 16)
    refine Nat.or_lt_two_pow (Nat.or_lt_two_pow (Nat.and_lt_two_pow _ (by omega)) ?_) (by omega)
    rw [Nat.shiftLeft_eq]
    omega
  · exact h

/-- **`gfx_fill`** paints the surface when the number of its pixels does not wrap. -/
theorem filled_eq_of_lt {g : Gfx} {color : ℕ} (hwidth : g.width ≤ g.stridePx)
    (hsize : g.stridePx * g.height < 2 ^ 32) (hcolor : color < 2 ^ 32) (mem : Mem) :
    filled g mem color =
      paint 4 g.vram (rect g.stridePx 0 0 g.width g.height)
        (fun _ => leBytes 4 (swizzle g color)) mem := by
  have hpix := swizzle_lt g hcolor
  have hrows := fillRows_eq hpix (Nat.le_trans (Nat.le_of_eq (Nat.zero_add _)) hwidth) mem g.vram 0
    g.height
  rw [show g.vram + 4 * pos g.stridePx 0 0 = g.vram by rw [pos, Nat.zero_mul]; rfl] at hrows
  unfold filled
  dsimp only
  split
  next heq =>
    -- one run of pixels, which is all rows after each other
    rw [heq] at hsize
    rw [Nat.mod_eq_of_lt hsize, gfxFillRow_eq hpix, heq]
    congr 1
    ext i
    simp only [rect, Set.mem_Iio, Set.mem_ofPred_eq, Nat.zero_le, Nat.zero_add, true_and]
    constructor
    · intro hi
      have hpos : 0 < g.width := Nat.pos_of_ne_zero fun hzero => by simp [hzero] at hi
      exact ⟨Nat.mod_lt _ hpos, Nat.div_lt_of_lt_mul hi⟩
    · rintro ⟨hx, hy⟩
      have hlt := pos_lt hx hy
      rwa [pos, Nat.div_add_mod'] at hlt
  next => exact hrows

theorem clip_le {limit x w : ℕ} (hx : x < limit) (hw : x + w < 2 ^ 32) :
    x + clip limit x w ≤ limit := by
  unfold clip
  rw [Nat.mod_eq_of_lt hw]
  split <;> omega

theorem clip_le_self (limit : ℕ) {x w : ℕ} (hw : x + w < 2 ^ 32) : clip limit x w ≤ w := by
  unfold clip
  rw [Nat.mod_eq_of_lt hw]
  split <;> omega

/-- Clipping takes nothing away that is visible. -/
theorem lt_add_clip {limit a n i : ℕ} (hi : i < limit) : i < a + clip limit a n ↔ i < a + n := by
  have hmod := Nat.mod_le (a + n) (2 ^ 32)
  unfold clip
  split <;> omega

namespace Fits

variable {g : Gfx} {bytes x y w h color : ℕ}

/-- Every visible pixel is inside the memory. -/
theorem pixel (hf : Fits g bytes) (hx : x < g.width) (hy : y < g.height) :
    4 * pos g.stridePx x y + 4 ≤ bytes := by
  have hlt := pos_lt (Nat.lt_of_lt_of_le hx hf.width_le) hy
  have hle := hf.size_le
  omega

/-- **`gfx_fill`** paints the surface. -/
theorem filled_eq (hf : Fits g bytes) (hbytes : bytes ≤ 2 ^ 32) (hcolor : color < 2 ^ 32)
    (mem : Mem) :
    filled g mem color =
      paint 4 g.vram (rect g.stridePx 0 0 g.width g.height)
        (fun _ => leBytes 4 (swizzle g color)) mem := by
  have hle := hf.size_le
  exact filled_eq_of_lt hf.width_le (by omega) hcolor mem

/-- **`gfx_rect`** paints its clipped rectangle. -/
theorem rectFilled_eq (hf : Fits g bytes) (hbytes : bytes ≤ 2 ^ 32) (hcolor : color < 2 ^ 32)
    (hx : x < g.width) (hy : y < g.height) (hw : x + w ≤ g.width) (mem : Mem) :
    rectFilled g mem x y w h color =
      paint 4 g.vram (rect g.stridePx x y w h) (fun _ => leBytes 4 (swizzle g color)) mem := by
  have hlt := hf.pixel hx hy
  unfold rectFilled
  rw [← pos, Nat.mod_eq_of_lt (by omega)]
  exact fillRows_eq (swizzle_lt g hcolor) (Nat.le_trans hw hf.width_le) mem g.vram y h

end Fits

end RvvmHal.Graphics
