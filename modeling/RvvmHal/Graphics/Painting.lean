import RvvmHal.Graphics.Display

/-!
# What fills and rectangles paint

`gfx_fill` has five ways to store a row, and two to go from row to row. All of them do what
`gfx_pixel` does at every visible pixel (`gfx_fill_pixels`).

`gfx_rect`, `bochs_rect` and `virtio_gpu_present` clip a rectangle to the surface by the same test,
`x + w > width`, in 32 bits. The sum wraps for rectangles that end beyond the last 32-bit column or
row, and then the width or height stays as it was. For all other rectangles the three do what
clipping is meant to do, and for those none does (`rect_clipping_iff`).
-/

namespace RvvmHal.Graphics

open Bytes Raster Virtio

section

variable {δ : Type*} {device : GpuDevice δ} {env : GpuEnv} {g : Gfx} {s : GfxSys δ} {color : ℕ}

/-! ## Fills -/

/-- Plotting pixels is painting them. -/
theorem foldl_gfxPixel (hwidth : g.width ≤ g.stridePx) (hsize : g.stridePx * g.height < 2 ^ 32)
    {l : List (ℕ × ℕ)} (hl : ∀ p ∈ l, p.1 < g.width ∧ p.2 < g.height) :
    l.foldl (fun s p => gfxPixel g s p.1 p.2 color) s =
      s.withMem (paint 4 g.vram {i | ∃ p ∈ l, i ∈ ({pos g.stridePx p.1 p.2} : Set ℕ)}
        (fun _ => leBytes 4 (swizzle g color)) s.mem) := by
  have hmem : ∀ (l : List (ℕ × ℕ)) (s : GfxSys δ),
      l.foldl (fun s p => gfxPixel g s p.1 p.2 color) s = s.withMem (l.foldl (fun m p =>
        writeBytes m (g.vram + 4 * ((p.2 * g.stridePx + p.1) % 2 ^ 32))
          (leBytes 4 (swizzle g color))) s.mem) := by
    intro l
    induction l with
    | nil => intro s; rfl
    | cons p l ih =>
      intro s
      rw [List.foldl_cons, List.foldl_cons, ih]
      rfl
  rw [hmem, foldl_paint]
  intro p hp m
  have hlt := pos_lt (Nat.lt_of_lt_of_le (hl p hp).1 hwidth) (hl p hp).2
  rw [← pos, Nat.mod_eq_of_lt (by omega)]
  exact writeBytes_eq_paint (by omega) (length_leBytes ..) _

/-- **Fills are pixel by pixel**: whichever way `gfx_fill` takes, the memory is as after `gfx_pixel`
at every visible pixel, in any order, before the surface is presented. No other byte changes, and
every row is so many copies of the pixel. -/
theorem gfx_fill_pixels (hbackend : g.backend ≠ .none) (hwidth : g.width ≤ g.stridePx)
    (hsize : g.stridePx * g.height < 2 ^ 32) (hcolor : color < 2 ^ 32) {l : List (ℕ × ℕ)}
    (hl : ∀ x y, (x, y) ∈ l ↔ x < g.width ∧ y < g.height) :
    gfxFill device env g s color =
      gfxPresent device env g (l.foldl (fun s p => gfxPixel g s p.1 p.2 color) s) 0 0 g.width
        g.height ∧
    filled g s.mem color = (l.foldl (fun s p => gfxPixel g s p.1 p.2 color) s).mem ∧
    (∀ a, (∀ x y, x < g.width → y < g.height →
        a < g.vram + 4 * pos g.stridePx x y ∨ g.vram + 4 * pos g.stridePx x y + 4 ≤ a) →
      filled g s.mem color a = s.mem a) ∧
    ∀ mem p w, gfxFillRow mem p w (swizzle g color) =
      writeBytes mem p (List.replicate w (leBytes 4 (swizzle g color))).flatten := by
  have hset : {i | ∃ p ∈ l, i ∈ ({pos g.stridePx p.1 p.2} : Set ℕ)} =
      rect g.stridePx 0 0 g.width g.height := by
    ext i
    simp only [Set.mem_singleton_iff, Set.mem_ofPred_eq]
    constructor
    · rintro ⟨⟨x, y⟩, hp, rfl⟩
      obtain ⟨hx, hy⟩ := (hl x y).1 hp
      rw [pos_mem_rect (Nat.lt_of_lt_of_le hx hwidth)]
      omega
    · rintro ⟨⟨-, hx⟩, -, hy⟩
      refine ⟨(i % g.stridePx, i / g.stridePx), (hl _ _).2 (by omega), ?_⟩
      rw [pos, Nat.div_add_mod']
  have hpixels : l.foldl (fun s p => gfxPixel g s p.1 p.2 color) s =
      s.withMem (filled g s.mem color) := by
    rw [foldl_gfxPixel hwidth hsize fun p hp => (hl p.1 p.2).1 hp, hset,
      filled_eq_of_lt hwidth hsize hcolor]
  refine ⟨?_, ?_, fun a ha => ?_, fun mem p w => ?_⟩
  · rw [hpixels, gfxFill, if_neg hbackend]
  · rw [hpixels]
    rfl
  · rw [filled_eq_of_lt hwidth hsize hcolor]
    apply paint_of_apart (by omega)
    rintro i ⟨⟨-, hx⟩, -, hy⟩
    have := ha _ _ (by omega : i % g.stridePx < g.width) (by omega : i / g.stridePx < g.height)
    rwa [pos, Nat.div_add_mod'] at this
  · rw [gfxFillRow_eq (swizzle_lt g hcolor), writeBytes_replicate (by omega) (length_leBytes ..)]

/-- A surface of two by two pixels with a column of padding. -/
def paddedSurface : Gfx := ⟨0x1000, 2, 2, 3, .simplefb, .xbgr8888⟩

/-- It is filled as by four calls of `gfx_pixel`. -/
theorem gfx_fill_pixels_padded :
    gfxFill blankBoard.device ⟨0, []⟩ paddedSurface bochsSys 0x112233 =
      gfxPresent blankBoard.device ⟨0, []⟩ paddedSurface
        ([(0, 0), (1, 0), (0, 1), (1, 1)].foldl
          (fun s p => gfxPixel paddedSurface s p.1 p.2 0x112233) bochsSys) 0 0 2 2 := by
  refine (gfx_fill_pixels (by decide) (by decide) (by decide) (by decide) ?_).1
  intro x y
  simp only [List.mem_cons, Prod.mk.injEq, List.not_mem_nil, or_false, paddedSurface]
  omega

end

/-! ## Rectangles -/

/-- The memory after `gfx_rect` has drawn. -/
def gfxRectMem (g : Gfx) (mem : Mem) (x y w h color : ℕ) : Mem :=
  if g.backend = .none ∨ x ≥ g.width ∨ y ≥ g.height then mem
  else rectFilled g mem x y (clip g.width x w) (clip g.height y h) color

/-- `bochs_rect`. -/
def bochsRect (bd : Bochs) (mem : Mem) (x y w h color : ℕ) : Mem :=
  if x ≥ bd.width ∨ y ≥ bd.height then mem
  else
    let w := clip bd.width x w
    let h := clip bd.height y h
    (List.range h).foldl (fun mem row =>
      let p := bd.vram + 4 * (((y + row) * bd.stridePx + x) % 2 ^ 32)
      (List.range w).foldl (fun mem col => writeBytes mem (p + 4 * col) (leBytes 4 color)) mem) mem

/-- The rectangle that `virtio_gpu_present` sends, if any, on a display of the given size. -/
def presentRect (width height x y w h : ℕ) : Option (ℕ × ℕ × ℕ × ℕ) :=
  if x ≥ width ∨ y ≥ height then none
  else
    let w := clip width x w
    let h := clip height y h
    if w = 0 ∨ h = 0 then none else some (x, y, w, h)

/-! ### What is meant -/

/-- A pixel of a rectangle that is on the surface. -/
def InClip (width height x y w h X Y : ℕ) : Prop :=
  (x ≤ X ∧ X < min (x + w) width) ∧ y ≤ Y ∧ Y < min (y + h) height

/-- The pixels of the rectangle that are on the surface have the value `pix`, and no other byte has
changed. -/
structure RectDrawn (vram stride width height x y w h pix : ℕ) (m m' : Mem) : Prop where
  drawn : ∀ X Y, InClip width height x y w h X Y →
    cell 4 m' vram (pos stride X Y) = leBytes 4 pix
  kept : ∀ a, (∀ X Y, InClip width height x y w h X Y →
    a < vram + 4 * pos stride X Y ∨ vram + 4 * pos stride X Y + 4 ≤ a) → m' a = m a

/-- The part of a rectangle that is on the surface, if any. -/
def clippedRect (width height x y w h : ℕ) : Option (ℕ × ℕ × ℕ × ℕ) :=
  if min (x + w) width ≤ x ∨ min (y + h) height ≤ y then none
  else some (x, y, min (x + w) width - x, min (y + h) height - y)

/-- The rectangle has no pixel on the surface, or ends in 32 bits. -/
def RectFits (width height x y w h : ℕ) : Prop :=
  x ≥ width ∨ y ≥ height ∨ w = 0 ∨ h = 0 ∨ (x + w < 2 ^ 32 ∧ y + h < 2 ^ 32)

/-! ### Painting and clipping -/

section

variable {vram stride width height x y w h i : ℕ}

/-- The positions of the pixels. -/
def clipSet (stride width height x y w h : ℕ) : Set ℕ :=
  {i | ∃ X Y, InClip width height x y w h X Y ∧ i = pos stride X Y}

/-- **What is painted is right** for every memory exactly if its positions are. -/
theorem rectDrawn_iff (pix : ℕ → ℕ) (draw : Mem → ℕ → Mem) {S : Set ℕ}
    (hdraw : ∀ mem color, color < 2 ^ 32 →
      draw mem color = paint 4 vram S (fun _ => leBytes 4 (pix color)) mem) :
    (∀ mem color, color < 2 ^ 32 →
      RectDrawn vram stride width height x y w h (pix color) mem (draw mem color)) ↔
      S = clipSet stride width height x y w h := by
  constructor
  · intro hall
    -- a memory that differs from the pixel everywhere
    have hne : (leBytes 4 (pix 0)).getD 0 0 ≠ (leBytes 4 (pix 0)).getD 0 0 + 1 := by
      intro heq
      simp at heq
    generalize (leBytes 4 (pix 0)).getD 0 0 + 1 = b at hne
    have hright := hall (fun _ => b) 0 (Nat.two_pow_pos 32)
    rw [hdraw _ _ (Nat.two_pow_pos 32)] at hright
    ext i
    constructor
    · intro hi
      by_contra hout
      have hkept := hright.kept (vram + 4 * i) fun X Y hXY => ?_
      · rw [paint_of_mem (by omega) (by rwa [Nat.add_sub_cancel_left, Nat.mul_div_cancel_left _
          (by omega)]), Nat.add_sub_cancel_left, Nat.mul_mod_right] at hkept
        exact hne hkept
      · have hX : i ≠ pos stride X Y := fun heq => hout ⟨X, Y, hXY, heq⟩
        omega
    · rintro ⟨X, Y, hXY, rfl⟩
      by_contra hout
      have hdrawn := hright.drawn X Y hXY
      rw [cell_paint_of_not_mem hout] at hdrawn
      apply hne
      rw [← hdrawn, getElem_cell (by omega)]
  · rintro rfl mem color hcolor
    rw [hdraw mem color hcolor]
    constructor
    · intro X Y hXY
      exact cell_paint_of_mem ⟨X, Y, hXY, rfl⟩ (length_leBytes ..)
    · intro a ha
      apply paint_of_apart (by omega)
      rintro i ⟨X, Y, hXY, rfl⟩
      exact ha X Y hXY

/-- A rectangle off the surface has no positions. -/
theorem clipSet_eq_empty (hout : x ≥ width ∨ y ≥ height) :
    clipSet stride width height x y w h = ∅ := by
  ext i
  simp only [clipSet, InClip, Set.mem_ofPred_eq, Set.mem_empty_iff_false, iff_false]
  rintro ⟨X, Y, ⟨hX, hY⟩, -⟩
  omega

/-- The rows of a rectangle, clipped without wrap. -/
theorem rows_eq_clipSet (hx : x < width) (hy : y < height) :
    rows stride x y (min (x + w) width - x) (min (y + h) height - y) =
      clipSet stride width height x y w h := by
  ext i
  simp only [rows, clipSet, InClip, Set.mem_ofPred_eq]
  constructor
  · rintro ⟨r, hr, hle, hlt⟩
    refine ⟨x + (i - pos stride x (y + r)), y + r, by omega, ?_⟩
    unfold pos at hle ⊢
    omega
  · rintro ⟨X, Y, ⟨hX, hY⟩, rfl⟩
    refine ⟨Y - y, by omega, ?_⟩
    rw [Nat.add_sub_cancel' hY.1, pos, pos]
    omega

theorem clip_eq (hx : x < width) (hw : x + w < 2 ^ 32) :
    clip width x w = min (x + w) width - x := by
  unfold clip
  split <;> omega

theorem clip_of_wraps (hx : x < width) (hwidth : width < 2 ^ 32) (hw : w < 2 ^ 32)
    (hwrap : 2 ^ 32 ≤ x + w) : clip width x w = w ∧ 0 < x ∧ width < x + w := by
  unfold clip
  split <;> omega

/-- An empty rectangle is clipped to an empty one. -/
theorem clip_eq_zero (hzero : w = 0 ∨ h = 0) : clip width x w = 0 ∨ clip height y h = 0 := by
  unfold clip
  rcases hzero with rfl | rfl
  · left
    split <;> omega
  · right
    split <;> omega

/-- The positions behind the last column and the last row, and those before the first column. -/
theorem not_mem_clipSet (hstride : width ≤ stride)
    (hi : i < x ∨ width ≤ i % stride ∨ i % stride < x ∨ stride * height ≤ i) :
    i ∉ clipSet stride width height x y w h := by
  rintro ⟨X, Y, ⟨hX, hY⟩, rfl⟩
  have hXs : X < stride := by omega
  have hlt := pos_lt hXs (by omega : Y < height)
  rw [pos_mod hXs] at hi
  have hle : X ≤ pos stride X Y := Nat.le_add_left ..
  omega

/-- The position behind the end of a row, which may be the first of the next row. -/
theorem pos_width_not_mem_clipSet (hstride : width ≤ stride) (hx : 0 < x) :
    pos stride width y ∉ clipSet stride width height x y w h := by
  apply not_mem_clipSet hstride
  by_cases heq : width = stride
  · refine .inr (.inr (.inl ?_))
    rw [pos, heq, ← Nat.succ_mul, Nat.mul_mod_left]
    exact hx
  · refine .inr (.inl ?_)
    rw [pos_mod (by omega)]

/-- **Rows from the clip test** are right exactly when the rectangle fits: for a rectangle that
wraps there is a position behind its first row, or in a row behind the last. -/
theorem rows_eq_clipSet_iff (hstride : width ≤ stride) (hsize : stride * height < 2 ^ 32)
    (hx : x < width) (hy : y < height) (hw : w < 2 ^ 32) (hh : h < 2 ^ 32) {S : Set ℕ}
    (hrow : 0 < clip height y h →
      Set.Ico (pos stride x y) (pos stride x y + clip width x w) ⊆ S)
    (hlast : 0 < clip width x w → height - y < clip height y h →
      (pos stride x height) ∈ S ∨ ∃ i ∈ S, i < x)
    (hnone : clip width x w = 0 ∨ clip height y h = 0 → S = ∅)
    (hfits : x + w < 2 ^ 32 → y + h < 2 ^ 32 → S = rows stride x y (min (x + w) width - x)
      (min (y + h) height - y)) :
    S = clipSet stride width height x y w h ↔ RectFits width height x y w h := by
  obtain ⟨hwidth, hheight⟩ := sides_le hstride hx hy
  constructor
  · rintro rfl
    by_contra hno
    have hpos : 0 < w ∧ 0 < h := by
      unfold RectFits at hno
      omega
    have hch : 0 < clip height y h := Nat.pos_of_ne_zero (clip_pos hy (by omega))
    have hcw : 0 < clip width x w := Nat.pos_of_ne_zero (clip_pos hx (by omega))
    by_cases hxw : x + w < 2 ^ 32
    · have hyh : 2 ^ 32 ≤ y + h := by
        unfold RectFits at hno
        omega
      obtain ⟨hclip, -, hover⟩ := clip_of_wraps hy (by omega) hh hyh
      rcases hlast hcw (by omega) with hmem | ⟨i, hmem, hi⟩
      · refine not_mem_clipSet hstride (.inr (.inr (.inr ?_))) hmem
        rw [pos, Nat.mul_comm]
        omega
      · exact not_mem_clipSet hstride (.inl hi) hmem
    · obtain ⟨hclip, hx0, hover⟩ := clip_of_wraps hx (by omega) hw (Nat.not_lt.1 hxw)
      apply pos_width_not_mem_clipSet hstride hx0
      apply hrow hch
      rw [pos, pos, Set.mem_Ico]
      omega
  · intro hfit
    by_cases hzero : w = 0 ∨ h = 0
    · rw [hnone (clip_eq_zero hzero)]
      ext i
      simp only [clipSet, InClip, Set.mem_ofPred_eq, Set.mem_empty_iff_false, false_iff]
      rintro ⟨X, Y, ⟨hX, hY⟩, -⟩
      omega
    · have hboth : x + w < 2 ^ 32 ∧ y + h < 2 ^ 32 := by
        unfold RectFits at hfit
        omega
      rw [hfits hboth.1 hboth.2, rows_eq_clipSet hx hy]

end

/-! ### The three clippings -/

section

variable {x y w h : ℕ}

/-- What `gfx_rect` paints. -/
theorem gfxRectMem_eq {g : Gfx} (hbackend : g.backend ≠ .none) (hwidth : g.width ≤ g.stridePx)
    (hsize : g.stridePx * g.height < 2 ^ 32) (mem : Mem) {color : ℕ} (hcolor : color < 2 ^ 32) :
    gfxRectMem g mem x y w h color = paint 4 g.vram
      (if x ≥ g.width ∨ y ≥ g.height then ∅
        else rows g.stridePx x y (clip g.width x w) (clip g.height y h))
      (fun _ => leBytes 4 (swizzle g color)) mem := by
  unfold gfxRectMem
  by_cases hout : x ≥ g.width ∨ y ≥ g.height
  · rw [if_pos (.inr hout), if_pos hout, paint_empty]
  · rw [if_neg (not_or.2 ⟨hbackend, hout⟩), if_neg hout]
    rw [not_or, Nat.not_le, Nat.not_le] at hout
    have hlt := pos_lt (Nat.lt_of_lt_of_le hout.1 hwidth) hout.2
    rw [rectFilled, ← pos, Nat.mod_eq_of_lt (by omega)]
    exact fillRows_rows (swizzle_lt g hcolor) mem g.vram y _

/-- `gfx_rect` is drawing and presenting. -/
theorem gfxRect_eq {δ : Type*} (device : GpuDevice δ) (env : GpuEnv) (g : Gfx) (s : GfxSys δ)
    (x y w h color : ℕ) : gfxRect device env g s x y w h color =
      if g.backend = .none ∨ x ≥ g.width ∨ y ≥ g.height then some s
      else gfxPresent device env g (s.withMem (gfxRectMem g s.mem x y w h color)) x y
        (clip g.width x w) (clip g.height y h) := by
  unfold gfxRect gfxRectMem
  by_cases hbackend : g.backend = .none
  · rw [if_pos hbackend, if_pos (.inl hbackend)]
  · rw [if_neg hbackend]
    by_cases hout : x ≥ g.width ∨ y ≥ g.height
    · rw [if_pos hout, if_pos (.inr hout)]
    · have hboth : ¬ (g.backend = .none ∨ x ≥ g.width ∨ y ≥ g.height) := not_or.2 ⟨hbackend, hout⟩
      rw [if_neg hout, if_neg hboth, if_neg hboth]

/-- The position at which `bochs_rect` begins a row. -/
def bochsPos (bd : Bochs) (x y row : ℕ) : ℕ := ((y + row) * bd.stridePx + x) % 2 ^ 32

/-- What `bochs_rect` paints. -/
theorem bochsRect_eq (bd : Bochs) (mem : Mem) (x y w h color : ℕ) :
    bochsRect bd mem x y w h color = paint 4 bd.vram
      (if x ≥ bd.width ∨ y ≥ bd.height then ∅
        else {i | ∃ r < clip bd.height y h, bochsPos bd x y r ≤ i ∧
          i < bochsPos bd x y r + clip bd.width x w})
      (fun _ => leBytes 4 color) mem := by
  unfold bochsRect
  by_cases hout : x ≥ bd.width ∨ y ≥ bd.height
  · rw [if_pos hout, if_pos hout, paint_empty]
  · rw [if_neg hout, if_neg hout]
    dsimp only
    have hrow : ∀ row ∈ List.range (clip bd.height y h), ∀ m : Mem,
        (List.range (clip bd.width x w)).foldl (fun mem col =>
          writeBytes mem (bd.vram + 4 * (((y + row) * bd.stridePx + x) % 2 ^ 32) + 4 * col)
            (leBytes 4 color)) m =
          paint 4 bd.vram {i | ∃ col ∈ List.range (clip bd.width x w),
            i ∈ ({bochsPos bd x y row + col} : Set ℕ)} (fun _ => leBytes 4 color) m := by
      intro row _ m
      apply foldl_paint
      intro col _ m
      rw [Nat.add_assoc, ← Nat.mul_add]
      exact writeBytes_eq_paint (by omega) (length_leBytes ..) _
    rw [foldl_paint _ hrow]
    congr 1
    ext i
    simp only [Set.mem_ofPred_eq, Set.mem_singleton_iff, List.mem_range]
    constructor
    · rintro ⟨r, hr, col, hcol, rfl⟩
      exact ⟨r, hr, by omega, by omega⟩
    · rintro ⟨r, hr, hle, hlt⟩
      exact ⟨r, hr, i - bochsPos bd x y r, by omega, by omega⟩

/-- **`gfx_rect`** clips right exactly the rectangles that fit. -/
theorem gfxRectMem_iff {g : Gfx} (hbackend : g.backend ≠ .none) (hwidth : g.width ≤ g.stridePx)
    (hsize : g.stridePx * g.height < 2 ^ 32) (hw : w < 2 ^ 32) (hh : h < 2 ^ 32) :
    (∀ mem color, color < 2 ^ 32 → RectDrawn g.vram g.stridePx g.width g.height x y w h
      (swizzle g color) mem (gfxRectMem g mem x y w h color)) ↔
      RectFits g.width g.height x y w h := by
  refine (rectDrawn_iff (swizzle g) (fun mem color => gfxRectMem g mem x y w h color)
    fun mem color hcolor => gfxRectMem_eq hbackend hwidth hsize mem hcolor).trans ?_
  by_cases hout : x ≥ g.width ∨ y ≥ g.height
  · rw [if_pos hout, clipSet_eq_empty hout]
    exact iff_of_true rfl (hout.elim .inl fun hy => .inr (.inl hy))
  rw [if_neg hout]
  rw [not_or, Nat.not_le, Nat.not_le] at hout
  apply rows_eq_clipSet_iff hwidth hsize hout.1 hout.2 hw hh
  · intro hpos i hi
    exact ⟨0, hpos, hi⟩
  · intro hpos hover
    refine .inl ⟨g.height - y, hover, ?_⟩
    rw [Nat.add_sub_cancel' hout.2.le]
    omega
  · intro hnone
    ext i
    simp only [rows, Set.mem_ofPred_eq, Set.mem_empty_iff_false, iff_false]
    rintro ⟨r, hr, hle, hlt⟩
    omega
  · intro hxw hyh
    rw [clip_eq hout.1 hxw, clip_eq hout.2 hyh]

/-- **`bochs_rect`** clips right exactly the rectangles that fit. -/
theorem bochsRect_iff {bd : Bochs} (hwidth : bd.width ≤ bd.stridePx)
    (hsize : bd.stridePx * bd.height < 2 ^ 32) (hw : w < 2 ^ 32) (hh : h < 2 ^ 32) :
    (∀ mem color, color < 2 ^ 32 → RectDrawn bd.vram bd.stridePx bd.width bd.height x y w h color
      mem (bochsRect bd mem x y w h color)) ↔ RectFits bd.width bd.height x y w h := by
  refine (rectDrawn_iff id (fun mem color => bochsRect bd mem x y w h color)
    fun mem color _ => bochsRect_eq bd mem x y w h color).trans ?_
  by_cases hout : x ≥ bd.width ∨ y ≥ bd.height
  · rw [if_pos hout, clipSet_eq_empty hout]
    exact iff_of_true rfl (hout.elim .inl fun hy => .inr (.inl hy))
  rw [if_neg hout]
  rw [not_or, Nat.not_le, Nat.not_le] at hout
  have hpos : ∀ r, y + r < bd.height → bochsPos bd x y r = pos bd.stridePx x (y + r) := by
    intro r hr
    have hlt := pos_lt (Nat.lt_of_lt_of_le hout.1 hwidth) hr
    exact Nat.mod_eq_of_lt (by rw [← pos]; omega)
  apply rows_eq_clipSet_iff hwidth hsize hout.1 hout.2 hw hh
  · intro hch i hi
    refine ⟨0, hch, ?_⟩
    rw [hpos 0 (by omega)]
    exact hi
  · intro hcw hover
    have hend : bochsPos bd x y (bd.height - y) = pos bd.stridePx x bd.height % 2 ^ 32 := by
      rw [bochsPos, Nat.add_sub_cancel' hout.2.le, pos]
    by_cases hlt : pos bd.stridePx x bd.height < 2 ^ 32
    · refine .inl ⟨bd.height - y, hover, ?_⟩
      rw [hend, Nat.mod_eq_of_lt hlt]
      omega
    · -- the row behind the last wraps to the first
      refine .inr ⟨pos bd.stridePx x bd.height % 2 ^ 32, ⟨bd.height - y, hover, ?_⟩, ?_⟩
      · rw [hend]
        omega
      · rw [pos, Nat.mul_comm] at hlt ⊢
        omega
  · intro hnone
    ext i
    simp only [Set.mem_ofPred_eq, Set.mem_empty_iff_false, iff_false]
    rintro ⟨r, hr, hle, hlt⟩
    omega
  · intro hxw hyh
    rw [clip_eq hout.1 hxw, clip_eq hout.2 hyh]
    ext i
    simp only [rows, Set.mem_ofPred_eq]
    apply exists_congr
    intro r
    apply and_congr_right
    intro hr
    rw [hpos r (by omega)]

/-- **`virtio_gpu_present`** sends its rectangle, when it has set a mode. -/
theorem virtioGpuPresent_eq {δ : Type*} (device : GpuDevice δ) (env : GpuEnv) {vg : Gpu δ}
    (hid : vg.resourceId ≠ 0) (x y w h : ℕ) : virtioGpuPresent device env vg x y w h =
      match presentRect vg.width vg.height x y w h with
      | none => some (true, vg)
      | some (x, y, w, h) => gpuCmds device env.polls
          [transferToHost2d x y w h ((y * vg.width + x) % 2 ^ 32 * 4) vg.resourceId,
            resourceFlush x y w h vg.resourceId] env.stack vg := by
  unfold virtioGpuPresent presentRect
  rw [if_neg hid]
  by_cases hout : x ≥ vg.width ∨ y ≥ vg.height
  · rw [if_pos hout, if_pos hout]
  · rw [if_neg hout, if_neg hout]
    dsimp only
    by_cases hempty : clip vg.width x w = 0 ∨ clip vg.height y h = 0
    · rw [if_pos hempty, if_pos hempty]
    · rw [if_neg hempty, if_neg hempty]

/-- It clips right exactly the rectangles that fit. -/
theorem presentRect_iff {width height : ℕ} (hwidth : width < 2 ^ 32) (hheight : height < 2 ^ 32)
    (hw : w < 2 ^ 32) (hh : h < 2 ^ 32) :
    presentRect width height x y w h = clippedRect width height x y w h ↔
      RectFits width height x y w h := by
  unfold presentRect clippedRect
  by_cases hout : x ≥ width ∨ y ≥ height
  · rw [if_pos hout, if_pos (by omega)]
    exact iff_of_true rfl (hout.elim .inl fun hy => .inr (.inl hy))
  rw [if_neg hout]
  rw [not_or, Nat.not_le, Nat.not_le] at hout
  dsimp only
  by_cases hzero : w = 0 ∨ h = 0
  · rw [if_pos (clip_eq_zero hzero), if_pos (by omega)]
    exact iff_of_true rfl (.inr (.inr (hzero.elim .inl fun hh => .inr (.inl hh))))
  rw [not_or] at hzero
  have hempty : ¬ (clip width x w = 0 ∨ clip height y h = 0) :=
    not_or.2 ⟨clip_pos hout.1 hzero.1, clip_pos hout.2 hzero.2⟩
  rw [if_neg hempty, if_neg (by omega)]
  simp only [Option.some.injEq, Prod.mk.injEq, true_and]
  constructor
  · rintro ⟨hcw, hch⟩
    by_contra hno
    unfold RectFits at hno
    by_cases hxw : x + w < 2 ^ 32
    · obtain ⟨hclip, -, hover⟩ := clip_of_wraps hout.2 hheight hh (by omega)
      omega
    · obtain ⟨hclip, -, hover⟩ := clip_of_wraps hout.1 hwidth hw (by omega)
      omega
  · intro hfit
    have hboth : x + w < 2 ^ 32 ∧ y + h < 2 ^ 32 := by
      unfold RectFits at hfit
      omega
    exact ⟨clip_eq hout.1 hboth.1, clip_eq hout.2 hboth.2⟩

/-- **Clipping** is right for exactly the rectangles that have no pixel on the surface, or end in 32
bits: `gfx_rect` draws the part on the surface before it presents, `bochs_rect` does, and
`virtio_gpu_present` sends it. -/
theorem rect_clipping_iff {δ : Type*} (device : GpuDevice δ) (env : GpuEnv) {x y w h : ℕ}
    (hw : w < 2 ^ 32) (hh : h < 2 ^ 32) :
    (∀ (g : Gfx) (s : GfxSys δ), g.backend ≠ .none → g.width ≤ g.stridePx →
      g.stridePx * g.height < 2 ^ 32 →
      (∀ color, gfxRect device env g s x y w h color =
        if g.backend = .none ∨ x ≥ g.width ∨ y ≥ g.height then some s
        else gfxPresent device env g (s.withMem (gfxRectMem g s.mem x y w h color)) x y
          (clip g.width x w) (clip g.height y h)) ∧
      ((∀ mem color, color < 2 ^ 32 → RectDrawn g.vram g.stridePx g.width g.height x y w h
        (swizzle g color) mem (gfxRectMem g mem x y w h color)) ↔
        RectFits g.width g.height x y w h)) ∧
    (∀ bd : Bochs, bd.width ≤ bd.stridePx → bd.stridePx * bd.height < 2 ^ 32 →
      ((∀ mem color, color < 2 ^ 32 → RectDrawn bd.vram bd.stridePx bd.width bd.height x y w h color
        mem (bochsRect bd mem x y w h color)) ↔ RectFits bd.width bd.height x y w h)) ∧
    ∀ vg : Gpu δ, vg.resourceId ≠ 0 → vg.width < 2 ^ 32 → vg.height < 2 ^ 32 →
      (virtioGpuPresent device env vg x y w h =
        match presentRect vg.width vg.height x y w h with
        | none => some (true, vg)
        | some (x, y, w, h) => gpuCmds device env.polls
            [transferToHost2d x y w h ((y * vg.width + x) % 2 ^ 32 * 4) vg.resourceId,
              resourceFlush x y w h vg.resourceId] env.stack vg) ∧
      (presentRect vg.width vg.height x y w h = clippedRect vg.width vg.height x y w h ↔
        RectFits vg.width vg.height x y w h) := by
  refine ⟨fun g s hbackend hwidth hsize => ⟨?_, ?_⟩, fun bd hwidth hsize => ?_,
    fun vg hid hwidth hheight => ⟨?_, ?_⟩⟩
  · exact gfxRect_eq device env g s x y w h
  · exact gfxRectMem_iff hbackend hwidth hsize hw hh
  · exact bochsRect_iff hwidth hsize hw hh
  · exact virtioGpuPresent_eq device env hid x y w h
  · exact presentRect_iff hwidth hheight hw hh

/-- A surface of four by two pixels. -/
def tinySurface : Gfx := ⟨0x1000, 4, 2, 4, .simplefb, .xrgb8888⟩

/-- A rectangle that is wider than it is drawn to the edge. -/
theorem rect_clipping_iff_tiny : RectDrawn 0x1000 4 4 2 1 0 9 1 0xFFFFFF (fun _ => 0)
    (gfxRectMem tinySurface (fun _ => 0) 1 0 9 1 0xFFFFFF) := by
  have hiff := ((rect_clipping_iff (x := 1) (y := 0) (w := 9) (h := 1) blankBoard.device ⟨0, []⟩
    (by norm_num) (by norm_num)).1 tinySurface bochsSys (by decide) (by decide) (by decide)).2
  exact hiff.2 (.inr (.inr (.inr (.inr ⟨by norm_num, by norm_num⟩)))) _ 0xFFFFFF (by norm_num)

/-- **A rectangle that wraps**: with the largest width, from column 1 on, the first pixel of the
next row is drawn, which is not in the rectangle, and a virtio display is sent the whole width. -/
theorem rect_clipping_wraps :
    ¬ InClip 4 2 1 0 (2 ^ 32 - 1) 1 0 1 ∧
    cell 4 (gfxRectMem tinySurface (fun _ => 0) 1 0 (2 ^ 32 - 1) 1 0xFFFFFF) 0x1000 (pos 4 0 1) =
      [255, 255, 255, 0] ∧
    ¬ RectDrawn 0x1000 4 4 2 1 0 (2 ^ 32 - 1) 1 0xFFFFFF (fun _ => 0)
      (gfxRectMem tinySurface (fun _ => 0) 1 0 (2 ^ 32 - 1) 1 0xFFFFFF) ∧
    presentRect 4 2 1 0 (2 ^ 32 - 1) 1 = some (1, 0, 2 ^ 32 - 1, 1) := by
  have hout : ¬ InClip 4 2 1 0 (2 ^ 32 - 1) 1 0 1 := fun h => absurd h.1.1 (by decide)
  have hcell : cell 4 (gfxRectMem tinySurface (fun _ => 0) 1 0 (2 ^ 32 - 1) 1 0xFFFFFF) 0x1000
      (pos 4 0 1) = [255, 255, 255, 0] := by
    have hmem : pos 4 0 1 ∈ rows tinySurface.stridePx 1 0 (clip tinySurface.width 1 (2 ^ 32 - 1))
        (clip tinySurface.height 0 1) := ⟨0, by decide, by decide, by decide⟩
    change cell 4 _ tinySurface.vram _ = _
    rw [gfxRectMem_eq (by decide) (by decide) (by decide) _ (by decide), if_neg (by decide),
      cell_paint_of_mem (F := fun _ => leBytes 4 (swizzle tinySurface 0xFFFFFF)) hmem
        (length_leBytes ..)]
    decide
  refine ⟨hout, hcell, fun hdrawn => ?_, by decide⟩
  have hkept := hdrawn.kept (0x1000 + 4 * pos 4 0 1) fun X Y hXY => ?_
  · have hbyte := congrArg (fun l => l.getD 0 0) hcell
    rw [getElem_cell (by decide), Nat.add_zero, hkept] at hbyte
    exact absurd hbyte (by decide)
  · obtain ⟨⟨hX, hX'⟩, hY, hY'⟩ := hXY
    unfold pos
    omega

end

end RvvmHal.Graphics
