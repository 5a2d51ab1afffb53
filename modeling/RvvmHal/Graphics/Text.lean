import RvvmHal.Foundations.Loop
import RvvmHal.Graphics.Surface

/-!
# Text

`gfx_text.c`: a grid of characters, which `gfx_text_render` draws into the memory of a surface,
glyph by glyph. It draws nothing but the visible part of the grid, and there the pixels of the
characters (`gfxTextRender_eq`). What the display shows of it is another matter: nothing here calls
`gfx_present` or `gfx_flip`.
-/

namespace RvvmHal.Graphics

open Bytes Raster Virtio

/-- `gfx_text_t`, with the arrays that it points to. -/
structure GfxText where
  cols : ℕ
  rows : ℕ
  cellH : ℕ
  scale : ℕ
  font : ℕ → UInt8
  chars : ℕ → UInt8
  attrs : Option (ℕ → UInt8)
  fg : ℕ
  bg : ℕ
  attrDecode : Option (UInt8 → ℕ × ℕ → ℕ × ℕ)

/-! ## Drawing glyphs -/

/-- A row of pixels in `gfx_blit_glyph`. -/
def blitRow (mem : Mem) (row scale drawW rowBits fg bg : ℕ) : Mem :=
  (List.range 8).foldl (fun mem gx =>
    let color := if rowBits &&& (0x80 >>> gx) ≠ 0 then fg else bg
    ((List.range scale).takeWhile fun sx => (gx * scale + sx) % 2 ^ 32 < drawW).foldl (fun mem sx =>
      writeBytes mem (row + 4 * ((gx * scale + sx) % 2 ^ 32)) (leBytes 4 color)) mem) mem

/-- `gfx_blit_glyph`. -/
def gfxBlitGlyph (g : Gfx) (mem : Mem) (font : ℕ → UInt8) (cellH : ℕ) (charCode : UInt8)
    (xPx yPx scale fgColor bgColor : ℕ) : Mem :=
  if g.backend = .none then mem
  else
    let scale := if scale = 0 then 1 else scale
    let glyphW := 8 * scale % 2 ^ 32
    let glyphH := cellH * scale % 2 ^ 32
    if xPx ≥ g.width ∨ yPx ≥ g.height then mem
    else
      let drawW := clip g.width xPx glyphW
      let drawH := clip g.height yPx glyphH
      let fg := swizzle g fgColor
      let bg := swizzle g bgColor
      let glyph := charCode.toNat * cellH % 2 ^ 32
      (List.range cellH).foldl (fun mem gy =>
        let rowBits := (font (glyph + gy)).toNat
        -- the loop over the rows of one row of the glyph ends at the last row that is drawn
        ((List.range scale).takeWhile fun sy =>
          (yPx + gy * scale + sy) % 2 ^ 32 < (yPx + drawH) % 2 ^ 32).foldl (fun mem sy =>
            let py := (yPx + gy * scale + sy) % 2 ^ 32
            blitRow mem (g.vram + 4 * ((py * g.stridePx + xPx) % 2 ^ 32)) scale drawW rowBits fg bg)
          mem) mem

/-! ## The grid -/

/-- `gfx_text_clear`. -/
def gfxTextClear (t : GfxText) (attrDefault : UInt8) : GfxText :=
  let n := t.cols * t.rows % 2 ^ 32
  { t with
    chars := fun i => if i < n then 0x20 else t.chars i
    attrs := t.attrs.map fun attrs i => if i < n then attrDefault else attrs i }

/-- The loop of `gfx_text_puts`. -/
def putsFrom (attr : UInt8) : List UInt8 → GfxText → (col off : ℕ) → GfxText
  | [], t, _, _ => t
  | c :: s, t, col, off =>
    if col < t.cols then
      putsFrom attr s
        { t with
          chars := Function.update t.chars off c
          attrs := t.attrs.map fun attrs => Function.update attrs off attr }
        ((col + 1) % 2 ^ 32) ((off + 1) % 2 ^ 32)
    else t

/-- `gfx_text_puts` of the characters before the NUL. -/
def gfxTextPuts (t : GfxText) (col row : ℕ) (s : List UInt8) (attr : UInt8) : GfxText :=
  if row ≥ t.rows then t else putsFrom attr s t col ((row * t.cols + col) % 2 ^ 32)

namespace GfxText

/-- The scale at which the text is drawn. -/
def drawScale (t : GfxText) : ℕ := if t.scale = 0 then 1 else t.scale

/-- The colours of a cell with this attribute. -/
def colors (t : GfxText) (attr : Option UInt8) : ℕ × ℕ :=
  match attr, t.attrDecode with
  | some attr, some decode => decode attr (t.fg, t.bg)
  | _, _ => (t.fg, t.bg)

end GfxText

/-- `gfx_text_render`. -/
def gfxTextRender (t : GfxText) (g : Gfx) (mem : Mem) (xOff yOff : ℕ) : Mem :=
  if g.backend = .none then mem
  else
    let scale := t.drawScale
    let glyphW := 8 * scale % 2 ^ 32
    let glyphH := t.cellH * scale % 2 ^ 32
    (List.range t.rows).foldl (fun mem row =>
      let py := (yOff + row * glyphH) % 2 ^ 32
      (List.range t.cols).foldl (fun mem col =>
        let off := (row * t.cols + col) % 2 ^ 32
        let (fg, bg) := t.colors (t.attrs.map fun attrs => attrs off)
        let px := (xOff + col * glyphW) % 2 ^ 32
        gfxBlitGlyph g mem t.font t.cellH (t.chars off) px py scale fg bg) mem) mem

/-! ## The picture of a text -/

/-- Is the pixel at column `X` and row `Y` of the cell one of the glyph? -/
def InGlyph (font : ℕ → UInt8) (cellH scale : ℕ) (ch : UInt8) (X Y : ℕ) : Prop :=
  (font (ch.toNat * cellH + Y / scale)).toNat &&& (0x80 >>> (X / scale)) ≠ 0

instance (font : ℕ → UInt8) (cellH scale : ℕ) (ch : UInt8) (X Y : ℕ) :
    Decidable (InGlyph font cellH scale ch X Y) :=
  inferInstanceAs (Decidable (_ ≠ _))

namespace GfxText

/-- The width of a cell in pixels. -/
def cellWidth (t : GfxText) : ℕ := 8 * t.drawScale

/-- The height of a cell in pixels. -/
def cellHeight (t : GfxText) : ℕ := t.cellH * t.drawScale

/-- The colour at column `X` and row `Y` of a text with these characters and attributes. -/
def picture (t : GfxText) (ch : ℕ → ℕ → UInt8) (attr : ℕ → ℕ → Option UInt8) (X Y : ℕ) : ℕ :=
  let col := X / t.cellWidth
  let row := Y / t.cellHeight
  let (fg, bg) := t.colors (attr col row)
  if InGlyph t.font t.cellH t.drawScale (ch col row) (X % t.cellWidth) (Y % t.cellHeight) then fg
  else bg

/-- The colour at column `X` and row `Y` of the text. -/
def pixel (t : GfxText) : ℕ → ℕ → ℕ :=
  t.picture (fun col row => t.chars (row * t.cols + col))
    fun col row => t.attrs.map fun attrs => attrs (row * t.cols + col)

/-- The sizes of the text do not wrap in 32 bits. -/
structure Sized (t : GfxText) : Prop where
  rows : t.rows < 2 ^ 32
  width : t.cols * t.cellWidth < 2 ^ 32
  height : t.rows * t.cellHeight < 2 ^ 32
  cells : t.cols * t.rows < 2 ^ 32
  font : 256 * t.cellH ≤ 2 ^ 32

/-- The corner of the cell is on the surface, and the cell is not empty. -/
structure CellVisible (t : GfxText) (g : Gfx) (xOff yOff col row : ℕ) : Prop where
  col_lt : col < t.cols
  row_lt : row < t.rows
  left : xOff + col * t.cellWidth < g.width
  top : yOff + row * t.cellHeight < g.height
  cellH_pos : 0 < t.cellH

/-- No index that is taken in 32 bits wraps: into the surface, where a line of a cell begins, into the
characters, and into the font. -/
structure IndicesFit (t : GfxText) (g : Gfx) (xOff yOff : ℕ) : Prop where
  lines : ∀ col < t.cols, xOff + col * t.cellWidth < g.width →
    ∀ Y, yOff ≤ Y → Y < yOff + t.rows * t.cellHeight → Y < g.height →
      pos g.stridePx (xOff + col * t.cellWidth) Y < 2 ^ 32
  cells : ∀ col row, t.CellVisible g xOff yOff col row → row * t.cols + col < 2 ^ 32
  glyphs : ∀ col row, t.CellVisible g xOff yOff col row → 255 * t.cellH < 2 ^ 32

end GfxText

/-! ## What a glyph paints -/

section

variable {g : Gfx} {bytes x y scale cellH fg bg : ℕ}

/-- The cells of a grid, from an offset on, are within it. -/
theorem cell_le {a b n : ℕ} (c : ℕ) (ha : a < n) : c + a * b + b ≤ c + n * b := by
  have hle : (a + 1) * b ≤ n * b := Nat.mul_le_mul_right _ ha
  rw [Nat.add_mul] at hle
  omega

/-- The place of a cell, when the grid ends before the word does. -/
theorem cell_mod_eq {a b n c : ℕ} (h : c + n * b < 2 ^ 32) (ha : a < n) :
    (c + a * (b % 2 ^ 32)) % 2 ^ 32 = c + a * b := by
  have hle := cell_le (b := b) c ha
  rw [Nat.mod_eq_of_lt (by omega : b < 2 ^ 32), Nat.mod_eq_of_lt (by omega)]

/-- The rows and columns of a glyph at a scale. -/
theorem exists_scaled {n v : ℕ} (hs : 0 < scale) :
    (∃ a < n, ∃ b < scale, v = a * scale + b) ↔ v < n * scale := by
  constructor
  · rintro ⟨a, ha, b, hb, rfl⟩
    have hle : (a + 1) * scale ≤ n * scale := Nat.mul_le_mul_right _ ha
    rw [Nat.add_mul] at hle
    omega
  · intro hv
    have hdm := Nat.div_add_mod' v scale
    exact ⟨v / scale, (Nat.div_lt_iff_lt_mul hs).2 hv, v % scale, Nat.mod_lt _ hs, hdm.symm⟩

theorem scaled_div {a b : ℕ} (hb : b < scale) : (a * scale + b) / scale = a := by
  rw [Nat.mul_comm, Nat.mul_add_div (by omega), Nat.div_eq_of_lt hb, Nat.add_zero]

/-- The rounds of a loop over the scale that ends at a limit. -/
theorem mem_takeWhile_scaled {a b limit : ℕ} (h : a + scale ≤ 2 ^ 32) :
    b ∈ (List.range scale).takeWhile (fun b => (a + b) % 2 ^ 32 < limit) ↔
      b < scale ∧ a + b < limit := by
  have hmod : ∀ c < scale, (a + c) % 2 ^ 32 = a + c := fun c hc => Nat.mod_eq_of_lt (by omega)
  rw [Loop.mem_takeWhile_range]
  · simp only [decide_eq_true_eq]
    refine and_congr_right fun hb => ?_
    rw [hmod b hb]
  · intro c d hcd hd hp
    simp only [decide_eq_true_eq] at hp ⊢
    rw [hmod d hd] at hp
    rw [hmod c (by omega)]
    omega

/-- A row of a glyph paints the row, up to the width that is drawn. -/
theorem blitRow_eq (hs : 0 < scale) (hw : 8 * scale < 2 ^ 32) (mem : Mem)
    (row drawW bits : ℕ) :
    blitRow mem row scale drawW bits fg bg =
      paint 4 row {i | i < drawW ∧ i < 8 * scale}
        (fun i => leBytes 4 (if bits &&& (0x80 >>> (i / scale)) ≠ 0 then fg else bg)) mem := by
  have hle : ∀ gx < 8, gx * scale + scale ≤ 8 * scale := fun gx hgx => by
    rw [← Nat.succ_mul]
    exact Nat.mul_le_mul_right _ hgx
  have hbit : ∀ gx ∈ List.range 8, ∀ m : Mem,
      ((List.range scale).takeWhile fun sx => (gx * scale + sx) % 2 ^ 32 < drawW).foldl
        (fun mem sx => writeBytes mem (row + 4 * ((gx * scale + sx) % 2 ^ 32))
          (leBytes 4 (if bits &&& (0x80 >>> gx) ≠ 0 then fg else bg))) m =
      paint 4 row {i | ∃ sx, (sx < scale ∧ gx * scale + sx < drawW) ∧ i = gx * scale + sx}
        (fun i => leBytes 4 (if bits &&& (0x80 >>> (i / scale)) ≠ 0 then fg else bg)) m := by
    intro gx hgx m
    have hgx := hle gx (List.mem_range.1 hgx)
    have hdot : ∀ sx ∈ (List.range scale).takeWhile fun sx => (gx * scale + sx) % 2 ^ 32 < drawW,
        ∀ m : Mem, writeBytes m (row + 4 * ((gx * scale + sx) % 2 ^ 32))
          (leBytes 4 (if bits &&& (0x80 >>> gx) ≠ 0 then fg else bg)) =
        paint 4 row {gx * scale + sx}
          (fun i => leBytes 4 (if bits &&& (0x80 >>> (i / scale)) ≠ 0 then fg else bg)) m := by
      intro sx hsx m
      rw [mem_takeWhile_scaled (Nat.le_trans hgx hw.le)] at hsx
      rw [Nat.mod_eq_of_lt (by omega), writeBytes_eq_paint (by omega) (length_leBytes ..)]
      refine paint_congr fun i hi => ?_
      rw [Set.mem_singleton_iff.1 hi, scaled_div hsx.1]
    rw [foldl_paint _ hdot]
    simp only [mem_takeWhile_scaled (Nat.le_trans hgx hw.le), Set.mem_singleton_iff]
  rw [blitRow, foldl_paint _ hbit]
  congr 1
  ext i
  simp only [Set.mem_ofPred_eq, List.mem_range]
  rw [← exists_scaled hs]
  constructor
  · rintro ⟨gx, hgx, sx, ⟨hsx, hdraw⟩, rfl⟩
    exact ⟨hdraw, gx, hgx, sx, hsx, rfl⟩
  · rintro ⟨hdraw, gx, hgx, sx, hsx, rfl⟩
    exact ⟨gx, hgx, sx, ⟨hsx, hdraw⟩, rfl⟩

/-- The visible positions of the surface. -/
def visible (g : Gfx) : Set ℕ := rect g.stridePx 0 0 g.width g.height

/-- The pixel of a glyph with its corner at column `x` of row `y`. -/
def glyphCell (g : Gfx) (font : ℕ → UInt8) (cellH scale : ℕ) (ch : UInt8) (x y fg bg i : ℕ) :
    List UInt8 :=
  leBytes 4 (swizzle g
    (if InGlyph font cellH scale ch (i % g.stridePx - x) (i / g.stridePx - y) then fg else bg))

/-- One line of a glyph, as wide as what is drawn of it. -/
theorem blitRow_glyph (hwidth : g.width ≤ g.stridePx) (hs : 0 < scale)
    (hx : x + 8 * scale < 2 ^ 32) (hX : x < g.width) {gy sy : ℕ} (hsy : sy < scale)
    (hlt : y + gy * scale + sy < 2 ^ 32)
    (hpos : pos g.stridePx x (y + gy * scale + sy) < 2 ^ 32) (mem : Mem) (font : ℕ → UInt8)
    (ch : UInt8) :
    blitRow mem
        (g.vram + 4 * (((y + gy * scale + sy) % 2 ^ 32 * g.stridePx + x) % 2 ^ 32)) scale
        (clip g.width x (8 * scale)) (font (ch.toNat * cellH + gy)).toNat (swizzle g fg)
        (swizzle g bg) =
      paint 4 g.vram (rect g.stridePx x (y + gy * scale + sy) (clip g.width x (8 * scale)) 1)
        (glyphCell g font cellH scale ch x y fg bg) mem := by
  have hcw := clip_le hX hx
  have hself := clip_le_self g.width hx
  rw [Nat.mod_eq_of_lt hlt, ← pos, Nat.mod_eq_of_lt hpos, blitRow_eq hs (by omega),
    paint_shift (by omega), ← row_eq_rect (Nat.le_trans hcw hwidth)]
  have hset : {i | pos g.stridePx x (y + gy * scale + sy) ≤ i ∧
      i - pos g.stridePx x (y + gy * scale + sy) ∈
        {i | i < clip g.width x (8 * scale) ∧ i < 8 * scale}} =
      Set.Ico (pos g.stridePx x (y + gy * scale + sy))
        (pos g.stridePx x (y + gy * scale + sy) + clip g.width x (8 * scale)) := by
    ext i
    simp only [Set.mem_ofPred_eq, Set.mem_Ico]
    omega
  rw [hset]
  refine paint_congr fun i hi => ?_
  obtain ⟨e, rfl⟩ := Nat.exists_eq_add_of_le hi.1
  have he : e < clip g.width x (8 * scale) := Nat.lt_of_add_lt_add_left hi.2
  have hXe : x + e < g.stridePx := by omega
  have hshift : pos g.stridePx x (y + gy * scale + sy) + e =
      pos g.stridePx (x + e) (y + gy * scale + sy) := by
    rw [pos, pos, Nat.add_assoc]
  have hgy : (y + gy * scale + sy - y) / scale = gy := by
    rw [Nat.add_assoc, Nat.add_sub_cancel_left, scaled_div hsy]
  rw [glyphCell, Nat.add_sub_cancel_left, hshift, pos_mod hXe, pos_div hXe, apply_ite (swizzle g)]
  simp only [InGlyph, Nat.add_sub_cancel_left, hgy]

/-- The lines of one row of a glyph, down to the last one that is drawn. -/
theorem blitRows_glyph (hwidth : g.width ≤ g.stridePx) (hs : 0 < scale)
    (hx : x + 8 * scale < 2 ^ 32) (hy : y + cellH * scale < 2 ^ 32) (hX : x < g.width)
    (hY : y < g.height)
    (hpos : ∀ Y, y ≤ Y → Y < y + cellH * scale → Y < g.height → pos g.stridePx x Y < 2 ^ 32)
    {gy : ℕ} (hgy : gy < cellH) (mem : Mem) (font : ℕ → UInt8) (ch : UInt8) :
    ((List.range scale).takeWhile fun sy => (y + gy * scale + sy) % 2 ^ 32 <
        (y + clip g.height y (cellH * scale)) % 2 ^ 32).foldl (fun mem sy =>
      blitRow mem (g.vram + 4 * (((y + gy * scale + sy) % 2 ^ 32 * g.stridePx + x) % 2 ^ 32))
        scale (clip g.width x (8 * scale)) (font (ch.toNat * cellH + gy)).toNat (swizzle g fg)
        (swizzle g bg)) mem =
      paint 4 g.vram {i | ∃ sy, (sy < scale ∧
          y + gy * scale + sy < y + clip g.height y (cellH * scale)) ∧
          i ∈ rect g.stridePx x (y + gy * scale + sy) (clip g.width x (8 * scale)) 1}
        (glyphCell g font cellH scale ch x y fg bg) mem := by
  have hch := clip_le hY hy
  have hself := clip_le_self g.height hy
  have hle := cell_le (b := scale) y hgy
  have hlimit : (y + clip g.height y (cellH * scale)) % 2 ^ 32 =
      y + clip g.height y (cellH * scale) := Nat.mod_eq_of_lt (by omega)
  rw [hlimit, foldl_paint _ fun sy hsy => ?_]
  · simp only [mem_takeWhile_scaled (by omega : y + gy * scale + scale ≤ 2 ^ 32)]
    rfl
  · rw [mem_takeWhile_scaled (by omega)] at hsy
    exact fun m => blitRow_glyph hwidth hs hx hX hsy.1 (by omega)
      (hpos _ (by omega) (by omega) (by omega)) m font ch

/-- The lines that are drawn make up the visible part of the cell. -/
theorem glyphLines_eq (hs : 0 < scale) (hx : x + 8 * scale < 2 ^ 32)
    (hy : y + cellH * scale < 2 ^ 32) (hX : x < g.width) (hY : y < g.height) :
    {i | ∃ gy ∈ List.range cellH, i ∈ {i | ∃ sy, (sy < scale ∧
        y + gy * scale + sy < y + clip g.height y (cellH * scale)) ∧
        i ∈ rect g.stridePx x (y + gy * scale + sy) (clip g.width x (8 * scale)) 1}} =
      rect g.stridePx x y (8 * scale) (cellH * scale) ∩ visible g := by
  have hcw := clip_le hX hx
  have hch := clip_le hY hy
  ext i
  simp only [visible, rect, Set.mem_inter_iff, Set.mem_ofPred_eq, List.mem_range]
  constructor
  · rintro ⟨gy, hgy, sy, ⟨hsy, hdraw⟩, hcol, hrow⟩
    have hXw : i % g.stridePx < g.width := by omega
    have hYh : i / g.stridePx < g.height := by omega
    have hlt := (exists_scaled hs).1 ⟨gy, hgy, sy, hsy, rfl⟩
    exact ⟨⟨⟨hcol.1, (lt_add_clip hXw).1 hcol.2⟩, by omega, by omega⟩, by omega⟩
  · rintro ⟨⟨hcol, hrow⟩, ⟨-, hXw⟩, -, hYh⟩
    obtain ⟨gy, hgy, sy, hsy, heq⟩ :=
      (exists_scaled hs).2 (show i / g.stridePx - y < cellH * scale by omega)
    rw [Nat.zero_add] at hXw hYh
    have hrow := (lt_add_clip hYh).2 hrow.2
    exact ⟨gy, hgy, sy, ⟨hsy, by omega⟩, ⟨hcol.1, (lt_add_clip hXw).2 hcol.2⟩, by omega, by omega⟩

/-- **A glyph paints** the visible part of its cell. -/
theorem gfxBlitGlyph_eq (hbackend : g.backend ≠ .none) (hwidth : g.width ≤ g.stridePx)
    (hs : 0 < scale) (hx : x + 8 * scale < 2 ^ 32) (hy : y + cellH * scale < 2 ^ 32) {ch : UInt8}
    (hpos : x < g.width → ∀ Y, y ≤ Y → Y < y + cellH * scale → Y < g.height →
      pos g.stridePx x Y < 2 ^ 32)
    (hglyph : x < g.width → y < g.height → ch.toNat * cellH < 2 ^ 32) (mem : Mem)
    (font : ℕ → UInt8) :
    gfxBlitGlyph g mem font cellH ch x y scale fg bg =
      paint 4 g.vram (rect g.stridePx x y (8 * scale) (cellH * scale) ∩ visible g)
        (glyphCell g font cellH scale ch x y fg bg) mem := by
  rw [gfxBlitGlyph, if_neg hbackend, if_neg (by omega : scale ≠ 0)]
  dsimp only
  rw [Nat.mod_eq_of_lt (by omega : 8 * scale < 2 ^ 32),
    Nat.mod_eq_of_lt (by omega : cellH * scale < 2 ^ 32)]
  by_cases hout : x ≥ g.width ∨ y ≥ g.height
  · -- no pixel of the cell is visible
    rw [if_pos hout, show rect g.stridePx x y (8 * scale) (cellH * scale) ∩ visible g = ∅ from ?_,
      paint_empty]
    ext i
    simp only [visible, rect, Set.mem_inter_iff, Set.mem_ofPred_eq, Set.mem_empty_iff_false,
      iff_false]
    omega
  · rw [if_neg hout]
    rw [not_or, Nat.not_le, Nat.not_le] at hout
    rw [Nat.mod_eq_of_lt (hglyph hout.1 hout.2), foldl_paint _ fun gy hgy m =>
      blitRows_glyph hwidth hs hx hy hout.1 hout.2 (hpos hout.1) (List.mem_range.1 hgy) m font ch,
      glyphLines_eq hs hx hy hout.1 hout.2]

/-! ## What a text paints -/

variable {t : GfxText} {xOff yOff : ℕ}

theorem GfxText.drawScale_pos (t : GfxText) : 0 < t.drawScale := by
  unfold drawScale
  split <;> omega

theorem GfxText.cellWidth_pos (t : GfxText) : 0 < t.cellWidth :=
  Nat.mul_pos (by omega) t.drawScale_pos

/-- The pixel of a text with its corner at column `xOff` of row `yOff`. -/
def textCell (g : Gfx) (t : GfxText) (xOff yOff i : ℕ) : List UInt8 :=
  leBytes 4 (swizzle g (t.pixel (i % g.stridePx - xOff) (i / g.stridePx - yOff)))

/-- The glyph of a cell is true to the text. -/
theorem glyphCell_eq_textCell {row col i : ℕ}
    (hi : i ∈ rect g.stridePx (xOff + col * t.cellWidth) (yOff + row * t.cellHeight)
      (8 * t.drawScale) (t.cellH * t.drawScale)) :
    glyphCell g t.font t.cellH t.drawScale (t.chars (row * t.cols + col))
      (xOff + col * t.cellWidth) (yOff + row * t.cellHeight)
      (t.colors (t.attrs.map fun attrs => attrs (row * t.cols + col))).1
      (t.colors (t.attrs.map fun attrs => attrs (row * t.cols + col))).2 i =
    textCell g t xOff yOff i := by
  obtain ⟨⟨hX, hXw⟩, hY, hYh⟩ := hi
  obtain ⟨X, hX⟩ := Nat.exists_eq_add_of_le hX
  obtain ⟨Y, hY⟩ := Nat.exists_eq_add_of_le hY
  rw [hX] at hXw
  rw [hY] at hYh
  have hcol : X < t.cellWidth := Nat.lt_of_add_lt_add_left hXw
  have hrow : Y < t.cellHeight := Nat.lt_of_add_lt_add_left hYh
  rw [glyphCell, textCell, GfxText.pixel, GfxText.picture, hX, hY, Nat.add_sub_cancel_left,
    Nat.add_sub_cancel_left, Nat.add_assoc xOff, Nat.add_assoc yOff, Nat.add_sub_cancel_left,
    Nat.add_sub_cancel_left, scaled_div hcol, scaled_div hrow, Nat.mul_add_mod_self_right,
    Nat.mul_add_mod_self_right, Nat.mod_eq_of_lt hcol, Nat.mod_eq_of_lt hrow]

/-- A glyph whose corner is not on the surface, or that is empty, has no visible position. -/
theorem GfxText.cellVisible_of_mem {row col i : ℕ} (hcol : col < t.cols) (hrow : row < t.rows)
    (hi : i ∈ rect g.stridePx (xOff + col * t.cellWidth) (yOff + row * t.cellHeight)
      (8 * t.drawScale) (t.cellH * t.drawScale) ∩ visible g) : t.CellVisible g xOff yOff col row := by
  obtain ⟨⟨⟨hX, -⟩, hY, hYh⟩, ⟨-, hXw⟩, -, hYw⟩ := hi
  refine ⟨hcol, hrow, by omega, by omega, Nat.pos_of_ne_zero fun hzero => ?_⟩
  rw [hzero, Nat.zero_mul] at hYh
  omega

/-- **A cell is painted** where the indices that it needs do not wrap. -/
theorem gfxBlitGlyph_cell (hbackend : g.backend ≠ .none) (hwidth : g.width ≤ g.stridePx)
    (hx : xOff + t.cols * t.cellWidth < 2 ^ 32) (hy : yOff + t.rows * t.cellHeight < 2 ^ 32)
    (hfit : t.IndicesFit g xOff yOff) {row col : ℕ} (hrow : row < t.rows) (hcol : col < t.cols)
    (mem : Mem) :
    gfxBlitGlyph g mem t.font t.cellH (t.chars ((row * t.cols + col) % 2 ^ 32))
        ((xOff + col * (8 * t.drawScale % 2 ^ 32)) % 2 ^ 32)
        ((yOff + row * (t.cellH * t.drawScale % 2 ^ 32)) % 2 ^ 32) t.drawScale
        (t.colors (t.attrs.map fun attrs => attrs ((row * t.cols + col) % 2 ^ 32))).1
        (t.colors (t.attrs.map fun attrs => attrs ((row * t.cols + col) % 2 ^ 32))).2 =
      paint 4 g.vram (rect g.stridePx (xOff + col * t.cellWidth) (yOff + row * t.cellHeight)
        (8 * t.drawScale) (t.cellH * t.drawScale) ∩ visible g) (textCell g t xOff yOff) mem := by
  have hcx := cell_le (b := t.cellWidth) xOff hcol
  have hcy := cell_le (b := t.cellHeight) yOff hrow
  rw [← GfxText.cellWidth, ← GfxText.cellHeight, cell_mod_eq hx hcol, cell_mod_eq hy hrow,
    gfxBlitGlyph_eq hbackend hwidth t.drawScale_pos (Nat.lt_of_le_of_lt hcx hx)
      (Nat.lt_of_le_of_lt hcy hy)]
  · -- only a visible cell needs its own character
    refine paint_congr fun i hi => ?_
    rw [Nat.mod_eq_of_lt (hfit.cells _ _ (GfxText.cellVisible_of_mem hcol hrow hi))]
    exact glyphCell_eq_textCell hi.1
  · intro hX Y hle hlt hY
    rw [← GfxText.cellHeight] at hlt
    exact hfit.lines col hcol hX Y (by omega) (by omega) hY
  · intro hX hY
    by_cases hzero : t.cellH = 0
    · rw [hzero, Nat.mul_zero]
      exact Nat.two_pow_pos 32
    · have hglyphs := hfit.glyphs col row ⟨hcol, hrow, hX, hY, Nat.pos_of_ne_zero hzero⟩
      have hle : (t.chars ((row * t.cols + col) % 2 ^ 32)).toNat * t.cellH ≤ 255 * t.cellH :=
        Nat.mul_le_mul_right _ (Nat.le_of_lt_succ (UInt8.toNat_lt _))
      exact Nat.lt_of_le_of_lt hle hglyphs

/-- The cells of a grid make up its box. -/
theorem cells_eq_box (t : GfxText) (g : Gfx) (xOff yOff : ℕ) :
    {i | ∃ row ∈ List.range t.rows, i ∈ {i | ∃ col ∈ List.range t.cols,
        i ∈ rect g.stridePx (xOff + col * t.cellWidth) (yOff + row * t.cellHeight)
          (8 * t.drawScale) (t.cellH * t.drawScale) ∩ visible g}} =
      rect g.stridePx xOff yOff (t.cols * t.cellWidth) (t.rows * t.cellHeight) ∩ visible g := by
  ext i
  simp only [rect, Set.mem_inter_iff, Set.mem_ofPred_eq, List.mem_range]
  rw [← GfxText.cellWidth, ← GfxText.cellHeight]
  constructor
  · rintro ⟨row, hrow, col, hcol, ⟨hX, hY⟩, hvis⟩
    have hcx := cell_le (b := t.cellWidth) xOff hcol
    have hcy := cell_le (b := t.cellHeight) yOff hrow
    exact ⟨⟨by omega, by omega⟩, hvis⟩
  · rintro ⟨⟨hX, hY⟩, hvis⟩
    have hYlt : i / g.stridePx - yOff < t.rows * t.cellHeight := by omega
    have hpos : 0 < t.cellHeight := Nat.pos_of_ne_zero fun hzero => by simp [hzero] at hYlt
    obtain ⟨col, hcol, X, hX', hcolX⟩ := (exists_scaled t.cellWidth_pos).2
      (show i % g.stridePx - xOff < t.cols * t.cellWidth by omega)
    obtain ⟨row, hrow, Y, hY', hrowY⟩ := (exists_scaled hpos).2 hYlt
    exact ⟨row, hrow, col, hcol, ⟨by omega, by omega⟩, hvis⟩

/-- **A text paints** the visible part of its grid if no index wraps. -/
theorem gfxTextRender_paint (hbackend : g.backend ≠ .none) (hwidth : g.width ≤ g.stridePx)
    (hx : xOff + t.cols * t.cellWidth < 2 ^ 32) (hy : yOff + t.rows * t.cellHeight < 2 ^ 32)
    (hfit : t.IndicesFit g xOff yOff) (mem : Mem) :
    gfxTextRender t g mem xOff yOff =
      paint 4 g.vram
        (rect g.stridePx xOff yOff (t.cols * t.cellWidth) (t.rows * t.cellHeight) ∩ visible g)
        (textCell g t xOff yOff) mem := by
  rw [gfxTextRender, if_neg hbackend, ← cells_eq_box]
  have hrow : ∀ row ∈ List.range t.rows, ∀ m : Mem, _ := fun row hrow m =>
    foldl_paint (List.range t.cols) (fun col hcol m =>
      gfxBlitGlyph_cell hbackend hwidth hx hy hfit (List.mem_range.1 hrow) (List.mem_range.1 hcol) m)
      m
  exact foldl_paint _ hrow mem

/-- No index wraps when the surface, the grid and the font are small. -/
theorem GfxText.Sized.indicesFit (ht : t.Sized) (hf : Fits g bytes) (hbytes : bytes ≤ 2 ^ 34) :
    t.IndicesFit g xOff yOff where
  lines col _ hX Y _ _ hY := by
    have hpix := hf.pixel hX hY
    omega
  cells col row h := by
    have hlt := pos_lt h.col_lt h.row_lt
    exact Nat.lt_trans hlt ht.cells
  glyphs col row h := by
    have hfont := ht.font
    have hpos := h.cellH_pos
    omega

/-- **A text paints** the visible part of its grid. -/
theorem gfxTextRender_eq (hbackend : g.backend ≠ .none) (hf : Fits g bytes)
    (hbytes : bytes ≤ 2 ^ 34) (ht : t.Sized) (hx : xOff + t.cols * t.cellWidth < 2 ^ 32)
    (hy : yOff + t.rows * t.cellHeight < 2 ^ 32) (mem : Mem) :
    gfxTextRender t g mem xOff yOff =
      paint 4 g.vram
        (rect g.stridePx xOff yOff (t.cols * t.cellWidth) (t.rows * t.cellHeight) ∩ visible g)
        (textCell g t xOff yOff) mem :=
  gfxTextRender_paint hbackend hf.width_le hx hy (ht.indicesFit hf hbytes) mem

/-! ## What is written -/

/-- A string at a place of the grid. -/
structure Placed where
  col : ℕ
  row : ℕ
  str : List UInt8

/-- A grid of characters with a string written over it. -/
def place (grid : ℕ → ℕ → UInt8) (p : Placed) (col row : ℕ) : UInt8 :=
  if row = p.row ∧ p.col ≤ col ∧ col < p.col + p.str.length then p.str.getD (col - p.col) 0
  else grid col row

/-- The text `t` is `t₀` with other characters and attributes. -/
structure SameGrid (t₀ t : GfxText) : Prop where
  same : t = { t₀ with chars := t.chars, attrs := t.attrs }
  isSome : t.attrs.isSome = t₀.attrs.isSome

/-- The text `t` is `t₀` with these characters, and the same attribute everywhere. -/
structure Holds (t₀ : GfxText) (attr : UInt8) (grid : ℕ → ℕ → UInt8) (t : GfxText) : Prop
    extends SameGrid t₀ t where
  chars : ∀ col < t₀.cols, ∀ row < t₀.rows, t.chars (row * t₀.cols + col) = grid col row
  attrs : ∀ col < t₀.cols, ∀ row < t₀.rows,
    (t.attrs.map fun attrs => attrs (row * t₀.cols + col)) = t₀.attrs.map fun _ => attr

variable {t₀ : GfxText} {attr : UInt8} {grid : ℕ → ℕ → UInt8}

/-- A grid matters only where the text has cells. -/
theorem Holds.congr {grid' : ℕ → ℕ → UInt8} (h : Holds t₀ attr grid t)
    (heq : ∀ col < t₀.cols, ∀ row < t₀.rows, grid col row = grid' col row) :
    Holds t₀ attr grid' t :=
  { h with
    chars := fun col hcol row hrow => (h.chars col hcol row hrow).trans (heq col hcol row hrow) }

theorem SameGrid.cols_eq (h : SameGrid t₀ t) : t.cols = t₀.cols := by rw [h.same]

theorem SameGrid.rows_eq (h : SameGrid t₀ t) : t.rows = t₀.rows := by rw [h.same]

theorem SameGrid.cellWidth_eq (h : SameGrid t₀ t) : t.cellWidth = t₀.cellWidth := by
  rw [h.same]
  rfl

theorem SameGrid.cellHeight_eq (h : SameGrid t₀ t) : t.cellHeight = t₀.cellHeight := by
  rw [h.same]
  rfl

theorem SameGrid.sized (h : SameGrid t₀ t) (ht : t₀.Sized) : t.Sized := by
  rw [h.same]
  exact ⟨ht.rows, ht.width, ht.height, ht.cells, ht.font⟩

/-- The grid is cleared, whatever it held. -/
theorem SameGrid.clear (h : SameGrid t₀ t) (ht : t₀.Sized) (attr : UInt8) :
    Holds t₀ attr (fun _ _ => 0x20) (gfxTextClear t attr) := by
  have hlt : ∀ col < t₀.cols, ∀ row < t₀.rows, row * t₀.cols + col < t.cols * t.rows % 2 ^ 32 :=
    fun col hcol row hrow => by
      rw [h.cols_eq, h.rows_eq, Nat.mod_eq_of_lt ht.cells]
      exact pos_lt hcol hrow
  refine ⟨⟨?_, ?_⟩, fun col hcol row hrow => if_pos (hlt col hcol row hrow),
    fun col hcol row hrow => ?_⟩
  · rw [gfxTextClear, h.same]
  · rw [gfxTextClear, Option.isSome_map, h.isSome]
  · rw [gfxTextClear, Option.map_map]
    have hsome := h.isSome
    cases hattrs : t.attrs with
    | none =>
      rw [hattrs, Option.isSome_none, eq_comm, Option.isSome_eq_false_iff,
        Option.isNone_iff_eq_none] at hsome
      rw [hsome]
      rfl
    | some attrs =>
      rw [hattrs, Option.isSome_some, eq_comm, Option.isSome_iff_exists] at hsome
      obtain ⟨attrs₀, hsome⟩ := hsome
      rw [hsome]
      exact congrArg some (if_pos (hlt col hcol row hrow))

/-- A character is written. -/
theorem Holds.put {row col : ℕ} (h : Holds t₀ attr grid t) (hcol : col < t₀.cols) (c : UInt8) :
    Holds t₀ attr (place grid ⟨col, row, [c]⟩)
      { t with
        chars := Function.update t.chars (row * t₀.cols + col) c
        attrs := t.attrs.map fun attrs => Function.update attrs (row * t₀.cols + col) attr } := by
  refine ⟨⟨?_, ?_⟩, fun col' hcol' row' hrow' => ?_, fun col' hcol' row' hrow' => ?_⟩
  · rw [h.same]
  · rw [Option.isSome_map, h.isSome]
  · dsimp only
    by_cases hpos : row' * t₀.cols + col' = row * t₀.cols + col
    · obtain ⟨rfl, rfl⟩ := pos_inj hcol' hcol hpos
      rw [Function.update_self, place, if_pos ⟨rfl, Nat.le_refl _, Nat.lt_succ_self _⟩, Nat.sub_self]
      rfl
    · rw [Function.update_of_ne hpos, h.chars col' hcol' row' hrow', place, if_neg]
      rintro ⟨rfl, hle, hlt⟩
      rw [List.length_singleton] at hlt
      exact hpos (by rw [Nat.le_antisymm (Nat.lt_succ_iff.1 hlt) hle])
  · have hattrs := h.attrs col' hcol' row' hrow'
    rw [Option.map_map]
    by_cases hpos : row' * t₀.cols + col' = row * t₀.cols + col
    · have hconst := congrArg (Option.map fun _ => attr) hattrs
      rw [Option.map_map, Option.map_map] at hconst
      refine (congrArg (Option.map · t.attrs) (funext fun attrs => ?_)).trans hconst
      exact congrArg _ hpos |>.trans (Function.update_self ..)
    · rw [← hattrs]
      exact congrArg (Option.map · t.attrs) (funext fun attrs => Function.update_of_ne hpos ..)

theorem place_nil (grid : ℕ → ℕ → UInt8) (col row : ℕ) : place grid ⟨col, row, []⟩ = grid := by
  funext col' row'
  refine if_neg fun h => ?_
  rw [List.length_nil] at h
  omega

/-- A string is written character by character. -/
theorem place_cons (grid : ℕ → ℕ → UInt8) (col row : ℕ) (c : UInt8) (s : List UInt8) :
    place (place grid ⟨col, row, [c]⟩) ⟨col + 1, row, s⟩ = place grid ⟨col, row, c :: s⟩ := by
  funext col' row'
  unfold place
  dsimp only
  rw [List.length_singleton, List.length_cons]
  by_cases hcol : col' = col
  · subst hcol
    rw [if_neg (by omega), Nat.sub_self]
    by_cases hrow : row' = row
    · rw [if_pos (by omega), if_pos (by omega)]
      rfl
    · rw [if_neg (by omega), if_neg (by omega)]
  · by_cases hin : row' = row ∧ col + 1 ≤ col' ∧ col' < col + 1 + s.length
    · obtain ⟨d, hd⟩ := Nat.exists_eq_add_of_le hin.2.1
      rw [if_pos hin, if_pos (by omega), show col' - (col + 1) = d by omega,
        show col' - col = d + 1 by omega]
      rfl
    · rw [if_neg hin, if_neg (by omega), if_neg (by omega)]

/-- `gfx_text_puts` writes up to the end of the row. -/
theorem Holds.putsFrom {row col : ℕ} (h : Holds t₀ attr grid t) (hrow : row < t₀.rows)
    (hcells : t₀.cols * t₀.rows < 2 ^ 32) (s : List UInt8)
    {off : ℕ} (hoff : col < t₀.cols → off = row * t₀.cols + col) :
    Holds t₀ attr (place grid ⟨col, row, s⟩) (putsFrom attr s t col off) := by
  induction s generalizing t grid col off with
  | nil =>
    rw [place_nil]
    exact h
  | cons c s ih =>
    rw [Graphics.putsFrom]
    by_cases hcol : col < t₀.cols
    · rw [if_pos (by rwa [h.cols_eq])]
      obtain rfl := hoff hcol
      have hlt := pos_lt hcol hrow
      have hcols : t₀.cols ≤ t₀.cols * t₀.rows :=
        Nat.le_mul_of_pos_right _ (Nat.zero_lt_of_lt hrow)
      rw [pos] at hlt
      rw [← place_cons, Nat.mod_eq_of_lt (by omega), Nat.mod_eq_of_lt (by omega)]
      exact ih (h.put hcol c) fun _ => Nat.add_assoc ..
    · rw [if_neg (by rwa [h.cols_eq])]
      refine h.congr fun col' hcol' row' _ => (if_neg ?_).symm
      rintro ⟨-, hle, -⟩
      exact hcol (Nat.lt_of_le_of_lt hle hcol')

theorem Holds.gfxTextPuts (h : Holds t₀ attr grid t) (ht : t₀.Sized) (col row : ℕ)
    (s : List UInt8) :
    Holds t₀ attr (place grid ⟨col, row, s⟩) (gfxTextPuts t col row s attr) := by
  rw [Graphics.gfxTextPuts, h.rows_eq, h.cols_eq]
  split
  next hrow =>
    refine h.congr fun col' _ row' hrow' => (if_neg ?_).symm
    rintro ⟨rfl, -⟩
    exact Nat.not_lt.2 hrow hrow'
  next hrow =>
    have hrow := Nat.lt_of_not_le hrow
    refine h.putsFrom hrow ht.cells s fun hcol => Nat.mod_eq_of_lt ?_
    exact Nat.lt_trans (pos_lt hcol hrow) ht.cells

/-- The pixels of a text with these characters. -/
theorem Holds.pixel_eq {X Y : ℕ} (h : Holds t₀ attr grid t) (hX : X < t₀.cols * t₀.cellWidth)
    (hY : Y < t₀.rows * t₀.cellHeight) :
    t.pixel X Y = t₀.picture grid (fun _ _ => t₀.attrs.map fun _ => attr) X Y := by
  have hpos : 0 < t₀.cellHeight := Nat.pos_of_ne_zero fun hzero => by simp [hzero] at hY
  have hcol : X / t₀.cellWidth < t₀.cols := (Nat.div_lt_iff_lt_mul t₀.cellWidth_pos).2 hX
  have hrow : Y / t₀.cellHeight < t₀.rows := (Nat.div_lt_iff_lt_mul hpos).2 hY
  have hpixel : t.pixel X Y = t₀.picture (fun col row => t.chars (row * t₀.cols + col))
      (fun col row => t.attrs.map fun attrs => attrs (row * t₀.cols + col)) X Y := by
    rw [h.same]
    rfl
  rw [hpixel]
  simp only [GfxText.picture, h.chars _ hcol _ hrow, h.attrs _ hcol _ hrow]

end

end RvvmHal.Graphics
