import RvvmHal.Graphics.Text

/-!
# The pixels of a text

What `gfx_text_render` is to draw, pixel by pixel (`TextDrawn`), whether the box of the text is on the
surface or goes over its right and bottom edges. The indices into the surface, the characters and the
font are taken in 32 bits. Where none of them wraps, the text is drawn; where one does, there are
contents with which a pixel is wrong (`textDrawn_iff`).

For the latter the stores are enough, in whatever order they come: a position at which nothing but
black is stored stays black (`cell_black`).
-/

namespace RvvmHal.Graphics

open Bytes Raster Virtio

/-! ## What is to be drawn -/

/-- A visible pixel in the box of the text. -/
structure InBox (t : GfxText) (g : Gfx) (xOff yOff X Y : ℕ) : Prop where
  width : X < g.width
  height : Y < g.height
  left : xOff ≤ X
  right : X < xOff + t.cols * t.cellWidth
  top : yOff ≤ Y
  bottom : Y < yOff + t.rows * t.cellHeight

/-- The visible pixels in the box have the colours of the text, and no other byte has changed. -/
structure TextDrawn (t : GfxText) (g : Gfx) (xOff yOff : ℕ) (m m' : Mem) : Prop where
  drawn : ∀ X Y, InBox t g xOff yOff X Y →
    cell 4 m' g.vram (pos g.stridePx X Y) = leBytes 4 (swizzle g (t.pixel (X - xOff) (Y - yOff)))
  kept : ∀ a, (∀ X Y, InBox t g xOff yOff X Y →
    a < g.vram + 4 * pos g.stridePx X Y ∨ g.vram + 4 * pos g.stridePx X Y + 4 ≤ a) → m' a = m a

/-- The texts have the same sizes. -/
structure GfxText.SameSizes (t t' : GfxText) : Prop where
  cols : t'.cols = t.cols
  rows : t'.rows = t.rows
  cellH : t'.cellH = t.cellH
  scale : t'.scale = t.scale

section

variable {t t' : GfxText} {g : Gfx} {xOff yOff : ℕ}

namespace GfxText.SameSizes

theorem drawScale (h : t.SameSizes t') : t'.drawScale = t.drawScale := by
  rw [GfxText.drawScale, GfxText.drawScale, h.scale]

theorem cellWidth (h : t.SameSizes t') : t'.cellWidth = t.cellWidth := by
  rw [GfxText.cellWidth, GfxText.cellWidth, h.drawScale]

theorem cellHeight (h : t.SameSizes t') : t'.cellHeight = t.cellHeight := by
  rw [GfxText.cellHeight, GfxText.cellHeight, h.cellH, h.drawScale]

theorem cellVisible {col row : ℕ} (h : t.SameSizes t') (hvis : t'.CellVisible g xOff yOff col row) :
    t.CellVisible g xOff yOff col row := by
  obtain ⟨hcol, hrow, hleft, htop, hpos⟩ := hvis
  rw [h.cols] at hcol
  rw [h.rows] at hrow
  rw [h.cellWidth] at hleft
  rw [h.cellHeight] at htop
  rw [h.cellH] at hpos
  exact ⟨hcol, hrow, hleft, htop, hpos⟩

/-- Whether an index wraps depends on the sizes only. -/
theorem indicesFit (h : t.SameSizes t') (hfit : t.IndicesFit g xOff yOff) :
    t'.IndicesFit g xOff yOff where
  lines := by
    rw [h.cols, h.rows, h.cellWidth, h.cellHeight]
    exact hfit.lines
  cells col row hvis := by
    rw [h.cols]
    exact hfit.cells col row (h.cellVisible hvis)
  glyphs col row hvis := by
    rw [h.cellH]
    exact hfit.glyphs col row (h.cellVisible hvis)

end GfxText.SameSizes

/-- The positions of the visible pixels in the box. -/
theorem mem_box_iff (hwidth : g.width ≤ g.stridePx) {i : ℕ} :
    i ∈ rect g.stridePx xOff yOff (t.cols * t.cellWidth) (t.rows * t.cellHeight) ∩ visible g ↔
      ∃ X Y, InBox t g xOff yOff X Y ∧ i = pos g.stridePx X Y := by
  constructor
  · rintro ⟨⟨⟨hX, hXw⟩, hY, hYh⟩, ⟨-, hXv⟩, -, hYv⟩
    refine ⟨i % g.stridePx, i / g.stridePx, ⟨by omega, by omega, hX, hXw, hY, hYh⟩, ?_⟩
    rw [pos, Nat.div_add_mod']
  · rintro ⟨X, Y, hbox, rfl⟩
    have hX : X < g.stridePx := Nat.lt_of_lt_of_le hbox.width hwidth
    refine ⟨(pos_mem_rect hX).2 ⟨⟨hbox.left, hbox.right⟩, hbox.top, hbox.bottom⟩, ?_⟩
    refine (pos_mem_rect hX).2 ⟨⟨Nat.zero_le _, ?_⟩, Nat.zero_le _, ?_⟩
    · rw [Nat.zero_add]
      exact hbox.width
    · rw [Nat.zero_add]
      exact hbox.height

/-- **A text is drawn** if no index wraps. -/
theorem GfxText.IndicesFit.textDrawn (hbackend : g.backend ≠ .none) (hwidth : g.width ≤ g.stridePx)
    (hx : xOff + t.cols * t.cellWidth < 2 ^ 32) (hy : yOff + t.rows * t.cellHeight < 2 ^ 32)
    (hfit : t.IndicesFit g xOff yOff) (mem : Mem) :
    TextDrawn t g xOff yOff mem (gfxTextRender t g mem xOff yOff) := by
  rw [gfxTextRender_paint hbackend hwidth hx hy hfit]
  constructor
  · intro X Y hbox
    have hX : X < g.stridePx := Nat.lt_of_lt_of_le hbox.width hwidth
    rw [cell_paint_of_mem ((mem_box_iff hwidth).2 ⟨X, Y, hbox, rfl⟩)
      (by rw [textCell, length_leBytes]), textCell, pos_mod hX, pos_div hX]
  · intro a ha
    refine paint_of_apart (by omega) fun i hi => ?_
    obtain ⟨X, Y, hbox, rfl⟩ := (mem_box_iff hwidth).1 hi
    exact ha X Y hbox

/-! ## The stores -/

/-- A store of `gfx_text_render` at the position `p`: the pixel `sx` of bit `gx` in the line `sy` of the
glyph row `gy` of a cell. -/
structure Stores (t : GfxText) (g : Gfx) (xOff yOff col row gy sy gx sx p : ℕ) : Prop where
  col_lt : col < t.cols
  row_lt : row < t.rows
  gy_lt : gy < t.cellH
  sy_lt : sy < t.drawScale
  gx_lt : gx < 8
  sx_lt : sx < t.drawScale
  right : xOff + col * t.cellWidth + (gx * t.drawScale + sx) < g.width
  bottom : yOff + row * t.cellHeight + gy * t.drawScale + sy < g.height
  pos_eq : p = pos g.stridePx (xOff + col * t.cellWidth)
    (yOff + row * t.cellHeight + gy * t.drawScale + sy) % 2 ^ 32 + (gx * t.drawScale + sx)

/-- A store is in a line of a cell. -/
theorem Stores.exists_line {col row gy sy gx sx p : ℕ}
    (h : Stores t g xOff yOff col row gy sy gx sx p) :
    ∃ Y px, yOff ≤ Y ∧ Y < yOff + t.rows * t.cellHeight ∧ Y < g.height ∧ px < t.cellWidth ∧
      xOff + col * t.cellWidth + px < g.width ∧
      p = pos g.stridePx (xOff + col * t.cellWidth) Y % 2 ^ 32 + px := by
  have hcy := cell_le (b := t.cellHeight) yOff h.row_lt
  have hline : gy * t.drawScale + sy < t.cellHeight :=
    (exists_scaled t.drawScale_pos).1 ⟨gy, h.gy_lt, sy, h.sy_lt, rfl⟩
  have hpx : gx * t.drawScale + sx < t.cellWidth :=
    (exists_scaled t.drawScale_pos).1 ⟨gx, h.gx_lt, sx, h.sx_lt, rfl⟩
  exact ⟨_, _, by omega, by omega, h.bottom, hpx, h.right, h.pos_eq⟩

/-- The colour that it stores. -/
def storedColor (t : GfxText) (g : Gfx) (col row gy gx : ℕ) : ℕ :=
  let off := (row * t.cols + col) % 2 ^ 32
  let (fg, bg) := t.colors (t.attrs.map fun attrs => attrs off)
  let rowBits := (t.font ((t.chars off).toNat * t.cellH % 2 ^ 32 + gy)).toNat
  if rowBits &&& (0x80 >>> gx) ≠ 0 then swizzle g fg else swizzle g bg

section

variable {P : Mem → Prop} {mem : Mem} {scale cellH fg bg x y : ℕ}

theorem blitRow_induct {row drawW bits : ℕ} (hw : 8 * scale < 2 ^ 32)
    (hstore : ∀ gx < 8, ∀ sx < scale, gx * scale + sx < drawW → ∀ m, P m →
      P (writeBytes m (row + 4 * (gx * scale + sx))
        (leBytes 4 (if bits &&& (0x80 >>> gx) ≠ 0 then fg else bg)))) (hP : P mem) :
    P (blitRow mem row scale drawW bits fg bg) := by
  refine List.foldlRecOn _ _ hP fun m hm gx hgx => ?_
  refine List.foldlRecOn _ _ hm fun m hm sx hsx => ?_
  rw [List.mem_range] at hgx
  have hle : (gx + 1) * scale ≤ 8 * scale := Nat.mul_le_mul_right _ hgx
  rw [Nat.add_mul, Nat.one_mul] at hle
  rw [mem_takeWhile_scaled (by omega)] at hsx
  rw [Nat.mod_eq_of_lt (by omega)]
  exact hstore gx hgx sx hsx.1 hsx.2 m hm

theorem gfxBlitGlyph_induct (hs : 0 < scale) (hx : x + 8 * scale < 2 ^ 32)
    (hy : y + cellH * scale < 2 ^ 32) {font : ℕ → UInt8} {ch : UInt8}
    (hstore : ∀ gy < cellH, ∀ sy < scale, ∀ gx < 8, ∀ sx < scale,
      x + (gx * scale + sx) < g.width → y + gy * scale + sy < g.height → ∀ m, P m →
      P (writeBytes m
        (g.vram + 4 * (pos g.stridePx x (y + gy * scale + sy) % 2 ^ 32) + 4 * (gx * scale + sx))
        (leBytes 4 (if (font (ch.toNat * cellH % 2 ^ 32 + gy)).toNat &&& (0x80 >>> gx) ≠ 0 then
          swizzle g fg else swizzle g bg)))) (hP : P mem) :
    P (gfxBlitGlyph g mem font cellH ch x y scale fg bg) := by
  rw [gfxBlitGlyph]
  split_ifs with hnone hzero hout hout
  · exact hP
  · omega
  · omega
  · exact hP
  · rw [not_or, Nat.not_le, Nat.not_le] at hout
    dsimp only
    rw [Nat.mod_eq_of_lt (by omega : 8 * scale < 2 ^ 32),
      Nat.mod_eq_of_lt (by omega : cellH * scale < 2 ^ 32)]
    have hcw := clip_le hout.1 hx
    have hch := clip_le hout.2 hy
    have hself := clip_le_self g.height hy
    refine List.foldlRecOn _ _ hP fun m hm gy hgy => ?_
    refine List.foldlRecOn _ _ hm fun m hm sy hsy => ?_
    rw [List.mem_range] at hgy
    have hle := cell_le (b := scale) y hgy
    rw [Nat.mod_eq_of_lt (by omega : y + clip g.height y (cellH * scale) < 2 ^ 32),
      mem_takeWhile_scaled (by omega)] at hsy
    rw [Nat.mod_eq_of_lt (by omega : y + gy * scale + sy < 2 ^ 32)]
    exact blitRow_induct (by omega) (fun gx hgx sx hsx hlt m hm =>
      hstore gy hgy sy hsy.1 gx hgx sx hsx (by omega) (by omega) m hm) hm

/-- **Induction on the stores**: what every store preserves, `gfx_text_render` does. -/
theorem gfxTextRender_induct (hx : xOff + t.cols * t.cellWidth < 2 ^ 32)
    (hy : yOff + t.rows * t.cellHeight < 2 ^ 32)
    (hstore : ∀ col row gy sy gx sx p, Stores t g xOff yOff col row gy sy gx sx p → ∀ m, P m →
      P (writeBytes m (g.vram + 4 * p) (leBytes 4 (storedColor t g col row gy gx)))) (hP : P mem) :
    P (gfxTextRender t g mem xOff yOff) := by
  rw [gfxTextRender]
  split_ifs
  · exact hP
  · refine List.foldlRecOn _ _ hP fun m hm row hrow => ?_
    refine List.foldlRecOn _ _ hm fun m hm col hcol => ?_
    rw [List.mem_range] at hrow hcol
    have hcx := cell_le (b := t.cellWidth) xOff hcol
    have hcy := cell_le (b := t.cellHeight) yOff hrow
    rw [← GfxText.cellWidth, ← GfxText.cellHeight, cell_mod_eq hx hcol, cell_mod_eq hy hrow]
    refine gfxBlitGlyph_induct t.drawScale_pos (Nat.lt_of_le_of_lt hcx hx)
      (Nat.lt_of_le_of_lt hcy hy) ?_ hm
    intro gy hgy sy hsy gx hgx sx hsx hright hbottom m hm
    rw [Nat.add_assoc, ← Nat.mul_add]
    exact hstore col row gy sy gx sx _ ⟨hcol, hrow, hgy, hsy, hgx, hsx, hright, hbottom, rfl⟩ m hm

end

/-! ## White on black -/

/-- White. -/
def white : ℕ := 0xFFFFFFFF

/-- The text in white on black, with this font and these characters. -/
def GfxText.inWhite (t : GfxText) (font chars : ℕ → UInt8) : GfxText :=
  { t with font := font, chars := chars, attrs := none, fg := white, bg := 0, attrDecode := none }

variable {font chars : ℕ → UInt8}

theorem GfxText.sameSizes_inWhite : t.SameSizes (t.inWhite font chars) := ⟨rfl, rfl, rfl, rfl⟩

@[simp] theorem swizzle_white : swizzle g white = white := by
  rw [swizzle]
  split <;> rfl

@[simp] theorem swizzle_zero : swizzle g 0 = 0 := by
  rw [swizzle]
  split <;> rfl

theorem cell_black (p : ℕ) : cell 4 (fun _ => 0) g.vram p = leBytes 4 0 := by
  rfl

/-- **A position that gets nothing but black** stays black. -/
theorem cell_gfxTextRender_black (hx : xOff + t.cols * t.cellWidth < 2 ^ 32)
    (hy : yOff + t.rows * t.cellHeight < 2 ^ 32) {p : ℕ}
    (hblack : ∀ col row gy sy gx sx, Stores t g xOff yOff col row gy sy gx sx p →
      storedColor t g col row gy gx = 0) :
    cell 4 (gfxTextRender t g (fun _ => 0) xOff yOff) g.vram p = leBytes 4 0 := by
  refine gfxTextRender_induct (P := fun m => cell 4 m g.vram p = leBytes 4 0) hx hy ?_ (cell_black p)
  intro col row gy sy gx sx q hstores m hm
  rw [writeBytes_eq_paint (by omega) (length_leBytes ..)]
  by_cases hq : p = q
  · subst hq
    rw [hblack _ _ _ _ _ _ hstores]
    exact cell_paint_of_mem (Set.mem_singleton p) (length_leBytes 4 0)
  · rw [cell_paint_of_not_mem (mt Set.mem_singleton_iff.1 hq)]
    exact hm

/-- The left edge of a cell is white where the glyph has its first bit. -/
theorem pixel_inWhite {col V : ℕ}
    (hbit : (font ((chars (V / t.cellHeight * t.cols + col)).toNat * t.cellH +
      V % t.cellHeight / t.drawScale)).toNat &&& 0x80 ≠ 0) :
    (t.inWhite font chars).pixel (col * t.cellWidth) V = white := by
  have hdiv : col * t.cellWidth / t.cellWidth = col := Nat.mul_div_cancel _ t.cellWidth_pos
  have hmod : col * t.cellWidth % t.cellWidth = 0 := Nat.mul_mod_left ..
  change (if InGlyph font t.cellH t.drawScale
    (chars (V / t.cellHeight * t.cols + col * t.cellWidth / t.cellWidth))
    (col * t.cellWidth % t.cellWidth) (V % t.cellHeight) then white else 0) = white
  rw [hdiv, hmod, if_pos]
  rw [InGlyph, Nat.zero_div]
  exact hbit

/-- The stores depend on the sizes only. -/
theorem Stores.of_inWhite {col row gy sy gx sx p : ℕ}
    (h : Stores (t.inWhite font chars) g xOff yOff col row gy sy gx sx p) :
    Stores t g xOff yOff col row gy sy gx sx p :=
  ⟨h.col_lt, h.row_lt, h.gy_lt, h.sy_lt, h.gx_lt, h.sx_lt, h.right, h.bottom, h.pos_eq⟩

theorem storedColor_inWhite {col row gy gx : ℕ}
    (hfont : font ((chars ((row * t.cols + col) % 2 ^ 32)).toNat * t.cellH % 2 ^ 32 + gy) = 0) :
    storedColor (t.inWhite font chars) g col row gy gx = 0 := by
  change (if (font ((chars ((row * t.cols + col) % 2 ^ 32)).toNat * t.cellH % 2 ^ 32 + gy)).toNat &&&
    (0x80 >>> gx) ≠ 0 then swizzle g white else swizzle g 0) = 0
  rw [hfont, swizzle_zero, if_neg]
  rw [not_not]
  exact Nat.zero_and _

/-- **A white pixel** on the left edge of a cell has been stored. -/
theorem exists_stores (hx : xOff + t.cols * t.cellWidth < 2 ^ 32)
    (hy : yOff + t.rows * t.cellHeight < 2 ^ 32) {col Y : ℕ}
    (hdrawn : TextDrawn (t.inWhite font chars) g xOff yOff (fun _ => 0)
      (gfxTextRender (t.inWhite font chars) g (fun _ => 0) xOff yOff))
    (hbox : InBox t g xOff yOff (xOff + col * t.cellWidth) Y)
    (hbit : (font ((chars ((Y - yOff) / t.cellHeight * t.cols + col)).toNat * t.cellH +
      (Y - yOff) % t.cellHeight / t.drawScale)).toNat &&& 0x80 ≠ 0) :
    ∃ col' row gy sy gx sx, Stores t g xOff yOff col' row gy sy gx sx
      (pos g.stridePx (xOff + col * t.cellWidth) Y) ∧
      storedColor (t.inWhite font chars) g col' row gy gx ≠ 0 := by
  by_contra hnone
  have hwhite := hdrawn.drawn _ _ ⟨hbox.width, hbox.height, hbox.left, hbox.right, hbox.top,
    hbox.bottom⟩
  rw [Nat.add_sub_cancel_left, pixel_inWhite hbit, swizzle_white,
    cell_gfxTextRender_black (t := t.inWhite font chars) hx hy] at hwhite
  · exact absurd hwhite (by decide)
  · intro col' row gy sy gx sx hstores
    by_contra hcolor
    exact hnone ⟨col', row, gy, sy, gx, sx, hstores.of_inWhite, hcolor⟩

/-! ## The indices -/

/-- The corner of a visible cell is a visible pixel in the box. -/
theorem GfxText.CellVisible.inBox {col row : ℕ} (h : t.CellVisible g xOff yOff col row) :
    InBox t g xOff yOff (xOff + col * t.cellWidth) (yOff + row * t.cellHeight) := by
  have hcx := cell_le (b := t.cellWidth) xOff h.col_lt
  have hcy := cell_le (b := t.cellHeight) yOff h.row_lt
  have hw := t.cellWidth_pos
  have hh : 0 < t.cellHeight := Nat.mul_pos h.cellH_pos t.drawScale_pos
  exact ⟨h.left, h.top, by omega, by omega, by omega, by omega⟩

/-- The height of a glyph is less than `2 ^ 32`. -/
theorem GfxText.CellVisible.cellH_lt {col row : ℕ} (h : t.CellVisible g xOff yOff col row)
    (hy : yOff + t.rows * t.cellHeight < 2 ^ 32) : t.cellH < 2 ^ 32 := by
  have hcy := cell_le (b := t.cellHeight) yOff h.row_lt
  have hle : t.cellH ≤ t.cellHeight := Nat.le_mul_of_pos_right _ t.drawScale_pos
  omega

section

variable (hx : xOff + t.cols * t.cellWidth < 2 ^ 32) (hy : yOff + t.rows * t.cellHeight < 2 ^ 32)
  (hdrawn : ∀ font chars, TextDrawn (t.inWhite font chars) g xOff yOff (fun _ => 0)
    (gfxTextRender (t.inWhite font chars) g (fun _ => 0) xOff yOff))

include hx hy hdrawn

/-- **The font**: a text of the last character, the only one that is not blank. -/
theorem glyphs_of_drawn {col row : ℕ} (hvis : t.CellVisible g xOff yOff col row) :
    255 * t.cellH < 2 ^ 32 := by
  by_contra hle
  rw [Nat.not_lt] at hle
  have hcellH := hvis.cellH_lt hy
  have hch : (255 : UInt8).toNat = 255 := rfl
  obtain ⟨col', row', gy, sy, gx, sx, hstores, hcolor⟩ := exists_stores hx hy
    (hdrawn (fun i => if 255 * t.cellH ≤ i then 0xFF else 0) fun _ => 255) hvis.inBox (by
      rw [hch, if_pos (Nat.le_add_right ..)]
      decide)
  refine hcolor (storedColor_inWhite (if_neg ?_))
  have hgy := hstores.gy_lt
  have hwrap : 0 < 255 * t.cellH / 2 ^ 32 := Nat.div_pos hle (Nat.two_pow_pos 32)
  rw [hch]
  omega

/-- **The characters**: all are blank but the one of the cell. -/
theorem cells_of_drawn {col row : ℕ} (hvis : t.CellVisible g xOff yOff col row) :
    row * t.cols + col < 2 ^ 32 := by
  by_contra hle
  rw [Nat.not_lt] at hle
  have hcellH := hvis.cellH_lt hy
  have hh : 0 < t.cellHeight := Nat.mul_pos hvis.cellH_pos t.drawScale_pos
  obtain ⟨col', row', gy, sy, gx, sx, hstores, hcolor⟩ := exists_stores hx hy
    (hdrawn (fun i => if t.cellH ≤ i then 0xFF else 0)
      fun i => if i = row * t.cols + col then 1 else 0) hvis.inBox (by
      have hone : (1 : UInt8).toNat = 1 := rfl
      rw [Nat.add_sub_cancel_left, Nat.mul_div_cancel _ hh, if_pos rfl, hone, Nat.one_mul,
        if_pos (Nat.le_add_right ..)]
      decide)
  refine hcolor (storedColor_inWhite ?_)
  have hgy := hstores.gy_lt
  have hmod := Nat.mod_lt (row' * t.cols + col') (Nat.two_pow_pos 32)
  have hoff : (row' * t.cols + col') % 2 ^ 32 ≠ row * t.cols + col := by omega
  have hzero : (0 : UInt8).toNat = 0 := rfl
  rw [if_neg hoff, hzero, Nat.zero_mul, Nat.zero_mod, Nat.zero_add, if_neg (Nat.not_le.2 hgy)]

/-- **The surface**: where the index of a line wraps, the line is stored elsewhere. What is stored in
its place is a line with a larger index, which wraps too, and so on. -/
theorem lines_of_drawn (hwidth : g.width ≤ g.stridePx) {col : ℕ} (hcol : col < t.cols)
    (hX : xOff + col * t.cellWidth < g.width) {Y : ℕ} (hle : yOff ≤ Y)
    (hlt : Y < yOff + t.rows * t.cellHeight) (hY : Y < g.height) :
    pos g.stridePx (xOff + col * t.cellWidth) Y < 2 ^ 32 := by
  by_contra hwrap
  obtain ⟨d, hd⟩ : ∃ d, g.stridePx * g.height - pos g.stridePx (xOff + col * t.cellWidth) Y = d :=
    ⟨_, rfl⟩
  induction d using Nat.strong_induction_on generalizing col Y with
  | _ d ih =>
    have hcx := cell_le (b := t.cellWidth) xOff hcol
    have hw := t.cellWidth_pos
    obtain ⟨col', row', gy, sy, gx, sx, hstores, -⟩ := exists_stores hx hy
      (hdrawn (fun _ => 0xFF) fun _ => 0) ⟨hX, hY, by omega, by omega, hle, hlt⟩ (by decide)
    obtain ⟨Y', px, hle', hlt', hY', hpx, hright, heq⟩ := hstores.exists_line
    have hX' : xOff + col' * t.cellWidth < g.width := Nat.lt_of_le_of_lt (Nat.le_add_right ..) hright
    by_cases hplace : pos g.stridePx (xOff + col' * t.cellWidth) Y' < 2 ^ 32
    · -- a line in its place covers the left edge of no other cell
      have hshift : pos g.stridePx (xOff + col' * t.cellWidth) Y' + px =
          pos g.stridePx (xOff + col' * t.cellWidth + px) Y' := Nat.add_assoc ..
      rw [Nat.mod_eq_of_lt hplace, hshift] at heq
      obtain ⟨hXeq, rfl⟩ := pos_inj (Nat.lt_of_lt_of_le hX hwidth) (Nat.lt_of_lt_of_le hright hwidth) heq
      have hcell : pos t.cellWidth 0 col = pos t.cellWidth px col' := by
        rw [pos, pos]
        omega
      obtain ⟨rfl, rfl⟩ := pos_inj hw hpx hcell
      exact hwrap hplace
    · have hend := pos_lt (Nat.lt_of_lt_of_le hX' hwidth) hY'
      have hquot : 0 < pos g.stridePx (xOff + col' * t.cellWidth) Y' / 2 ^ 32 :=
        Nat.div_pos (Nat.le_of_not_lt hplace) (Nat.two_pow_pos 32)
      exact ih _ (by omega) hstores.col_lt hX' hle' hlt' hY' hplace rfl

end

/-- **A text is drawn**, whatever its characters, its colours and its font are and whatever the memory
holds, if and only if no index wraps. -/
theorem textDrawn_iff (hbackend : g.backend ≠ .none) (hwidth : g.width ≤ g.stridePx)
    (hx : xOff + t.cols * t.cellWidth < 2 ^ 32) (hy : yOff + t.rows * t.cellHeight < 2 ^ 32) :
    (∀ t', t.SameSizes t' → ∀ mem,
      TextDrawn t' g xOff yOff mem (gfxTextRender t' g mem xOff yOff)) ↔
      t.IndicesFit g xOff yOff := by
  constructor
  · intro hall
    have hdrawn := fun font chars =>
      hall (t.inWhite font chars) GfxText.sameSizes_inWhite fun _ => 0
    exact ⟨fun col hcol hX Y hle hlt hY => lines_of_drawn hx hy hdrawn hwidth hcol hX hle hlt hY,
      fun col row hvis => cells_of_drawn hx hy hdrawn hvis,
      fun col row hvis => glyphs_of_drawn hx hy hdrawn hvis⟩
  · intro hfit t' ht' mem
    refine (ht'.indicesFit hfit).textDrawn hbackend hwidth ?_ ?_ mem
    · rw [ht'.cols, ht'.cellWidth]
      exact hx
    · rw [ht'.rows, ht'.cellHeight]
      exact hy

end

/-- A text of one cell, a white line of eight pixels. -/
def dashText : GfxText := ⟨1, 1, 1, 1, fun _ => 0xFF, fun _ => 0x20, none, white, 0, none⟩

/-- A surface of six by two pixels, in rows of eight. -/
def narrowSurface : Gfx := ⟨0x1000, 6, 2, 8, .simplefb, .xbgr8888⟩

/-- A dash that goes over the right edge. -/
theorem textDrawn_iff_dash : TextDrawn dashText narrowSurface 3 1 (fun _ => 0)
    (gfxTextRender dashText narrowSurface (fun _ => 0) 3 1) := by
  have hsized : dashText.Sized := ⟨by decide, by decide, by decide, by decide, by decide⟩
  have hf : Fits narrowSurface 64 := ⟨by decide, by decide⟩
  have hfit : dashText.IndicesFit narrowSurface 3 1 := hsized.indicesFit hf (by decide)
  exact (textDrawn_iff (by decide) (by decide) (by decide) (by decide)).2 hfit dashText
    ⟨rfl, rfl, rfl, rfl⟩ fun _ => 0

/-- A surface whose mode `virtio_gpu_init_fdt` accepts. -/
def wideSurface : Gfx := ⟨0x1000, 131072, 65536, 131072, .virtioGpu, .xrgb8888⟩

/-- **A dash that wraps**: in row 32768 of the surface it is drawn to row 0. -/
theorem dash_wraps :
    wideSurface.width ≤ wideSurface.stridePx ∧ 0 + dashText.cols * dashText.cellWidth < 2 ^ 32 ∧
      32768 + dashText.rows * dashText.cellHeight < 2 ^ 32 ∧
      cell 4 (gfxTextRender dashText wideSurface (fun _ => 0) 0 32768) 0x1000 0 = leBytes 4 white ∧
      ¬ TextDrawn dashText wideSurface 0 32768 (fun _ => 0)
        (gfxTextRender dashText wideSurface (fun _ => 0) 0 32768) := by
  refine ⟨by decide, by decide, by decide, by decide, fun hdrawn => ?_⟩
  have hwhite := hdrawn.drawn 0 32768 ⟨by decide, by decide, by decide, by decide, by decide, by decide⟩
  rw [cell_gfxTextRender_black (by decide) (by decide)] at hwhite
  · exact absurd hwhite (by decide)
  · intro col row gy sy gx sx hstores
    obtain ⟨Y, px, hle, hlt, -, hpx, -, heq⟩ := hstores.exists_line
    obtain rfl : col = 0 := Nat.lt_one_iff.1 hstores.col_lt
    obtain rfl : Y = 32768 := Nat.le_antisymm (Nat.lt_succ_iff.1 hlt) hle
    have hzero : pos wideSurface.stridePx (0 + 0 * dashText.cellWidth) 32768 % 2 ^ 32 = 0 := by decide
    have hwide : pos wideSurface.stridePx 0 32768 = 2 ^ 32 := by decide
    have hpx : px < 8 := hpx
    omega

end RvvmHal.Graphics
