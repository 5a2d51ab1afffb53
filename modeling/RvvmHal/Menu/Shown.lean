import RvvmHal.Graphics.PageFlip
import RvvmHal.Menu.Render

/-!
# Whether a menu is shown

`render_gfx` ends with `gfx_text_render`, which stores pixels in the memory of the surface and
leaves it there: no `gfx_present`, no `gfx_flip`. So while `ui_menu_run` waits for a key, the menu
is shown where the display shows this memory, on a simple framebuffer and on a Bochs display without
double buffering. A virtio display goes on showing its resource and a double-buffered Bochs display
its front buffer, which both stay as they were when the menu was called (`menu_shown`,
`menu_not_shown`).
-/

namespace RvvmHal.Menu

open Bytes CString DeviceTree Graphics Raster Virtio

/-! ## The memory in a run -/

/-- The pixel of a menu in the text grid. -/
def menuPixel (t : GfxText) (menu : UiMenu) : ℕ → ℕ → ℕ :=
  t.picture (menuGrid t.rows menu) fun _ _ => t.attrs.map fun _ => 0

/-- What holds during a run: the memory outside the surface is as before, and it has the pixels of
the menu when the run waits for a key. -/
structure Running (g : Gfx) (t₀ : GfxText) (m₀ : Mem) (r : MenuRun) : Prop where
  enabled : r.ui.gfxEnabled = true
  gfx : r.ui.gfx = g
  text : ∃ t, r.ui.text = some t ∧ SameGrid t₀ t
  outside : ∀ a, a < g.vram ∨ g.vram + 4 * (g.stridePx * g.height) ≤ a → r.mem a = m₀ a
  drawn : r.pc = .wait → ∀ X Y, X < t₀.cols * t₀.cellWidth → Y < t₀.rows * t₀.cellHeight →
    X < g.width → Y < g.height →
    cell 4 r.mem g.vram (pos g.stridePx X Y) = leBytes 4 (swizzle g (menuPixel t₀ r.menu X Y))

section

variable {g : Gfx} {t₀ t : GfxText} {m₀ mem mem' : Mem} {u u' : Ui} {menu : UiMenu} {r r' : MenuRun}
  {bytes : ℕ}

/-- **Drawing a menu** paints its pixels, and nothing outside the surface. -/
theorem renderMenu_spec (hbackend : g.backend ≠ .none) (hf : Fits g bytes) (hbytes : bytes ≤ 2 ^ 34)
    (ht₀ : t₀.Sized) (hu : u.gfxEnabled = true) (hg : u.gfx = g) (hsome : u.text = some t)
    (ht : SameGrid t₀ t) (hrun : renderMenu u menu mem = some (u', mem')) :
    u'.gfxEnabled = true ∧ u'.gfx = g ∧ (∃ t', u'.text = some t' ∧ SameGrid t₀ t') ∧
      (∀ a, a < g.vram ∨ g.vram + 4 * (g.stridePx * g.height) ≤ a → mem' a = mem a) ∧
      ∀ X Y, X < t₀.cols * t₀.cellWidth → Y < t₀.rows * t₀.cellHeight → X < g.width →
        Y < g.height →
        cell 4 mem' g.vram (pos g.stridePx X Y) = leBytes 4 (swizzle g (menuPixel t₀ menu X Y)) := by
  rw [renderMenu, if_pos hu, renderGfx, hu, hsome] at hrun
  obtain ⟨t', hput, heq⟩ := Option.map_eq_some_iff.1 hrun
  obtain ⟨rfl, rfl⟩ := Prod.mk.inj heq
  have hholds := putMenu_holds ht ht₀ hput
  have hsized := hholds.sized ht₀
  have hwidth : 0 + t'.cols * t'.cellWidth < 2 ^ 32 := by
    rw [Nat.zero_add]
    exact hsized.width
  have hheight : 0 + t'.rows * t'.cellHeight < 2 ^ 32 := by
    rw [Nat.zero_add]
    exact hsized.height
  have hpaint := gfxTextRender_eq hbackend hf hbytes hsized hwidth hheight mem
  rw [hg, hpaint]
  refine ⟨rfl, rfl, ⟨t', rfl, hholds.toSameGrid⟩, fun a ha => ?_, fun X Y hX hY hXw hYh => ?_⟩
  · rcases ha with ha | ha
    · exact paint_of_lt ha
    · refine paint_of_le (by omega) (fun i hi => ?_) ha
      exact rect_subset_Iio (by rw [Nat.zero_add]; exact hf.width_le)
        (Nat.le_of_eq (Nat.zero_add _)) hi.2
  · have hstride := Nat.lt_of_lt_of_le hXw hf.width_le
    rw [cell_paint_of_mem _ (by rw [textCell, length_leBytes]), textCell, pos_mod hstride,
      pos_div hstride, Nat.sub_zero, Nat.sub_zero, hholds.pixel_eq hX hY]
    · rfl
    · rw [hholds.cols_eq, hholds.rows_eq, hholds.cellWidth_eq, hholds.cellHeight_eq]
      exact ⟨(pos_mem_rect hstride).2 (by omega), (pos_mem_rect hstride).2 (by omega)⟩

/-- **Every step** of a run keeps it so. -/
theorem Running.step (hbackend : g.backend ≠ .none) (hf : Fits g bytes) (hbytes : bytes ≤ 2 ^ 34)
    (ht₀ : t₀.Sized) {e : MenuEvent} (h : Running g t₀ m₀ r)
    (hstep : (uiMenuRun u menu mem).step e r = some r') : Running g t₀ m₀ r' := by
  cases e with
  | draw =>
    simp only [uiMenuRun] at hstep
    split at hstep
    next hpc =>
      obtain ⟨⟨u', mem'⟩, hrender, rfl⟩ := Option.map_eq_some_iff.1 hstep
      obtain ⟨t, hsome, ht⟩ := h.text
      obtain ⟨hu, hg, htext, hout, hpix⟩ :=
        renderMenu_spec hbackend hf hbytes ht₀ h.enabled h.gfx hsome ht hrender
      exact ⟨hu, hg, htext, fun a ha => (hout a ha).trans (h.outside a ha), fun _ => hpix⟩
    next => cases hstep
  | key k =>
    simp only [uiMenuRun] at hstep
    split at hstep
    next hpc =>
      split at hstep
      next menu' _ =>
        obtain rfl := Option.some.inj hstep
        exact ⟨h.enabled, h.gfx, h.text, h.outside, fun hwait => by cases hwait⟩
      next id _ =>
        obtain rfl := Option.some.inj hstep
        exact ⟨h.enabled, h.gfx, h.text, h.outside, fun hwait => by cases hwait⟩
    next => cases hstep

/-- **In every state of a run**, as long as it lasts. -/
theorem Running.reachable (hbackend : g.backend ≠ .none) (hf : Fits g bytes)
    (hbytes : bytes ≤ 2 ^ 34) (ht₀ : t₀.Sized)
    (hreach : (uiMenuRun (uiInitGfx u g t₀) menu m₀).Reachable r) : Running g t₀ m₀ r := by
  refine hreach.invariant (I := Running g t₀ m₀) ?_
    fun hI _ hs => hI.step hbackend hf hbytes ht₀ hs
  have hgrid : SameGrid t₀ t₀ := ⟨rfl, rfl⟩
  simp only [uiMenuRun, menuStart]
  split
  · exact ⟨rfl, rfl, ⟨t₀, rfl, hgrid⟩, fun _ _ => rfl, fun hwait => by cases hwait⟩
  · exact ⟨rfl, rfl, ⟨t₀, rfl, hgrid⟩, fun _ _ => rfl, fun hwait => by cases hwait⟩

end

/-! ## What the display shows -/

section

variable {δ : Type*}

/-- A pixel that the host shows: of the resource of a virtio display, whose pixels `host` reads, of
the rows from the offset register on in the memory of a Bochs display, and otherwise of the surface.
-/
def shownPixel (host : δ → ℕ → ℕ → List UInt8) (g : Gfx) (s : GfxSys δ) (i j : ℕ) : List UInt8 :=
  match g.backend with
  | .bochs => cell 4 s.mem s.bd.vramBase (pos s.bd.stridePx i (s.bochsReg 0x0512 + j))
  | .virtioGpu => host s.vgpu.dev i j
  | _ => guestPixel g s i j

/-- Inside the area of the text grid the host shows the menu. -/
def MenuShown (host : δ → ℕ → ℕ → List UInt8) (g : Gfx) (s : GfxSys δ) (t : GfxText)
    (menu : UiMenu) : Prop :=
  ∀ X Y, X < t.cols * t.cellWidth → Y < t.rows * t.cellHeight → X < g.width → Y < g.height →
    shownPixel host g s X Y = leBytes 4 (swizzle g (menuPixel t menu X Y))

/-- The host shows the memory that is drawn to. -/
def Direct (g : Gfx) (s : GfxSys δ) : Prop :=
  g.backend = .simplefb ∨ g.backend = .bochs ∧ s.bd.doubleBuffered = false

variable {device : GpuDevice δ} {env : GpuEnv} {g g' : Gfx} {s s' : GfxSys δ} {board : GpuBoard δ}
  {fdt : Fdt} {depth w h : ℕ} {g₀ : Gfx} {s₀ : GfxSys δ}

/-! ## The menu and the display -/

variable {host : δ → ℕ → ℕ → List UInt8} {t : GfxText} {u : Ui} {menu : UiMenu} {r : MenuRun}
  {bytes : ℕ}

/-- **A direct display shows what is drawn.** -/
theorem shownPixel_of_direct (h : Screen g s) (hd : Direct g s) (mem : Mem) {X Y : ℕ} :
    shownPixel host g (s.withMem mem) X Y = cell 4 mem g.vram (pos g.stridePx X Y) := by
  rcases hd with hsimple | ⟨hbochs, hsingle⟩
  · simp only [shownPixel, hsimple]
    rfl
  · have hb := h.bochs hbochs
    obtain ⟨hback, hreg⟩ := hb.single hsingle
    have hvram := hb.vram
    rw [hback, Nat.mul_zero, Nat.mul_zero, Nat.add_zero] at hvram
    simp only [shownPixel, hbochs]
    change cell 4 mem s.bd.vramBase (pos s.bd.stridePx X (s.bochsReg 0x0512 + Y)) = _
    rw [hreg, Nat.zero_add, hb.stride, hb.drawn, hvram]

/-- **An indirect display does not**: what it shows is elsewhere. -/
theorem shownPixel_of_not_direct (h : Screen g s) (hd : ¬ Direct g s) {mem : Mem}
    (hout : ∀ a, a < g.vram ∨ g.vram + 4 * (g.stridePx * g.height) ≤ a → mem a = s.mem a)
    (hwidth : g.width ≤ g.stridePx) {X Y : ℕ} (hX : X < g.width) (hY : Y < g.height) :
    shownPixel host g (s.withMem mem) X Y = shownPixel host g s X Y := by
  cases hbackend : g.backend with
  | none => exact absurd hbackend h.backend
  | simplefb => exact absurd (.inl hbackend) hd
  | virtioGpu =>
    simp only [shownPixel, hbackend]
    rfl
  | bochs =>
    have hb := h.bochs hbackend
    have hdouble : s.bd.doubleBuffered = true := by
      cases hbuf : s.bd.doubleBuffered with
      | true => rfl
      | false => exact absurd (.inr ⟨hbackend, hbuf⟩) hd
    have hpos := pos_lt (Nat.lt_of_lt_of_le hX hwidth) hY
    have hvram := hb.drawn.trans hb.vram
    simp only [shownPixel, hbackend]
    change cell 4 mem s.bd.vramBase (pos s.bd.stridePx X (s.bochsReg 0x0512 + Y)) = _
    rw [hb.stride, Nat.add_comm _ Y, pos_add]
    refine readBytes_congr _ fun a hle hlt => hout a ?_
    rcases hb.double hdouble with ⟨hback, hreg⟩ | ⟨hback, hreg⟩
    · rw [hreg, Nat.mul_comm g.height] at hle
      rw [hback, Nat.mul_zero, Nat.mul_zero, Nat.add_zero] at hvram
      exact .inr (by omega)
    · rw [hreg, Nat.zero_mul, Nat.add_zero] at hlt
      rw [hback] at hvram
      exact .inl (by omega)

/-- **Whether a menu is shown**: on a surface that was brought up, after anything a program has done
with it, whenever `ui_menu_run` waits for a key, the host shows the menu in the area of the text
grid if and only if it shows the memory that is drawn to, or showed this very picture before the
menu was called. -/
theorem menu_shown (hinit : gfxInitFdt board env depth fdt g₀ s₀ w h = some (true, g', s'))
    (hmode : g'.backend = .bochs → g'.height < 2 ^ 16) (hf : Fits g' bytes) (hbytes : bytes ≤ 2 ^ 34)
    (hsession : (session board.device g' s').Reachable (g, s)) (ht : t.Sized)
    (hrun : (uiMenuRun (uiInitGfx u g t) menu s.mem).Reachable r) (hwait : r.pc = .wait) :
    MenuShown host g (s.withMem r.mem) t r.menu ↔
      Direct g s ∨ MenuShown host g s t r.menu := by
  have hin := InSession.reachable (screen_of_init hinit hmode) hsession
  have hfits : Fits g bytes := by
    refine ⟨?_, ?_⟩
    · rw [hin.width, hin.stride]
      exact hf.width_le
    · rw [hin.height, hin.stride]
      exact hf.size_le
  have hrunning := Running.reachable hin.screen.backend hfits hbytes ht hrun
  by_cases hd : Direct g s
  · refine iff_of_true (fun X Y hX hY hXw hYh => ?_) (.inl hd)
    rw [shownPixel_of_direct hin.screen hd]
    exact hrunning.drawn hwait X Y hX hY hXw hYh
  · have hsame : ∀ X Y, X < g.width → Y < g.height →
        shownPixel host g (s.withMem r.mem) X Y = shownPixel host g s X Y := fun X Y hX hY =>
      shownPixel_of_not_direct hin.screen hd hrunning.outside hfits.width_le hX hY
    rw [or_iff_right hd]
    constructor
    · intro hshown X Y hX hY hXw hYh
      rw [← hsame X Y hXw hYh]
      exact hshown X Y hX hY hXw hYh
    · intro hshown X Y hX hY hXw hYh
      rw [hsame X Y hXw hYh]
      exact hshown X Y hX hY hXw hYh

end

/-! ## Two displays -/

/-- A grid of three cells, in a font whose glyphs are all white. -/
def whiteText : GfxText where
  cols := 3
  rows := 1
  cellH := 1
  scale := 1
  font _ := 0xFF
  chars _ := 0
  attrs := none
  fg := 0xFFFFFF
  bg := 0
  attrDecode := none

theorem sized_whiteText : whiteText.Sized :=
  ⟨by norm_num [whiteText], by norm_num [whiteText, GfxText.cellWidth, GfxText.drawScale],
    by norm_num [whiteText, GfxText.cellHeight, GfxText.drawScale], by norm_num [whiteText],
    by norm_num [whiteText]⟩

theorem one_lt_word : [UiItem.mk none 0 false none].length < 2 ^ 32 :=
  Nat.one_lt_two_pow (by omega)

/-- A menu with one item. -/
def okMenu : UiMenu := ⟨none, [⟨none, 0, false, none⟩], 0, one_lt_word⟩

/-- The run on a surface that draws it and waits. -/
theorem okMenu_waits (u : Ui) (g : Gfx) (mem : Mem) :
    ∃ r, (uiMenuRun (uiInitGfx u g whiteText) okMenu mem).Reachable r ∧ r.pc = .wait ∧
      r.menu = okMenu := by
  refine ⟨_, .step (a := .draw) .init trivial rfl, rfl, rfl⟩

theorem menuPixel_okMenu : menuPixel whiteText okMenu 0 0 = 0xFFFFFF := by decide +kernel

/-- The display of a Bochs surface is direct, and shows the menu. -/
theorem menu_shown_bochs :
    ∃ s₁ r, gfxInitFdt blankBoard ⟨0, []⟩ 1 blankFdt blankSurface bochsSys 640 400 =
        some (true, bochsSurface 640 400, s₁) ∧
      (uiMenuRun (uiInitGfx ⟨false, blankSurface, none⟩ (bochsSurface 640 400) whiteText) okMenu
        s₁.mem).Reachable r ∧
      r.pc = .wait ∧
      (MenuShown (fun _ _ _ => []) (bochsSurface 640 400) (s₁.withMem r.mem) whiteText r.menu ↔
        Direct (bochsSurface 640 400) s₁ ∨
          MenuShown (fun _ _ _ => []) (bochsSurface 640 400) s₁ whiteText r.menu) := by
  obtain ⟨⟨s₁, hinit⟩, -⟩ := bochs_accepts 640 400 (.inl ⟨rfl, rfl⟩)
  obtain ⟨r, hrun, hwait, -⟩ := okMenu_waits ⟨false, blankSurface, none⟩ (bochsSurface 640 400) s₁.mem
  have hf : Fits (bochsSurface 640 400) (2 ^ 34) :=
    ⟨Nat.le_refl _, by norm_num [bochsSurface]⟩
  exact ⟨s₁, r, hinit, hrun, hwait, menu_shown hinit (fun _ => by norm_num [bochsSurface]) hf
    (Nat.le_refl _) .init sized_whiteText hrun hwait⟩

/-- **A menu that is not shown**: on a virtio display the run waits for a key, and the first pixel
of the host is still black. -/
theorem menu_not_shown :
    ∃ g s₁ r, gfxInitFdt copyBoard ⟨1, []⟩ 1 virtioBlob blankSurface copySys 8 8 =
        some (true, g, s₁) ∧
      (uiMenuRun (uiInitGfx ⟨false, blankSurface, none⟩ g whiteText) okMenu s₁.mem).Reachable r ∧
      r.pc = .wait ∧
      ¬ MenuShown (fun dev => dev.1.pixel) g (s₁.withMem r.mem) whiteText r.menu := by
  have hpixel : (gfxInitFdt copyBoard ⟨1, []⟩ 1 virtioBlob blankSurface copySys 8 8).map
      (fun p => (p.1, p.2.1, p.2.2.vgpu.dev.1.pixel 0 0)) =
      some (true, ⟨0x400000, 8, 8, 8, .virtioGpu, .xrgb8888⟩, [0, 0, 0, 0]) := by
    decide +kernel
  obtain ⟨⟨ok, g, s₁⟩, hinit, heq⟩ := Option.map_eq_some_iff.1 hpixel
  simp only [Prod.mk.injEq] at heq
  obtain ⟨rfl, rfl, hblack⟩ := heq
  obtain ⟨r, hrun, hwait, hmenu⟩ := okMenu_waits ⟨false, blankSurface, none⟩
    ⟨0x400000, 8, 8, 8, .virtioGpu, .xrgb8888⟩ s₁.mem
  refine ⟨_, s₁, r, hinit, hrun, hwait, fun hshown => ?_⟩
  have hwhite : s₁.vgpu.dev.1.pixel 0 0 = leBytes 4 (swizzle
      ⟨0x400000, 8, 8, 8, .virtioGpu, .xrgb8888⟩ (menuPixel whiteText r.menu 0 0)) :=
    hshown 0 0 (by decide) (by decide) (by decide) (by decide)
  rw [hmenu, menuPixel_okMenu, hblack] at hwhite
  revert hwhite
  decide

end RvvmHal.Menu
