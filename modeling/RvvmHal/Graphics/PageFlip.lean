import Mathlib.Order.CompletePartialOrder
import RvvmHal.Graphics.Display

/-!
# Sessions and page flips

What a program does with a surface that was brought up is a session: it draws, flips, asks for
double buffering, and stores to memory. On a Bochs display with double buffering the video memory
is one surface of twice the height. The display shows the half that begins at the row in a register,
and the program draws to the other one, which three copies of a pointer and a row number have to
agree on: they do in every session (`page_flip`).
-/

namespace RvvmHal.Graphics

open Bytes DeviceTree Virtio

section

variable {δ : Type*}

/-! ## Sessions -/

/-- The two buffers of a Bochs display. -/
structure BochsBuffers (g : Gfx) (s : GfxSys δ) : Prop where
  stride : s.bd.stridePx = g.stridePx
  height : s.bd.height = g.height
  height_lt : g.height < 2 ^ 16
  vram : s.bd.vram = s.bd.vramBase + 4 * (g.stridePx * s.bd.backOffRows)
  drawn : g.vram = s.bd.vram
  single : s.bd.doubleBuffered = false → s.bd.backOffRows = 0 ∧ s.bochsReg 0x0512 = 0
  double : s.bd.doubleBuffered = true →
    s.bd.backOffRows = 0 ∧ s.bochsReg 0x0512 = g.height ∨
      s.bd.backOffRows = g.height ∧ s.bochsReg 0x0512 = 0

/-- A surface that was brought up. -/
structure Screen (g : Gfx) (s : GfxSys δ) : Prop where
  backend : g.backend ≠ .none
  bochs : g.backend = .bochs → BochsBuffers g s

/-- What a program does with a surface: it draws with a call, flips, asks for double buffering, or
stores to memory. -/
inductive SurfaceCall
  | draw (env : GpuEnv) (call : GfxCall)
  | flip (env : GpuEnv)
  | enableDoubleBuffer
  | store (mem : Mem)

/-- All a program does with a surface. -/
def session (device : GpuDevice δ) (g : Gfx) (s : GfxSys δ) :
    Machine (Gfx × GfxSys δ) SurfaceCall where
  init := (g, s)
  step
    | .draw env call, (g, s) => (gfxCall device env g s call).map fun s => (g, s)
    | .flip env, (g, s) => gfxFlip device env g s
    | .enableDoubleBuffer, (g, s) => some (gfxEnableDoubleBuffer g s).2
    | .store mem, (g, s) => some (g, s.withMem mem)

variable {device : GpuDevice δ} {env : GpuEnv} {g g' : Gfx} {s s' : GfxSys δ}

theorem gfxPresent_bochs {x y w h : ℕ} (hrun : gfxPresent device env g s x y w h = some s') :
    s'.bd = s.bd ∧ s'.bochsReg = s.bochsReg ∧ s'.bdActive = s.bdActive := by
  unfold gfxPresent at hrun
  split at hrun
  · obtain rfl := Option.some.inj hrun
    exact ⟨rfl, rfl, rfl⟩
  · obtain ⟨-, -, rfl⟩ := Option.map_eq_some_iff.1 hrun
    exact ⟨rfl, rfl, rfl⟩

/-- Drawing leaves the registers of a Bochs display alone. -/
theorem gfxCall_bochs {call : GfxCall} (hrun : gfxCall device env g s call = some s') :
    s'.bd = s.bd ∧ s'.bochsReg = s.bochsReg ∧ s'.bdActive = s.bdActive := by
  cases call with
  | pixel x y color =>
    obtain rfl := Option.some.inj hrun
    exact ⟨rfl, rfl, rfl⟩
  | fill color =>
    simp only [gfxCall, gfxFill] at hrun
    split at hrun
    · obtain rfl := Option.some.inj hrun
      exact ⟨rfl, rfl, rfl⟩
    · have hbochs := gfxPresent_bochs hrun
      exact hbochs
  | rect x y w h color =>
    simp only [gfxCall, gfxRect] at hrun
    split at hrun
    · obtain rfl := Option.some.inj hrun
      exact ⟨rfl, rfl, rfl⟩
    · split at hrun
      · obtain rfl := Option.some.inj hrun
        exact ⟨rfl, rfl, rfl⟩
      · have hbochs := gfxPresent_bochs hrun
        exact hbochs
  | present x y w h => exact gfxPresent_bochs hrun

theorem BochsBuffers.congr (h : BochsBuffers g s) (hbd : s'.bd = s.bd)
    (hreg : s'.bochsReg = s.bochsReg) : BochsBuffers g s' := by
  obtain ⟨hstride, hheight, hlt, hvram, hdrawn, hsingle, hdouble⟩ := h
  rw [← hbd] at hstride hheight hvram hdrawn hsingle hdouble
  rw [← hreg] at hsingle hdouble
  exact ⟨hstride, hheight, hlt, hvram, hdrawn, hsingle, hdouble⟩

/-- What a flip does: on a Bochs display with two buffers it swaps them, and on a virtio display it
presents the surface. -/
theorem gfxFlip_cases (hrun : gfxFlip device env g s = some (g', s')) :
    (g.backend = .bochs ∧ s.bd.doubleBuffered = true ∧
      g' = { g with vram := (bochsFlip s).bd.vram } ∧ s' = bochsFlip s) ∨
    g' = g ∧ (s' = s ∨ g.backend = .virtioGpu ∧ ∃ vg, s' = { s with vgpu := vg }) := by
  unfold gfxFlip at hrun
  split at hrun
  next hbackend =>
    split at hrun
    next hactive =>
      obtain ⟨rfl, rfl⟩ := Prod.mk.inj (Option.some.inj hrun)
      exact .inl ⟨hbackend, hactive.2, rfl, rfl⟩
    next =>
      obtain ⟨rfl, rfl⟩ := Prod.mk.inj (Option.some.inj hrun)
      exact .inr ⟨rfl, .inl rfl⟩
  next hbackend =>
    split at hrun
    next =>
      obtain ⟨p, -, heq⟩ := Option.map_eq_some_iff.1 hrun
      obtain ⟨rfl, rfl⟩ := Prod.mk.inj heq
      exact .inr ⟨rfl, .inr ⟨hbackend, p.2, rfl⟩⟩
    next =>
      obtain ⟨rfl, rfl⟩ := Prod.mk.inj (Option.some.inj hrun)
      exact .inr ⟨rfl, .inl rfl⟩
  next =>
    obtain ⟨rfl, rfl⟩ := Prod.mk.inj (Option.some.inj hrun)
    exact .inr ⟨rfl, .inl rfl⟩

theorem bochsFlip_eq (hdouble : s.bd.doubleBuffered = true) : bochsFlip s =
    let backOffRows := if s.bd.backOffRows ≠ 0 then 0 else s.bd.height
    { s with
      bochsReg := w16 s.bochsReg 0x0512 s.bd.backOffRows
      bd := { s.bd with
        backOffRows := backOffRows
        vram := s.bd.vramBase + 4 * (s.bd.stridePx * backOffRows) } } := by
  simp [bochsFlip, hdouble]

theorem BochsBuffers.flip (hb : BochsBuffers g s) (hdouble : s.bd.doubleBuffered = true) :
    BochsBuffers { g with vram := (bochsFlip s).bd.vram } (bochsFlip s) := by
  have hheight := hb.height
  have hlt := hb.height_lt
  rw [bochsFlip_eq hdouble]
  refine ⟨hb.stride, hb.height, hb.height_lt, ?_, rfl, fun hsingle => ?_, fun _ => ?_⟩
  · dsimp only
    rw [hb.stride]
  · cases hdouble.symm.trans hsingle
  · dsimp only
    rw [w16, Function.update_self]
    rcases hb.double hdouble with ⟨hback, -⟩ | ⟨hback, -⟩
    · refine .inr ⟨?_, by rw [hback]; rfl⟩
      rw [if_neg (by omega), hheight]
    · by_cases hzero : g.height = 0
      · refine .inr ⟨?_, by rw [hback, hzero]; rfl⟩
        rw [if_neg (by omega), hheight]
      · refine .inl ⟨if_pos (by omega), ?_⟩
        rw [hback, Nat.mod_eq_of_lt hlt]

/-- **Flipping** swaps the two buffers. -/
theorem Screen.flip (h : Screen g s) (hrun : gfxFlip device env g s = some (g', s')) :
    Screen g' s' ∧ g'.backend = g.backend := by
  rcases gfxFlip_cases hrun with ⟨hbackend, hdouble, rfl, rfl⟩ | ⟨rfl, rfl | ⟨hbackend, vg, rfl⟩⟩
  · exact ⟨⟨h.backend, fun hb => (h.bochs hb).flip hdouble⟩, rfl⟩
  · exact ⟨h, rfl⟩
  · refine ⟨⟨h.backend, fun hb => ?_⟩, rfl⟩
    rw [hbackend] at hb
    cases hb

/-- **Double buffering** shows the one buffer and draws to the other. -/
theorem Screen.enableDoubleBuffer (h : Screen g s) :
    Screen (gfxEnableDoubleBuffer g s).2.1 (gfxEnableDoubleBuffer g s).2.2 ∧
      (gfxEnableDoubleBuffer g s).2.1.backend = g.backend := by
  unfold gfxEnableDoubleBuffer
  split
  next hbackend =>
    have hb := h.bochs hbackend
    split
    next => exact ⟨h, rfl⟩
    next =>
      unfold bochsEnableDoubleBuffer
      dsimp only
      split
      next hdouble =>
        refine ⟨⟨h.backend, fun _ => ?_⟩, rfl⟩
        exact ⟨hb.stride, hb.height, hb.height_lt, hb.vram, rfl, hb.single, hb.double⟩
      next hdouble =>
        split
        next => exact ⟨h, rfl⟩
        next =>
          have hreg : w16 (w16 s.bochsReg 0x050E (s.bd.height * 2)) 0x0512 0 0x0512 = 0 := by
            rw [w16, Function.update_self, Nat.zero_mod]
          simp only [if_true]
          refine ⟨⟨h.backend, fun _ => ?_⟩, trivial⟩
          refine ⟨hb.stride, hb.height, hb.height_lt, ?_, rfl, fun hfalse => (by cases hfalse),
            fun _ => .inr ⟨hb.height, hreg⟩⟩
          simp only [hb.stride]
  next => exact ⟨h, rfl⟩
  next => exact ⟨h, rfl⟩

variable {board : GpuBoard δ} {fdt : Fdt} {depth w h : ℕ} {g₀ : Gfx} {s₀ : GfxSys δ}

/-- What the probe of the PCI bus leaves behind. -/
theorem gfxBochsInit_spec (hrun : gfxBochsInit depth g₀ s₀ w h = some (true, g, s)) :
    g.backend = .bochs ∧ s.bdActive = true ∧ s.bd.doubleBuffered = false ∧ s.bd.stridePx = w ∧
      s.bd.height = h ∧ g.stridePx = w ∧ g.height = h ∧ g.vram = s.bd.vram ∧
      s.bd.vram = s.bd.vramBase ∧ s.bd.backOffRows = 0 ∧ s.bochsReg 0x0512 = 0 := by
  obtain ⟨pf, hpf, hbochs⟩ := Option.bind_eq_some_iff.1 hrun
  cases pf with
  | none => cases hbochs
  | some pf =>
    obtain ⟨⟨ok, s₂⟩, hinit, hbochs⟩ := Option.map_eq_some_iff.1 hbochs
    rw [bochsInit, hpf, Option.map_some, Option.some.injEq] at hinit
    dsimp only at hinit
    cases ok with
    | false => cases hbochs
    | true =>
      split at hinit
      · cases hinit
      · split at hinit
        · cases hinit
        · obtain ⟨-, rfl⟩ := Prod.mk.inj hinit
          cases hbochs
          exact ⟨rfl, rfl, rfl, rfl, rfl, rfl, rfl, rfl, rfl, rfl, rfl⟩

/-- **A Bochs display that was brought up** shows the one buffer that it draws to. -/
theorem bochsBuffers_of_init (hrun : gfxBochsInit depth g₀ s₀ w h = some (true, g, s))
    (hmode : h < 2 ^ 16) : BochsBuffers g s := by
  obtain ⟨-, -, hsingle, hstride, hheight, hgstride, hgheight, hdrawn, hvram, hback, hreg⟩ :=
    gfxBochsInit_spec hrun
  constructor
  · rw [hstride, hgstride]
  · rw [hheight, hgheight]
  · rwa [hgheight]
  · rw [hvram, hback, Nat.mul_zero, Nat.mul_zero, Nat.add_zero]
  · exact hdrawn
  · exact fun _ => ⟨hback, hreg⟩
  · intro hdouble
    rw [hsingle] at hdouble
    cases hdouble

/-- **A surface that was brought up** is a screen. -/
theorem screen_of_init (hrun : gfxInitFdt board env depth fdt g₀ s₀ w h = some (true, g, s))
    (hmode : g.backend = .bochs → g.height < 2 ^ 16) : Screen g s := by
  obtain ⟨⟨ok₁, g₁, s₁⟩, hbochs, hrun⟩ := Option.bind_eq_some_iff.1 hrun
  cases ok₁ with
  | true =>
    cases hrun
    obtain ⟨hbackend, -, -, -, -, -, hheight, -⟩ := gfxBochsInit_spec hbochs
    refine ⟨fun hnone => ?_, fun _ => bochsBuffers_of_init hbochs (hheight ▸ hmode hbackend)⟩
    rw [hbackend] at hnone
    cases hnone
  | false =>
    obtain ⟨⟨ok₂, g₂⟩, hsimple, hrun⟩ := Option.bind_eq_some_iff.1 hrun
    have hother : ∀ {g : Gfx}, g.backend ≠ .none → g.backend ≠ .bochs →
        ∀ s : GfxSys δ, Screen g s :=
      fun hnone hne _ => ⟨hnone, fun hb => absurd hb hne⟩
    cases ok₂ with
    | true =>
      cases hrun
      obtain ⟨node, hnode, hsurface⟩ := Option.map_eq_some_iff.1 hsimple
      have hbackend : g.backend = .simplefb := by
        cases node with
        | none => cases hsurface
        | some node =>
          dsimp only at hsurface
          unfold simplefbSurface at hsurface
          split at hsurface
          · cases hsurface
          · split at hsurface
            · cases hsurface
            · cases hsurface
              rfl
      exact hother (by rw [hbackend]; exact fun h => by cases h)
        (by rw [hbackend]; exact fun h => by cases h) s
    | false =>
      obtain ⟨⟨ok, vg⟩, -, heq⟩ := Option.map_eq_some_iff.1 hrun
      cases ok with
      | false => cases heq
      | true =>
        cases heq
        exact hother (fun h => by cases h) (fun h => by cases h) _

/-- What stays in a session: the surface is a screen, of the same size. -/
structure InSession (g₁ : Gfx) (p : Gfx × GfxSys δ) : Prop where
  screen : Screen p.1 p.2
  backend : p.1.backend = g₁.backend
  width : p.1.width = g₁.width
  height : p.1.height = g₁.height
  stride : p.1.stridePx = g₁.stridePx

theorem gfxFlip_size (hrun : gfxFlip device env g s = some (g', s')) :
    g'.width = g.width ∧ g'.height = g.height ∧ g'.stridePx = g.stridePx := by
  rcases gfxFlip_cases hrun with ⟨-, -, rfl, -⟩ | ⟨rfl, -⟩
  · exact ⟨rfl, rfl, rfl⟩
  · exact ⟨rfl, rfl, rfl⟩

theorem gfxEnableDoubleBuffer_size (g : Gfx) (s : GfxSys δ) :
    (gfxEnableDoubleBuffer g s).2.1.width = g.width ∧
      (gfxEnableDoubleBuffer g s).2.1.height = g.height ∧
      (gfxEnableDoubleBuffer g s).2.1.stridePx = g.stridePx := by
  unfold gfxEnableDoubleBuffer
  split
  · split
    · exact ⟨rfl, rfl, rfl⟩
    · dsimp only
      split
      · exact ⟨rfl, rfl, rfl⟩
      · exact ⟨rfl, rfl, rfl⟩
  · exact ⟨rfl, rfl, rfl⟩
  · exact ⟨rfl, rfl, rfl⟩

/-- Every step of a session keeps it so. -/
theorem InSession.step {g₁ : Gfx} {p p' : Gfx × GfxSys δ} {call : SurfaceCall}
    (hI : InSession g₁ p) (hstep : (session device g s).step call p = some p') :
    InSession g₁ p' := by
  obtain ⟨g₂, s₂⟩ := p
  obtain ⟨g₃, s₃⟩ := p'
  cases call with
  | draw env call =>
    obtain ⟨s₄, hcall, heq⟩ := Option.map_eq_some_iff.1 hstep
    obtain ⟨rfl, rfl⟩ := Prod.mk.inj heq
    obtain ⟨hbd, hreg, -⟩ := gfxCall_bochs hcall
    exact { hI with screen := ⟨hI.screen.backend, fun hb => (hI.screen.bochs hb).congr hbd hreg⟩ }
  | flip env =>
    obtain ⟨hscreen, hbackend⟩ := hI.screen.flip hstep
    obtain ⟨hwidth, hheight, hstride⟩ := gfxFlip_size hstep
    exact ⟨hscreen, hbackend.trans hI.backend, hwidth.trans hI.width, hheight.trans hI.height,
      hstride.trans hI.stride⟩
  | enableDoubleBuffer =>
    obtain ⟨hscreen, hbackend⟩ := hI.screen.enableDoubleBuffer
    obtain ⟨hwidth, hheight, hstride⟩ := gfxEnableDoubleBuffer_size g₂ s₂
    have heq := Option.some.inj hstep
    rw [heq] at hscreen hbackend hwidth hheight hstride
    exact ⟨hscreen, hbackend.trans hI.backend, hwidth.trans hI.width, hheight.trans hI.height,
      hstride.trans hI.stride⟩
  | store mem =>
    obtain ⟨rfl, rfl⟩ := Prod.mk.inj (Option.some.inj hstep)
    exact { hI with screen := ⟨hI.screen.backend, fun hb => (hI.screen.bochs hb).congr rfl rfl⟩ }

/-- **In every state of a session.** -/
theorem InSession.reachable {p : Gfx × GfxSys δ} (h : Screen g s)
    (hreach : (session device g s).Reachable p) : InSession g p :=
  hreach.invariant (I := InSession g) ⟨h, rfl, rfl, rfl, rfl⟩ fun hI _ hstep => hI.step hstep

/-! ## Page flips -/

/-- The bytes of `height` rows of the memory at `base`, from a row on. -/
def rowBytes (base stride height row : ℕ) : Set ℕ :=
  Set.Ico (base + 4 * (stride * row)) (base + 4 * (stride * (row + height)))

/-- The bytes that a Bochs display shows: those of the rows from `Y_OFFSET` on. -/
def visibleBytes (g : Gfx) (s : GfxSys δ) : Set ℕ :=
  rowBytes s.bd.vramBase s.bd.stridePx g.height (s.bochsReg 0x0512)

/-- The bytes that the program draws to. -/
def drawnBytes (g : Gfx) : Set ℕ := rowBytes g.vram g.stridePx g.height 0

/-- The display shows one half of a surface of `2 * h` rows in its memory, and the program draws to
the other one. The register `VIRT_HEIGHT` has the number of rows, and the driver's two pointers and
its row number are about the half that is drawn to. -/
structure TwoHalves (base stride h : ℕ) (g : Gfx) (s : GfxSys δ) : Prop where
  rows : s.bochsReg 0x050E = 2 * h
  pointer : g.vram = s.bd.vram ∧ s.bd.vram = base + 4 * (stride * s.bd.backOffRows)
  halves : visibleBytes g s = rowBytes base stride h 0 ∧ drawnBytes g = rowBytes base stride h h ∨
    visibleBytes g s = rowBytes base stride h h ∧ drawnBytes g = rowBytes base stride h 0
  disjoint : Disjoint (visibleBytes g s) (drawnBytes g)
  inside : visibleBytes g s ∪ drawnBytes g ⊆ Set.Ico base (base + RVVM_BOCHS_VRAM_SIZE)

/-- What stays in a session on a Bochs display, besides. -/
structure BochsSession (base h : ℕ) (s : GfxSys δ) : Prop where
  active : s.bdActive = true
  base_eq : s.bd.vramBase = base
  rows : s.bd.doubleBuffered = true → s.bochsReg 0x050E = 2 * h

variable {base : ℕ} {p : Gfx × GfxSys δ}

theorem drawnBytes_eq (hvram : g.vram = base + 4 * (g.stridePx * w)) :
    drawnBytes g = rowBytes base g.stridePx g.height w := by
  unfold drawnBytes rowBytes
  rw [hvram, Nat.zero_add, Nat.mul_zero, Nat.mul_zero, Nat.add_zero, Nat.mul_add, Nat.mul_add,
    ← Nat.add_assoc]

theorem BochsSession.flip (hb : BochsSession base h s)
    (hrun : gfxFlip device env g s = some (g', s')) : BochsSession base h s' := by
  rcases gfxFlip_cases hrun with ⟨-, hdouble, -, rfl⟩ | ⟨-, rfl | ⟨-, vg, rfl⟩⟩
  · rw [bochsFlip_eq hdouble]
    refine ⟨hb.active, hb.base_eq, fun _ => ?_⟩
    have hkeep : w16 s.bochsReg 0x0512 s.bd.backOffRows 0x050E = s.bochsReg 0x050E :=
      Function.update_of_ne (by decide) ..
    exact hkeep.trans (hb.rows hdouble)
  · exact hb
  · exact ⟨hb.active, hb.base_eq, hb.rows⟩

/-- **Asking for double buffering** on a Bochs display: nothing happens the second time. -/
theorem gfxEnableDoubleBuffer_bochs (hbuf : BochsBuffers g s) (hbackend : g.backend = .bochs)
    (hb : BochsSession base h s) (hheight : g.height = h)
    (hsize : g.stridePx * h * 8 ≤ RVVM_BOCHS_VRAM_SIZE) (hrows : 2 * h < 2 ^ 16) :
    (gfxEnableDoubleBuffer g s).1 = true ∧
      (gfxEnableDoubleBuffer g s).2.2.bd.doubleBuffered = true ∧
      BochsSession base h (gfxEnableDoubleBuffer g s).2.2 ∧
      (s.bd.doubleBuffered = true → gfxEnableDoubleBuffer g s = (true, g, s)) := by
  cases hdouble : s.bd.doubleBuffered with
  | true =>
    have hvram : { g with vram := s.bd.vram, backend := .bochs } = g := by
      rw [← hbuf.drawn, ← hbackend]
    have hsame : gfxEnableDoubleBuffer g s = (true, g, s) := by
      unfold gfxEnableDoubleBuffer
      rw [hbackend]
      simp only [hb.active, bochsEnableDoubleBuffer, hdouble, Bool.true_eq_false, if_false, if_true]
      rw [hvram]
    rw [hsame]
    exact ⟨rfl, hdouble, hb, fun _ => rfl⟩
  | false =>
    have hfits :
        ¬ s.bd.stridePx * s.bd.height * 4 % 2 ^ 64 * 2 % 2 ^ 64 > RVVM_BOCHS_VRAM_SIZE := by
      rw [hbuf.stride, hbuf.height, hheight]
      simp only [RVVM_BOCHS_VRAM_SIZE] at hsize ⊢
      omega
    have hreg : w16 (w16 s.bochsReg 0x050E (s.bd.height * 2)) 0x0512 0 0x050E = 2 * h := by
      rw [hbuf.height, hheight, w16, Function.update_of_ne (by decide), w16, Function.update_self,
        Nat.mul_comm, Nat.mod_eq_of_lt hrows]
    simp only [gfxEnableDoubleBuffer, hbackend, hb.active, bochsEnableDoubleBuffer, hdouble,
      Bool.false_eq_true, Bool.true_eq_false, if_false, if_neg hfits, if_true]
    exact ⟨trivial, trivial, ⟨rfl, hb.base_eq, fun _ => hreg⟩, False.elim⟩

/-- Every step of a session on a Bochs display keeps it so. -/
theorem BochsSession.step {g₁ : Gfx} {p' : Gfx × GfxSys δ} {call : SurfaceCall}
    (hI : InSession g₁ p) (hb : BochsSession base h p.2) (hbackend : g₁.backend = .bochs)
    (hheight : g₁.height = h) (hsize : g₁.stridePx * h * 8 ≤ RVVM_BOCHS_VRAM_SIZE)
    (hrows : 2 * h < 2 ^ 16) (hstep : (session device g s).step call p = some p') :
    BochsSession base h p'.2 := by
  obtain ⟨g₂, s₂⟩ := p
  obtain ⟨g₃, s₃⟩ := p'
  cases call with
  | draw env call =>
    obtain ⟨s₄, hcall, heq⟩ := Option.map_eq_some_iff.1 hstep
    obtain ⟨rfl, rfl⟩ := Prod.mk.inj heq
    obtain ⟨hbd, hreg, hact⟩ := gfxCall_bochs hcall
    refine ⟨hact.trans hb.active, by rw [hbd]; exact hb.base_eq, ?_⟩
    rw [hbd, hreg]
    exact hb.rows
  | flip env => exact hb.flip hstep
  | enableDoubleBuffer =>
    have heq := Option.some.inj hstep
    have hbuf := hI.screen.bochs (hI.backend.trans hbackend)
    have henable := (gfxEnableDoubleBuffer_bochs hbuf (hI.backend.trans hbackend) hb
      (hI.height.trans hheight) (by rw [hI.stride]; exact hsize) hrows).2.2.1
    rw [heq] at henable
    exact henable
  | store mem =>
    obtain ⟨rfl, rfl⟩ := Prod.mk.inj (Option.some.inj hstep)
    exact ⟨hb.active, hb.base_eq, hb.rows⟩

/-- **Flipping** exchanges the bytes that are shown and those that are drawn to. -/
theorem gfxFlip_exchanges (hbuf : BochsBuffers g s) (hbackend : g.backend = .bochs)
    (hactive : s.bdActive = true) (hdouble : s.bd.doubleBuffered = true) :
    ∃ g' s', gfxFlip device env g s = some (g', s') ∧ s'.bd.doubleBuffered = true ∧
      visibleBytes g' s' = drawnBytes g ∧ drawnBytes g' = visibleBytes g s := by
  have hflip : gfxFlip device env g s =
      some ({ g with vram := (bochsFlip s).bd.vram }, bochsFlip s) := by
    simp [gfxFlip, hbackend, hactive, hdouble]
  refine ⟨_, _, hflip, ?_, ?_, ?_⟩
  · rw [bochsFlip_eq hdouble]
    exact hdouble
  · rw [drawnBytes_eq (hbuf.drawn.trans hbuf.vram)]
    have hback : s.bd.backOffRows % 2 ^ 16 = s.bd.backOffRows := by
      have := hbuf.height_lt
      rcases hbuf.double hdouble with ⟨h0, -⟩ | ⟨h1, -⟩ <;> omega
    simp only [visibleBytes, bochsFlip_eq hdouble, w16, Function.update_self, hback, hbuf.stride]
  · rw [visibleBytes, hbuf.stride]
    have hvram : (bochsFlip s).bd.vram =
        s.bd.vramBase + 4 * (g.stridePx * s.bochsReg 0x0512) := by
      simp only [bochsFlip_eq hdouble, hbuf.stride]
      rcases hbuf.double hdouble with ⟨hback, hreg⟩ | ⟨hback, hreg⟩
      · simp [hback, hreg, hbuf.height]
      · by_cases hzero : g.height = 0
        · simp [hback, hreg, hbuf.height, hzero]
        · simp [hback, hreg, hzero]
    exact drawnBytes_eq (g := { g with vram := (bochsFlip s).bd.vram }) hvram

/-- The halves, from the buffers. -/
theorem TwoHalves.of_buffers (hbuf : BochsBuffers g s) (hb : BochsSession base h s)
    (hdouble : s.bd.doubleBuffered = true) (hstride : g.stridePx = w) (hheight : g.height = h)
    (hsize : w * h * 8 ≤ RVVM_BOCHS_VRAM_SIZE) : TwoHalves base w h g s := by
  have hdrawn : drawnBytes g = rowBytes base w h s.bd.backOffRows := by
    rw [drawnBytes_eq (hbuf.drawn.trans hbuf.vram), hb.base_eq, hstride, hheight]
  have hvisible : visibleBytes g s = rowBytes base w h (s.bochsReg 0x0512) := by
    rw [visibleBytes, hb.base_eq, hbuf.stride, hstride, hheight]
  have hhalves : visibleBytes g s = rowBytes base w h 0 ∧ drawnBytes g = rowBytes base w h h ∨
      visibleBytes g s = rowBytes base w h h ∧ drawnBytes g = rowBytes base w h 0 := by
    rw [hdrawn, hvisible]
    rcases hbuf.double hdouble with ⟨hback, hreg⟩ | ⟨hback, hreg⟩
    · rw [hback, hreg, hheight]
      exact .inr ⟨rfl, rfl⟩
    · rw [hback, hreg, hheight]
      exact .inl ⟨rfl, rfl⟩
  have hapart : Disjoint (rowBytes base w h 0) (rowBytes base w h h) := by
    rw [rowBytes, rowBytes, Nat.zero_add]
    apply Set.disjoint_left.2
    rintro a ⟨-, hlt⟩ ⟨hle, -⟩
    exact Nat.not_lt.2 hle hlt
  have hin : ∀ row, row = 0 ∨ row = h →
      rowBytes base w h row ⊆ Set.Ico base (base + RVVM_BOCHS_VRAM_SIZE) := by
    intro row hrow
    apply Set.Ico_subset_Ico
    · exact Nat.le_add_right ..
    · rcases hrow with rfl | rfl
      · rw [Nat.zero_add]
        omega
      · rw [Nat.mul_add]
        omega
  refine ⟨hb.rows hdouble, ⟨hbuf.drawn, ?_⟩, hhalves, ?_, ?_⟩
  · rw [← hb.base_eq, ← hstride]
    exact hbuf.vram
  · rcases hhalves with ⟨hv, hd⟩ | ⟨hv, hd⟩
    · rw [hv, hd]
      exact hapart
    · rw [hv, hd]
      exact hapart.symm
  · rcases hhalves with ⟨hv, hd⟩ | ⟨hv, hd⟩
    · rw [hv, hd]
      exact Set.union_subset (hin 0 (.inl rfl)) (hin h (.inr rfl))
    · rw [hv, hd]
      exact Set.union_subset (hin h (.inr rfl)) (hin 0 (.inl rfl))

/-- **Page flips**: in every session on a Bochs display whose memory has room for two frames, double
buffering can be had, and once it is on, the display shows one half of the memory and the program
draws to the other one. A flip exchanges them, and to ask for double buffering again changes
nothing. -/
theorem page_flip (hinit : gfxBochsInit depth g₀ s₀ w h = some (true, g, s))
    (hsize : w * h * 8 ≤ RVVM_BOCHS_VRAM_SIZE) (hrows : 2 * h < 2 ^ 16)
    (hreach : (session device g s).Reachable (g', s')) :
    (gfxEnableDoubleBuffer g' s').1 = true ∧
    (gfxEnableDoubleBuffer g' s').2.2.bd.doubleBuffered = true ∧
    (s'.bd.doubleBuffered = true →
      TwoHalves s.bd.vramBase w h g' s' ∧
      gfxEnableDoubleBuffer g' s' = (true, g', s') ∧
      ∀ env, ∃ g₂ s₂, gfxFlip device env g' s' = some (g₂, s₂) ∧ s₂.bd.doubleBuffered = true ∧
        visibleBytes g₂ s₂ = drawnBytes g' ∧ drawnBytes g₂ = visibleBytes g' s') := by
  obtain ⟨hbackend, hactive, hsingle, -, -, hstride, hheight, -⟩ := gfxBochsInit_spec hinit
  have hscreen : Screen g s := by
    refine ⟨fun hnone => ?_, fun _ => bochsBuffers_of_init hinit (by omega)⟩
    rw [hbackend] at hnone
    cases hnone
  have hin := InSession.reachable hscreen hreach
  have hbuf := hin.screen.bochs (hin.backend.trans hbackend)
  have hb : InSession g (g', s') ∧ BochsSession s.bd.vramBase h s' := by
    refine hreach.invariant (I := fun p => InSession g p ∧ BochsSession s.bd.vramBase h p.2)
      ⟨⟨hscreen, rfl, rfl, rfl, rfl⟩, hactive, rfl, fun hd => ?_⟩ ?_
    · cases hsingle.symm.trans hd
    · rintro p p' call ⟨hI, hb⟩ - hstep
      exact ⟨hI.step hstep, hb.step hI hbackend hheight (by rw [hstride]; exact hsize) hrows hstep⟩
  obtain ⟨hok, hon, -, hagain⟩ := gfxEnableDoubleBuffer_bochs hbuf (hin.backend.trans hbackend) hb.2
    (hin.height.trans hheight) (by rw [hin.stride, hstride]; exact hsize) hrows
  refine ⟨hok, hon, fun hdouble => ⟨?_, hagain hdouble, fun env => ?_⟩⟩
  · exact .of_buffers hbuf hb.2 hdouble (hin.stride.trans hstride) (hin.height.trans hheight) hsize
  · exact gfxFlip_exchanges hbuf (hin.backend.trans hbackend) hb.2.active hdouble

end

/-- A display of 640 by 400 pixels that was just asked for double buffering. -/
theorem page_flip_bochs : ∃ g s, gfxBochsInit 1 blankSurface bochsSys 640 400 = some (true, g, s) ∧
    TwoHalves s.bd.vramBase 640 400 (gfxEnableDoubleBuffer g s).2.1
      (gfxEnableDoubleBuffer g s).2.2 := by
  have hok : (gfxBochsInit 1 blankSurface bochsSys 640 400).map (·.1) = some true := by
    decide +kernel
  obtain ⟨⟨ok, g, s⟩, hinit, rfl⟩ := Option.map_eq_some_iff.1 hok
  refine ⟨g, s, hinit, ?_⟩
  have hsize : 640 * 400 * 8 ≤ RVVM_BOCHS_VRAM_SIZE := by norm_num
  have hstart : (session blankBoard.device g s).Reachable (g, s) := .init
  have hon := (page_flip hinit hsize (by norm_num) hstart).2.1
  have hreach : (session blankBoard.device g s).Reachable (gfxEnableDoubleBuffer g s).2 :=
    .step (a := .enableDoubleBuffer) .init trivial rfl
  exact ((page_flip hinit hsize (by norm_num) hreach).2.2 hon).1

end RvvmHal.Graphics
