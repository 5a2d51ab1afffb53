import Mathlib.Algebra.Group.Nat.Defs
import RvvmHal.Smp.Handshake

/-!
# The harts that are brought up

`smp.c` on the S-mode backend. Only the hart on which the firmware begins runs at first. `smp_init`
brings up the others that are present: all below the count but the one that calls it. `smp_start`
accepts those below the count but hart 0. The two agree if and only if the firmware begins on hart 0
(`startsParked_iff`): otherwise hart 0 is brought up and never used, and the hart on which the
firmware runs may be handed a command.
-/

namespace RvvmHal.Smp

/-! ## Bringing up harts -/

/-- `plat_this_hart`, for the value of `tp`. -/
def platThisHart (tp : ℕ) : ℕ := tp % 2 ^ 32

/-- `smp_init`: the harts for which it calls `plat_hart_bringup_park`, in order. -/
def smpInit (tp cpus : ℕ) : List ℕ :=
  (List.range (hartCount cpus)).filter fun h => h ≠ platThisHart tp

/-- A hart in the park loop, or in a function that it has been handed. -/
def BroughtUp (tp cpus h : ℕ) : Prop := h ∈ smpInit tp cpus

instance (tp cpus h : ℕ) : Decidable (BroughtUp tp cpus h) := inferInstanceAs (Decidable (h ∈ _))

/-- One step: other harts make steps only if they have been brought up. -/
def smpStepS (tp cpus : ℕ) : SmpStep → System → Option System
  | .hart h, s =>
    if BroughtUp tp cpus h then (hartStep h (s.harts h)).map (s.set s.primary h) else none
  | a, s => smpStep cpus a s

/-- All runs, from the end of `smp_init`. -/
def smpS (tp cpus : ℕ) : Machine System SmpStep where
  init := ⟨.idle, fun _ => ⟨0, 0, false, false, .wfi, [], [], 0⟩⟩
  step := smpStepS tp cpus

variable {tp cpus h : ℕ} {s s' : System}

theorem broughtUp_iff : BroughtUp tp cpus h ↔ h < hartCount cpus ∧ h ≠ platThisHart tp := by
  simp [BroughtUp, smpInit]

theorem hartCount_pos (cpus : ℕ) : 0 < hartCount cpus := by
  simp only [hartCount, SMP_MAX_HARTS]
  split_ifs <;> omega

/-! ## Who is started -/

/-- Only harts in the park loop are started, and each of them can be. -/
structure StartsParked (tp cpus : ℕ) (s : System) : Prop where
  running : ∀ h, (s.harts h).running = true → BroughtUp tp cpus h
  accepts : ∀ h fn, BroughtUp tp cpus h → (s.harts h).running = false → fn ≠ 0 →
    ¬ Refused cpus s h fn

/-- The harts that are started, or are about to be, have been brought up. -/
structure ParkInv (tp cpus : ℕ) (s : System) : Prop where
  running : ∀ h, (s.harts h).running = true → BroughtUp tp cpus h
  target : ∀ h, s.primary.target = some h → BroughtUp tp cpus h

/-- What belongs to a hart is changed, and `smp_running` is set only for the target. -/
theorem ParkInv.set (hI : ParkInv tp cpus s) {p : PrimaryPc} {x : Hart}
    (hp : ∀ h, p.target = some h → s.primary.target = some h)
    (hx : x.running = true → (s.harts h).running = true ∨ s.primary.target = some h) :
    ParkInv tp cpus (s.set p h x) where
  running h' hrun := by
    by_cases heq : h' = h
    · subst heq
      rw [System.set_harts_self] at hrun
      exact (hx hrun).elim (hI.running h') (hI.target h')
    · rw [System.set_harts_of_ne _ _ _ heq] at hrun
      exact hI.running h' hrun
  target h' ht := hI.target h' (hp h' ht)

/-- A hart does not set its byte of `smp_running`. -/
theorem hartStep_running {x x' : Hart} (hs : hartStep h x = some x') :
    x'.running = true → x.running = true := by
  unfold hartStep at hs
  cases hpc : x.pc with
  | call fn arg =>
    rw [hpc] at hs
    dsimp only at hs
    split at hs <;> cases hs <;> exact id
  | body fn arg =>
    rw [hpc] at hs
    cases hs
  | finish =>
    rw [hpc] at hs
    cases hs
    exact fun h => nomatch h
  | _ =>
    rw [hpc] at hs
    cases hs
    exact id

theorem hartReturn_running {x x' : Hart} (hs : hartReturn x = some x') :
    x'.running = x.running := by
  unfold hartReturn at hs
  split at hs <;> cases hs
  rfl

/-- **Steps of the primary**: it sets `smp_running` for its target only. -/
theorem ParkInv.primaryStep (hI : ParkInv tp cpus s) (hs : primaryStep s = some s') :
    ParkInv tp cpus s' := by
  unfold Smp.primaryStep at hs
  cases hp : s.primary with
  | idle =>
    rw [hp] at hs
    cases hs
  | storeFn h fn arg =>
    rw [hp] at hs
    cases hs
    exact hI.set (fun h ht => by rwa [hp]) .inl
  | storeArg h fn arg =>
    rw [hp] at hs
    cases hs
    exact hI.set (fun h ht => by rwa [hp]) .inl
  | storeRunning h fn arg =>
    rw [hp] at hs
    cases hs
    exact hI.set (fun h ht => by rwa [hp]) fun _ => .inr (by rw [hp]; rfl)
  | sendIpi h fn arg =>
    rw [hp] at hs
    cases hs
    exact hI.set (fun h ht => by cases ht) .inl
  | waiting h =>
    rw [hp] at hs
    cases hs
    refine ⟨hI.running, fun h' ht => ?_⟩
    split at ht <;> cases ht

/-- **Every step** keeps the invariant, if the firmware runs on hart 0. -/
theorem ParkInv.step (hzero : platThisHart tp = 0) (hI : ParkInv tp cpus s) {a : SmpStep}
    (hs : smpStepS tp cpus a s = some s') : ParkInv tp cpus s' := by
  cases a with
  | start h fn arg =>
    simp only [smpStepS, smpStep, smpStart] at hs
    split at hs
    · obtain rfl := Option.some.inj hs
      split
      · exact hI
      next hnot =>
        refine ⟨hI.running, fun h' ht => ?_⟩
        obtain rfl := Option.some.inj ht
        unfold Refused at hnot
        exact broughtUp_iff.2 ⟨by omega, by omega⟩
    · cases hs
  | isRunning h =>
    obtain ⟨-, hs⟩ := Option.ite_none_right_eq_some.1 hs
    obtain rfl := Option.some.inj hs
    exact hI
  | wait h =>
    simp only [smpStepS, smpStep, smpWait] at hs
    split at hs
    · cases hs
      exact ⟨hI.running, fun h' ht => by cases ht⟩
    · cases hs
  | primary => exact hI.primaryStep hs
  | hart h =>
    obtain ⟨-, hs⟩ := Option.ite_none_right_eq_some.1 hs
    obtain ⟨x, hx, rfl⟩ := Option.map_eq_some_iff.1 hs
    exact hI.set (fun _ => id) fun hrun => .inl (hartStep_running hx hrun)
  | ret h =>
    obtain ⟨x, hx, rfl⟩ := Option.map_eq_some_iff.1 hs
    exact hI.set (fun _ => id) fun hrun => .inl (hartReturn_running hx ▸ hrun)

/-! ## Main results -/

/-- **Only parked harts are started, and all of them can be**, in every state that is reached, if and
only if the firmware runs on hart 0. -/
theorem startsParked_iff (tp cpus : ℕ) :
    (∀ s, (smpS tp cpus).Reachable s → StartsParked tp cpus s) ↔ platThisHart tp = 0 := by
  constructor
  · -- on another hart, hart 0 is brought up, and refused
    intro h
    by_contra hne
    exact (h _ .init).accepts 0 1 (broughtUp_iff.2 ⟨hartCount_pos cpus, Ne.symm hne⟩) rfl
      (by decide) (.inl rfl)
  · intro hzero s hs
    have hI : ParkInv tp cpus s := by
      refine hs.invariant ⟨fun _ h => ?_, fun _ h => ?_⟩ fun hI _ hstep => hI.step hzero hstep
      · cases h
      · cases h
    refine ⟨hI.running, fun h fn hup hidle hfn => ?_⟩
    obtain ⟨hlt, hne⟩ := broughtUp_iff.1 hup
    rintro (rfl | hge | hrun | rfl)
    · exact hne hzero.symm
    · exact Nat.not_le.2 hlt hge
    · rw [hidle] at hrun
      cases hrun
    · exact hfn rfl

/-- The firmware runs on hart 1, and starts a function on it: `smp_running` is set for a hart that is
not in the park loop. Hart 0 is in the park loop, and refused. -/
theorem startsParked_one : ∃ s, (smpS 1 2).Reachable s ∧
    (s.harts 1).running = true ∧ ¬ BroughtUp 1 2 1 ∧
    BroughtUp 1 2 0 ∧ (s.harts 0).running = false ∧ Refused 2 s 0 7 ∧ ¬ StartsParked 1 2 s := by
  obtain ⟨s, hrun, hstate⟩ : ∃ s, (smpS 1 2).run
      [.start 1 7 0, .primary, .primary, .primary, .primary] (smpS 1 2).init = some s ∧
      ((s.harts 1).running = true ∧ (s.harts 0).running = false) := ⟨_, rfl, by decide⟩
  refine ⟨s, Machine.reachable_of_run hrun, hstate.1, by decide, by decide, hstate.2, .inl rfl, ?_⟩
  exact fun h => absurd (h.running 1 hstate.1) (by decide)

end RvvmHal.Smp
