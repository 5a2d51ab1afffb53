import RvvmHal.Smp.Dispatch

/-!
# Wakes without a command

`plat_ipi_send` is public, and any hart may raise the interrupt of any other at any moment. A hart
that is woken so reads its command slot like any other, and the slot keeps the last command after
its call: the hart calls the function once more. This goes wrong exactly when a hart that woke while
`smp_running` was 0 finds a function in its slot (`wake_calls`, `read_calls`); as long as the slot
is still empty then, calls are made for commands only (`wakeInv_of_reachable`).
-/

namespace RvvmHal.Smp

/-! ## The harts and stray wakes -/

/-- All harts. `stray h` is true when `smp_running` was 0 as the hart `h` last woke, that is, as it
cleared its pending bit. -/
structure Wakes where
  sys : System
  stray : ℕ → Bool

/-- `plat_ipi_send`, by any hart. -/
def platIpiSend (h : ℕ) (s : System) : System :=
  s.set s.primary h { s.harts h with msip := true }

/-- What a step of the hart `x` makes of its flag. -/
def strayAfter (x : Hart) (stray : Bool) : Bool := if x.pc = .clear then !x.running else stray

/-- The steps of `smp`, and interrupts besides those of `smp_start`. -/
inductive WakeStep
  | smp (a : SmpStep)
  | ipi (h : ℕ)
  deriving DecidableEq

/-- The flags after a step. -/
def noteWake (s : Wakes) : SmpStep → ℕ → Bool
  | .hart h => Function.update s.stray h (strayAfter (s.sys.harts h) (s.stray h))
  | _ => s.stray

/-- One step. -/
def wakeStep (cpus : ℕ) : WakeStep → Wakes → Option Wakes
  | .smp a, s => (smpStep cpus a s.sys).map fun sys => ⟨sys, noteWake s a⟩
  | .ipi h, s => some { s with sys := platIpiSend h s.sys }

/-- All runs, from the reset of the machine. -/
def wakes (cpus : ℕ) : Machine Wakes WakeStep where
  init := ⟨(smp cpus).init, fun _ => false⟩
  step := wakeStep cpus

/-- The command whose interrupt `smp_start` is about to raise for the hart `h`. -/
def PrimaryPc.sending (h : ℕ) : PrimaryPc → List (ℕ × ℕ)
  | .sendIpi h' fn arg => if h' = h then [(fn, arg)] else []
  | _ => []

/-- The commands given to the hart `x`: those accepted, and one that is being accepted. -/
def Hart.given (x : Hart) (p : PrimaryPc) (h : ℕ) : List (ℕ × ℕ) := x.accepted ++ p.sending h

/-- **Calls are made for commands only**: a hart that is in a function woke while `smp_running` was
set, and the calls are some of the commands given, each once and in their order. -/
def RunsNothing (s : Wakes) : Prop :=
  ∀ h, (∀ fn arg, (s.sys.harts h).pc = .body fn arg → s.stray h = false) ∧
    (s.sys.harts h).calls.Sublist ((s.sys.harts h).given s.sys.primary h)

/-- The condition on a step: a hart that woke while `smp_running` was 0, and that is about to read
its slot, will find it empty. -/
def FindsEmpty : WakeStep → Wakes → Prop
  | .smp (.hart h), s =>
    s.stray h = true → (s.sys.harts h).pc = .readFn → (s.sys.harts h).cmdFn = 0
  | _, _ => True

instance : ∀ (a : WakeStep) (s : Wakes), Decidable (FindsEmpty a s)
  | .smp (.hart h), s =>
    inferInstanceAs (Decidable
      (s.stray h = true → (s.sys.harts h).pc = .readFn → (s.sys.harts h).cmdFn = 0))
  | .smp (.start ..), _ | .smp (.isRunning _), _ | .smp (.wait _), _ | .smp .primary, _
  | .smp (.ret _), _ | .ipi _, _ => .isTrue trivial

/-! ## The invariant -/

/-- The call for the last command has not been made. -/
def HartPc.Before (stray : Bool) : HartPc → Prop
  | .body _ _ | .finish => stray = true
  | _ => True

/-- What the hart `x` has read from its slot. -/
def Hart.Read (x : Hart) (stray : Bool) : Prop :=
  match x.pc with
  | .readArg fn => fn = if stray then 0 else x.cmdFn
  | .call fn arg => fn = (if stray then 0 else x.cmdFn) ∧ (stray = false → arg = x.cmdArg)
  | .body _ _ => stray = false
  | _ => True

/-- What `smp_start` has stored for the hart `x`. -/
def PrimaryPc.Handing (h : ℕ) (x : Hart) : PrimaryPc → Prop
  | .storeFn h' fn _ => h' = h → fn ≠ 0 ∧ x.running = false
  | .storeArg h' fn _ => h' = h → fn ≠ 0 ∧ x.running = false ∧ x.cmdFn = fn
  | .storeRunning h' fn arg =>
    h' = h → fn ≠ 0 ∧ x.running = false ∧ x.cmdFn = fn ∧ x.cmdArg = arg
  | _ => True

/-- The invariant of a hart. -/
structure WakeInv (p : PrimaryPc) (h : ℕ) (x : Hart) (stray : Bool) : Prop where
  dispatch : x.pc.InDispatch → stray = false → x.running = true
  read : x.Read stray
  handing : p.Handing h x
  calls : x.calls.Sublist (x.given p h)
  command : x.running = true → x.cmdFn ≠ 0 ∧ ∃ rest,
    x.given p h = rest ++ [(x.cmdFn, x.cmdArg)] ∧ (x.pc.Before stray → x.calls.Sublist rest)

variable {s s' : Wakes} {t t' : System} {cpus h : ℕ} {p p' : PrimaryPc} {x x' : Hart}
  {stray : Bool}

/-- What has been stored does not depend on the running of the hart. -/
theorem PrimaryPc.Handing.hart (hp : p.Handing h x) (hrun : x.running = false → x'.running = false)
    (hfn : x'.cmdFn = x.cmdFn) (harg : x'.cmdArg = x.cmdArg) : p.Handing h x' := by
  cases p with
  | idle | sendIpi | waiting => trivial
  | storeFn => exact fun he => ⟨(hp he).1, hrun (hp he).2⟩
  | storeArg => exact fun he => ⟨(hp he).1, hrun (hp he).2.1, hfn.trans (hp he).2.2⟩
  | storeRunning =>
    exact fun he =>
      ⟨(hp he).1, hrun (hp he).2.1, hfn.trans (hp he).2.2.1, harg.trans (hp he).2.2.2⟩

/-- **A step of a hart.** -/
theorem WakeInv.hartStep (hI : WakeInv p h x stray)
    (hok : stray = true → x.pc = .readFn → x.cmdFn = 0) (hs : hartStep h x = some x') :
    WakeInv p h x' (strayAfter x stray) := by
  obtain ⟨hdisp, hread, hhand, hcalls, hcmd⟩ := hI
  obtain ⟨cmdFn, cmdArg, running, msip, pc, accepted, calls, returned⟩ := x
  cases pc with
  | wfi =>
    cases hs
    exact ⟨False.elim, trivial, hhand.hart id rfl rfl, hcalls, hcmd⟩
  | load =>
    cases hs
    refine ⟨?_, ?_, hhand.hart id rfl rfl, hcalls, fun hrun => ?_⟩
    · cases msip <;> exact False.elim
    · cases msip <;> trivial
    · obtain ⟨hne, rest, hgiven, hbefore⟩ := hcmd hrun
      exact ⟨hne, rest, hgiven, fun _ => hbefore trivial⟩
  | clear =>
    cases hs
    refine ⟨fun _ hstray => ?_, trivial, hhand.hart id rfl rfl, hcalls, hcmd⟩
    simpa [strayAfter] using hstray
  | enter =>
    rw [Smp.hartStep, Option.some.injEq] at hs
    subst hs
    dsimp only
    split
    · exact ⟨False.elim, trivial, hhand.hart id rfl rfl, hcalls, hcmd⟩
    · exact ⟨hdisp, trivial, hhand.hart id rfl rfl, hcalls, hcmd⟩
  | readFn =>
    cases hs
    refine ⟨hdisp, ?_, hhand.hart id rfl rfl, hcalls, hcmd⟩
    cases stray with
    | false => rfl
    | true => exact hok rfl rfl
  | readArg fn =>
    cases hs
    exact ⟨hdisp, ⟨hread, fun _ => rfl⟩, hhand.hart id rfl rfl, hcalls, hcmd⟩
  | call fn arg =>
    obtain ⟨hfn, harg⟩ := hread
    dsimp only at hfn harg
    rw [Smp.hartStep, Option.some.injEq] at hs
    subst hs
    cases stray with
    | true =>
      -- the slot was empty
      obtain rfl : fn = 0 := hfn
      exact ⟨fun _ he => (by cases he), trivial, hhand.hart id rfl rfl, hcalls,
        fun hrun => (hcmd hrun).imp id fun ⟨rest, hgiven, hbefore⟩ =>
          ⟨rest, hgiven, fun _ => hbefore trivial⟩⟩
    | false =>
      obtain rfl : fn = cmdFn := hfn
      obtain rfl := harg rfl
      obtain ⟨hne, rest, hgiven, hbefore⟩ := hcmd (hdisp trivial rfl)
      dsimp only at hne
      rw [if_pos hne]
      have hall : (calls ++ [(fn, arg)]).Sublist (rest ++ [(fn, arg)]) :=
        (hbefore trivial).append (List.Sublist.refl _)
      exact ⟨fun _ => hdisp trivial, rfl, hhand.hart id rfl rfl,
        (show rest ++ [(fn, arg)] = _ from hgiven.symm) ▸ hall,
        fun _ => ⟨hne, rest, hgiven, fun hb => (by cases hb)⟩⟩
  | body fn arg => cases hs
  | finish =>
    cases hs
    exact ⟨False.elim, trivial, hhand.hart (fun _ => rfl) rfl rfl, hcalls, fun he => (by cases he)⟩

theorem WakeInv.hartReturn (hI : WakeInv p h x stray) (hs : hartReturn x = some x') :
    WakeInv p h x' stray := by
  obtain ⟨hdisp, hread, hhand, hcalls, hcmd⟩ := hI
  obtain ⟨cmdFn, cmdArg, running, msip, pc, accepted, calls, returned⟩ := x
  cases pc with
  | body fn arg =>
    cases hs
    obtain rfl : stray = false := hread
    exact ⟨hdisp, trivial, hhand.hart id rfl rfl, hcalls, hcmd⟩
  | _ => cases hs

/-- The pending bit is not part of the invariant. -/
theorem WakeInv.msip (hI : WakeInv p h x stray) : WakeInv p h { x with msip := true } stray :=
  ⟨hI.dispatch, hI.read, hI.handing.hart id rfl rfl, hI.calls, hI.command⟩

/-- The primary goes on, and gives nothing to the hart `x`. -/
theorem WakeInv.primary (hI : WakeInv p h x stray) (hsend : p'.sending h = p.sending h)
    (hhand : p'.Handing h x) : WakeInv p' h x stray := by
  have hgiven : x.given p' h = x.given p h := by rw [Hart.given, Hart.given, hsend]
  refine ⟨hI.dispatch, hI.read, hhand, ?_, ?_⟩
  · rw [hgiven]
    exact hI.calls
  · rw [hgiven]
    exact hI.command

/-- A hart that is not running a command is not in the middle of a call for one. -/
theorem WakeInv.read_of_idle (hI : WakeInv p h x stray) (hrun : x.running = false) (fn arg : ℕ) :
    Hart.Read { x with cmdFn := fn, cmdArg := arg } stray := by
  obtain ⟨hdisp, hread, -, -, -⟩ := hI
  obtain ⟨cmdFn, cmdArg, running, msip, pc, accepted, calls, returned⟩ := x
  obtain rfl : running = false := hrun
  cases stray with
  | true =>
    cases pc with
    | readArg | body => exact hread
    | call => exact ⟨hread.1, fun he => (by cases he)⟩
    | _ => trivial
  | false => cases pc <;> first | cases hdisp trivial rfl | trivial

variable {fn arg : ℕ}

theorem WakeInv.storeFn (hI : WakeInv (.storeFn h fn arg) h x stray) :
    WakeInv (.storeArg h fn arg) h { x with cmdFn := fn } stray := by
  obtain ⟨hne, hrun⟩ := hI.handing rfl
  refine ⟨hI.dispatch, hI.read_of_idle hrun fn _, fun _ => ⟨hne, hrun, rfl⟩, hI.calls, ?_⟩
  exact fun he => absurd (hrun.symm.trans he) nofun

theorem WakeInv.storeArg (hI : WakeInv (.storeArg h fn arg) h x stray) :
    WakeInv (.storeRunning h fn arg) h { x with cmdArg := arg } stray := by
  obtain ⟨hne, hrun, hfn⟩ := hI.handing rfl
  refine ⟨hI.dispatch, hI.read_of_idle hrun _ arg, fun _ => ⟨hne, hrun, hfn, rfl⟩, hI.calls, ?_⟩
  exact fun he => absurd (hrun.symm.trans he) nofun

/-- The command is given as `smp_running` is set. -/
theorem WakeInv.storeRunning (hI : WakeInv (.storeRunning h fn arg) h x stray) :
    WakeInv (.sendIpi h fn arg) h { x with running := true } stray := by
  obtain ⟨hne, hrun, hfn, harg⟩ := hI.handing rfl
  have hcalls : x.calls.Sublist x.accepted := by
    have hcalls := hI.calls
    rwa [Hart.given, show PrimaryPc.sending h (.storeRunning h fn arg) = [] from rfl,
      List.append_nil] at hcalls
  have hgiven : Hart.given { x with running := true } (.sendIpi h fn arg) h =
      x.accepted ++ [(x.cmdFn, x.cmdArg)] := by
    rw [hfn, harg, Hart.given, PrimaryPc.sending, if_pos rfl]
  refine ⟨fun _ _ => rfl, hI.read_of_idle hrun _ _, trivial, ?_,
    fun _ => ⟨hfn ▸ hne, _, hgiven, fun _ => hcalls⟩⟩
  rw [hgiven]
  exact hcalls.trans (List.sublist_append_left ..)

theorem WakeInv.sendIpi (hI : WakeInv (.sendIpi h fn arg) h x stray) :
    WakeInv .idle h { x with msip := true, accepted := x.accepted ++ [(fn, arg)] } stray := by
  have hgiven : Hart.given { x with msip := true, accepted := x.accepted ++ [(fn, arg)] } .idle h =
      x.given (.sendIpi h fn arg) h := by
    rw [Hart.given, Hart.given, show PrimaryPc.sending h .idle = [] from rfl, List.append_nil,
      PrimaryPc.sending, if_pos rfl]
  refine ⟨hI.dispatch, hI.read, trivial, ?_, ?_⟩
  · rw [hgiven]
    exact hI.calls
  · rw [hgiven]
    exact hI.command

/-- **A store of `smp_start`, or its interrupt.** -/
theorem wakeInv_primaryStep {f : ℕ → Bool} (hI : ∀ h, WakeInv t.primary h (t.harts h) (f h))
    (hs : primaryStep t = some t') (h : ℕ) : WakeInv t'.primary h (t'.harts h) (f h) := by
  obtain ⟨primary, harts⟩ := t
  have hx := hI h
  cases primary with
  | idle => cases hs
  | waiting h' =>
    cases hs
    refine hx.primary ?_ ?_
    · dsimp only
      split <;> rfl
    · dsimp only
      split <;> trivial
  | storeFn h' fn arg =>
    cases hs
    by_cases hh : h = h'
    · subst hh
      rw [System.set_harts_self]
      exact hx.storeFn
    · rw [System.set_harts_of_ne _ _ _ hh]
      exact hx.primary rfl fun he => absurd he.symm hh
  | storeArg h' fn arg =>
    cases hs
    by_cases hh : h = h'
    · subst hh
      rw [System.set_harts_self]
      exact hx.storeArg
    · rw [System.set_harts_of_ne _ _ _ hh]
      exact hx.primary rfl fun he => absurd he.symm hh
  | storeRunning h' fn arg =>
    cases hs
    by_cases hh : h = h'
    · subst hh
      rw [System.set_harts_self]
      exact hx.storeRunning
    · rw [System.set_harts_of_ne _ _ _ hh]
      exact hx.primary (if_neg (Ne.symm hh)) trivial
  | sendIpi h' fn arg =>
    cases hs
    by_cases hh : h = h'
    · subst hh
      rw [System.set_harts_self]
      exact hx.sendIpi
    · rw [System.set_harts_of_ne _ _ _ hh]
      exact hx.primary (if_neg (Ne.symm hh)).symm trivial

/-- `smp_start` begins. -/
theorem WakeInv.start (hI : WakeInv .idle h x stray) {h' : ℕ} (hne : fn ≠ 0)
    (hrun : h' = h → x.running = false) : WakeInv (.storeFn h' fn arg) h x stray :=
  hI.primary rfl fun he => ⟨hne, hrun he⟩

/-! ## Runs -/

/-- The invariant of all harts. -/
def Wakes.Inv (s : Wakes) : Prop := ∀ h, WakeInv s.sys.primary h (s.sys.harts h) (s.stray h)

/-- A step of one hart. -/
theorem Wakes.Inv.set (hI : s.Inv) (hx : WakeInv s.sys.primary h x stray) :
    Wakes.Inv ⟨s.sys.set s.sys.primary h x, Function.update s.stray h stray⟩ := by
  intro h'
  dsimp only
  by_cases hh : h' = h
  · subst hh
    rw [System.set_harts_self, Function.update_self]
    exact hx
  · rw [System.set_harts_of_ne _ _ _ hh, Function.update_of_ne hh]
    exact hI h'

theorem Wakes.Inv.smp {a : SmpStep} (hI : s.Inv) (hok : FindsEmpty (.smp a) s)
    (hs : smpStep cpus a s.sys = some t) : Wakes.Inv ⟨t, noteWake s a⟩ := by
  cases a with
  | start h fn arg =>
    simp only [smpStep, smpStart] at hs
    split at hs
    · rename_i hidle
      rw [Option.some.injEq] at hs
      subst hs
      intro h'
      have hx := hI h'
      split
      · exact hx
      · rename_i hnot
        simp only [Refused, not_or, Bool.not_eq_true] at hnot
        rw [hidle] at hx
        refine hx.start hnot.2.2.2 ?_
        rintro rfl
        exact hnot.2.2.1
    · cases hs
  | isRunning h =>
    obtain ⟨-, hs⟩ := Option.ite_none_right_eq_some.1 hs
    obtain rfl := Option.some.inj hs
    exact hI
  | wait h =>
    simp only [smpStep, smpWait] at hs
    split at hs
    · rename_i hidle
      cases hs
      intro h'
      have hx := hI h'
      rw [hidle] at hx
      exact hx.primary rfl trivial
    · cases hs
  | primary => exact wakeInv_primaryStep hI hs
  | hart h =>
    obtain ⟨-, hs⟩ := Option.ite_none_left_eq_some.1 hs
    obtain ⟨x, hx, rfl⟩ := Option.map_eq_some_iff.1 hs
    exact hI.set ((hI h).hartStep hok hx)
  | ret h =>
    obtain ⟨x, hx, rfl⟩ := Option.map_eq_some_iff.1 hs
    have hset := hI.set ((hI h).hartReturn hx)
    rwa [Function.update_eq_self] at hset

theorem wakeInv_wakeStep {a : WakeStep} (hI : s.Inv) (hok : FindsEmpty a s)
    (hs : wakeStep cpus a s = some s') : s'.Inv := by
  cases a with
  | smp a =>
    obtain ⟨t, ht, rfl⟩ := Option.map_eq_some_iff.1 hs
    exact hI.smp hok ht
  | ipi h =>
    cases hs
    have hset := hI.set (hI h).msip
    rwa [Function.update_eq_self] at hset

theorem wakeInv_init : (wakes cpus).init.Inv := fun _ =>
  ⟨False.elim, trivial, trivial, List.Sublist.refl _, fun he => (by cases he)⟩

/-- The invariant holds in all runs whose steps meet the condition. -/
theorem wakeInv_of_reachable (hs : (wakes cpus).ReachableBy FindsEmpty s) : s.Inv :=
  hs.invariant wakeInv_init fun hI hok hs => wakeInv_wakeStep hI hok hs

/-! ## Main result -/

/-- The next statement of a hart that is in the dispatch. -/
theorem wakeStep_hart (cpus : ℕ) (hne : h ≠ 0) (hpc : (s.sys.harts h).pc ≠ .clear)
    (hx : hartStep h (s.sys.harts h) = some x) :
    ∃ s', (wakes cpus).step (.smp (.hart h)) s = some s' ∧ s'.sys.harts h = x ∧
      s'.stray h = s.stray h := by
  refine ⟨⟨s.sys.set s.sys.primary h x, noteWake s (.hart h)⟩, ?_, System.set_harts_self .., ?_⟩
  · dsimp only [wakes, wakeStep, smpStep]
    rw [if_neg hne, hx, Option.map_some, Option.map_some]
  · dsimp only [noteWake]
    rw [Function.update_self, strayAfter, if_neg hpc]

/-- Where a step does not meet the condition, the hart calls the function of its slot. -/
theorem read_calls {a : WakeStep} (hnot : ¬ FindsEmpty a s) (hne : a ≠ .smp (.hart 0)) :
    ∃ s', (wakes cpus).run [a, a, a] s = some s' ∧ ¬ RunsNothing s' := by
  cases a with
  | ipi h => exact absurd trivial hnot
  | smp a =>
    cases a with
    | hart h =>
      have hh : h ≠ 0 := fun he => hne (he ▸ rfl)
      simp only [FindsEmpty, Classical.not_imp] at hnot
      obtain ⟨hstray, hpc, hfn⟩ := hnot
      obtain ⟨s₁, hs₁, hx₁, hstray₁⟩ := wakeStep_hart cpus (s := s) hh
        (by rw [hpc]; nofun) (by rw [hartStep, hpc])
      obtain ⟨s₂, hs₂, hx₂, hstray₂⟩ := wakeStep_hart cpus (s := s₁) hh
        (by rw [hx₁]; nofun) (by rw [hartStep, hx₁])
      obtain ⟨s₃, hs₃, hx₃, hstray₃⟩ := wakeStep_hart cpus (s := s₂) hh
        (by rw [hx₂]; nofun) (by rw [hartStep, hx₂])
      refine ⟨s₃, ?_, fun hnothing => ?_⟩
      · rw [Machine.run_cons, hs₁, Option.bind_some, Machine.run_cons, hs₂, Option.bind_some,
          Machine.run_cons, hs₃, Option.bind_some, Machine.run]
      · rw [if_pos hfn] at hx₃
        have hbody := (hnothing h).1 (s.sys.harts h).cmdFn (s.sys.harts h).cmdArg
          (by rw [hx₃])
        rw [hstray₃, hstray₂, hstray₁, hstray] at hbody
        cases hbody
    | _ => exact absurd trivial hnot

/-- **A stray wake runs nothing** as long as a hart that woke while `smp_running` was 0 finds its
slot empty. Where it does not, its next steps call the function that is in there. -/
theorem stray_wake (hs : (wakes cpus).ReachableBy FindsEmpty s) :
    RunsNothing s ∧ ∀ a, ¬ FindsEmpty a s → a ≠ .smp (.hart 0) →
      ∃ s', (wakes cpus).run [a, a, a] s = some s' ∧ ¬ RunsNothing s' := by
  refine ⟨fun h => ⟨fun fn arg hpc => ?_, (wakeInv_of_reachable hs h).calls⟩,
    fun a => read_calls⟩
  have hread := (wakeInv_of_reachable hs h).read
  rw [Hart.Read, hpc] at hread
  exact hread

/-- A wake without a command, and then a command up to its call. -/
def earlyWake : List WakeStep :=
  .ipi 1 :: List.replicate 8 (.smp (.hart 1)) ++ .smp (.start 1 5 6) ::
    List.replicate 4 (.smp .primary) ++ List.replicate 7 (.smp (.hart 1))

/-- The hart has been called once. -/
theorem stray_wake_earlyWake :
    ∃ s, (wakes 2).ReachableBy FindsEmpty s ∧ (s.sys.harts 1).calls = [(5, 6)] ∧
      RunsNothing s := by
  have hrun : (wakes 2).runBy FindsEmpty earlyWake (wakes 2).init = some _ := rfl
  have hreach := Machine.ReachableBy.init.of_runBy hrun
  exact ⟨_, hreach, rfl, (stray_wake hreach).1⟩

/-- A command that is called and returns, and then a wake without a command. -/
def lateWake : List WakeStep :=
  .smp (.start 1 5 6) :: List.replicate 4 (.smp .primary) ++ List.replicate 7 (.smp (.hart 1)) ++
    [.smp (.ret 1), .smp (.hart 1), .ipi 1] ++ List.replicate 7 (.smp (.hart 1))

/-- **A stray wake that runs a function**: hart 1 calls the function of its last command again. -/
theorem wake_calls :
    ¬ ∀ (cpus : ℕ) (s : Wakes), (wakes cpus).Reachable s → RunsNothing s := by
  intro hall
  have hrun : (wakes 2).run lateWake (wakes 2).init = some _ := rfl
  have hbody := (hall 2 _ (Machine.reachable_of_run hrun) 1).1 5 6 rfl
  cases hbody

end RvvmHal.Smp
