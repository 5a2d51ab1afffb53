import Mathlib.Logic.Function.Basic
import Mathlib.Order.Basic
import RvvmHal.Foundations.Machine

/-!
# Dispatch to secondary harts

`smp.c` with the park loop of `start.S`. Hart 0 hands a function and its argument to another hart:
`smp_start` stores the two in the command slot of that hart, sets `smp_running` and raises the
interrupt of the hart. The other harts wait for their interrupt, clear it, read the slot, make the
call and clear `smp_running`. The statements of all harts are interleaved in any order; a wait for
an interrupt may also end without one.
-/

namespace RvvmHal.Smp

abbrev SMP_MAX_HARTS : ℕ := 8

/-- `hart_count_v` after `smp_init`, for the number of CPU nodes. -/
def hartCount (cpus : ℕ) : ℕ :=
  let n := if cpus = 0 then 1 else cpus
  if n > SMP_MAX_HARTS then SMP_MAX_HARTS else n

/-! ## The harts -/

/-- Where a secondary hart is, between `secondary_park` and `__smp_secondary_dispatch`.

* `wfi`: waiting for an interrupt;
* `load`: about to read its pending bit;
* `clear`: having read 1, about to clear it;
* `enter`: at the beginning of the dispatch;
* `readFn`, `readArg`: about to read the slot;
* `call`: about to call the function;
* `body`: in the function;
* `finish`: about to clear `smp_running`. -/
inductive HartPc
  | wfi
  | load
  | clear
  | enter
  | readFn
  | readArg (fn : ℕ)
  | call (fn arg : ℕ)
  | body (fn arg : ℕ)
  | finish
  deriving DecidableEq

/-- From the clearing of the pending bit to the end of `__smp_secondary_dispatch`. -/
def HartPc.InDispatch : HartPc → Prop
  | .wfi | .load | .clear => False
  | _ => True

/-- A hart with its command slot, its byte of `smp_running` and its pending bit. `accepted` are the
commands for which `smp_start` returned true, `calls` the calls made, and `returned` is the number
of those that have returned. -/
structure Hart where
  cmdFn : ℕ
  cmdArg : ℕ
  running : Bool
  msip : Bool
  pc : HartPc
  accepted : List (ℕ × ℕ)
  calls : List (ℕ × ℕ)
  returned : ℕ

/-- The next statement of the hart `h`. In the function it has none: the function may return. -/
def hartStep (h : ℕ) (x : Hart) : Option Hart :=
  match x.pc with
  | .wfi => some { x with pc := .load }
  | .load => some { x with pc := if x.msip then .clear else .wfi }
  | .clear => some { x with msip := false, pc := .enter }
  | .enter => some { x with pc := if h ≥ SMP_MAX_HARTS then .wfi else .readFn }
  | .readFn => some { x with pc := .readArg x.cmdFn }
  | .readArg fn => some { x with pc := .call fn x.cmdArg }
  | .call fn arg =>
    some (if fn ≠ 0 then { x with pc := .body fn arg, calls := x.calls ++ [(fn, arg)] }
      else { x with pc := .finish })
  | .body _ _ => none
  | .finish => some { x with running := false, pc := .wfi }

/-- The function returns. -/
def hartReturn (x : Hart) : Option Hart :=
  match x.pc with
  | .body _ _ => some { x with returned := x.returned + 1, pc := .finish }
  | _ => none

/-! ## The primary -/

/-- Where the primary is: outside of `smp.c`, before one of the stores of `smp_start` or its
interrupt, or in the loop of `smp_wait`. -/
inductive PrimaryPc
  | idle
  | storeFn (h fn arg : ℕ)
  | storeArg (h fn arg : ℕ)
  | storeRunning (h fn arg : ℕ)
  | sendIpi (h fn arg : ℕ)
  | waiting (h : ℕ)
  deriving DecidableEq

/-- All harts. -/
structure System where
  primary : PrimaryPc
  harts : ℕ → Hart

/-- The checks of `smp_start`. -/
def Refused (cpus : ℕ) (s : System) (h fn : ℕ) : Prop :=
  h = 0 ∨ h ≥ hartCount cpus ∨ (s.harts h).running = true ∨ fn = 0

instance (cpus : ℕ) (s : System) (h fn : ℕ) : Decidable (Refused cpus s h fn) :=
  inferInstanceAs (Decidable (_ ∨ _))

/-- A call of `smp_start`, with its checks. -/
def smpStart (cpus h fn arg : ℕ) (s : System) : Option System :=
  match s.primary with
  | .idle => some (if Refused cpus s h fn then s else { s with primary := .storeFn h fn arg })
  | _ => none

/-- `smp_is_running`. -/
def smpIsRunning (s : System) (h : ℕ) : Bool :=
  if h ≥ SMP_MAX_HARTS then false else (s.harts h).running

/-- A call of `smp_wait`. -/
def smpWait (h : ℕ) (s : System) : Option System :=
  match s.primary with
  | .idle => some { s with primary := .waiting h }
  | _ => none

/-- A store to what belongs to the hart `h`. -/
def System.set (s : System) (primary : PrimaryPc) (h : ℕ) (x : Hart) : System :=
  ⟨primary, Function.update s.harts h x⟩

@[simp] theorem System.set_harts_self (s : System) (p : PrimaryPc) (h : ℕ) (x : Hart) :
    (s.set p h x).harts h = x := Function.update_self ..

theorem System.set_harts_of_ne (s : System) (p : PrimaryPc) (x : Hart) {h h' : ℕ} (hne : h' ≠ h) :
    (s.set p h x).harts h' = s.harts h' := Function.update_of_ne hne ..

/-- The next statement of `smp_start`, or the next round of `smp_wait`. With the interrupt the
command is accepted, and `smp_start` returns true. -/
def primaryStep (s : System) : Option System :=
  match s.primary with
  | .idle => none
  | .storeFn h fn arg => some (s.set (.storeArg h fn arg) h { s.harts h with cmdFn := fn })
  | .storeArg h fn arg => some (s.set (.storeRunning h fn arg) h { s.harts h with cmdArg := arg })
  | .storeRunning h fn arg => some (s.set (.sendIpi h fn arg) h { s.harts h with running := true })
  | .sendIpi h fn arg =>
    some (s.set .idle h { s.harts h with
      msip := true, accepted := (s.harts h).accepted ++ [(fn, arg)] })
  | .waiting h => some { s with primary := if smpIsRunning s h then .waiting h else .idle }

/-- The steps of the primary and of the other harts. -/
inductive SmpStep
  | start (h fn arg : ℕ)
  | isRunning (h : ℕ)
  | wait (h : ℕ)
  | primary
  | hart (h : ℕ)
  | ret (h : ℕ)
  deriving DecidableEq

/-- One step. -/
def smpStep (cpus : ℕ) : SmpStep → System → Option System
  | .start h fn arg, s => smpStart cpus h fn arg s
  | .isRunning _, s => if s.primary = .idle then some s else none
  | .wait h, s => smpWait h s
  | .primary, s => primaryStep s
  | .hart h, s =>
    if h = 0 then none else (hartStep h (s.harts h)).map (s.set s.primary h)
  | .ret h, s => (hartReturn (s.harts h)).map (s.set s.primary h)

/-- All runs, from the reset of the machine. -/
def smp (cpus : ℕ) : Machine System SmpStep where
  init := ⟨.idle, fun _ => ⟨0, 0, false, false, .wfi, [], [], 0⟩⟩
  step := smpStep cpus

end RvvmHal.Smp
