import RvvmHal.Trap.Irq

/-!
# Waiting for a deadline

`time_busy_until` in `time.c`, over the timer of the platform: a comparator, and an enable bit. The
time goes on between any two statements, `wfi` wakes up at any time, and the timer interrupt is taken
whenever it pends and is enabled; `trap_dispatch` calls the handler then, which arms its next
deadline.

`Outline` says what holds at each statement. The wait returns once its deadline has passed
(`timeBusyUntil_returns`), with `xstatus` as it was, and with the timer given up: whoever has armed it
before gets no tick any more (`timeBusyUntil_returned`).
-/

namespace RvvmHal.Time

open Irq (IrqState CAUSE_INTERRUPT_BIT CAUSE_TIMER)
open Trap (Priv)

/-! ## The timer of a hart -/

/-- `STATUS_IE_BIT`. -/
def STATUS_IE_BIT : Priv → BitVec 64
  | .m => 1#64 <<< 3
  | .s => 1#64 <<< 1

/-- `IE_TIMER_BIT`. -/
def IE_TIMER_BIT : Priv → BitVec 64
  | .m => 1#64 <<< 7
  | .s => 1#64 <<< 5

/-- `CSR_STATUS`, `CSR_IE`, the comparator of the timer, the time, and the dispatcher. -/
structure Hart where
  status : BitVec 64
  ie : BitVec 64
  cmp : BitVec 64
  time : ℕ
  irq : IrqState

namespace Hart

/-- `plat_timer_set_deadline`. -/
def platTimerSetDeadline (deadline : BitVec 64) (h : Hart) : Hart := { h with cmp := deadline }

/-- `plat_timer_irq_enable`. -/
def platTimerIrqEnable (p : Priv) (h : Hart) : Hart := { h with ie := h.ie ||| IE_TIMER_BIT p }

/-- `plat_timer_irq_disable`. -/
def platTimerIrqDisable (p : Priv) (h : Hart) : Hart :=
  { h with ie := h.ie &&& ~~~IE_TIMER_BIT p }

/-- The timer interrupt is enabled. -/
def TimerOn (p : Priv) (h : Hart) : Prop := h.ie &&& IE_TIMER_BIT p ≠ 0

instance (p : Priv) (h : Hart) : Decidable (h.TimerOn p) := inferInstanceAs (Decidable (_ ≠ _))

/-- The timer interrupt pends and is enabled: `wfi` does not wait. -/
def TimerPends (p : Priv) (h : Hart) : Prop := h.TimerOn p ∧ h.cmp.toNat ≤ h.time

/-- The timer interrupt is taken. -/
def TimerTraps (p : Priv) (h : Hart) : Prop := h.status &&& STATUS_IE_BIT p ≠ 0 ∧ h.TimerPends p

instance (p : Priv) (h : Hart) : Decidable (h.TimerTraps p) :=
  inferInstanceAs (Decidable (_ ≠ _ ∧ h.TimerOn p ∧ _))

/-- The timer interrupt is taken. The handler arms `next`; without a handler the dispatcher disables
the interrupt. -/
def timerTrap (p : Priv) (next : BitVec 64) (h : Hart) : Option Hart :=
  if h.TimerTraps p then
    (h.irq.trap p (CAUSE_INTERRUPT_BIT ||| CAUSE_TIMER p)).bind fun irq =>
      match irq.pc with
      | .localHandler _ =>
        irq.ret.map fun irq => { h with irq := irq }.platTimerSetDeadline next
      | _ => some ({ h with irq := irq }.platTimerIrqDisable p)
  else none

end Hart

/-! ## The wait -/

/-- The statements of `time_busy_until`. -/
inductive Pc
  | csrrc
  | irqEnable
  | test
  | setDeadline
  | wfi
  | setNever
  | irqDisable
  | restore
  | ret
  deriving DecidableEq

/-- A hart in `time_busy_until`, with `old_status`. -/
structure Wait where
  hart : Hart
  oldStatus : BitVec 64
  pc : Pc

/-- The steps: a statement, which for `wfi` is that it wakes up, for any reason; the time goes on; the
timer interrupt is taken. -/
inductive Act
  | exec
  | advance (time : ℕ)
  | timer (next : BitVec 64)

namespace Wait

/-- The next statement. -/
def exec (p : Priv) (deadline : BitVec 64) (s : Wait) : Option Wait :=
  match s.pc with
  | .csrrc =>
    some ⟨{ s.hart with status := s.hart.status &&& ~~~STATUS_IE_BIT p }, s.hart.status,
      .irqEnable⟩
  | .irqEnable => some { s with hart := s.hart.platTimerIrqEnable p, pc := .test }
  | .test =>
    some { s with pc := if s.hart.time < deadline.toNat then .setDeadline else .setNever }
  | .setDeadline => some { s with hart := s.hart.platTimerSetDeadline deadline, pc := .wfi }
  | .wfi => some { s with pc := .test }
  | .setNever => some { s with hart := s.hart.platTimerSetDeadline (-1), pc := .irqDisable }
  | .irqDisable => some { s with hart := s.hart.platTimerIrqDisable p, pc := .restore }
  | .restore =>
    if s.oldStatus &&& STATUS_IE_BIT p ≠ 0 then
      some ⟨{ s.hart with status := s.hart.status ||| STATUS_IE_BIT p }, s.oldStatus, .ret⟩
    else some { s with pc := .ret }
  | .ret => none

/-- One step. -/
def step (p : Priv) (deadline : BitVec 64) (s : Wait) : Act → Option Wait
  | .exec => s.exec p deadline
  | .advance time =>
    if s.hart.time ≤ time ∧ time < 2 ^ 64 then some { s with hart := { s.hart with time := time } }
    else none
  | .timer next => (s.hart.timerTrap p next).map fun hart => { s with hart := hart }

end Wait

/-- **`time_busy_until`**, and what happens after it has returned. -/
def timeBusyUntil (p : Priv) (deadline : BitVec 64) (hart : Hart) : Machine Wait Act where
  init := ⟨hart, 0, .csrrc⟩
  step a s := s.step p deadline a

/-! ## Masks -/

variable {p : Priv} {deadline : BitVec 64} {h₀ h : Hart} {s s' : Wait}

theorem and_not_and (x b : BitVec 64) : x &&& ~~~b &&& b = 0 := by
  rw [BitVec.and_assoc, BitVec.and_comm (~~~b), BitVec.and_not_self]
  exact BitVec.and_zero

theorem and_or_not (x b : BitVec 64) : x &&& b ||| x &&& ~~~b = x := by
  rw [← BitVec.and_or_distrib_left, BitVec.or_not_self]
  exact BitVec.and_allOnes

/-- A bit that is cleared and was not set. -/
theorem and_not_of_and_eq_zero {x b : BitVec 64} (hx : x &&& b = 0) : x &&& ~~~b = x := by
  have h := and_or_not x b
  rw [hx] at h
  simpa using h

/-- A bit that has been cleared and is set again. -/
theorem and_not_or_of_and_eq {x b : BitVec 64} (hx : x &&& b = b) : x &&& ~~~b ||| b = x := by
  have h := and_or_not x b
  rwa [hx, BitVec.or_comm] at h

theorem and_STATUS_IE_BIT {x : BitVec 64} (hx : x &&& STATUS_IE_BIT p ≠ 0) :
    x &&& STATUS_IE_BIT p = STATUS_IE_BIT p := by
  obtain ⟨i, hi⟩ : ∃ i, STATUS_IE_BIT p = BitVec.twoPow 64 i := by
    cases p with
    | m => exact ⟨3, rfl⟩
    | s => exact ⟨1, rfl⟩
  rw [hi, BitVec.and_twoPow] at hx ⊢
  split
  · rfl
  next hbit => exact absurd (if_neg hbit) hx

theorem timerOn_irqEnable (h : Hart) : (h.platTimerIrqEnable p).TimerOn p := by
  have hbit : (h.ie ||| IE_TIMER_BIT p) &&& IE_TIMER_BIT p = IE_TIMER_BIT p := by
    ext i
    simpa using Or.inr
  rw [Hart.TimerOn, Hart.platTimerIrqEnable, hbit]
  cases p <;> decide

theorem not_timerOn_irqDisable (h : Hart) : ¬ (h.platTimerIrqDisable p).TimerOn p :=
  fun hon => hon (and_not_and h.ie (IE_TIMER_BIT p))

/-- The enable bits but that of the timer. -/
def Hart.others (p : Priv) (h : Hart) : BitVec 64 := h.ie &&& ~~~IE_TIMER_BIT p

theorem others_irqEnable (h : Hart) : (h.platTimerIrqEnable p).others p = h.others p := by
  rw [Hart.others, Hart.platTimerIrqEnable, BitVec.and_or_distrib_right, BitVec.and_not_self]
  exact BitVec.or_zero

theorem others_irqDisable (h : Hart) : (h.platTimerIrqDisable p).others p = h.others p := by
  rw [Hart.others, Hart.platTimerIrqDisable, BitVec.and_assoc, BitVec.and_self, Hart.others]

theorem ie_eq_others (hoff : ¬ h.TimerOn p) : h.ie = h.others p :=
  (and_not_of_and_eq_zero (not_not.1 hoff)).symm

/-! ## Proof outline -/

/-- Interrupts are off, and `old_status` is the `xstatus` of the caller. -/
def Wait.Masked (p : Priv) (h₀ : Hart) (s : Wait) : Prop :=
  s.oldStatus = h₀.status ∧ s.hart.status = h₀.status &&& ~~~STATUS_IE_BIT p

/-- **What holds at each statement**, in a call that begins with `h₀`. -/
def Outline (p : Priv) (deadline : BitVec 64) (h₀ : Hart) (s : Wait) : Prop :=
  match s.pc with
  | .csrrc => s.hart.status = h₀.status
  | .irqEnable => s.Masked p h₀
  | .test | .setDeadline => s.Masked p h₀ ∧ s.hart.TimerOn p
  | .wfi => s.Masked p h₀ ∧ s.hart.TimerOn p ∧ s.hart.cmp = deadline
  | .setNever => s.Masked p h₀ ∧ deadline.toNat ≤ s.hart.time
  | .irqDisable => s.Masked p h₀ ∧ deadline.toNat ≤ s.hart.time ∧ s.hart.cmp = -1
  | .restore =>
    s.Masked p h₀ ∧ deadline.toNat ≤ s.hart.time ∧ s.hart.cmp = -1 ∧ ¬ s.hart.TimerOn p
  | .ret =>
    s.hart.status = h₀.status ∧ deadline.toNat ≤ s.hart.time ∧ s.hart.cmp = -1 ∧
      ¬ s.hart.TimerOn p

/-- The timer interrupt is not taken while interrupts are off. -/
theorem Wait.Masked.not_timerTraps (hm : s.Masked p h₀) : ¬ s.hart.TimerTraps p := by
  intro htraps
  have hoff := and_not_and h₀.status (STATUS_IE_BIT p)
  rw [← hm.2] at hoff
  exact htraps.1 hoff

/-- **Statements** lead from outline to outline. -/
theorem Outline.exec (hO : Outline p deadline h₀ s) (hs : s.exec p deadline = some s') :
    Outline p deadline h₀ s' := by
  unfold Outline at hO
  unfold Wait.exec at hs
  cases hpc : s.pc with
  | csrrc =>
    rw [hpc] at hO hs
    cases hs
    exact ⟨hO, by rw [← hO]⟩
  | irqEnable =>
    rw [hpc] at hO hs
    cases hs
    exact ⟨hO, timerOn_irqEnable s.hart⟩
  | test =>
    rw [hpc] at hO hs
    cases hs
    unfold Outline
    by_cases hlt : s.hart.time < deadline.toNat
    · simp only [if_pos hlt]
      exact hO
    · simp only [if_neg hlt]
      exact ⟨hO.1, Nat.le_of_not_lt hlt⟩
  | setDeadline =>
    rw [hpc] at hO hs
    cases hs
    exact ⟨hO.1, hO.2, rfl⟩
  | wfi =>
    rw [hpc] at hO hs
    cases hs
    exact ⟨hO.1, hO.2.1⟩
  | setNever =>
    rw [hpc] at hO hs
    cases hs
    exact ⟨hO.1, hO.2, rfl⟩
  | irqDisable =>
    rw [hpc] at hO hs
    cases hs
    exact ⟨hO.1, hO.2.1, hO.2.2, not_timerOn_irqDisable s.hart⟩
  | restore =>
    rw [hpc] at hO hs
    obtain ⟨⟨hold, hstatus⟩, hrest⟩ := hO
    dsimp only at hs
    split at hs
    next hon =>
      cases hs
      refine ⟨?_, hrest⟩
      rw [hold] at hon
      exact hstatus ▸ and_not_or_of_and_eq (and_STATUS_IE_BIT hon)
    next hoff =>
      cases hs
      rw [hold] at hoff
      exact ⟨hstatus.trans (and_not_of_and_eq_zero (not_not.1 hoff)), hrest⟩
  | ret =>
    rw [hpc] at hs
    cases hs

/-- The time goes on. -/
theorem Outline.advance (hO : Outline p deadline h₀ s) {time : ℕ} (hle : s.hart.time ≤ time) :
    Outline p deadline h₀ { s with hart := { s.hart with time := time } } := by
  unfold Outline at hO ⊢
  cases hpc : s.pc with
  | csrrc | irqEnable | test | setDeadline | wfi =>
    rw [hpc] at hO
    exact hO
  | setNever =>
    rw [hpc] at hO
    exact ⟨hO.1, hO.2.trans hle⟩
  | irqDisable | restore | ret =>
    rw [hpc] at hO
    exact ⟨hO.1, hO.2.1.trans hle, hO.2.2⟩

theorem timerTrap_eq_some {next : BitVec 64} {h' : Hart} (ht : h.timerTrap p next = some h') :
    h.TimerTraps p ∧ h'.status = h.status ∧ h'.others p = h.others p := by
  obtain ⟨htraps, ht⟩ := Option.ite_none_right_eq_some.1 ht
  obtain ⟨irq, -, ht⟩ := Option.bind_eq_some_iff.1 ht
  refine ⟨htraps, ?_⟩
  split at ht
  · obtain ⟨irq', -, rfl⟩ := Option.map_eq_some_iff.1 ht
    exact ⟨rfl, rfl⟩
  · cases ht
    exact ⟨rfl, others_irqDisable h⟩

/-- **The timer interrupt** is taken before the wait only. -/
theorem Outline.pc_of_timerTraps (hO : Outline p deadline h₀ s) (ht : s.hart.TimerTraps p) :
    s.pc = .csrrc := by
  unfold Outline at hO
  cases hpc : s.pc with
  | csrrc => rfl
  | irqEnable =>
    rw [hpc] at hO
    exact absurd ht hO.not_timerTraps
  | ret =>
    rw [hpc] at hO
    exact absurd ht.2.1 hO.2.2.2
  | _ =>
    rw [hpc] at hO
    exact absurd ht hO.1.not_timerTraps

/-- **Every step** leads from outline to outline. -/
theorem Outline.step (hO : Outline p deadline h₀ s) {a : Act}
    (hs : s.step p deadline a = some s') : Outline p deadline h₀ s' := by
  cases a with
  | exec => exact hO.exec hs
  | advance time =>
    obtain ⟨hle, hs⟩ := Option.ite_none_right_eq_some.1 hs
    cases hs
    exact hO.advance hle.1
  | timer next =>
    obtain ⟨h', ht, rfl⟩ := Option.map_eq_some_iff.1 hs
    obtain ⟨htraps, hstatus, -⟩ := timerTrap_eq_some ht
    have hpc := hO.pc_of_timerTraps htraps
    unfold Outline at hO ⊢
    rw [hpc] at hO
    simp only [hpc]
    exact hstatus.trans hO

/-- **Every step** leaves the enable bits but that of the timer. -/
theorem others_step {a : Act} (hs : s.step p deadline a = some s') :
    s'.hart.others p = s.hart.others p := by
  cases a with
  | exec =>
    unfold Wait.step Wait.exec at hs
    cases hpc : s.pc with
    | irqEnable =>
      rw [hpc] at hs
      cases hs
      exact others_irqEnable s.hart
    | irqDisable =>
      rw [hpc] at hs
      cases hs
      exact others_irqDisable s.hart
    | restore =>
      rw [hpc] at hs
      dsimp only at hs
      split at hs <;> cases hs <;> rfl
    | ret =>
      rw [hpc] at hs
      cases hs
    | _ =>
      rw [hpc] at hs
      cases hs
      rfl
  | advance time =>
    obtain ⟨-, hs⟩ := Option.ite_none_right_eq_some.1 hs
    cases hs
    rfl
  | timer next =>
    obtain ⟨h', ht, rfl⟩ := Option.map_eq_some_iff.1 hs
    exact (timerTrap_eq_some ht).2.2

theorem outline_of_reachable (hs : (timeBusyUntil p deadline h₀).Reachable s) :
    Outline p deadline h₀ s := by
  have hinit : Outline p deadline h₀ (timeBusyUntil p deadline h₀).init :=
    (rfl : h₀.status = h₀.status)
  exact hs.invariant hinit fun hO _ hstep => hO.step hstep

theorem others_of_reachable (hs : (timeBusyUntil p deadline h₀).Reachable s) :
    s.hart.others p = h₀.others p :=
  hs.invariant (I := fun s => s.hart.others p = h₀.others p) rfl
    fun hI _ hstep => (others_step hstep).trans hI

/-! ## The end of the wait -/

/-- How many statements are left once the deadline has passed. -/
def Pc.left : Pc → ℕ
  | .csrrc | .setDeadline => 6
  | .irqEnable | .wfi => 5
  | .test => 4
  | .setNever => 3
  | .irqDisable => 2
  | .restore => 1
  | .ret => 0

/-- Once the deadline has passed, each statement is one less. -/
theorem exec_left (hle : deadline.toNat ≤ s.hart.time) {n : ℕ} (hleft : s.pc.left = n + 1) :
    ∃ s', s.exec p deadline = some s' ∧ s'.hart.time = s.hart.time ∧ s'.pc.left = n := by
  obtain ⟨h, old, pc⟩ := s
  cases pc with
  | ret => cases hleft
  | test =>
    cases hleft
    refine ⟨_, rfl, rfl, ?_⟩
    dsimp only
    rw [if_neg (Nat.not_lt.2 hle)]
    rfl
  | restore =>
    cases hleft
    by_cases hold : old &&& STATUS_IE_BIT p ≠ 0
    · exact ⟨_, if_pos hold, rfl, rfl⟩
    · exact ⟨_, if_neg hold, rfl, rfl⟩
  | _ =>
    cases hleft
    exact ⟨_, rfl, rfl, rfl⟩

theorem run_left (hle : deadline.toNat ≤ s.hart.time) {n : ℕ} (hleft : s.pc.left = n) :
    ∃ s', (timeBusyUntil p deadline h₀).run (List.replicate n .exec) s = some s' ∧
      s'.pc = .ret := by
  induction n generalizing s with
  | zero =>
    refine ⟨s, rfl, ?_⟩
    cases hpc : s.pc <;> rw [hpc] at hleft <;> first | rfl | cases hleft
  | succ n ih =>
    obtain ⟨s', hs', htime, hleft'⟩ := exec_left hle hleft
    obtain ⟨s'', hrun, hret⟩ := ih (htime ▸ hle) hleft'
    refine ⟨s'', ?_, hret⟩
    rw [List.replicate_succ, Machine.run_cons]
    exact Option.bind_eq_some_iff.2 ⟨s', hs', hrun⟩

/-- **The wait returns** once the deadline has passed, and at `wfi` the timer wakes it up then. -/
theorem timeBusyUntil_returns (hs : (timeBusyUntil p deadline h₀).Reachable s)
    (hle : deadline.toNat ≤ s.hart.time) :
    (∃ s', (timeBusyUntil p deadline h₀).run (List.replicate s.pc.left .exec) s = some s' ∧
      s'.pc = .ret) ∧ (s.pc = .wfi → s.hart.TimerPends p) := by
  refine ⟨run_left hle rfl, fun hpc => ?_⟩
  have hO := outline_of_reachable hs
  unfold Outline at hO
  rw [hpc] at hO
  exact ⟨hO.2.1, hO.2.2 ▸ hle⟩

/-! ## Main results -/

/-- **The wait gives the timer up**: it returns with `xstatus` as it was, after its deadline, with the
comparator at "never" and the timer interrupt disabled. Whatever was armed before, the interrupt pends
at no later time. -/
theorem timeBusyUntil_returned (p : Priv) (deadline : BitVec 64) (h₀ : Hart) {s : Wait}
    (hs : (timeBusyUntil p deadline h₀).Reachable s) (hret : s.pc = .ret) :
    s.hart.status = h₀.status ∧ deadline.toNat ≤ s.hart.time ∧ s.hart.cmp = -1 ∧
      s.hart.ie = h₀.ie &&& ~~~IE_TIMER_BIT p ∧
      ∀ time, ¬ { s.hart with time := time }.TimerPends p := by
  have hO := outline_of_reachable hs
  unfold Outline at hO
  rw [hret] at hO
  obtain ⟨hstatus, hle, hcmp, hoff⟩ := hO
  exact ⟨hstatus, hle, hcmp, (ie_eq_others hoff).trans (others_of_reachable hs),
    fun time hpends => hoff hpends.1⟩

/-- A timer handler is registered and has armed `next`, and the timer interrupt is enabled. -/
def Hart.Armed (p : Priv) (next : BitVec 64) (h : Hart) : Prop :=
  h.irq.irq.timer_fn ≠ none ∧ h.TimerOn p ∧ h.cmp = next

/-- The timer interrupt pends from `next` on. -/
def Hart.Delivers (p : Priv) (next : BitVec 64) (h : Hart) : Prop :=
  ∀ time, h.time ≤ time → next.toNat ≤ time → { h with time := time }.TimerPends p

/-- A hart with interrupts on, and a tick at 100. -/
def ticking : Hart :=
  ⟨0x8, 0x80, 100, 0, ⟨{ Irq.bootStatics with timer_fn := some 1 }, .client, []⟩⟩

/-- It waits until 10, and wakes up once. -/
def waits : List Act :=
  List.replicate 4 .exec ++ .advance 10 :: List.replicate 5 .exec

/-- The tick at 100 is lost. -/
theorem timeBusyUntil_ticking : ticking.Armed .m 100 ∧ ∃ s,
    (timeBusyUntil .m 10 ticking).Reachable s ∧ s.pc = .ret ∧ s.hart.irq.log = [] ∧
      ¬ s.hart.Delivers .m 100 := by
  refine ⟨⟨nofun, by decide, rfl⟩, ?_⟩
  obtain ⟨s, hrun, hpc, hlog, hoff⟩ : ∃ s,
      (timeBusyUntil .m 10 ticking).run waits (timeBusyUntil .m 10 ticking).init = some s ∧
        s.pc = .ret ∧ s.hart.irq.log = [] ∧ s.hart.ie = 0 := ⟨_, rfl, rfl, rfl, rfl⟩
  refine ⟨s, Machine.reachable_of_run hrun, hpc, hlog, fun hdel => ?_⟩
  have hon := (hdel (max s.hart.time 100) (Nat.le_max_left ..) (Nat.le_max_right ..)).1
  rw [Hart.TimerOn, hoff] at hon
  exact hon rfl

theorem timeBusyUntil_returned_ticking : ∃ s, (timeBusyUntil .m 10 ticking).Reachable s ∧
    s.hart.status = ticking.status ∧ 10 ≤ s.hart.time ∧ s.hart.cmp = -1 ∧
      s.hart.ie = ticking.ie &&& ~~~IE_TIMER_BIT .m ∧
      ∀ time, ¬ { s.hart with time := time }.TimerPends .m := by
  obtain ⟨s, hrun, hpc⟩ : ∃ s,
      (timeBusyUntil .m 10 ticking).run waits (timeBusyUntil .m 10 ticking).init = some s ∧
        s.pc = .ret := ⟨_, rfl, rfl⟩
  have hs := Machine.reachable_of_run hrun
  exact ⟨s, hs, timeBusyUntil_returned .m 10 ticking hs hpc⟩

end RvvmHal.Time
