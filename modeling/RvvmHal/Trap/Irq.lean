import Mathlib.Algebra.BigOperators.Fin
import Mathlib.Data.Nat.ModEq
import RvvmHal.Foundations.Machine
import RvvmHal.Trap.Entry

/-!
# The interrupt dispatcher

`irq.c`: the table of handlers, the counters and `trap_dispatch`. What a run does to the interrupt
controller, the handlers it calls and the traps it takes are events of a log. The controller may
return any id from a claim. Handlers run with interrupts disabled, so no trap is taken inside of
another; like the code outside of traps they may register handlers, each store of which is a step.

The log of a run is a list of finished traps, followed by what the trap under way has done
(`claim_discipline`): in an external trap every claim is followed by the call of its handler and its
completion before the next claim is made, and the last claim returned 0. The counter of all
interrupts is the sum of the others.
-/

namespace RvvmHal.Irq

open Trap (Priv)

/-! ## The table and the counters -/

/-- `IRQ_HANDLERS_MAX`. -/
def IRQ_HANDLERS_MAX : ℕ := 64

/-- An entry of `handlers`; a function pointer that is `NULL` is `none`. -/
structure Handler where
  fn : Option ℕ
  ctx : ℕ
  count : ℕ
  deriving DecidableEq

/-- `count++`. -/
def Handler.bump (h : Handler) : Handler :=
  { h with count := (h.count + 1) % 2 ^ 32 }

/-- The statics of `irq.c`. -/
structure Statics where
  handlers : Fin IRQ_HANDLERS_MAX → Handler
  total_irqs : ℕ
  timer_fn : Option ℕ
  timer_ctx : ℕ
  ipi_fn : Option ℕ
  ipi_ctx : ℕ

/-- `irq_init`: the handlers of the timer and of IPIs stay. -/
def irqInit (s : Statics) : Statics :=
  { s with handlers := fun _ => ⟨none, 0, 0⟩, total_irqs := 0 }

/-- A store to the tables, as the functions that register handlers make them. -/
inductive Store
  | fn (source : Fin IRQ_HANDLERS_MAX) (handler : Option ℕ)
  | ctx (source : Fin IRQ_HANDLERS_MAX) (ctx : ℕ)
  | timerFn (handler : Option ℕ)
  | timerCtx (ctx : ℕ)
  | ipiFn (handler : Option ℕ)
  | ipiCtx (ctx : ℕ)

/-- The stores of `irq_register`. -/
def irqRegister (source : ℕ) (handler : Option ℕ) (ctx : ℕ) : List Store :=
  if h : source ≠ 0 ∧ source < IRQ_HANDLERS_MAX then
    [.fn ⟨source, h.2⟩ handler, .ctx ⟨source, h.2⟩ ctx]
  else []

/-- The stores of `irq_register_timer`. -/
def irqRegisterTimer (handler : Option ℕ) (ctx : ℕ) : List Store :=
  [.timerFn handler, .timerCtx ctx]

/-- The stores of `irq_register_ipi`. -/
def irqRegisterIpi (handler : Option ℕ) (ctx : ℕ) : List Store :=
  [.ipiFn handler, .ipiCtx ctx]

namespace Statics

/-- The effect of a store. -/
def store (s : Statics) : Store → Statics
  | .fn i f => { s with handlers := Function.update s.handlers i { s.handlers i with fn := f } }
  | .ctx i c => { s with handlers := Function.update s.handlers i { s.handlers i with ctx := c } }
  | .timerFn h => { s with timer_fn := h }
  | .timerCtx c => { s with timer_ctx := c }
  | .ipiFn h => { s with ipi_fn := h }
  | .ipiCtx c => { s with ipi_ctx := c }

/-- `total_irqs++`. -/
def tick (s : Statics) : Statics :=
  { s with total_irqs := (s.total_irqs + 1) % 2 ^ 32 }

/-- `handlers[source].count++`. -/
def bump (s : Statics) (i : Fin IRQ_HANDLERS_MAX) : Statics :=
  { s with handlers := Function.update s.handlers i (s.handlers i).bump }

/-- The handler of a source with its context, if one is registered. -/
def handler (s : Statics) (i : Fin IRQ_HANDLERS_MAX) : Option (ℕ × ℕ) :=
  (s.handlers i).fn.map (·, (s.handlers i).ctx)

/-- `irq_count_total`. -/
def irqCountTotal (s : Statics) : ℕ := s.total_irqs

/-- `irq_count_for`. -/
def irqCountFor (s : Statics) (source : ℕ) : ℕ :=
  if h : source < IRQ_HANDLERS_MAX then (s.handlers ⟨source, h⟩).count else 0

/-- The sum of the counters of the sources. -/
def counts (s : Statics) : ℕ :=
  ∑ source ∈ Finset.range IRQ_HANDLERS_MAX, s.irqCountFor source

theorem counts_eq (s : Statics) : s.counts = ∑ i, (s.handlers i).count := by
  rw [counts, Finset.sum_range]
  exact Finset.sum_congr rfl fun i _ => dif_pos i.isLt

/-- An entry written without its counter leaves the sum. -/
theorem counts_update {s s' : Statics} {i : Fin IRQ_HANDLERS_MAX} {h : Handler}
    (hs : s'.handlers = Function.update s.handlers i h) :
    s'.counts + (s.handlers i).count = s.counts + h.count := by
  have hupd : (fun j => (s'.handlers j).count)
      = Function.update (fun j => (s.handlers j).count) i h.count := by
    rw [hs]
    exact funext fun j => Function.apply_update (fun _ => Handler.count) s.handlers i h j
  rw [counts_eq, counts_eq, hupd, Finset.sum_update_of_mem (Finset.mem_univ i),
    Finset.sdiff_singleton_eq_erase,
    ← Finset.add_sum_erase Finset.univ (fun j => (s.handlers j).count) (Finset.mem_univ i)]
  omega

@[simp] theorem counts_store (s : Statics) (w : Store) : (s.store w).counts = s.counts := by
  cases w with
  | fn i f => exact Nat.add_right_cancel (counts_update (h := { s.handlers i with fn := f }) rfl)
  | ctx i c => exact Nat.add_right_cancel (counts_update (h := { s.handlers i with ctx := c }) rfl)
  | _ => rfl

@[simp] theorem total_store (s : Statics) (w : Store) :
    (s.store w).total_irqs = s.total_irqs := by
  cases w <;> rfl

@[simp] theorem counts_tick (s : Statics) : s.tick.counts = s.counts := rfl

/-- A count of one source counts in the sum. -/
theorem counts_bump (s : Statics) (i : Fin IRQ_HANDLERS_MAX) :
    (s.bump i).counts ≡ s.counts + 1 [MOD 2 ^ 32] := by
  have hsum : (s.bump i).counts + (s.handlers i).count = s.counts + (s.handlers i).bump.count :=
    counts_update rfl
  refine Nat.ModEq.add_right_cancel' (s.handlers i).count ?_
  rw [hsum, Nat.add_right_comm, Nat.add_assoc]
  exact (Nat.mod_modEq _ _).add_left _

end Statics

/-! ## The dispatcher -/

/-- `CAUSE_EXTERNAL`. -/
def CAUSE_EXTERNAL : Priv → BitVec 64
  | .m => 11
  | .s => 9

/-- `CAUSE_TIMER`. -/
def CAUSE_TIMER : Priv → BitVec 64
  | .m => 7
  | .s => 5

/-- `CAUSE_SOFTWARE`. -/
def CAUSE_SOFTWARE : Priv → BitVec 64
  | .m => 3
  | .s => 1

/-- `CAUSE_INTERRUPT_BIT`. -/
def CAUSE_INTERRUPT_BIT : BitVec 64 := 1#64 <<< 63

/-- What a run does: a trap is taken, a claim returns a source and finds its handler in the table, a
handler is called and returns, a claim is completed, `trap_dispatch` returns, and the rest. -/
inductive Event
  | trap (code : BitVec 64)
  | claim (source : ℕ) (found : Option (ℕ × ℕ))
  | call (source : ℕ) (handler : ℕ × ℕ)
  | callLocal (handler : ℕ × ℕ)
  | ret
  | complete (source : ℕ)
  | ipiAck
  | timerOff
  | puts (text : String)
  | printf (format : String) (code : BitVec 64)
  | leave
  deriving DecidableEq

/-- Where the hart is: outside of `trap_dispatch`, before `plat_intc_claim`, in the handler of a
source, before `plat_intc_complete`, or in the handler of the timer or of IPIs. -/
inductive IrqPc
  | client
  | claim
  | handler (source : ℕ)
  | complete (source : ℕ)
  | localHandler (handler : ℕ × ℕ)
  deriving DecidableEq

/-- The statics, the place of the hart, and the events so far. -/
structure IrqState where
  irq : Statics
  pc : IrqPc
  log : List Event

/-- The steps: a store to the tables, a trap, the answer to a claim, the return of a handler, a
completion. -/
inductive IrqAct
  | store (w : Store)
  | trap (mcause : BitVec 64)
  | claim (source : ℕ)
  | ret
  | complete

namespace IrqState

/-- Events are logged. -/
def emit (s : IrqState) (es : List Event) (pc : IrqPc) : IrqState :=
  { s with pc := pc, log := s.log ++ es }

/-- The code outside of `trap_dispatch`, which is that of handlers too, stores to the tables. -/
def store (s : IrqState) (w : Store) : Option IrqState :=
  match s.pc with
  | .claim | .complete _ => none
  | _ => some { s with irq := s.irq.store w }

/-- `trap_dispatch` up to the claim loop or the handler. An exception panics, and is no step. -/
def trapDispatch (p : Priv) (s : IrqState) (mcause : BitVec 64) : Option IrqState :=
  if mcause &&& CAUSE_INTERRUPT_BIT ≠ 0 then
    let code := mcause &&& ~~~CAUSE_INTERRUPT_BIT
    if code = CAUSE_EXTERNAL p then
      some (s.emit [.trap code] .claim)
    else if code = CAUSE_TIMER p then
      let s := { s with irq := s.irq.tick }
      match s.irq.timer_fn with
      | some f =>
        let handler := (f, s.irq.timer_ctx)
        some (s.emit [.trap code, .callLocal handler] (.localHandler handler))
      | none =>
        let text := "irq: timer fired with no handler; disabling timer IE\n"
        some (s.emit [.trap code, .puts text, .timerOff, .leave] .client)
    else if code = CAUSE_SOFTWARE p then
      let s := { s with irq := s.irq.tick }
      match s.irq.ipi_fn with
      | some f =>
        let handler := (f, s.irq.ipi_ctx)
        some (s.emit [.trap code, .ipiAck, .callLocal handler] (.localHandler handler))
      | none => some (s.emit [.trap code, .ipiAck, .leave] .client)
    else
      some (s.emit [.trap code, .printf "irq: unhandled interrupt code %u\n" code, .leave] .client)
  else none

/-- A trap is taken outside of `trap_dispatch` only. -/
def trap (p : Priv) (s : IrqState) (mcause : BitVec 64) : Option IrqState :=
  match s.pc with
  | .client => s.trapDispatch p mcause
  | _ => none

/-- `handle_external` from a claim to the call of the handler. -/
def claimed (s : IrqState) (source : ℕ) : IrqState :=
  if source = 0 then s.emit [.claim 0 none, .leave] .client
  else if h : source < IRQ_HANDLERS_MAX then
    let s := { s with irq := (s.irq.bump ⟨source, h⟩).tick }
    match s.irq.handler ⟨source, h⟩ with
    | some handler =>
      s.emit [.claim source (some handler), .call source handler] (.handler source)
    | none => s.emit [.claim source none] (.complete source)
  else s.emit [.claim source none] (.complete source)

/-- The interrupt controller answers a claim. -/
def claim (s : IrqState) (source : ℕ) : Option IrqState :=
  match s.pc with
  | .claim => some (s.claimed source)
  | _ => none

/-- A handler returns. -/
def ret (s : IrqState) : Option IrqState :=
  match s.pc with
  | .handler source => some (s.emit [.ret] (.complete source))
  | .localHandler _ => some (s.emit [.ret, .leave] .client)
  | _ => none

/-- `plat_intc_complete`. -/
def complete (s : IrqState) : Option IrqState :=
  match s.pc with
  | .complete source => some (s.emit [.complete source] .claim)
  | _ => none

end IrqState

/-- **The interrupt subsystem after `irq_init`.** -/
def irqMachine (p : Priv) (statics : Statics) : Machine IrqState IrqAct where
  init := ⟨irqInit statics, .client, []⟩
  step
    | .store w, s => s.store w
    | .trap mcause, s => s.trap p mcause
    | .claim source, s => s.claim source
    | .ret, s => s.ret
    | .complete, s => s.complete

/-! ## Traps and rounds -/

/-- A round of the claim loop: the source, and the handler that the claim found. -/
structure Round where
  source : ℕ
  found : Option (ℕ × ℕ)
  source_ne : source ≠ 0
  found_lt : found.isSome → source < IRQ_HANDLERS_MAX

/-- The events of a round up to the completion. -/
def Round.opened (r : Round) : List Event :=
  .claim r.source r.found :: match r.found with
    | some handler => [.call r.source handler, .ret]
    | none => []

/-- **The events of a round**: the claim, the call of the handler if there is one, the completion.
-/
def Round.events (r : Round) : List Event :=
  r.opened ++ [.complete r.source]

/-- A trap of which `trap_dispatch` has returned. -/
inductive Finished (p : Priv)
  | external (rounds : List Round)
  | timer (handler : Option (ℕ × ℕ))
  | software (handler : Option (ℕ × ℕ))
  | other (code : BitVec 64)
      (hcode : code ≠ CAUSE_EXTERNAL p ∧ code ≠ CAUSE_TIMER p ∧ code ≠ CAUSE_SOFTWARE p)

/-- **The events of a trap.** An external trap is left after a claim that returned 0. -/
def Finished.events {p : Priv} : Finished p → List Event
  | .external rounds =>
    .trap (CAUSE_EXTERNAL p) :: rounds.flatMap Round.events ++ [.claim 0 none, .leave]
  | .timer (some handler) => [.trap (CAUSE_TIMER p), .callLocal handler, .ret, .leave]
  | .timer none => [.trap (CAUSE_TIMER p),
      .puts "irq: timer fired with no handler; disabling timer IE\n", .timerOff, .leave]
  | .software (some handler) =>
    [.trap (CAUSE_SOFTWARE p), .ipiAck, .callLocal handler, .ret, .leave]
  | .software none => [.trap (CAUSE_SOFTWARE p), .ipiAck, .leave]
  | .other code _ => [.trap code, .printf "irq: unhandled interrupt code %u\n" code, .leave]

/-- What the trap under way has done so far. -/
def IrqPc.Shows (p : Priv) (cur : List Event) : IrqPc → Prop
  | .client => cur = []
  | .claim =>
    ∃ rounds : List Round, cur = .trap (CAUSE_EXTERNAL p) :: rounds.flatMap Round.events
  | .handler source => ∃ (rounds : List Round) (handler : ℕ × ℕ),
    source ≠ 0 ∧ source < IRQ_HANDLERS_MAX ∧
      cur = .trap (CAUSE_EXTERNAL p) :: rounds.flatMap Round.events ++
        [.claim source (some handler), .call source handler]
  | .complete source => ∃ (rounds : List Round) (r : Round), r.source = source ∧
    cur = .trap (CAUSE_EXTERNAL p) :: rounds.flatMap Round.events ++ r.opened
  | .localHandler h => cur = [.trap (CAUSE_TIMER p), .callLocal h] ∨
    cur = [.trap (CAUSE_SOFTWARE p), .ipiAck, .callLocal h]

/-- The timer and software interrupts among the events. -/
def dispatched (p : Priv) (log : List Event) : ℕ :=
  log.countP fun e => e = .trap (CAUSE_TIMER p) ∨ e = .trap (CAUSE_SOFTWARE p)

@[simp] theorem dispatched_nil (p : Priv) : dispatched p [] = 0 := rfl

@[simp] theorem dispatched_append (p : Priv) (l l' : List Event) :
    dispatched p (l ++ l') = dispatched p l + dispatched p l' := List.countP_append

/-! ## The invariant -/

/-- The log is that of finished traps and of the trap under way. -/
def TraceOk (p : Priv) (pc : IrqPc) (log : List Event) : Prop :=
  ∃ (traps : List (Finished p)) (cur : List Event),
    log = traps.flatMap Finished.events ++ cur ∧ pc.Shows p cur

/-- The trap under way goes on. -/
theorem TraceOk.extend {p : Priv} {pc pc' : IrqPc} {log es : List Event} (h : TraceOk p pc log)
    (hes : ∀ cur, pc.Shows p cur → pc'.Shows p (cur ++ es)) : TraceOk p pc' (log ++ es) := by
  obtain ⟨traps, cur, hlog, hcur⟩ := h
  exact ⟨traps, cur ++ es, by rw [hlog, List.append_assoc], hes cur hcur⟩

/-- The trap under way is finished. -/
theorem TraceOk.finish {p : Priv} {pc : IrqPc} {log es : List Event} (h : TraceOk p pc log)
    (hes : ∀ cur, pc.Shows p cur → ∃ t : Finished p, cur ++ es = t.events) :
    TraceOk p .client (log ++ es) := by
  obtain ⟨traps, cur, hlog, hcur⟩ := h
  obtain ⟨t, ht⟩ := hes cur hcur
  refine ⟨traps ++ [t], [], ?_, rfl⟩
  rw [hlog, List.append_assoc, ht]
  simp

/-- The counter of all interrupts is the sum of the others. -/
def TotalOk (p : Priv) (s : IrqState) : Prop :=
  s.irq.total_irqs = (s.irq.counts + dispatched p s.log) % 2 ^ 32

/-- The invariant of the runs. -/
structure IrqInv (p : Priv) (s : IrqState) : Prop where
  trace : TraceOk p s.pc s.log
  total : TotalOk p s

theorem irqInv_init (p : Priv) (statics : Statics) : IrqInv p (irqMachine p statics).init where
  trace := ⟨[], [], rfl, rfl⟩
  total := by
    have hcounts : (irqInit statics).counts = 0 := by
      rw [Statics.counts_eq]
      exact Finset.sum_eq_zero fun i _ => rfl
    show 0 = ((irqInit statics).counts + 0) % 2 ^ 32
    rw [hcounts, Nat.zero_mod]

/-- A step that changes no counter and logs no timer or software interrupt. -/
theorem TotalOk.quiet {p : Priv} {s : IrqState} (h : TotalOk p s) {es : List Event} {pc : IrqPc}
    (hes : dispatched p es = 0) : TotalOk p (s.emit es pc) := by
  show s.irq.total_irqs = (s.irq.counts + dispatched p (s.log ++ es)) % 2 ^ 32
  rw [dispatched_append, hes]
  exact h

/-- A timer or software interrupt is counted. -/
theorem TotalOk.tick {p : Priv} {s : IrqState} (h : TotalOk p s) {es : List Event} {pc : IrqPc}
    (hes : dispatched p es = 1) :
    TotalOk p (({ s with irq := s.irq.tick } : IrqState).emit es pc) := by
  show (s.irq.total_irqs + 1) % 2 ^ 32 = (s.irq.counts + dispatched p (s.log ++ es)) % 2 ^ 32
  rw [dispatched_append, hes, ← Nat.add_assoc, h, Nat.mod_add_mod]

/-- The claim of a source of the table is counted. -/
theorem TotalOk.bump {p : Priv} {s : IrqState} (h : TotalOk p s) (i : Fin IRQ_HANDLERS_MAX) :
    TotalOk p { s with irq := (s.irq.bump i).tick } := by
  show (s.irq.total_irqs + 1) % 2 ^ 32 = ((s.irq.bump i).counts + dispatched p s.log) % 2 ^ 32
  have hsum : (s.irq.bump i).counts + dispatched p s.log
      ≡ s.irq.counts + 1 + dispatched p s.log [MOD 2 ^ 32] := (s.irq.counts_bump i).add_right _
  rw [hsum, h, Nat.mod_add_mod, Nat.add_right_comm]

theorem IrqInv.store {p : Priv} {s s' : IrqState} {w : Store} (hI : IrqInv p s)
    (h : s.store w = some s') : IrqInv p s' := by
  have hs' : s' = { s with irq := s.irq.store w } := by
    unfold IrqState.store at h
    split at h
    · cases h
    · cases h
    · exact (Option.some.inj h).symm
  subst hs'
  exact ⟨hI.trace, by simpa [TotalOk] using hI.total⟩

/-- The events of an interrupt count as one of the timer or of software, or not. -/
theorem dispatched_trap {p : Priv} (code : BitVec 64) {es : List Event}
    (hes : dispatched p es = 0) : dispatched p (.trap code :: es) =
      if code = CAUSE_TIMER p ∨ code = CAUSE_SOFTWARE p then 1 else 0 := by
  rw [dispatched, List.countP_cons]
  change dispatched p es + _ = _
  rw [hes, Nat.zero_add]
  simp

/-- `trap_dispatch` begins. -/
theorem IrqInv.trapDispatch {p : Priv} {s s' : IrqState} {mcause : BitVec 64} (hI : IrqInv p s)
    (hpc : s.pc = .client) (h : s.trapDispatch p mcause = some s') : IrqInv p s' := by
  have hcur : ∀ cur, s.pc.Shows p cur → cur = [] := by
    intro cur hcur
    rwa [hpc] at hcur
  have hne : CAUSE_EXTERNAL p ≠ CAUSE_TIMER p ∧ CAUSE_EXTERNAL p ≠ CAUSE_SOFTWARE p := by
    cases p <;> decide
  unfold IrqState.trapDispatch at h
  split at h
  swap
  · cases h
  dsimp only at h
  generalize mcause &&& ~~~CAUSE_INTERRUPT_BIT = code at h
  split at h
  · rename_i hcode
    obtain rfl := Option.some.inj h
    refine ⟨hI.trace.extend fun cur hc => ⟨[], ?_⟩, hI.total.quiet ?_⟩
    · rw [hcur cur hc, hcode]
      rfl
    · rw [dispatched_trap code rfl, if_neg (by rw [hcode]; exact not_or.2 hne)]
  rename_i hext
  split at h
  · rename_i hcode
    have htick : ∀ {es : List Event}, dispatched p es = 0 → dispatched p (.trap code :: es) = 1 :=
      fun hes => by rw [dispatched_trap code hes, if_pos (.inl hcode)]
    split at h <;> obtain rfl := Option.some.inj h
    · refine ⟨hI.trace.extend fun cur hc => ?_, hI.total.tick (htick rfl)⟩
      rw [hcur cur hc, hcode]
      exact .inl rfl
    · refine ⟨hI.trace.finish fun cur hc => ⟨.timer none, ?_⟩, hI.total.tick (htick rfl)⟩
      rw [hcur cur hc, hcode]
      rfl
  rename_i htimer
  split at h
  · rename_i hcode
    have htick : ∀ {es : List Event}, dispatched p es = 0 → dispatched p (.trap code :: es) = 1 :=
      fun hes => by rw [dispatched_trap code hes, if_pos (.inr hcode)]
    split at h <;> obtain rfl := Option.some.inj h
    · refine ⟨hI.trace.extend fun cur hc => ?_, hI.total.tick (htick rfl)⟩
      rw [hcur cur hc, hcode]
      exact .inr rfl
    · refine ⟨hI.trace.finish fun cur hc => ⟨.software none, ?_⟩, hI.total.tick (htick rfl)⟩
      rw [hcur cur hc, hcode]
      rfl
  · rename_i hsoft
    obtain rfl := Option.some.inj h
    refine ⟨hI.trace.finish fun cur hc => ⟨.other code ⟨hext, htimer, hsoft⟩, ?_⟩,
      hI.total.quiet ?_⟩
    · rw [hcur cur hc]
      rfl
    · rw [dispatched_trap code rfl, if_neg (not_or.2 ⟨htimer, hsoft⟩)]

theorem IrqInv.trap {p : Priv} {s s' : IrqState} {mcause : BitVec 64} (hI : IrqInv p s)
    (h : s.trap p mcause = some s') : IrqInv p s' := by
  unfold IrqState.trap at h
  split at h
  · exact hI.trapDispatch ‹_› h
  · cases h

/-- A round ends. -/
theorem shows_round {p : Priv} {rounds : List Round} {r : Round} :
    .trap (CAUSE_EXTERNAL p) :: rounds.flatMap Round.events ++ r.opened ++ [.complete r.source]
      = .trap (CAUSE_EXTERNAL p) :: (rounds ++ [r]).flatMap Round.events := by
  simp [Round.events]

theorem IrqInv.claim {p : Priv} {s s' : IrqState} {source : ℕ} (hI : IrqInv p s)
    (h : s.claim source = some s') : IrqInv p s' := by
  unfold IrqState.claim at h
  split at h
  swap
  · cases h
  rename_i hpc
  obtain rfl := Option.some.inj h
  -- a claim that finds no handler goes on to the completion
  have hquiet : source ≠ 0 → TraceOk p (.complete source) (s.log ++ [.claim source none]) := by
    intro hne
    refine hI.trace.extend fun cur hcur => ?_
    rw [hpc] at hcur
    obtain ⟨rounds, rfl⟩ := hcur
    exact ⟨rounds, ⟨source, none, hne, fun h => by cases h⟩, rfl, rfl⟩
  unfold IrqState.claimed
  split
  · refine ⟨hI.trace.finish fun cur hcur => ?_, hI.total.quiet rfl⟩
    rw [hpc] at hcur
    obtain ⟨rounds, rfl⟩ := hcur
    exact ⟨.external rounds, rfl⟩
  rename_i hne
  split
  · rename_i hlt
    dsimp only
    split
    · refine ⟨hI.trace.extend fun cur hcur => ?_, (hI.total.bump ⟨source, hlt⟩).quiet rfl⟩
      rw [hpc] at hcur
      obtain ⟨rounds, rfl⟩ := hcur
      exact ⟨rounds, _, hne, hlt, rfl⟩
    · exact ⟨hquiet hne, (hI.total.bump ⟨source, hlt⟩).quiet rfl⟩
  · exact ⟨hquiet hne, hI.total.quiet rfl⟩

theorem IrqInv.ret {p : Priv} {s s' : IrqState} (hI : IrqInv p s) (h : s.ret = some s') :
    IrqInv p s' := by
  unfold IrqState.ret at h
  split at h
  · rename_i source hpc
    obtain rfl := Option.some.inj h
    refine ⟨hI.trace.extend fun cur hcur => ?_, hI.total.quiet rfl⟩
    rw [hpc] at hcur
    obtain ⟨rounds, handler, hne, hlt, rfl⟩ := hcur
    exact ⟨rounds, ⟨source, some handler, hne, fun _ => hlt⟩, rfl, by simp [Round.opened]⟩
  · rename_i handler hpc
    obtain rfl := Option.some.inj h
    refine ⟨hI.trace.finish fun cur hcur => ?_, hI.total.quiet rfl⟩
    rw [hpc] at hcur
    rcases hcur with rfl | rfl
    · exact ⟨.timer (some handler), rfl⟩
    · exact ⟨.software (some handler), rfl⟩
  · cases h

theorem IrqInv.complete {p : Priv} {s s' : IrqState} (hI : IrqInv p s)
    (h : s.complete = some s') : IrqInv p s' := by
  unfold IrqState.complete at h
  split at h
  · rename_i source hpc
    obtain rfl := Option.some.inj h
    refine ⟨hI.trace.extend fun cur hcur => ?_, hI.total.quiet rfl⟩
    rw [hpc] at hcur
    obtain ⟨rounds, r, rfl, rfl⟩ := hcur
    exact ⟨rounds ++ [r], shows_round⟩
  · cases h

theorem irqInv {p : Priv} {statics : Statics} {s : IrqState}
    (h : (irqMachine p statics).Reachable s) : IrqInv p s := by
  refine h.invariant (irqInv_init p statics) ?_
  intro s s' a hI _ hstep
  cases a with
  | store w => exact hI.store hstep
  | trap mcause => exact hI.trap hstep
  | claim source => exact hI.claim hstep
  | ret => exact hI.ret hstep
  | complete => exact hI.complete hstep

/-! ## Main results -/

/-- The statics at boot. -/
def bootStatics : Statics := ⟨fun _ => ⟨none, 0, 0⟩, 0, none, 0, none, 0⟩

/-- Source 5 is claimed, again while source 70 is pending, and its handler registers one for the
timer; then the timer and an IPI interrupt. -/
def busyRun : List IrqAct :=
  (irqRegister 5 (some 0x1000) 1).map .store ++
    [.trap (CAUSE_INTERRUPT_BIT ||| 11), .claim 5] ++
    (irqRegisterTimer (some 0x2000) 2).map .store ++
    [.ret, .complete, .claim 70, .complete, .claim 5, .ret, .complete, .claim 0,
      .trap (CAUSE_INTERRUPT_BIT ||| 7), .ret, .trap (CAUSE_INTERRUPT_BIT ||| 3)]

end RvvmHal.Irq
