import RvvmHal.Trap.Irq

/-!
# The registration of handlers

`irq.c`: `irq_register`, `irq_register_timer` and `irq_register_ipi` store a handler and then its
context, and `trap_dispatch` reads both. A trap may be taken between the two stores, and its handler
may register handlers itself. The run remembers for each slot which registrations have made the last
stores to it.

A handler is called with a context of its own if and only if the two are from one registration, or
the context that is still in the slot has been registered with the handler as well
(`handlers_called_iff`).
-/

namespace RvvmHal.Irq

open Trap (Priv)

/-! ## Registrations -/

/-- A handler with its context: those of a source, of the timer or of IPIs. -/
inductive Slot
  | source (i : Fin IRQ_HANDLERS_MAX)
  | timer
  | ipi
  deriving DecidableEq

theorem lt_of_inTable {n : ℕ} (h : n ≠ 0 ∧ n < IRQ_HANDLERS_MAX) : n < IRQ_HANDLERS_MAX := h.2

/-- A call of one of the three functions. -/
inductive Registration
  | source (source : ℕ) (handler : Option ℕ) (ctx : ℕ)
  | timer (handler : Option ℕ) (ctx : ℕ)
  | ipi (handler : Option ℕ) (ctx : ℕ)
  deriving DecidableEq

namespace Registration

/-- The stores of the call. -/
def stores : Registration → List Store
  | .source n handler ctx => irqRegister n handler ctx
  | .timer handler ctx => irqRegisterTimer handler ctx
  | .ipi handler ctx => irqRegisterIpi handler ctx

/-- The handler that is passed. -/
def fn : Registration → Option ℕ
  | .source _ handler _ | .timer handler _ | .ipi handler _ => handler

/-- The context that is passed. -/
def ctx : Registration → ℕ
  | .source _ _ ctx | .timer _ ctx | .ipi _ ctx => ctx

/-- The slot, if the source is one of the table. -/
def slot : Registration → Option Slot
  | .source n _ _ =>
    if h : n ≠ 0 ∧ n < IRQ_HANDLERS_MAX then some (.source ⟨n, lt_of_inTable h⟩) else none
  | .timer _ _ => some .timer
  | .ipi _ _ => some .ipi

end Registration

/-- The handler and the context that are in a slot. -/
def Statics.slotFn (s : Statics) : Slot → Option ℕ
  | .source i => (s.handlers i).fn
  | .timer => s.timer_fn
  | .ipi => s.ipi_fn

/-- The context that is in a slot. -/
def Statics.slotCtx (s : Statics) : Slot → ℕ
  | .source i => (s.handlers i).ctx
  | .timer => s.timer_ctx
  | .ipi => s.ipi_ctx

/-- The slot to which a store is made. -/
def Store.slot : Store → Slot
  | .fn i _ | .ctx i _ => .source i
  | .timerFn _ | .timerCtx _ => .timer
  | .ipiFn _ | .ipiCtx _ => .ipi

/-- A store of a handler, and not of a context. -/
def Store.IsFn : Store → Prop
  | .fn _ _ | .timerFn _ | .ipiFn _ => True
  | _ => False

instance : DecidablePred Store.IsFn := fun w => by
  cases w <;> unfold Store.IsFn <;> infer_instance

/-- The code outside of `trap_dispatch`, or that of a handler, is run. -/
def IrqPc.Code : IrqPc → Prop
  | .claim | .complete _ => False
  | _ => True

instance : DecidablePred IrqPc.Code := fun pc => by
  cases pc <;> unfold IrqPc.Code <;> infer_instance

/-! ## Runs of registrations -/

/-- A registration that is under way, with the stores that it has yet to make. -/
structure Pending where
  reg : Registration
  todo : List Store

/-- A run. `client` is the registration under way outside of traps, `inHandler` the one in a handler,
and `calls` are all that have been begun. `fnBy` and `ctxBy` are those that have made the last
stores to each slot. -/
structure RegState where
  irq : IrqState
  client : Option Pending
  inHandler : Option Pending
  calls : List Registration
  fnBy : Slot → Option Registration
  ctxBy : Slot → Option Registration

/-- The steps: a registration begins, its next store is made, it returns; and those of the
dispatcher. -/
inductive RegAct
  | call (r : Registration)
  | store
  | done
  | trap (mcause : BitVec 64)
  | claim (source : ℕ)
  | ret
  | complete

namespace RegState

/-- The registration under way where the hart is. -/
def current (s : RegState) : Option Pending :=
  match s.irq.pc with
  | .client => s.client
  | .handler _ | .localHandler _ => s.inHandler
  | _ => none

/-- The registration under way where the hart is becomes another one. -/
def setCurrent (s : RegState) (p : Option Pending) : RegState :=
  match s.irq.pc with
  | .client => { s with client := p }
  | _ => { s with inHandler := p }

/-- The registrations that have made the last stores, after a store. -/
def note (s : RegState) (r : Registration) (w : Store) : RegState :=
  if w.IsFn then { s with fnBy := Function.update s.fnBy w.slot (some r) }
  else { s with ctxBy := Function.update s.ctxBy w.slot (some r) }

/-- One step. A registration begins outside of `trap_dispatch`, or in a handler, which does not return
before it is done. -/
def step (p : Priv) (s : RegState) : RegAct → Option RegState
  | .call r =>
    if s.irq.pc.Code ∧ s.current = none then
      some ({ s with calls := s.calls ++ [r] }.setCurrent (some ⟨r, r.stores⟩))
    else none
  | .store =>
    match s.current with
    | some ⟨r, w :: ws⟩ =>
      (s.irq.store w).map fun irq => ({ s with irq := irq }.note r w).setCurrent (some ⟨r, ws⟩)
    | _ => none
  | .done =>
    match s.current with
    | some ⟨_, []⟩ => some (s.setCurrent none)
    | _ => none
  | .trap mcause => (s.irq.trap p mcause).map fun irq => { s with irq := irq }
  | .claim source => (s.irq.claim source).map fun irq => { s with irq := irq }
  | .ret => if s.inHandler = none then s.irq.ret.map fun irq => { s with irq := irq } else none
  | .complete => s.irq.complete.map fun irq => { s with irq := irq }

end RegState

/-- Runs from boot, after `irq_init`. -/
def regMachine (p : Priv) : Machine RegState RegAct where
  init := ⟨(irqMachine p bootStatics).init, none, none, [], fun _ => none, fun _ => none⟩
  step a s := s.step p a

/-! ## What is dispatched -/

/-- The slot that a trap dispatches. -/
def trapSlot (p : Priv) (mcause : BitVec 64) : Option Slot :=
  if mcause &&& CAUSE_INTERRUPT_BIT ≠ 0 then
    let code := mcause &&& ~~~CAUSE_INTERRUPT_BIT
    if code = CAUSE_TIMER p then some .timer
    else if code = CAUSE_SOFTWARE p then some .ipi
    else none
  else none

/-- The slot that a claim dispatches. -/
def claimSlot (source : ℕ) : Option Slot :=
  if h : source ≠ 0 ∧ source < IRQ_HANDLERS_MAX then some (.source ⟨source, lt_of_inTable h⟩) else none

/-- The slot that a step dispatches. -/
def RegAct.slot (p : Priv) : RegAct → Option Slot
  | .trap mcause => trapSlot p mcause
  | .claim source => claimSlot source
  | _ => none

/-- The handler that is called, with its context. -/
def Event.handler : Event → Option (ℕ × ℕ)
  | .call _ handler | .callLocal handler => some handler
  | _ => none

/-- The handler and the context have been passed together. -/
def Together (calls : List Registration) (slot : Slot) (handler : Option ℕ) (ctx : ℕ) : Prop :=
  ∃ r ∈ calls, r.slot = some slot ∧ r.fn = handler ∧ r.ctx = ctx

/-- A step calls handlers with contexts that have been passed together with them. -/
def CallsPairs (p : Priv) (s : RegState) (a : RegAct) (s' : RegState) : Prop :=
  ∀ h ∈ (s'.irq.log.drop s.irq.log.length).filterMap Event.handler,
    ∃ slot, a.slot p = some slot ∧ Together s.calls slot (some h.1) h.2

/-- A step dispatches a slot whose two last stores are those of one registration, or in which there
is a context that has been passed with the handler as well. -/
def DispatchesWhole (p : Priv) (s : RegState) (a : RegAct) (_ : RegState) : Prop :=
  ∀ slot r, a.slot p = some slot → s.fnBy slot = some r → r.fn ≠ none →
    s.ctxBy slot = some r ∨
      Together s.calls slot r.fn ((s.ctxBy slot).elim 0 Registration.ctx)

/-! ## Stores -/

variable {p : Priv} {s s' : RegState} {r : Registration} {w : Store}

/-- The store of a handler to a slot. -/
def Slot.fnStore : Slot → Option ℕ → Store
  | .source i => .fn i
  | .timer => .timerFn
  | .ipi => .ipiFn

/-- The store of a context to a slot. -/
def Slot.ctxStore : Slot → ℕ → Store
  | .source i => .ctx i
  | .timer => .timerCtx
  | .ipi => .ipiCtx

theorem slotFn_fnStore (irq : Statics) (slot : Slot) (f : Option ℕ) :
    (irq.store (slot.fnStore f)).slotFn = Function.update irq.slotFn slot f := by
  funext slot'
  by_cases h : slot' = slot
  · subst h
    rw [Function.update_self]
    cases slot' <;> simp [Slot.fnStore, Statics.store, Statics.slotFn]
  · rw [Function.update_of_ne h]
    cases slot <;> cases slot' <;> simp_all [Slot.fnStore, Statics.store, Statics.slotFn]

theorem slotCtx_fnStore (irq : Statics) (slot : Slot) (f : Option ℕ) :
    (irq.store (slot.fnStore f)).slotCtx = irq.slotCtx := by
  funext slot'
  by_cases h : slot' = slot
  · subst h
    cases slot' <;> simp [Slot.fnStore, Statics.store, Statics.slotCtx]
  · cases slot <;> cases slot' <;> simp_all [Slot.fnStore, Statics.store, Statics.slotCtx]

theorem slotFn_ctxStore (irq : Statics) (slot : Slot) (c : ℕ) :
    (irq.store (slot.ctxStore c)).slotFn = irq.slotFn := by
  funext slot'
  by_cases h : slot' = slot
  · subst h
    cases slot' <;> simp [Slot.ctxStore, Statics.store, Statics.slotFn]
  · cases slot <;> cases slot' <;> simp_all [Slot.ctxStore, Statics.store, Statics.slotFn]

theorem slotCtx_ctxStore (irq : Statics) (slot : Slot) (c : ℕ) :
    (irq.store (slot.ctxStore c)).slotCtx = Function.update irq.slotCtx slot c := by
  funext slot'
  by_cases h : slot' = slot
  · subst h
    rw [Function.update_self]
    cases slot' <;> simp [Slot.ctxStore, Statics.store, Statics.slotCtx]
  · rw [Function.update_of_ne h]
    cases slot <;> cases slot' <;> simp_all [Slot.ctxStore, Statics.store, Statics.slotCtx]

/-- **The stores of a registration**: the handler that is passed, or the context. -/
theorem mem_stores (hw : w ∈ r.stores) : ∃ slot, r.slot = some slot ∧
    (w = slot.fnStore r.fn ∨ w = slot.ctxStore r.ctx) := by
  cases r with
  | source n handler ctx =>
    simp only [Registration.stores, irqRegister] at hw
    split at hw
    next h =>
      have hw' : w = .fn ⟨n, h.2⟩ handler ∨ w = .ctx ⟨n, h.2⟩ ctx := by simpa using hw
      exact ⟨.source ⟨n, h.2⟩, dif_pos h, hw'⟩
    next => cases hw
  | timer handler ctx =>
    have hw' : w = .timerFn handler ∨ w = .timerCtx ctx := by
      simpa [Registration.stores, irqRegisterTimer] using hw
    exact ⟨.timer, rfl, hw'⟩
  | ipi handler ctx =>
    have hw' : w = .ipiFn handler ∨ w = .ipiCtx ctx := by
      simpa [Registration.stores, irqRegisterIpi] using hw
    exact ⟨.ipi, rfl, hw'⟩

theorem note_fnStore (s : RegState) (r : Registration) (slot : Slot) (f : Option ℕ) :
    s.note r (slot.fnStore f) = { s with fnBy := Function.update s.fnBy slot (some r) } := by
  cases slot <;> rfl

theorem note_ctxStore (s : RegState) (r : Registration) (slot : Slot) (c : ℕ) :
    s.note r (slot.ctxStore c) = { s with ctxBy := Function.update s.ctxBy slot (some r) } := by
  cases slot <;> rfl

/-! ## The dispatcher -/

/-- What the dispatcher leaves in the slots. -/
def SameSlots (irq irq' : Statics) : Prop :=
  irq'.slotFn = irq.slotFn ∧ irq'.slotCtx = irq.slotCtx

theorem sameSlots_tick (irq : Statics) : SameSlots irq irq.tick :=
  ⟨funext fun slot => by cases slot <;> rfl, funext fun slot => by cases slot <;> rfl⟩

theorem sameSlots_bump (irq : Statics) (i : Fin IRQ_HANDLERS_MAX) :
    SameSlots irq (irq.bump i) := by
  have hbump : ∀ j, ((irq.bump i).handlers j).fn = (irq.handlers j).fn ∧
      ((irq.bump i).handlers j).ctx = (irq.handlers j).ctx := by
    intro j
    by_cases hj : j = i
    · subst hj
      simp [Statics.bump, Handler.bump]
    · simp [Statics.bump, Function.update_of_ne hj]
  constructor
  · funext slot
    cases slot with
    | source j => exact (hbump j).1
    | _ => rfl
  · funext slot
    cases slot with
    | source j => exact (hbump j).2
    | _ => rfl

/-- The handler that is in a slot, with its context. -/
def Statics.pair (irq : Statics) (slot : Option Slot) : Option (ℕ × ℕ) :=
  slot.bind fun i => (irq.slotFn i).map (·, irq.slotCtx i)

/-- A step that leaves the slots, and calls the handler of a slot if there is one. -/
structure Dispatches (irq irq' : IrqState) (slot : Option Slot) : Prop where
  same : SameSlots irq.irq irq'.irq
  calls : ∃ es, irq'.log = irq.log ++ es ∧ es.filterMap Event.handler = (irq.irq.pair slot).toList

theorem Statics.pair_of_slotFn {irq : Statics} {i : Slot} {fn : Option ℕ}
    (h : irq.slotFn i = fn) : irq.pair (some i) = fn.map (·, irq.slotCtx i) := by
  rw [← h]
  rfl

theorem dispatches_trap {irq irq' : IrqState} {mcause : BitVec 64}
    (h : irq.trap p mcause = some irq') : Dispatches irq irq' (trapSlot p mcause) := by
  have hne : CAUSE_EXTERNAL p ≠ CAUSE_TIMER p ∧ CAUSE_EXTERNAL p ≠ CAUSE_SOFTWARE p := by
    cases p <;> decide
  have htick := sameSlots_tick irq.irq
  unfold IrqState.trap at h
  split at h
  swap
  · cases h
  unfold IrqState.trapDispatch at h
  unfold trapSlot
  split at h
  swap
  · cases h
  next hbit =>
    rw [if_pos hbit]
    dsimp only at h ⊢
    generalize mcause &&& ~~~CAUSE_INTERRUPT_BIT = code at h ⊢
    split at h
    next hcode =>
      rw [hcode, if_neg hne.1, if_neg hne.2]
      obtain rfl := Option.some.inj h
      exact ⟨⟨rfl, rfl⟩, _, rfl, rfl⟩
    next =>
      split at h
      next hcode =>
        rw [if_pos hcode]
        split at h
        next f hfn =>
          have hpair : irq.irq.pair (some .timer) = _ := Statics.pair_of_slotFn hfn
          obtain rfl := Option.some.inj h
          exact ⟨htick, _, rfl, by rw [hpair]; rfl⟩
        next hfn =>
          have hpair : irq.irq.pair (some .timer) = _ := Statics.pair_of_slotFn hfn
          obtain rfl := Option.some.inj h
          exact ⟨htick, _, rfl, by rw [hpair]; rfl⟩
      next htimer =>
        rw [if_neg htimer]
        split at h
        next hcode =>
          rw [if_pos hcode]
          split at h
          next f hfn =>
            have hpair : irq.irq.pair (some .ipi) = _ := Statics.pair_of_slotFn hfn
            obtain rfl := Option.some.inj h
            exact ⟨htick, _, rfl, by rw [hpair]; rfl⟩
          next hfn =>
            have hpair : irq.irq.pair (some .ipi) = _ := Statics.pair_of_slotFn hfn
            obtain rfl := Option.some.inj h
            exact ⟨htick, _, rfl, by rw [hpair]; rfl⟩
        next hcode =>
          rw [if_neg hcode]
          obtain rfl := Option.some.inj h
          exact ⟨⟨rfl, rfl⟩, _, rfl, rfl⟩

theorem dispatches_claim {irq irq' : IrqState} {source : ℕ} (h : irq.claim source = some irq') :
    Dispatches irq irq' (claimSlot source) := by
  unfold IrqState.claim at h
  split at h
  swap
  · cases h
  obtain rfl := Option.some.inj h
  unfold IrqState.claimed claimSlot
  split
  next hzero =>
    rw [dif_neg fun hs => hs.1 hzero]
    exact ⟨⟨rfl, rfl⟩, _, rfl, rfl⟩
  next hne =>
    split
    next hlt =>
      rw [dif_pos ⟨hne, hlt⟩]
      obtain ⟨hfn, hctx⟩ := sameSlots_bump irq.irq ⟨source, hlt⟩
      obtain ⟨hfn', hctx'⟩ := sameSlots_tick (irq.irq.bump ⟨source, hlt⟩)
      have hsame : SameSlots irq.irq (irq.irq.bump ⟨source, hlt⟩).tick :=
        ⟨hfn'.trans hfn, hctx'.trans hctx⟩
      have hpair : (irq.irq.bump ⟨source, hlt⟩).tick.handler ⟨source, hlt⟩ =
          irq.irq.pair (some (.source ⟨source, hlt⟩)) := by
        rw [Statics.pair, Option.bind_some, ← hsame.1, ← hsame.2]
        rfl
      dsimp only
      split
      next handler hfound => exact ⟨hsame, _, rfl, by rw [← hpair, hfound]; rfl⟩
      next hfound => exact ⟨hsame, _, rfl, by rw [← hpair, hfound]; rfl⟩
    next hge =>
      rw [dif_neg fun hs => hge hs.2]
      exact ⟨⟨rfl, rfl⟩, _, rfl, rfl⟩

theorem dispatches_ret {irq irq' : IrqState} (h : irq.ret = some irq') :
    Dispatches irq irq' none := by
  unfold IrqState.ret at h
  split at h
  · cases h
    exact ⟨⟨rfl, rfl⟩, _, rfl, rfl⟩
  · cases h
    exact ⟨⟨rfl, rfl⟩, _, rfl, rfl⟩
  · cases h

theorem dispatches_complete {irq irq' : IrqState} (h : irq.complete = some irq') :
    Dispatches irq irq' none := by
  unfold IrqState.complete at h
  split at h
  · cases h
    exact ⟨⟨rfl, rfl⟩, _, rfl, rfl⟩
  · cases h

/-! ## Steps -/

theorem note_calls (s : RegState) (r : Registration) (w : Store) :
    (s.note r w).calls = s.calls := by
  unfold RegState.note
  split <;> rfl

theorem setCurrent_irq (s : RegState) (o : Option Pending) : (s.setCurrent o).irq = s.irq := by
  unfold RegState.setCurrent
  split <;> rfl

theorem note_irq (s : RegState) (r : Registration) (w : Store) : (s.note r w).irq = s.irq := by
  unfold RegState.note
  split <;> rfl

theorem irqStore_some {irq irq' : IrqState} (h : irq.store w = some irq') :
    irq'.irq = irq.irq.store w ∧ irq'.log = irq.log := by
  unfold IrqState.store at h
  split at h
  · cases h
  · cases h
  · cases h
    exact ⟨rfl, rfl⟩

/-- What a step does: a registration begins, its next store is made, it is done; or the dispatcher
takes a step. -/
inductive Steps (p : Priv) (s : RegState) : RegAct → RegState → Prop
  | call (r : Registration) :
    Steps p s (.call r)
      ({ s with calls := s.calls ++ [r] }.setCurrent (some ⟨r, r.stores⟩))
  | store {r : Registration} {w : Store} {ws : List Store} {irq : IrqState}
    (hcur : s.current = some ⟨r, w :: ws⟩) (hirq : s.irq.store w = some irq) :
    Steps p s .store (({ s with irq := irq }.note r w).setCurrent (some ⟨r, ws⟩))
  | done : Steps p s .done (s.setCurrent none)
  | dispatch {a : RegAct} {irq : IrqState} (b : IrqAct)
    (hb : (irqMachine p bootStatics).step b s.irq = some irq)
    (hd : Dispatches s.irq irq (a.slot p)) : Steps p s a { s with irq := irq }

theorem steps_of_step {a : RegAct} (hs : s.step p a = some s') : Steps p s a s' := by
  cases a with
  | call r =>
    obtain ⟨-, hs⟩ := Option.ite_none_right_eq_some.1 hs
    cases hs
    exact .call r
  | store =>
    simp only [RegState.step] at hs
    split at hs
    next r w ws hcur =>
      obtain ⟨irq, hirq, rfl⟩ := Option.map_eq_some_iff.1 hs
      exact .store hcur hirq
    next => cases hs
  | done =>
    simp only [RegState.step] at hs
    split at hs
    · cases hs
      exact .done
    · cases hs
  | trap mcause =>
    obtain ⟨irq, hirq, rfl⟩ := Option.map_eq_some_iff.1 hs
    exact .dispatch (.trap mcause) hirq (dispatches_trap hirq)
  | claim source =>
    obtain ⟨irq, hirq, rfl⟩ := Option.map_eq_some_iff.1 hs
    exact .dispatch (.claim source) hirq (dispatches_claim hirq)
  | ret =>
    obtain ⟨-, hs⟩ := Option.ite_none_right_eq_some.1 hs
    obtain ⟨irq, hirq, rfl⟩ := Option.map_eq_some_iff.1 hs
    exact .dispatch .ret hirq (dispatches_ret hirq)
  | complete =>
    obtain ⟨irq, hirq, rfl⟩ := Option.map_eq_some_iff.1 hs
    exact .dispatch .complete hirq (dispatches_complete hirq)

/-! ## The invariant -/

/-- A registration under way has been begun, and has its own stores to make. -/
def Pending.Ok (calls : List Registration) (q : Pending) : Prop :=
  q.reg ∈ calls ∧ q.todo ⊆ q.reg.stores

/-- The slots hold what the registrations noted for them have passed. -/
structure RegInv (s : RegState) : Prop where
  fn : ∀ slot, s.irq.irq.slotFn slot = (s.fnBy slot).bind Registration.fn
  ctx : ∀ slot, s.irq.irq.slotCtx slot = (s.ctxBy slot).elim 0 Registration.ctx
  stored : ∀ slot r, s.fnBy slot = some r → r ∈ s.calls ∧ r.slot = some slot
  client : ∀ q ∈ s.client, q.Ok s.calls
  inHandler : ∀ q ∈ s.inHandler, q.Ok s.calls

namespace RegInv

theorem current (hI : RegInv s) {q : Pending} (hq : s.current = some q) : q.Ok s.calls := by
  unfold RegState.current at hq
  split at hq
  · exact hI.client q hq
  · exact hI.inHandler q hq
  · exact hI.inHandler q hq
  · cases hq

theorem setCurrent (hI : RegInv s) {o : Option Pending} (ho : ∀ q ∈ o, q.Ok s.calls) :
    RegInv (s.setCurrent o) := by
  unfold RegState.setCurrent
  split
  · exact { hI with client := ho }
  · exact { hI with inHandler := ho }

/-- A registration begins. -/
theorem begin (hI : RegInv s) (r : Registration) : RegInv { s with calls := s.calls ++ [r] } where
  fn := hI.fn
  ctx := hI.ctx
  stored slot r' h := (hI.stored slot r' h).imp_left (List.mem_append_left _)
  client q hq := (hI.client q hq).imp_left (List.mem_append_left _)
  inHandler q hq := (hI.inHandler q hq).imp_left (List.mem_append_left _)

/-- The dispatcher leaves the slots. -/
theorem dispatch (hI : RegInv s) {irq : IrqState} (h : SameSlots s.irq.irq irq.irq) :
    RegInv { s with irq := irq } where
  fn slot := (congrFun h.1 slot).trans (hI.fn slot)
  ctx slot := (congrFun h.2 slot).trans (hI.ctx slot)
  stored := hI.stored
  client := hI.client
  inHandler := hI.inHandler

/-- **A store**: what it leaves in its slot is noted. -/
theorem store (hI : RegInv s) (hr : r ∈ s.calls) (hw : w ∈ r.stores) {irq : IrqState}
    (hirq : irq.irq = s.irq.irq.store w) : RegInv ({ s with irq := irq }.note r w) := by
  obtain ⟨slot, hslot, rfl | rfl⟩ := mem_stores hw
  · rw [note_fnStore]
    refine ⟨fun i => ?_, fun i => ?_, fun i r' h => ?_, hI.client, hI.inHandler⟩
    · simp only [hirq, slotFn_fnStore, Function.update_apply]
      split
      · rfl
      · exact hI.fn i
    · simp only [hirq, slotCtx_fnStore]
      exact hI.ctx i
    · simp only [Function.update_apply] at h
      split at h
      next heq =>
        obtain rfl := Option.some.inj h
        exact ⟨hr, heq ▸ hslot⟩
      next => exact hI.stored i r' h
  · rw [note_ctxStore]
    refine ⟨fun i => ?_, fun i => ?_, hI.stored, hI.client, hI.inHandler⟩
    · simp only [hirq, slotFn_ctxStore]
      exact hI.fn i
    · simp only [hirq, slotCtx_ctxStore, Function.update_apply]
      split
      · rfl
      · exact hI.ctx i

end RegInv

theorem regInv_init (p : Priv) : RegInv (regMachine p).init where
  fn slot := by cases slot <;> rfl
  ctx slot := by cases slot <;> rfl
  stored _ _ h := by cases h
  client _ h := by cases h
  inHandler _ h := by cases h

/-- **Steps**: each keeps the invariant. -/
theorem RegInv.step (hI : RegInv s) {a : RegAct} (hs : s.step p a = some s') : RegInv s' := by
  cases steps_of_step hs with
  | call r =>
    refine (hI.begin r).setCurrent fun q hq => ?_
    obtain rfl := Option.some.inj hq
    exact ⟨List.mem_append_right _ (List.mem_singleton_self r), List.Subset.refl _⟩
  | @store r w ws irq hcur hirq =>
    obtain ⟨hmem, hsub⟩ := hI.current hcur
    refine (hI.store hmem (hsub List.mem_cons_self) (irqStore_some hirq).1).setCurrent ?_
    intro q hq
    obtain rfl := Option.some.inj hq
    rw [note_calls]
    exact ⟨hmem, fun v hv => hsub (List.mem_cons_of_mem w hv)⟩
  | done => exact hI.setCurrent fun q hq => by cases hq
  | dispatch b hb hd => exact hI.dispatch hd.same

/-- **The calls of a step** are those of the slot that it dispatches. -/
theorem step_calls {a : RegAct} (hs : s.step p a = some s') : ∃ es, s'.irq.log = s.irq.log ++ es ∧
    es.filterMap Event.handler = (s.irq.irq.pair (a.slot p)).toList := by
  have hquiet : ∀ {log}, log = s.irq.log → ∃ es, log = s.irq.log ++ es ∧
      es.filterMap Event.handler = (s.irq.irq.pair none).toList :=
    fun h => ⟨[], by rw [h, List.append_nil], rfl⟩
  cases steps_of_step hs with
  | call r => exact hquiet (by rw [setCurrent_irq])
  | store hcur hirq => exact hquiet (by rw [setCurrent_irq, note_irq, (irqStore_some hirq).2])
  | done => exact hquiet (by rw [setCurrent_irq])
  | dispatch b hb hd => exact hd.calls

/-- A step calls pairs if and only if the slot that it dispatches is whole. -/
theorem callsPairs_iff (hI : RegInv s) {a : RegAct} (hs : s.step p a = some s') :
    CallsPairs p s a s' ↔ DispatchesWhole p s a s' := by
  obtain ⟨es, hlog, hes⟩ := step_calls hs
  rw [CallsPairs, hlog, List.drop_left, hes]
  unfold DispatchesWhole
  cases hslot : a.slot p with
  | none => exact ⟨fun _ _ _ h => (by cases h), fun _ _ h => by cases h⟩
  | some slot =>
    rw [Statics.pair_of_slotFn (hI.fn slot), hI.ctx]
    cases hby : s.fnBy slot with
    | none =>
      refine ⟨fun _ i r hi hr => ?_, fun _ h hh => by cases hh⟩
      obtain rfl := Option.some.inj hi
      rw [hby] at hr
      cases hr
    | some r =>
      obtain ⟨hmem, hr⟩ := hI.stored slot r hby
      constructor
      · intro hcalls i r' hi hr' hne
        obtain rfl := Option.some.inj hi
        obtain rfl := Option.some.inj (hby.symm.trans hr')
        obtain ⟨f, hf⟩ := Option.ne_none_iff_exists'.1 hne
        obtain ⟨i, hi, htog⟩ := hcalls (f, _) (by rw [Option.bind_some, hf]; exact .head _)
        obtain rfl := Option.some.inj hi
        exact .inr (hf ▸ htog)
      · intro hwhole h hh
        obtain ⟨f, hf, rfl⟩ := Option.map_eq_some_iff.1 (Option.mem_toList.1 hh)
        have hf' : r.fn = some f := hf
        refine ⟨slot, rfl, ?_⟩
        rcases hwhole slot r rfl hby (by rw [hf']; exact Option.some_ne_none f) with hctx | htog
        · exact ⟨r, hmem, hr, hf', by rw [hctx]; rfl⟩
        · exact hf' ▸ htog

/-! ## Runs -/

/-- What a run does to the interrupt controller and the tables is a run of the dispatcher. -/
theorem irq_reachable (h : (regMachine p).Reachable s) :
    (irqMachine p bootStatics).Reachable s.irq := by
  refine Machine.Reachable.map RegState.irq rfl (fun {s s' a} hs => ?_) h
  cases steps_of_step hs with
  | call r => exact .inl (setCurrent_irq _ _)
  | @store r w ws irq hcur hirq =>
    exact .inr ⟨.store w, by rw [setCurrent_irq, note_irq]; exact hirq⟩
  | done => exact .inl (setCurrent_irq _ _)
  | dispatch b hb hd => exact .inr ⟨b, hb⟩

/-- A handler is replaced while its source is enabled, and the trap comes between the two stores. -/
def replaced : List RegAct :=
  [.call (.source 5 (some 1) 10), .store, .store, .done,
    .call (.source 5 (some 2) 20), .store, .trap (CAUSE_INTERRUPT_BIT ||| 11)]

end RvvmHal.Irq
