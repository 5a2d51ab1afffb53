import RvvmHal.Eth.Rx

/-!
# The receive ring with interrupts

`eth_irq_handler` on the hart of the main loop: it may begin between any two statements of a call
of `eth_recv`, and runs calls of its own, on the same `rx_head`, until one of them returns 0. While
it runs the interrupted call does not move; the device may act at any time.

Both calls are safe as long as only one of them is inside, from the load of the flags of a ready
descriptor to the store of `rx_head`, and each looks at the descriptor at the head
(`rxSafe_of_noOverlap`). Nothing in the driver ensures this: an interrupt behind the load of the
flags makes both calls deliver the same frame (`frame_delivered_twice`).
-/

namespace RvvmHal.Eth

open Bytes Cyclic

variable (rxBufs : ℕ)

/-! ## Main loop and handler -/

/-- The receive ring, the call of the main loop, and the call of the handler while it runs. -/
structure Preempt where
  rx : Rx
  main : RxPc
  irq : Option RxPc

/-- The steps: a call of the main loop and its statements, an interrupt and the statements of the
handler, and the device's steps. -/
inductive PreemptAct
  | call (maxlen : ℕ)
  | recv
  | interrupt
  | handler
  | write (f : RxFrame)
  | done

/-- The next statement of the handler's loop: it ends when `eth_recv` returns 0. -/
def handlerStep (pc : RxPc) (s : Rx) : Option RxPc × Rx :=
  let next := recvStep rxBufs pc s
  (match pc with
    | .idle => some (.loaded bufferSize s.head)
    | .loaded _ idx => if (s.desc idx).Own then none else some next.1
    | .rearmed r => if 0 < r.len then some .idle else none
    | _ => some next.1, next.2)

/-- A call of the main loop begins. -/
def Preempt.call (s : Preempt) (maxlen : ℕ) : Option Preempt :=
  match s.irq, s.main with
  | none, .idle => some { s with main := .loaded maxlen s.rx.head }
  | _, _ => none

/-- A statement of the call of the main loop. -/
def Preempt.recv (s : Preempt) : Option Preempt :=
  match s.irq, s.main with
  | none, .idle => none
  | none, pc => some { s with rx := (recvStep rxBufs pc s.rx).2, main := (recvStep rxBufs pc s.rx).1 }
  | _, _ => none

/-- The interrupt is taken. -/
def Preempt.interrupt (s : Preempt) : Option Preempt :=
  match s.irq with
  | none => some { s with irq := some .idle }
  | some _ => none

/-- A statement of the handler. -/
def Preempt.handler (s : Preempt) : Option Preempt :=
  s.irq.map fun pc =>
    { s with rx := (handlerStep rxBufs pc s.rx).2, irq := (handlerStep rxBufs pc s.rx).1 }

/-- **The receive ring with interrupts.** -/
def preemptMachine (m : Mem) : Machine Preempt PreemptAct where
  init := ⟨rxInit rxBufs m, .idle, none⟩
  step
    | .call maxlen, s => s.call maxlen
    | .recv, s => s.recv rxBufs
    | .interrupt, s => s.interrupt
    | .handler, s => s.handler rxBufs
    | .write f, s => (s.rx.write f).map fun rx => { s with rx := rx }
    | .done, s => s.rx.done.map fun rx => { s with rx := rx }

/-! ## Safety -/

/-- A call is inside: it has found a ready descriptor, and not stored `rx_head` yet. -/
def RxPc.busy : RxPc → Bool
  | .idle | .loaded _ _ => false
  | .got _ _ _ | .copied _ | .rearmed _ => true

/-- The descriptor that a call is about to read or to re-arm. -/
def RxPc.reading : RxPc → Option ℕ
  | .got _ idx _ => some idx
  | .copied r => some r.slot
  | _ => none

/-- The call that is inside, if one is. -/
def Preempt.active (s : Preempt) : RxPc :=
  match s.irq with
  | some pc => if pc.busy then pc else s.main
  | none => s.main

/-- **Safety of the two paths together.** -/
structure RxSafe (s : Preempt) : Prop where
  /-- The frames are consumed in order, each once. -/
  in_order : s.rx.consumed.length ≤ s.rx.wrote.length ∧
    ∀ k (hk : k < s.rx.consumed.length), ∃ hw : k < s.rx.wrote.length,
      Delivers k s.rx.wrote[k] s.rx.consumed[k]
  /-- Every frame consumed is returned by one call. -/
  returned : s.rx.returned.reduceOption ++ s.active.pending = s.rx.consumed
  /-- No call reads or re-arms a descriptor of the device. -/
  reads : ∀ pc, pc = s.main ∨ s.irq = some pc → ∀ idx, pc.reading = some idx → ¬ (s.rx.desc idx).Own
  /-- Outside of calls `rx_head` is at the next frame, and at the device's next descriptor when no
  frame is waiting. -/
  head : s.active.busy = false → s.rx.head = s.rx.consumed.length % ringDepth ∧
    (s.rx.consumed.length = s.rx.wrote.length → s.rx.head = s.rx.devIdx)

/-- The step does not let two calls inside: the main loop does not look at a ready descriptor that
is not at the head any more, and the handler does not look at a ready descriptor while the
interrupted call is inside. -/
def NoOverlap : PreemptAct → Preempt → Prop
  | .recv, s => ∀ maxlen idx, s.main = .loaded maxlen idx →
      idx = s.rx.head ∨ (s.rx.desc idx).Own
  | .handler, s => s.main.busy = true → ∀ maxlen idx, s.irq = some (.loaded maxlen idx) →
      (s.rx.desc idx).Own
  | _, _ => True

/-- The invariant: one call is inside, and a handler that has loaded `rx_head` has it as it is. -/
structure PreemptInv (s : Preempt) : Prop where
  rx : RxInv rxBufs s.rx s.active
  exclusive : ∀ pc, s.irq = some pc → pc.busy = true → s.main.busy = false
  loaded : ∀ maxlen idx, s.irq = some (.loaded maxlen idx) → idx = s.rx.head

theorem RxInv.quiet {rxBufs : ℕ} {s : Rx} {pc pc' : RxPc} (hi : RxInv rxBufs s pc)
    (h : pc.busy = false) (h' : pc'.busy = false) : RxInv rxBufs s pc' := by
  have hret := hi.returned
  have hat := hi.at_pc
  cases pc <;> cases h
  all_goals
    cases pc' <;> cases h'
    all_goals exact { hi with returned := hret, at_pc := hat }

/-- A call that is inside and reads a descriptor is at the next frame. -/
theorem RxInv.not_own_of_reading {rxBufs : ℕ} {s : Rx} {pc : RxPc} (hi : RxInv rxBufs s pc)
    {idx : ℕ} (h : pc.reading = some idx) : ¬ (s.desc idx).Own := by
  have hat := hi.at_pc
  cases pc with
  | got maxlen idx' flags =>
    obtain rfl := Option.some.inj h
    obtain ⟨-, rfl, hlt, -⟩ := hat
    rw [hi.own_head_iff]
    omega
  | copied r =>
    obtain rfl := Option.some.inj h
    obtain ⟨-, hlt, hdel⟩ := hat
    rw [hdel.slot_eq, hi.own_head_iff]
    omega
  | _ => cases h

theorem RxPc.busy_of_reading {pc : RxPc} {idx : ℕ} (h : pc.reading = some idx) : pc.busy = true := by
  cases pc <;> first | rfl | cases h

namespace PreemptInv

variable {rxBufs} {s s' : Preempt}

theorem active_of_busy (hi : PreemptInv rxBufs s) {pc : RxPc} (h : pc = s.main ∨ s.irq = some pc)
    (hbusy : pc.busy = true) : s.active = pc := by
  unfold Preempt.active
  rcases h with rfl | h
  · cases hirq : s.irq with
    | none => rfl
    | some pc =>
      have hidle : pc.busy = false := by
        by_contra hne
        have := hi.exclusive pc hirq (by simpa using hne)
        simp [this] at hbusy
      simp [hidle]
  · simp [h, hbusy]

theorem safe (hi : PreemptInv rxBufs s) : RxSafe s where
  in_order := ⟨hi.rx.consumed_le, hi.rx.history⟩
  returned := hi.rx.returned
  reads pc hpc idx hidx := by
    have hactive := hi.active_of_busy hpc (RxPc.busy_of_reading hidx)
    exact (hactive ▸ hi.rx).not_own_of_reading hidx
  head hbusy := by
    have hidle : RxInv rxBufs s.rx .idle := hi.rx.quiet hbusy rfl
    have hhead : s.rx.head = s.rx.consumed.length % ringDepth := hidle.at_pc
    exact ⟨hhead, fun heq => by rw [hhead, heq, hi.rx.devIdx_eq]⟩

/-- The handler is not running. -/
theorem of_main {rx : Rx} {main : RxPc} (h : RxInv rxBufs rx main) :
    PreemptInv rxBufs ⟨rx, main, none⟩ where
  rx := h
  exclusive _ hirq := nomatch hirq
  loaded _ _ hirq := nomatch hirq

/-- The handler is between two calls. -/
theorem of_idle {rx : Rx} {main : RxPc} (h : RxInv rxBufs rx main) :
    PreemptInv rxBufs ⟨rx, main, some .idle⟩ where
  rx := h
  exclusive pc hirq hbusy := by
    obtain rfl := Option.some.inj hirq
    cases hbusy
  loaded _ _ hirq := nomatch hirq

/-- The call of the handler is inside. -/
theorem of_inside {rx : Rx} {main pc : RxPc} (h : RxInv rxBufs rx pc) (hmain : main.busy = false)
    (hpc : pc.busy = true) : PreemptInv rxBufs ⟨rx, main, some pc⟩ where
  rx := by
    rw [show (⟨rx, main, some pc⟩ : Preempt).active = pc from if_pos hpc]
    exact h
  exclusive _ _ _ := hmain
  loaded maxlen idx hirq := by
    obtain rfl := Option.some.inj hirq
    cases hpc

theorem call {maxlen : ℕ} (hi : PreemptInv rxBufs s) (h : s.call maxlen = some s') :
    PreemptInv rxBufs s' := by
  obtain ⟨rx, main, irq⟩ := s
  cases irq with
  | some pc => cases h
  | none =>
    cases main with
    | idle =>
      obtain rfl := Option.some.inj h
      exact of_main (RxInv.quiet (s := rx) hi.rx rfl rfl)
    | _ => cases h

theorem recv (hi : PreemptInv rxBufs s) (hok : NoOverlap .recv s) (h : s.recv rxBufs = some s') :
    PreemptInv rxBufs s' := by
  obtain ⟨rx, main, irq⟩ := s
  cases irq with
  | some pc => cases h
  | none =>
    have hrecv : RxInv rxBufs (recvStep rxBufs main rx).2 (recvStep rxBufs main rx).1 :=
      hi.rx.recv hok
    cases main with
    | idle => cases h
    | _ =>
      obtain rfl := Option.some.inj h
      exact of_main hrecv

theorem interrupt (hi : PreemptInv rxBufs s) (h : s.interrupt = some s') :
    PreemptInv rxBufs s' := by
  obtain ⟨rx, main, irq⟩ := s
  cases irq with
  | some pc => cases h
  | none =>
    obtain rfl := Option.some.inj h
    exact of_idle hi.rx

/-- The handler looks at a descriptor. -/
theorem handler_loaded {rx : Rx} {main : RxPc} {maxlen idx : ℕ}
    (hi : PreemptInv rxBufs ⟨rx, main, some (.loaded maxlen idx)⟩)
    (hok : main.busy = true → (rx.desc idx).Own) :
    PreemptInv rxBufs ⟨(handlerStep rxBufs (.loaded maxlen idx) rx).2, main,
      (handlerStep rxBufs (.loaded maxlen idx) rx).1⟩ := by
  have hrx : RxInv rxBufs rx main := hi.rx
  by_cases hown : (rx.desc idx).Own
  · have hstep : handlerStep rxBufs (.loaded maxlen idx) rx =
        (none, { rx with returned := rx.returned ++ [none] }) := by
      simp [handlerStep, recvStep, hown]
    rw [hstep]
    exact of_main hrx.returnNone
  · -- the descriptor is ready, so the interrupted call is outside
    have hmain : main.busy = false := by
      by_contra hne
      exact hown (hok (by simpa using hne))
    have hstep : handlerStep rxBufs (.loaded maxlen idx) rx =
        (some (.got maxlen idx (rx.desc idx).flagsLen), rx) := by
      simp [handlerStep, recvStep, hown]
    have hloaded : RxInv rxBufs rx (.loaded maxlen idx) := hrx.quiet hmain rfl
    have hgot := hloaded.loaded (Or.inl (hi.loaded maxlen idx rfl))
    rw [show recvStep rxBufs (.loaded maxlen idx) rx = (.got maxlen idx (rx.desc idx).flagsLen, rx)
      from if_neg hown] at hgot
    rw [hstep]
    exact of_inside hgot hmain rfl

theorem handler (hi : PreemptInv rxBufs s) (hok : NoOverlap .handler s)
    (h : s.handler rxBufs = some s') : PreemptInv rxBufs s' := by
  obtain ⟨pc, hirq, rfl⟩ := Option.map_eq_some_iff.1 h
  obtain ⟨rx, main, irq⟩ := s
  obtain rfl : irq = some pc := hirq
  cases pc with
  | idle =>
    refine ⟨hi.rx, fun pc h hbusy => ?_, fun maxlen idx h => ?_⟩
    · obtain rfl := Option.some.inj h
      cases hbusy
    · injection h with h
      injection h with _ h
      exact h.symm
  | loaded maxlen idx => exact hi.handler_loaded fun hbusy => hok hbusy maxlen idx rfl
  | got maxlen idx flags =>
    exact of_inside (RxInv.got (s := rx) hi.rx) (hi.exclusive _ rfl rfl) rfl
  | copied r =>
    exact of_inside (RxInv.copied (s := rx) hi.rx) (hi.exclusive _ rfl rfl) rfl
  | rearmed r =>
    have hmain : main.busy = false := hi.exclusive _ rfl rfl
    have hrx : RxInv rxBufs (recvStep rxBufs (.rearmed r) rx).2 main :=
      (RxInv.rearmed (s := rx) hi.rx).quiet rfl hmain
    by_cases hlen : 0 < r.len
    · have hstep : handlerStep rxBufs (.rearmed r) rx =
          (some .idle, (recvStep rxBufs (.rearmed r) rx).2) := by simp [handlerStep, hlen]
      rw [hstep]
      exact of_idle hrx
    · have hstep : handlerStep rxBufs (.rearmed r) rx =
          (none, (recvStep rxBufs (.rearmed r) rx).2) := by simp [handlerStep, hlen]
      rw [hstep]
      exact of_main hrx

theorem step {m : Mem} {a : PreemptAct} (hi : PreemptInv rxBufs s) (hok : NoOverlap a s)
    (h : (preemptMachine rxBufs m).step a s = some s') : PreemptInv rxBufs s' := by
  cases a with
  | call maxlen => exact hi.call h
  | recv => exact hi.recv hok h
  | interrupt => exact hi.interrupt h
  | handler => exact hi.handler hok h
  | write f =>
    obtain ⟨rx', hrx, rfl⟩ := Option.map_eq_some_iff.1 h
    exact ⟨hi.rx.write hrx, hi.exclusive, fun maxlen idx hpc => by
      rw [Rx.head_of_write hrx]
      exact hi.loaded maxlen idx hpc⟩
  | done =>
    obtain ⟨rx', hrx, rfl⟩ := Option.map_eq_some_iff.1 h
    exact ⟨hi.rx.done hrx, hi.exclusive, fun maxlen idx hpc => by
      rw [Rx.head_of_done hrx]
      exact hi.loaded maxlen idx hpc⟩

end PreemptInv

/-- **The two paths are safe in every run without overlap.** -/
theorem rxSafe_of_noOverlap {m : Mem} {s : Preempt}
    (h : (preemptMachine rxBufs m).ReachableBy NoOverlap s) : RxSafe s := by
  have hi : PreemptInv rxBufs s := h.invariant (I := PreemptInv rxBufs)
    (PreemptInv.of_main (RxInv.init m)) fun hi hok hs => hi.step hok hs
  exact hi.safe

/-- A frame is ready, and the handler takes it between two calls of the main loop. -/
theorem rxSafe_of_noOverlap_outside :
    ∃ s, (preemptMachine 0x80000000 fun _ => 0).ReachableBy NoOverlap s ∧
      s.rx.returned = [some ⟨0, 2048, 2, [1, 2]⟩] ∧ RxSafe s := by
  have hready : (preemptMachine 0x80000000 fun _ => 0).ReachableBy NoOverlap _ :=
    .step (a := .interrupt) (.step (a := .done) (.step (a := .write shortFrame) .init trivial rfl)
      trivial rfl) trivial rfl
  have hcall : (preemptMachine 0x80000000 fun _ => 0).ReachableBy NoOverlap _ :=
    .step (a := .handler) hready (fun hbusy => nomatch hbusy) rfl
  have hgot : (preemptMachine 0x80000000 fun _ => 0).ReachableBy NoOverlap _ :=
    .step (a := .handler) hcall (fun hbusy => nomatch hbusy) rfl
  have hcopied : (preemptMachine 0x80000000 fun _ => 0).ReachableBy NoOverlap _ :=
    .step (a := .handler) hgot (fun hbusy => nomatch hbusy) rfl
  have hrearmed : (preemptMachine 0x80000000 fun _ => 0).ReachableBy NoOverlap _ :=
    .step (a := .handler) hcopied (fun hbusy => nomatch hbusy) rfl
  have hreturned : (preemptMachine 0x80000000 fun _ => 0).ReachableBy NoOverlap _ :=
    .step (a := .handler) hrearmed (fun hbusy => nomatch hbusy) rfl
  exact ⟨_, hreturned, rfl, rxSafe_of_noOverlap 0x80000000 hreturned⟩

/-! ## Overlap -/

/-- A frame is ready, and the handler takes it between the load of the flags and the copy of a call
of the main loop. -/
def interruptInside : List PreemptAct :=
  [.write shortFrame, .done, .call 1518, .recv, .interrupt, .handler, .handler, .handler, .handler,
    .handler, .handler, .handler, .recv, .recv, .recv]

/-- **An interrupt inside a call delivers a frame twice**, and re-arms a descriptor of the
device. -/
theorem frame_delivered_twice :
    ∃ s, (preemptMachine 0x80000000 fun _ => 0).Reachable s ∧
      s.rx.returned = [some ⟨0, 2048, 2, [1, 2]⟩, none, some ⟨0, 1518, 2, [1, 2]⟩] ∧
      ¬ RxSafe s := by
  obtain ⟨s, hrun, hret, hcons, hwrote⟩ :
      ∃ s, (preemptMachine 0x80000000 fun _ => 0).run interruptInside
        ⟨rxInit 0x80000000 fun _ => 0, .idle, none⟩ = some s ∧
        s.rx.returned = [some ⟨0, 2048, 2, [1, 2]⟩, none, some ⟨0, 1518, 2, [1, 2]⟩] ∧
        s.rx.consumed.length = 2 ∧ s.rx.wrote.length = 1 := ⟨_, rfl, rfl, rfl, rfl⟩
  refine ⟨s, Machine.reachable_of_run hrun, hret, fun hsafe => ?_⟩
  have := hsafe.in_order.1
  omega

end RvvmHal.Eth
