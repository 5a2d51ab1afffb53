import Mathlib.Algebra.Group.Nat.Defs
import RvvmHal.Foundations.Machine
import RvvmHal.Smp.Atomic

/-!
# Mutual exclusion

`mutex.h` over the compare and swap of `atomic.h`. A hart locks, or tries to; while it holds the
lock it may increment a counter, by a load and a store; then it unlocks. The instructions of all
harts that touch the word of the lock, `lr.w`, `sc.w` and `amoswap.w`, are interleaved in any order,
and a `sc.w` may fail without a reason.

`HartOk` says for each place in the code what the hart relies on. A step keeps it for the hart
itself and, by `HartOk.frame`, for the others: a store-conditional that succeeds found the lock
free, so no hart holds it then.
-/

namespace RvvmHal.Smp

/-! ## The lock -/

/-- `mutex_lock` or `mutex_trylock`. -/
inductive Acquire
  | lock
  | trylock
  deriving DecidableEq

/-- Where a hart is.

* `out`: in neither of the calls;
* `cas`: in the compare and swap of a call;
* `failed`: `mutex_trylock` has returned false;
* `loaded`: in the increment of the counter, having loaded it. -/
inductive MutexPc
  | out
  | cas (call : Acquire) (pc : CasPc)
  | failed
  | loaded (v : ℕ)
  deriving DecidableEq

/-- After an instruction of the compare and swap. `mutex_lock` tries again. -/
def MutexPc.next (call : Acquire) : CasPc ⊕ Bool → MutexPc
  | .inl pc => .cas call pc
  | .inr true => .out
  | .inr false =>
    match call with
    | .lock => .cas .lock (.lr 32)
    | .trylock => .failed

/-- From a call to its return, when this is not with the lock. -/
def MutexPc.Calling : MutexPc → Prop
  | .cas _ _ | .failed => True
  | _ => False

/-- A hart. `holds` is true between a successful acquire and its release, and `wrote` when the hart
has changed `holder` since its last call began. -/
structure MutexHart where
  pc : MutexPc
  holds : Bool
  wrote : Bool

/-- The word `holder`, the counter, the number of increments made, and the harts. -/
structure Mutex where
  holder : Reserved
  counter : ℕ
  increments : ℕ
  harts : ℕ → MutexHart

/-- `self` of the hart with this id. The harts that run the code have ids below `SMP_MAX_HARTS`; the
others are parked by `start.S`. -/
def self (hartid : ℕ) : ℕ := (hartid + 1) % 2 ^ 32

/-- An instruction of the hart `h`. -/
def Mutex.set (s : Mutex) (h : ℕ) (holder : Reserved) (pc : MutexPc) (holds : Bool) : Mutex :=
  { s with
    holder := holder
    harts := Function.update s.harts h
      ⟨pc, holds, (s.harts h).wrote || decide (holder.value ≠ s.holder.value)⟩ }

/-- The steps: a call, the next instruction of its compare and swap, the return of a
`mutex_trylock` that has failed, the two accesses of an increment, and `mutex_unlock`. -/
inductive MutexStep
  | call (call : Acquire) (h : ℕ)
  | cas (h : ℕ) (stores : Bool)
  | ret (h : ℕ)
  | load (h : ℕ)
  | store (h : ℕ)
  | unlock (h : ℕ)
  deriving DecidableEq

/-- One step of `n` harts. A hart may make calls while it holds the lock, too. -/
def mutexStep (n : ℕ) : MutexStep → Mutex → Option Mutex
  | .call call h, s =>
    if h < n ∧ (s.harts h).pc = .out then
      some { s with
        harts := Function.update s.harts h ⟨.cas call (.lr 32), (s.harts h).holds, false⟩ }
    else none
  | .cas h stores, s =>
    match (s.harts h).pc with
    | .cas call pc =>
      let r := atomicCas 0 (self h) h stores s.holder pc
      some (s.set h r.1 (.next call r.2) ((s.harts h).holds || r.2.elim (fun _ => false) id))
    | _ => none
  | .ret h, s =>
    if (s.harts h).pc = .failed then some (s.set h s.holder .out (s.harts h).holds) else none
  | .load h, s =>
    if (s.harts h).pc = .out ∧ (s.harts h).holds = true then
      some (s.set h s.holder (.loaded s.counter) true)
    else none
  | .store h, s =>
    match (s.harts h).pc with
    | .loaded v =>
      some { s.set h s.holder .out (s.harts h).holds with
        counter := (v + 1) % 2 ^ 32, increments := s.increments + 1 }
    | _ => none
  | .unlock h, s =>
    if (s.harts h).pc = .out ∧ (s.harts h).holds = true then
      some (s.set h (s.holder.amoswap h 0) .out false)
    else none

/-- All runs, from `MUTEX_INIT`. -/
def mutex (n : ℕ) : Machine Mutex MutexStep where
  init := ⟨⟨0, fun _ => false⟩, 0, 0, fun _ => ⟨.out, false, false⟩⟩
  step := mutexStep n

/-! ## The invariant -/

/-- What the hart `h` relies on. -/
structure Relies (n : ℕ) (c : Reserved) (counter h : ℕ) (x : MutexHart) : Prop where
  active : x.pc ≠ .out ∨ x.holds = true → h < n
  holder : x.holds = true → c.value = self h
  linked : ∀ call r, x.pc = .cas call (.sc r) → c.Linked h 0
  wrote : x.pc.Calling → x.wrote = false
  loaded : ∀ v, x.pc = .loaded v → x.holds = true ∧ v = counter

/-- The invariant. -/
structure MutexInv (n : ℕ) (s : Mutex) : Prop where
  harts : ∀ h, Relies n s.holder s.counter h (s.harts h)
  counter : s.counter = s.increments % 2 ^ 32

variable {s s' : Mutex} {c c' : Reserved} {n h h' counter counter' : ℕ} {x : MutexHart}

theorem self_eq (hn : n < 2 ^ 32) (hh : h < n) : self h = h + 1 := Nat.mod_eq_of_lt (by omega)

/-- **Frame rule**: what a hart relies on does not depend on the steps of the others, when these
leave its reservation alone, and the lock and the counter while it holds the lock. -/
theorem Relies.frame (hx : Relies n c counter h x) (hlink : c.Linked h 0 → c'.Linked h 0)
    (hheld : x.holds = true → c'.value = c.value ∧ counter' = counter) :
    Relies n c' counter' h x where
  active := hx.active
  holder := fun hh => (hheld hh).1.trans (hx.holder hh)
  linked := fun call r hpc => hlink (hx.linked call r hpc)
  wrote := hx.wrote
  loaded := fun v hpc => ⟨(hx.loaded v hpc).1,
    (hx.loaded v hpc).2.trans (hheld (hx.loaded v hpc).1).2.symm⟩

/-- At most one hart holds the lock. -/
theorem MutexInv.unique (hI : MutexInv n s) (hn : n < 2 ^ 32) (hh : (s.harts h).holds = true)
    (hh' : (s.harts h').holds = true) : h' = h := by
  have hv := (hI.harts h).holder hh
  have hv' := (hI.harts h').holder hh'
  rw [self_eq hn ((hI.harts h).active (.inr hh))] at hv
  rw [self_eq hn ((hI.harts h').active (.inr hh'))] at hv'
  omega

/-- While the word is 0 no hart holds the lock. -/
theorem MutexInv.free (hI : MutexInv n s) (hn : n < 2 ^ 32) (hv : s.holder.value = 0) :
    (s.harts h).holds = false := by
  by_contra hh
  rw [Bool.not_eq_false] at hh
  have hheld := (hI.harts h).holder hh
  rw [self_eq hn ((hI.harts h).active (.inr hh)), hv] at hheld
  cases hheld

/-! ## Steps -/

/-- A step that changes one hart. -/
theorem MutexInv.update (hI : MutexInv n s) (hx : Relies n c s.counter h x)
    (hlink : ∀ h', h' ≠ h → s.holder.Linked h' 0 → c.Linked h' 0)
    (hheld : ∀ h', h' ≠ h → (s.harts h').holds = true → c.value = s.holder.value) :
    MutexInv n { s with holder := c, harts := Function.update s.harts h x } := by
  refine ⟨fun h' => ?_, hI.counter⟩
  dsimp only
  by_cases hne : h' = h
  · subst hne
    rw [Function.update_self]
    exact hx
  · rw [Function.update_of_ne hne]
    exact (hI.harts h').frame (hlink h' hne) fun hh => ⟨hheld h' hne hh, rfl⟩

/-- **An instruction of the compare and swap.** -/
theorem MutexInv.cas (hI : MutexInv n s) (hn : n < 2 ^ 32) {call : Acquire} {pc : CasPc}
    {stores : Bool} (hpc : (s.harts h).pc = .cas call pc) {r : Reserved × (CasPc ⊕ Bool)}
    (hr : r = atomicCas 0 (self h) h stores s.holder pc) :
    MutexInv n (s.set h r.1 (.next call r.2)
      ((s.harts h).holds || r.2.elim (fun _ => false) id)) := by
  have hx := hI.harts h
  have hlt : h < n := hx.active (.inl (by rw [hpc]; nofun))
  have hwrote : (s.harts h).wrote = false := hx.wrote (by rw [hpc]; trivial)
  have hlinked : ∀ i, pc = .sc i → s.holder.Linked h 0 :=
    fun i hi => hx.linked call i (by rw [hpc, hi])
  have hlink : ∀ h', h' ≠ h → s.holder.Linked h' 0 → r.1.Linked h' 0 := by
    rw [hr]
    exact fun h' hne => linked_atomicCas hne
  rcases hr ▸ atomicCas_cases hlinked with ⟨hfree, hv, hres⟩ | ⟨hv, hres⟩
  · -- the lock is taken
    rw [hres]
    refine hI.update ⟨fun _ => hlt, fun _ => hv, nofun, False.elim, nofun⟩ hlink fun h' _ hh => ?_
    rw [hI.free hn hfree] at hh
    cases hh
  · refine hI.update ?_ hlink fun _ _ _ => hv
    have hholder : (s.harts h).holds = true → r.1.value = self h :=
      fun hh => hv.trans (hx.holder hh)
    have hkeep : ((s.harts h).wrote || decide (r.1.value ≠ s.holder.value)) = false := by
      rw [hwrote, hv, decide_eq_false (not_not.2 rfl), Bool.or_false]
    rw [hkeep]
    rcases hres with hres | ⟨i, hres⟩ | ⟨i, hres, hl⟩
    · -- the swap returns false
      rw [hres, Sum.elim_inr, id, Bool.or_false]
      cases call with
      | lock => exact ⟨fun _ => hlt, hholder, nofun, fun _ => rfl, nofun⟩
      | trylock => exact ⟨fun _ => hlt, hholder, nofun, fun _ => rfl, nofun⟩
    · rw [hres, Sum.elim_inl, Bool.or_false]
      exact ⟨fun _ => hlt, hholder, nofun, fun _ => rfl, nofun⟩
    · rw [hres, Sum.elim_inl, Bool.or_false]
      exact ⟨fun _ => hlt, hholder, fun _ _ _ => hl, fun _ => rfl, nofun⟩

/-- **A step keeps the invariant.** -/
theorem mutexInv_mutexStep {a : MutexStep} (hn : n < 2 ^ 32) (hI : MutexInv n s)
    (hs : mutexStep n a s = some s') : MutexInv n s' := by
  cases a with
  | call call h =>
    obtain ⟨⟨hlt, hpc⟩, hs⟩ := Option.ite_none_right_eq_some.1 hs
    cases hs
    have hx := hI.harts h
    exact hI.update ⟨fun _ => hlt, hx.holder, nofun, fun _ => rfl, nofun⟩ (fun _ _ hl => hl)
      fun _ _ _ => rfl
  | cas h stores =>
    simp only [mutexStep] at hs
    split at hs
    · rename_i call pc hpc
      cases hs
      exact hI.cas hn hpc rfl
    · cases hs
  | ret h =>
    obtain ⟨hpc, hs⟩ := Option.ite_none_right_eq_some.1 hs
    cases hs
    have hx := hI.harts h
    exact hI.update ⟨fun _ => hx.active (.inl (by rw [hpc]; nofun)), hx.holder, nofun,
      False.elim, nofun⟩ (fun _ _ hl => hl) fun _ _ _ => rfl
  | load h =>
    obtain ⟨⟨-, hh⟩, hs⟩ := Option.ite_none_right_eq_some.1 hs
    cases hs
    have hx := hI.harts h
    refine hI.update ⟨fun _ => hx.active (.inr hh), fun _ => hx.holder hh, nofun, False.elim, ?_⟩
      (fun _ _ hl => hl) fun _ _ _ => rfl
    rintro v hp
    cases hp
    exact ⟨rfl, rfl⟩
  | store h =>
    simp only [mutexStep] at hs
    split at hs
    · rename_i v hpc
      cases hs
      have hx := hI.harts h
      obtain ⟨hh, hv⟩ := hx.loaded v hpc
      refine ⟨fun h' => ?_, ?_⟩
      · dsimp only [Mutex.set]
        by_cases hne : h' = h
        · subst hne
          rw [Function.update_self]
          exact ⟨fun _ => hx.active (.inr hh), hx.holder, nofun, False.elim, nofun⟩
        · rw [Function.update_of_ne hne]
          exact (hI.harts h').frame id fun hh' => absurd (hI.unique hn hh hh') hne
      · dsimp only
        rw [hv, hI.counter, Nat.mod_add_mod]
    · cases hs
  | unlock h =>
    obtain ⟨⟨-, hh⟩, hs⟩ := Option.ite_none_right_eq_some.1 hs
    cases hs
    have hx := hI.harts h
    exact hI.update ⟨fun _ => hx.active (.inr hh), nofun, nofun, False.elim, nofun⟩
      (fun _ hne _ => Reserved.Linked.amoswap_of_ne hne)
      fun h' hne hh' => absurd (hI.unique hn hh hh') hne

theorem mutexInv_init : MutexInv n (mutex n).init where
  harts := fun h =>
    { active := by
        rintro (hp | hp)
        · exact absurd rfl hp
        · cases hp
      holder := fun hh => (by cases hh)
      linked := fun _ _ hp => (by cases hp)
      wrote := False.elim
      loaded := fun _ hp => (by cases hp) }
  counter := rfl

theorem mutexInv_of_reachable (hn : n < 2 ^ 32) (hs : (mutex n).Reachable s) : MutexInv n s :=
  hs.invariant mutexInv_init fun hI _ => mutexInv_mutexStep hn hI

/-! ## Main result -/

/-- **Mutual exclusion**, among any number of harts whose ids plus 1 are words: at most one hart is
between a successful acquire and its release, and then `holder` is its id plus 1. A `mutex_trylock`
that fails has not changed `holder`. The counter is the number of increments. -/
theorem mutex_exclusion (hn : n < 2 ^ 32) (hs : (mutex n).Reachable s) :
    (∀ h h', (s.harts h).holds = true → (s.harts h').holds = true → h' = h) ∧
    (∀ h, (s.harts h).holds = true → s.holder.value = h + 1) ∧
    (∀ h, (s.harts h).pc = .failed → (s.harts h).wrote = false) ∧
    s.counter = s.increments % 2 ^ 32 := by
  have hI := mutexInv_of_reachable hn hs
  refine ⟨fun h h' => hI.unique hn, fun h hh => ?_, fun h hp => ?_, hI.counter⟩
  · rw [(hI.harts h).holder hh, self_eq hn ((hI.harts h).active (.inr hh))]
  · refine (hI.harts h).wrote ?_
    rw [hp]
    trivial

/-- Two harts load the word while the lock is free; the first takes it and increments the counter,
and the `mutex_trylock` of the second fails. -/
def contended : List MutexStep :=
  [.call .lock 0, .call .trylock 1, .cas 0 true, .cas 1 true, .cas 0 true, .cas 1 true, .cas 1 true,
    .load 0, .store 0]

theorem mutex_exclusion_contended :
    ∃ s, (mutex 2).Reachable s ∧ (s.harts 1).pc = .failed ∧ s.holder.value = 1 ∧
      (s.harts 1).wrote = false ∧ s.counter = 1 % 2 ^ 32 := by
  have hrun : (mutex 2).run contended (mutex 2).init = some _ := rfl
  have hreach := Machine.reachable_of_run hrun
  obtain ⟨-, hholder, hfailed, hcounter⟩ := mutex_exclusion (by decide) hreach
  exact ⟨_, hreach, rfl, hholder 0 rfl, hfailed 1 rfl, hcounter⟩

end RvvmHal.Smp
