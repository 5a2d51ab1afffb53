import Mathlib.Data.Nat.Bitwise
import Mathlib.Data.Set.Function
import RvvmHal.Foundations.Machine

/-!
# The interrupt controller, in S-mode

`plat_s_sbi.c`: `plat_intc_init`, `plat_intc_enable_source`, `plat_intc_disable_source` and
`plat_intc_set_priority`. Every hart has a context with an enable bit for each source; the priority
of a source is one register for all harts. The accesses of the harts are interleaved in any order.

The enable bit of a source that a hart has enabled stays set (`bits_of_reachable`). Its priority
stays at least 1, in all states of a run, if and only if no `plat_intc_init` takes the priority of a
source that some hart has enabled, or keeps one from being enabled (`keepsEnabled_iff`).
-/

namespace RvvmHal.Plic

/-! ## Registers -/

/-- `RVVM_PLIC_SRC_LIMIT`. -/
def RVVM_PLIC_SRC_LIMIT : ℕ := 64

/-- `RVVM_PLIC_SIZE`. -/
def RVVM_PLIC_SIZE : ℕ := 0x04000000

/-- The registers: the priority of a source, an enable word and the threshold of a context. -/
inductive Reg
  | prio (source : ℕ)
  | enable (ctx word : ℕ)
  | threshold (ctx : ℕ)
  deriving DecidableEq

namespace Reg

/-- `plic_prio_reg`, `plic_enable_reg` and `plic_ctx_reg`, from `plic_base`. -/
def offset : Reg → ℕ
  | prio source => 0x000000 + source * 4
  | enable ctx word => 0x002000 + ctx * 0x80 + word * 4
  | threshold ctx => 0x200000 + ctx * 0x1000 + 0x000

/-- The registers of the sources that there are, and of the contexts within the controller. -/
def Exists : Reg → Prop
  | prio source => source < RVVM_PLIC_SRC_LIMIT
  | enable ctx word =>
    word < (RVVM_PLIC_SRC_LIMIT + 31) / 32 ∧ (threshold ctx).offset < RVVM_PLIC_SIZE
  | threshold ctx => (threshold ctx).offset < RVVM_PLIC_SIZE

/-- Different registers are at different addresses. -/
theorem offset_injOn : Set.InjOn offset {r | r.Exists} := by
  intro r hr r' hr' h
  cases r <;> cases r' <;>
    simp only [Set.mem_ofPred_eq, Exists, offset, RVVM_PLIC_SRC_LIMIT, RVVM_PLIC_SIZE] at hr hr' h <;>
    first
      | omega
      | (congr 1 <;> omega)

end Reg

/-- `plic_ctx_self` on the hart `h`. -/
def plicCtxSelf (h : ℕ) : ℕ := h <<< 1 ||| 1

theorem plicCtxSelf_eq (h : ℕ) : plicCtxSelf h = 2 * h + 1 := by
  rw [plicCtxSelf, Nat.shiftLeft_eq, Nat.mul_comm]
  exact (Nat.two_pow_add_eq_or_of_lt (i := 1) (by decide) h).symm

theorem plicCtxSelf_injective : Function.Injective plicCtxSelf := by
  intro h h' heq
  rw [plicCtxSelf_eq, plicCtxSelf_eq] at heq
  omega

/-! ## Calls -/

/-- Where a hart is. `readPrio` and `storePrio` are those of `plat_intc_enable_source`, `readBit` and
`storeBit` those of `plic_enable_bit`. -/
inductive Pc
  | idle
  | initEnable (word : ℕ)
  | initPrio (i : ℕ)
  | initThreshold
  | readPrio (source : ℕ)
  | storePrio (source : ℕ)
  | readBit (source : ℕ) (enable : Bool)
  | storeBit (source : ℕ) (enable : Bool) (cur : BitVec 32)
  | setPrio (source : ℕ) (prio : BitVec 32)
  deriving DecidableEq

/-- The calls. -/
inductive Call
  | init
  | enableSource (source : ℕ)
  | disableSource (source : ℕ)
  | setPriority (source : ℕ) (prio : BitVec 32)
  deriving DecidableEq

/-- A source that is checked for. -/
def IsSource (source : ℕ) : Prop := ¬ (source = 0 ∨ RVVM_PLIC_SRC_LIMIT ≤ source)

instance (source : ℕ) : Decidable (IsSource source) := inferInstanceAs (Decidable (¬ _))

/-- The first access of a call. -/
def Call.start : Call → Pc
  | init => .initEnable 0
  | enableSource source => if IsSource source then .readPrio source else .idle
  | disableSource source => if IsSource source then .readBit source false else .idle
  | setPriority source prio => if IsSource source then .setPrio source prio else .idle

/-- `1u << (source & 0x1F)`. -/
def bit (source : ℕ) : BitVec 32 := 1#32 <<< (source &&& 0x1F)

/-- The store that is made at a place, if any. -/
def Pc.store (ctx : ℕ) : Pc → Option (Reg × BitVec 32)
  | idle | readPrio _ | readBit _ _ => none
  | initEnable word => some (.enable ctx word, 0)
  | initPrio i => some (.prio i, 0)
  | initThreshold => some (.threshold ctx, 0)
  | storePrio source => some (.prio source, 1)
  | storeBit source enable cur =>
    some (.enable ctx (source >>> 5), if enable then cur ||| bit source else cur &&& ~~~bit source)
  | setPrio source prio => some (.prio source, prio &&& 0x7)

/-- The place after an access. -/
def Pc.next (ctx : ℕ) (regs : Reg → BitVec 32) : Pc → Pc
  | initEnable word =>
    if word + 1 < (RVVM_PLIC_SRC_LIMIT + 31) / 32 then initEnable (word + 1) else initPrio 1
  | initPrio i => if i + 1 < RVVM_PLIC_SRC_LIMIT then initPrio (i + 1) else initThreshold
  | readPrio source =>
    if regs (.prio source) = 0 then storePrio source else readBit source true
  | storePrio source => readBit source true
  | readBit source enable => storeBit source enable (regs (.enable ctx (source >>> 5)))
  | idle | initThreshold | storeBit _ _ _ | setPrio _ _ => idle

/-! ## Runs -/

/-- A run. `raised h source` is true from when an enabling on `h` has found or made the priority of
the source nonzero, `on h source` from the end of the enabling; both as long as the source is not
disabled in the context of `h` and its priority not set to 0. -/
structure State where
  regs : Reg → BitVec 32
  pc : ℕ → Pc
  raised : ℕ → ℕ → Bool
  on : ℕ → ℕ → Bool

/-- The steps: a hart begins a call, or makes its next access. -/
inductive Act
  | call (h : ℕ) (c : Call)
  | access (h : ℕ)

namespace State

/-- The registers after the next access of a hart. -/
def stored (s : State) (h : ℕ) : Reg → BitVec 32 :=
  match (s.pc h).store (plicCtxSelf h) with
  | some (r, v) => Function.update s.regs r v
  | none => s.regs

/-- `raised` after the next access of a hart. -/
def raisedNext (s : State) (h h' source' : ℕ) : Bool :=
  match s.pc h with
  | .readPrio source =>
    (h' = h ∧ source' = source ∧ s.regs (.prio source) ≠ 0) || s.raised h' source'
  | .storePrio source => (h' = h ∧ source' = source) || s.raised h' source'
  | .setPrio source prio => !(source' = source ∧ prio &&& 0x7 = 0) && s.raised h' source'
  | _ => s.raised h' source'

/-- `on` after the next access of a hart. `plat_intc_init` disables every source in its context. -/
def onNext (s : State) (h h' source' : ℕ) : Bool :=
  match s.pc h with
  | .initEnable word => !(h' = h ∧ source' >>> 5 = word) && s.on h' source'
  | .storeBit source enable _ =>
    if h' = h ∧ source' = source then enable && s.raised h source else s.on h' source'
  | .setPrio source prio => !(source' = source ∧ prio &&& 0x7 = 0) && s.on h' source'
  | _ => s.on h' source'

/-- One step. -/
def step (s : State) : Act → Option State
  | .call h c =>
    if s.pc h = .idle then some { s with pc := Function.update s.pc h c.start } else none
  | .access h =>
    if s.pc h = .idle then none
    else some ⟨s.stored h, Function.update s.pc h ((s.pc h).next (plicCtxSelf h) s.regs),
      s.raisedNext h, s.onNext h⟩

/-- The enable bit of a source in the context of a hart. -/
def enabled (s : State) (h source : ℕ) : Bool :=
  (s.regs (.enable (plicCtxSelf h) (source >>> 5))).getLsbD (source &&& 0x1F)

end State

/-- All runs, from any contents of the registers. -/
def machine (regs : Reg → BitVec 32) : Machine State Act where
  init := ⟨regs, fun _ => .idle, fun _ _ => false, fun _ _ => false⟩
  step a s := s.step a

/-- The sources that harts have enabled are enabled in their contexts, with priorities of at least
1. -/
def KeepsEnabled (s : State) : Prop :=
  ∀ h source, s.on h source = true → s.enabled h source = true ∧ 1 ≤ (s.regs (.prio source)).toNat

/-- A step does not store the priority of a source that a hart has enabled from `plat_intc_init`, and
enables a source only while the priority that it has seen or stored is still there. -/
def Undisturbed (s : State) : Act → Prop
  | .access h =>
    match s.pc h with
    | .initPrio i => ∀ h', s.on h' i = false
    | .storeBit source true _ => s.raised h source = true → s.regs (.prio source) ≠ 0
    | _ => True
  | _ => True

/-! ## Bits of an enable word -/

theorem and_0x1F (source : ℕ) : source &&& 0x1F = source % 32 :=
  Nat.and_two_pow_sub_one_eq_mod source 5

/-- Different sources of one word have different bits. -/
theorem eq_of_bit {source source' : ℕ} (hword : source' >>> 5 = source >>> 5)
    (hbit : source' &&& 0x1F = source &&& 0x1F) : source' = source := by
  rw [Nat.shiftRight_eq_div_pow, Nat.shiftRight_eq_div_pow] at hword
  rw [and_0x1F, and_0x1F] at hbit
  omega

theorem and_0x1F_lt (source : ℕ) : source &&& 0x1F < 32 :=
  and_0x1F source ▸ Nat.mod_lt source (by decide)

theorem getLsbD_bit (source source' : ℕ) :
    (bit source).getLsbD (source' &&& 0x1F) = decide (source' &&& 0x1F = source &&& 0x1F) := by
  rw [bit, ← BitVec.twoPow_eq, BitVec.getLsbD_twoPow, decide_eq_true (and_0x1F_lt source),
    Bool.true_and]
  exact decide_eq_decide.2 eq_comm

/-- The word that `plic_enable_bit` stores has the bit of the source as it should be, and the others
as they were. -/
theorem getLsbD_storeBit (cur : BitVec 32) (enable : Bool) {source source' : ℕ}
    (hword : source' >>> 5 = source >>> 5) :
    (if enable then cur ||| bit source else cur &&& ~~~bit source).getLsbD (source' &&& 0x1F) =
      if source' = source then enable else cur.getLsbD (source' &&& 0x1F) := by
  have hiff : source' &&& 0x1F = source &&& 0x1F ↔ source' = source :=
    ⟨eq_of_bit hword, fun h => by rw [h]⟩
  have hbit : (bit source).getLsbD (source' &&& 0x1F) = decide (source' = source) := by
    rw [getLsbD_bit, decide_eq_decide.2 hiff]
  cases enable with
  | true =>
    rw [if_pos rfl, BitVec.getLsbD_or, hbit]
    by_cases h : source' = source <;> simp [h]
  | false =>
    rw [if_neg Bool.false_ne_true, BitVec.getLsbD_and, BitVec.getLsbD_not, hbit,
      decide_eq_true (and_0x1F_lt source')]
    by_cases h : source' = source <;> simp [h]

/-! ## Accesses -/

variable {regs : Reg → BitVec 32} {s s' : State} {h h' source : ℕ}

theorem stored_of_store {r r' : Reg} {v : BitVec 32}
    (hst : (s.pc h).store (plicCtxSelf h) = some (r, v)) (hne : r' ≠ r) :
    s.stored h r' = s.regs r' := by
  rw [State.stored, hst]
  exact Function.update_of_ne hne v s.regs

theorem stored_self {r : Reg} {v : BitVec 32}
    (hst : (s.pc h).store (plicCtxSelf h) = some (r, v)) : s.stored h r = v := by
  rw [State.stored, hst]
  exact Function.update_self r v s.regs

theorem stored_of_none {r : Reg} (hst : (s.pc h).store (plicCtxSelf h) = none) :
    s.stored h r = s.regs r := by
  rw [State.stored, hst]

/-- The enable words of a context are stored on its own hart only. -/
theorem stored_enable_of_ne (hne : h' ≠ h) (word : ℕ) :
    s.stored h (.enable (plicCtxSelf h') word) = s.regs (.enable (plicCtxSelf h') word) := by
  have hctx : plicCtxSelf h' ≠ plicCtxSelf h := fun heq => hne (plicCtxSelf_injective heq)
  cases hpc : s.pc h with
  | idle | readPrio | readBit => exact stored_of_none (by rw [hpc]; rfl)
  | initEnable | initPrio | initThreshold | storePrio | storeBit | setPrio =>
    refine stored_of_store (by rw [hpc]; rfl) ?_
    simp [hctx]

/-- What is enabled after an access has been before, or has just been enabled. -/
theorem onNext_cases (hon : s.onNext h h' source = true) : s.on h' source = true ∨
    h' = h ∧ (∃ cur, s.pc h = .storeBit source true cur) ∧ s.raised h source = true := by
  unfold State.onNext at hon
  split at hon
  next => exact .inl (Bool.and_eq_true_iff.1 hon).2
  next enable cur hpc =>
    split at hon
    next heq =>
      obtain ⟨rfl, rfl⟩ := heq
      obtain ⟨rfl, hraised⟩ := Bool.and_eq_true_iff.1 hon
      exact .inr ⟨rfl, ⟨cur, hpc⟩, hraised⟩
    next => exact .inl hon
  next => exact .inl (Bool.and_eq_true_iff.1 hon).2
  next => exact .inl hon

/-! ## Enable bits -/

/-- What harts have enabled is enabled, and a hart that is about to store an enable word has read
it. -/
structure BitInv (s : State) : Prop where
  on : ∀ h source, s.on h source = true → s.enabled h source = true
  cur : ∀ h source enable cur, s.pc h = .storeBit source enable cur →
    s.regs (.enable (plicCtxSelf h) (source >>> 5)) = cur

/-- What is enabled after an access has its bit set. -/
theorem BitInv.enabled (hI : BitInv s) (hon : s.onNext h h' source = true) :
    (s.stored h (.enable (plicCtxSelf h') (source >>> 5))).getLsbD (source &&& 0x1F) = true := by
  by_cases hne : h' = h
  swap
  · -- another hart does not store to this context
    rw [stored_enable_of_ne hne]
    rcases onNext_cases hon with hon | ⟨heq, -⟩
    · exact hI.on h' source hon
    · exact absurd heq hne
  subst hne
  cases hpc : s.pc h' with
  | idle | readPrio | readBit =>
    rw [State.onNext, hpc] at hon
    rw [stored_of_none (by rw [hpc]; rfl)]
    exact hI.on h' source hon
  | initPrio | initThreshold | storePrio =>
    rw [State.onNext, hpc] at hon
    rw [stored_of_store (by rw [hpc]; rfl) (by simp)]
    exact hI.on h' source hon
  | setPrio =>
    rw [State.onNext, hpc] at hon
    rw [stored_of_store (by rw [hpc]; rfl) (by simp)]
    exact hI.on h' source (Bool.and_eq_true_iff.1 hon).2
  | initEnable word =>
    rw [State.onNext, hpc] at hon
    obtain ⟨hword, hon⟩ := Bool.and_eq_true_iff.1 hon
    have hne : source >>> 5 ≠ word := by simpa using hword
    rw [stored_of_store (by rw [hpc]; rfl) (by simp [hne])]
    exact hI.on h' source hon
  | storeBit source' enable cur =>
    rw [State.onNext, hpc] at hon
    dsimp only at hon
    by_cases hword : source >>> 5 = source' >>> 5
    · have hcur := hI.cur h' source' enable cur hpc
      rw [hword, stored_self (by rw [hpc]; rfl), getLsbD_storeBit cur enable hword]
      split at hon
      next heq =>
        rw [if_pos heq.2]
        exact (Bool.and_eq_true_iff.1 hon).1
      next hne =>
        rw [if_neg fun heq => hne ⟨rfl, heq⟩, ← hcur, ← hword]
        exact hI.on h' source hon
    · rw [if_neg fun heq => hword (by rw [heq.2])] at hon
      rw [stored_of_store (by rw [hpc]; rfl) (by simp [hword])]
      exact hI.on h' source hon

theorem start_ne_storeBit (c : Call) (enable : Bool) (cur : BitVec 32) :
    c.start ≠ .storeBit source enable cur := by
  cases c with
  | init => nofun
  | enableSource i | disableSource i | setPriority i =>
    by_cases hi : IsSource i <;> simp [Call.start, hi]

/-- An enable word is stored after it has been read. -/
theorem next_eq_storeBit {ctx : ℕ} {pc : Pc} {enable : Bool} {cur : BitVec 32}
    (hnext : pc.next ctx regs = .storeBit source enable cur) :
    pc = .readBit source enable ∧ regs (.enable ctx (source >>> 5)) = cur := by
  cases pc with
  | readBit source' enable' =>
    cases hnext
    exact ⟨rfl, rfl⟩
  | initEnable | initPrio | readPrio =>
    rw [Pc.next] at hnext
    split at hnext <;> cases hnext
  | _ => cases hnext

/-- **Steps**: each keeps the enable bits. -/
theorem BitInv.step (hI : BitInv s) {a : Act} (hs : s.step a = some s') : BitInv s' := by
  cases a with
  | call h c =>
    obtain ⟨-, hs⟩ := Option.ite_none_right_eq_some.1 hs
    cases hs
    refine ⟨hI.on, fun h' source enable cur hpc => ?_⟩
    by_cases hne : h' = h
    · subst hne
      exact absurd ((Function.update_self ..).symm.trans hpc) (start_ne_storeBit c enable cur)
    · exact hI.cur h' source enable cur ((Function.update_of_ne hne ..).symm.trans hpc)
  | access h =>
    obtain ⟨-, hs⟩ := Option.ite_none_left_eq_some.1 hs
    cases hs
    refine ⟨fun h' source hon => hI.enabled hon, fun h' source enable cur hpc => ?_⟩
    by_cases hne : h' = h
    · subst hne
      obtain ⟨hread, hcur⟩ := next_eq_storeBit ((Function.update_self ..).symm.trans hpc)
      exact (stored_of_none (by rw [hread]; rfl)).trans hcur
    · exact (stored_enable_of_ne hne _).trans
        (hI.cur h' source enable cur ((Function.update_of_ne hne ..).symm.trans hpc))

theorem bitInv_init (regs : Reg → BitVec 32) : BitInv (machine regs).init :=
  ⟨fun _ _ h => (by cases h), fun _ _ _ _ h => by cases h⟩

/-- **Enable bits stay set**, in every run. -/
theorem bits_of_reachable (hs : (machine regs).Reachable s) (hon : s.on h source = true) :
    s.enabled h source = true :=
  (hs.invariant (bitInv_init regs) fun hI _ hstep => hI.step hstep).on h source hon

/-! ## Priorities -/

theorem prio_stored_of_ne (hne : ∀ v, (s.pc h).store (plicCtxSelf h) ≠ some (.prio source, v)) :
    s.stored h (.prio source) = s.regs (.prio source) := by
  cases hst : (s.pc h).store (plicCtxSelf h) with
  | none => exact stored_of_none hst
  | some rv => exact stored_of_store hst fun heq => hne rv.2 (by rw [hst, heq])

/-- The sources that harts have enabled have priorities. -/
def PrioOk (s : State) : Prop := ∀ h source, s.on h source = true → s.regs (.prio source) ≠ 0

/-- A source that has been enabled before keeps its priority if that is not stored. -/
theorem PrioOk.frame (hP : PrioOk s) (hon : s.onNext h h' source = true)
    (hpc : ∀ cur, s.pc h ≠ .storeBit source true cur)
    (hne : ∀ v, (s.pc h).store (plicCtxSelf h) ≠ some (.prio source, v)) :
    s.stored h (.prio source) ≠ 0 := by
  rw [prio_stored_of_ne hne]
  rcases onNext_cases hon with hon | ⟨-, ⟨cur, heq⟩, -⟩
  · exact hP h' source hon
  · exact absurd heq (hpc cur)

/-- **After an access** the sources that are enabled have priorities if and only if it was
undisturbed. -/
theorem PrioOk.access_iff (hP : PrioOk s) :
    (∀ h' source, s.onNext h h' source = true → s.stored h (.prio source) ≠ 0) ↔
      Undisturbed s (.access h) := by
  cases hpc : s.pc h with
  | initPrio i =>
    simp only [Undisturbed, hpc]
    constructor
    · intro hprio h'
      by_contra hon
      refine hprio h' i ?_ (stored_self (by rw [hpc]; rfl))
      rw [State.onNext, hpc]
      exact Bool.eq_true_of_not_eq_false hon
    · intro hoff h' source hon
      refine hP.frame hon (by simp [hpc]) fun v hst => ?_
      rw [hpc] at hst
      cases hst
      rw [State.onNext, hpc] at hon
      exact absurd hon (by simp [hoff])
  | storeBit source enable cur =>
    have hfix : ∀ source', s.stored h (.prio source') = s.regs (.prio source') :=
      fun source' => prio_stored_of_ne (by simp [hpc, Pc.store])
    simp only [hfix]
    cases enable with
    | false =>
      simp only [Undisturbed, hpc, iff_true]
      intro h' source' hon
      exact hfix source' ▸ hP.frame hon (by simp [hpc]) (by simp [hpc, Pc.store])
    | true =>
      simp only [Undisturbed, hpc]
      constructor
      · intro hprio hraised
        refine hprio h source ?_
        rw [State.onNext, hpc]
        simpa using hraised
      · intro hprio h' source' hon
        rcases onNext_cases hon with hon | ⟨rfl, ⟨cur', heq⟩, hraised⟩
        · exact hP h' source' hon
        · rw [hpc] at heq
          cases heq
          exact hprio hraised
  | setPrio source prio =>
    simp only [Undisturbed, hpc, iff_true]
    intro h' source' hon
    by_cases heq : source' = source
    · subst heq
      rw [stored_self (by rw [hpc]; rfl)]
      rw [State.onNext, hpc] at hon
      simpa using (Bool.and_eq_true_iff.1 hon).1
    · exact hP.frame hon (by simp [hpc]) (by simp [hpc, Pc.store, Ne.symm heq])
  | storePrio source =>
    simp only [Undisturbed, hpc, iff_true]
    intro h' source' hon
    by_cases heq : source' = source
    · subst heq
      rw [stored_self (by rw [hpc]; rfl)]
      decide
    · exact hP.frame hon (by simp [hpc]) (by simp [hpc, Pc.store, Ne.symm heq])
  | _ =>
    simp only [Undisturbed, hpc, iff_true]
    exact fun h' source hon => hP.frame hon (by simp [hpc]) (by simp [hpc, Pc.store])

theorem keepsEnabled_iff_prioOk (hI : BitInv s) : KeepsEnabled s ↔ PrioOk s := by
  have hpos : ∀ v : BitVec 32, 1 ≤ v.toNat ↔ v ≠ 0 := by
    intro v
    rw [Nat.one_le_iff_ne_zero, Ne, Ne, BitVec.toNat_eq]
    rfl
  simp only [KeepsEnabled, PrioOk, hpos]
  exact ⟨fun h h' source hon => (h h' source hon).2,
    fun h h' source hon => ⟨hI.on h' source hon, h h' source hon⟩⟩

/-- **Steps**: one keeps what harts have enabled if and only if it is undisturbed. -/
theorem keepsEnabled_step_iff (hI : BitInv s) (hK : KeepsEnabled s) {a : Act}
    (hs : s.step a = some s') : KeepsEnabled s' ↔ Undisturbed s a := by
  have hP := (keepsEnabled_iff_prioOk hI).1 hK
  rw [keepsEnabled_iff_prioOk (hI.step hs)]
  cases a with
  | call h c =>
    obtain ⟨-, hs⟩ := Option.ite_none_right_eq_some.1 hs
    cases hs
    exact iff_of_true hP trivial
  | access h =>
    obtain ⟨-, hs⟩ := Option.ite_none_left_eq_some.1 hs
    cases hs
    exact hP.access_iff

/-! ## Main results -/

/-- **Harts do not disturb each other**, in all states of a run, if and only if all its steps are
undisturbed. -/
theorem keepsEnabled_iff (regs : Reg → BitVec 32) (as : List Act) :
    (machine regs).Along (fun _ _ s' => KeepsEnabled s') as (machine regs).init ↔
      (machine regs).Along (fun s a _ => Undisturbed s a) as (machine regs).init :=
  Machine.along_congr (I := fun s => BitInv s ∧ KeepsEnabled s)
    (fun hI hs => keepsEnabled_step_iff hI.1 hI.2 hs) (fun hI hs hK => ⟨hI.1.step hs, hK⟩) as
    ⟨bitInv_init regs, fun _ _ h => by cases h⟩

/-- Hart 0 has enabled source 5, and hart 1 is initialised then. -/
def reinit : List Act :=
  .call 0 (.enableSource 5) :: List.replicate 4 (.access 0) ++
    .call 1 .init :: List.replicate 6 (.access 1)

/-- The priority that hart 0 has raised is set back to 0. -/
theorem keepsEnabled_reinit : ¬ (machine fun _ => 0).Along (fun _ _ s' => KeepsEnabled s')
    (reinit ++ [.access 1]) (machine fun _ => 0).init := by
  intro h
  have hlast := h.last rfl rfl
  exact absurd (hlast 0 5 rfl).2 (by decide)

end RvvmHal.Plic
