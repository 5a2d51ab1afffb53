import RvvmHal.Foundations.Riscv

/-!
# Trap entry and exit

`trap.S`. An interrupt takes the slim path, which saves the registers that the calling convention
lets a function change, calls `trap_dispatch` and restores them; an exception takes the full path.
The function is given by its effect on the state, for the states from which it returns.

The integer registers come back as they were (`interrupt_transparent`). No floating-point register
is saved, so these come back exactly when the function does not use those it may change
(`interrupt_transparentF`).
-/

namespace RvvmHal.Trap

open Riscv Memory64

/-! ## The assembly -/

abbrev ra : ℕ := 1
abbrev sp : ℕ := 2
abbrev t0 : ℕ := 5
abbrev a0 : ℕ := 10
abbrev a1 : ℕ := 11
abbrev a2 : ℕ := 12

/-- The privilege mode of a build. -/
inductive Priv
  | m
  | s
  deriving DecidableEq

/-- `mcause` or `scause`. -/
def CSR_CAUSE : Priv → ℕ
  | .m => 0x342
  | .s => 0x142

/-- `mepc` or `sepc`. -/
def CSR_EPC : Priv → ℕ
  | .m => 0x341
  | .s => 0x141

/-- The labels of `trap.S`. -/
inductive TrapLabel
  | trapEntry
  | slim
  deriving DecidableEq

/-- The function that `trap.S` calls. -/
inductive TrapFn
  | trapDispatch

/-- The call of `trap_dispatch`, with its arguments. -/
def callDispatch (p : Priv) : List (Instr TrapLabel TrapFn) :=
  [.mv a0 t0, .csrr a1 (CSR_EPC p), .mv a2 sp, .call .trapDispatch]

/-- The registers saved on the full path after `t0`, `ra` and `sp`. -/
def fullSaves : List ℕ :=
  [3, 4, 6, 7, 8, 9, 10, 11, 12, 13, 14, 15, 16, 17, 18, 19, 20, 21, 22, 23, 24, 25, 26, 27, 28, 29,
    30, 31]

/-- The registers restored on the full path. -/
def fullRestores : List ℕ :=
  [1, 3, 4, 5, 6, 7, 8, 9, 10, 11, 12, 13, 14, 15, 16, 17, 18, 19, 20, 21, 22, 23, 24, 25, 26, 27,
    28, 29, 30, 31]

/-- The registers saved on the slim path after `t0`, `ra` and `sp`. -/
def slimSaves : List ℕ := [6, 7, 10, 11, 12, 13, 14, 15, 16, 17, 28, 29, 30, 31]

/-- The registers restored on the slim path. -/
def slimRestores : List ℕ := [1, 5, 6, 7, 10, 11, 12, 13, 14, 15, 16, 17, 28, 29, 30, 31]

/-- What both paths save first: `ra`, and the `sp` of the interrupted code by way of `ra`. -/
def saveRaSp : List (Instr TrapLabel TrapFn) := [save ra, .addi ra sp 256, .sd ra 16 sp]

/-- `__trap_entry`. -/
def trapCode (p : Priv) : TrapLabel → List (Instr TrapLabel TrapFn)
  | .trapEntry =>
    [.addi sp sp (-256), save t0, .csrr t0 (CSR_CAUSE p), .bltz t0 .slim] ++
      (saveRaSp ++ (fullSaves.map save ++ (callDispatch p ++ (fullRestores.map restore ++
        [.addi sp sp 256, .xret]))))
  | .slim =>
    saveRaSp ++ (slimSaves.map save ++ (callDispatch p ++ (slimRestores.map restore ++
      [.addi sp sp 256, .xret])))

/-- The machine makes doubleword accesses at any address. -/
def trapEnv (dispatch : State → Option State) (link : Word) : Env TrapFn :=
  ⟨false, fun _ => dispatch, fun _ => link⟩

/-- An interrupt: the highest bit of the cause is set. -/
def Interrupt (p : Priv) (s : State) : Prop := (s.csr (CSR_CAUSE p)).msb = true

instance (p : Priv) (s : State) : Decidable (Interrupt p s) :=
  inferInstanceAs (Decidable (_ = true))

/-! ## The slim path -/

/-- The slots written on the slim path. -/
def slimSlots : List ℕ := [t0, ra, sp] ++ slimSaves

/-- The frame of a trap. -/
def frame (s : State) : Word := s.get sp - 256

/-- The state in which `trap_dispatch` is called. -/
def callState (p : Priv) (link : Word) (s : State) : State :=
  (((((((s.set sp (frame s)).set t0 (s.csr (CSR_CAUSE p))).set ra (s.get sp)).withMem
    (saveAll s.mem (frame s) s.get slimSlots)).set a0 (s.csr (CSR_CAUSE p))).set a1
      (s.csr (CSR_EPC p))).set a2 (frame s)).set ra link

variable {p : Priv} {link : Word} {s d : State} {dispatch : State → Option State}

/-- Slots hold the registers of the interrupted code as long as these have not been changed. -/
theorem saveAll_congr {m : Mem} {base : Word} {val val' : ℕ → Word} {regs : List ℕ}
    (h : ∀ r ∈ regs, val r = val' r) : saveAll m base val regs = saveAll m base val' regs := by
  induction regs generalizing m with
  | nil => rfl
  | cons r regs ih =>
    rw [saveAll, List.foldl_cons, h r List.mem_cons_self]
    exact ih fun i hi => h i (List.mem_cons_of_mem r hi)

theorem not_faults {a : Word} : ¬ (trapEnv dispatch link).Faults a := fun h => by cases h.1

/-- The state at the branch to the slim path. -/
def slimState (p : Priv) (s : State) : State :=
  ((s.set sp (frame s)).withMem (saveAll s.mem (frame s) s.get [t0])).set t0 (s.csr (CSR_CAUSE p))

/-- Up to the branch. -/
theorem exec_trapEntry (hs : Interrupt p s) :
    exec (trapEnv dispatch link) (trapCode p .trapEntry) s = some (.goto .slim, slimState p s) := by
  have hneg : (s.csr (CSR_CAUSE p)).toInt < (0 : Word).toInt := by
    have hmsb := BitVec.msb_eq_toInt (x := s.csr (CSR_CAUSE p))
    rw [show (s.csr (CSR_CAUSE p)).msb = true from hs] at hmsb
    exact of_decide_eq_true hmsb.symm
  have hbase : s.get sp + -256 = frame s := (sub_eq_add_neg ..).symm
  simp only [trapCode, List.cons_append, List.nil_append]
  rw [exec, hbase, save, exec, if_neg not_faults, exec, exec, if_pos]
  · rfl
  · rw [State.get_set_self _ _ (by decide), State.get_zero]
    exact hneg

variable {u : State} {is : List (Instr TrapLabel TrapFn)}

theorem exec_saveRaSp (hsp : u.get sp + 256 = s.get sp) :
    exec (trapEnv dispatch link) (saveRaSp ++ is) u =
      exec (trapEnv dispatch link) is ((u.set ra (s.get sp)).withMem
        (store64 (store64 u.mem (slot (u.get sp) ra) (u.get ra)) (slot (u.get sp) sp)
          (s.get sp))) := by
  simp only [saveRaSp, List.cons_append, List.nil_append]
  rw [save, exec, if_neg not_faults, exec, State.get_withMem, hsp, exec, if_neg not_faults]
  rfl

theorem exec_callDispatch :
    exec (trapEnv dispatch link) (callDispatch p ++ is) u =
      (dispatch ((((u.set a0 (u.get t0)).set a1 (u.csr (CSR_EPC p))).set a2 (u.get sp)).set ra
        link)).bind (exec (trapEnv dispatch link) is) := by
  simp only [callDispatch, List.cons_append, List.nil_append]
  rw [exec, exec, exec, exec, add_zero, add_zero]
  rfl

/-- **Up to the call** of `trap_dispatch`, and what is left to do when it returns. -/
theorem exec_slim :
    exec (trapEnv dispatch link) (trapCode p .slim) (slimState p s) =
      (dispatch (callState p link s)).bind (exec (trapEnv dispatch link)
        (slimRestores.map restore ++ [.addi sp sp 256, .xret])) := by
  have hbase : (slimState p s).get sp = frame s := rfl
  have hmem : (slimState p s).mem = saveAll s.mem (frame s) s.get [t0] := rfl
  have hra : (slimState p s).get ra = s.get ra := rfl
  have hslots : saveAll (store64 (store64 (saveAll s.mem (frame s) s.get [t0]) (slot (frame s) ra)
      (s.get ra)) (slot (frame s) sp) (s.get sp)) (frame s) s.get slimSaves =
      saveAll s.mem (frame s) s.get slimSlots := by
    rw [slimSlots, saveAll_append]
    rfl
  have hregs : ∀ r ∈ slimSaves, ((slimState p s).set ra (s.get sp)).get r = s.get r := by
    intro r hr
    have hne : r ≠ ra ∧ r ≠ t0 ∧ r ≠ sp := by
      revert r
      decide
    rw [State.get_set_of_ne _ _ hne.1, slimState, State.get_set_of_ne _ _ hne.2.1,
      State.get_withMem, State.get_set_of_ne _ _ hne.2.2]
  rw [trapCode, exec_saveRaSp (s := s) (by rw [hbase]; exact sub_add_cancel ..), exec_save rfl,
    exec_callDispatch, hbase, hmem, hra, State.mem_withMem]
  have hgets : saveAll (store64 (store64 (saveAll s.mem (frame s) s.get [t0]) (slot (frame s) ra)
      (s.get ra)) (slot (frame s) sp) (s.get sp)) (frame s)
      ((slimState p s).set ra (s.get sp)).get slimSaves =
      saveAll s.mem (frame s) s.get slimSlots := (saveAll_congr hregs).trans hslots
  rw [callState, ← hgets]
  rfl

/-- The state in which the interrupted code goes on, when `trap_dispatch` has returned with `d`. -/
def returnState (s d : State) : State :=
  (restoreAll d (frame s) slimRestores).set sp (s.get sp)

theorem exec_slimRestores (hsp : d.get sp = frame s) :
    exec (trapEnv dispatch link)
        (slimRestores.map restore ++ [.addi sp sp 256, .xret] : List (Instr TrapLabel TrapFn)) d =
      some (.leave .xret, returnState s d) := by
  have hkeep : (restoreAll d (frame s) slimRestores).get sp = frame s := by
    rw [get_restoreAll_of_not_mem (by decide), hsp]
  have hadd : frame s + 256 = s.get sp := sub_add_cancel ..
  have hsp' : d.get 2 = frame s := hsp
  rw [exec_restore rfl (by decide), hsp', exec, exec, hkeep, hadd]
  rfl

/-- **A trap returns** when `trap_dispatch` does. -/
theorem trap_returns (hs : Interrupt p s) (hd : dispatch (callState p link s) = some d)
    (hsp : d.get sp = frame s) :
    Returns (trapEnv dispatch link) (trapCode p) .trapEntry s .xret (returnState s d) := by
  have hslim : exec (trapEnv dispatch link) (trapCode p .slim) (slimState p s) =
      some (.leave .xret, returnState s d) := by
    rw [exec_slim, hd, Option.bind_some, exec_slimRestores hsp]
  have hentry : exec (trapEnv dispatch link) (trapCode p .trapEntry) s =
      some (.goto .slim, slimState p s) := exec_trapEntry hs
  exact .goto hentry (.leave hslim)

/-! ## The call -/

theorem callState_args (link : Word) :
    (callState p link s).get a0 = s.csr (CSR_CAUSE p) ∧
      (callState p link s).get a1 = s.csr (CSR_EPC p) ∧ (callState p link s).get a2 = frame s ∧
      (callState p link s).get sp = frame s := ⟨rfl, rfl, rfl, rfl⟩

theorem slimSlots_lt : ∀ r ∈ slimSlots, r < 32 := by decide

theorem load64_callState {r : ℕ} (hr : r ∈ slimSlots) :
    load64 (callState p link s).mem (slot (frame s) r) = s.get r :=
  load64_saveAll slimSlots_lt hr

theorem callState_outside {x : Word} (hx : 256 ≤ (x - frame s).toNat) :
    (callState p link s).mem x = s.mem x := saveAll_outside slimSlots_lt hx

/-- The registers of the callee have not been used before the call. -/
theorem get_callState {r : ℕ} (hr : r ∈ calleeSaved) (hne : r ≠ sp) :
    (callState p link s).get r = s.get r := by
  have hother : r ≠ ra ∧ r ≠ t0 ∧ r ≠ a0 ∧ r ≠ a1 ∧ r ≠ a2 := by
    revert r
    decide
  obtain ⟨h₁, h₂, h₃, h₄, h₅⟩ := hother
  rw [callState, State.get_set_of_ne _ _ h₁, State.get_set_of_ne _ _ h₅,
    State.get_set_of_ne _ _ h₄, State.get_set_of_ne _ _ h₃, State.get_withMem,
    State.get_set_of_ne _ _ h₁, State.get_set_of_ne _ _ h₂, State.get_set_of_ne _ _ hne]

/-! ## The integer registers -/

/-- Each register is restored, or kept by the function. -/
theorem restored_or_kept :
    ∀ r < 32, r = 0 ∨ r = sp ∨ (r ∈ slimRestores ∧ r ∈ slimSlots) ∨
      (r ∉ slimRestores ∧ r ∈ calleeSaved ∧ r ≠ sp) := by
  decide

/-- A slot that the function has left alone. -/
theorem load64_of_abi {r : ℕ} (habi : Abi 256 (callState p link s) d) (hr : r < 32) :
    load64 d.mem (slot (frame s) r) = load64 (callState p link s).mem (slot (frame s) r) := by
  refine load64_congr fun i hi => ?_
  have hoff : slot (frame s) r + BitVec.ofNat 64 i = frame s + BitVec.ofNat 64 (8 * r + i) := by
    rw [slot, add_assoc, BitVec.ofNat_add]
  rw [hoff]
  exact habi.own (8 * r + i) (by omega)

theorem get_returnState (habi : Abi 256 (callState p link s) d) {r : ℕ} (hr : r < 32) :
    (returnState s d).get r = s.get r := by
  rw [returnState]
  rcases restored_or_kept r hr with rfl | rfl | ⟨hres, hslot⟩ | ⟨hres, hsaved, hne⟩
  · rfl
  · exact State.get_set_self _ _ (by decide)
  · rw [State.get_set_of_ne _ _ (fun he => absurd (he ▸ hres) (by decide)),
      get_restoreAll (by decide) hres, load64_of_abi habi hr, load64_callState hslot]
  · rw [State.get_set_of_ne _ _ hne, get_restoreAll_of_not_mem hres, habi.saved r hsaved,
      get_callState hsaved hne]

/-- **Interrupts are transparent to the integer registers.** There is one state in which
`trap_dispatch` is called: its arguments are the cause, the program counter and a frame that holds
the registers, and memory has been changed in the frame only. When it returns and keeps to the
calling convention, all integer registers are what they were, and memory is as it left it. -/
theorem interrupt_transparent (hs : Interrupt p s) (link : Word) :
    ∃ c : State, c.get a0 = s.csr (CSR_CAUSE p) ∧ c.get a1 = s.csr (CSR_EPC p) ∧
      c.get a2 = s.get sp - 256 ∧
      (∀ r ∈ slimSlots, load64 c.mem (slot (c.get a2) r) = s.get r) ∧
      (∀ x, 256 ≤ (x - (s.get sp - 256)).toNat → c.mem x = s.mem x) ∧
      ∀ dispatch d, dispatch c = some d → Abi 256 c d →
        ∃ t, Returns (trapEnv dispatch link) (trapCode p) .trapEntry s .xret t ∧
          (∀ r, 1 ≤ r → r < 32 → t.get r = s.get r) ∧ t.mem = d.mem := by
  obtain ⟨h₀, h₁, h₂, hsp⟩ := callState_args (p := p) (s := s) link
  refine ⟨callState p link s, h₀, h₁, h₂, fun r hr => ?_, fun x hx => callState_outside hx,
    fun dispatch d hd habi => ?_⟩
  · rw [h₂]
    exact load64_callState hr
  · have hkeep : d.get sp = frame s := (habi.saved sp (by decide)).trans hsp
    exact ⟨_, trap_returns hs hd hkeep, fun r _ hr => get_returnState habi hr, mem_restoreAll⟩

/-- A machine-mode external interrupt, with the floating-point unit on. -/
def externalInterrupt : State :=
  ⟨fun _ => 0, fun _ => 0, 0,
    fun c => if c = 0x342 then 0x800000000000000B else if c = 0x300 then 0x2000 else 0, fun _ => 0⟩

theorem interrupt_externalInterrupt : Interrupt .m externalInterrupt := by decide

theorem interrupt_transparent_external :
    ∃ c : State, c.get a0 = 0x800000000000000B ∧ ∃ t,
      Returns (trapEnv some 0) (trapCode .m) .trapEntry externalInterrupt .xret t ∧
        t.mem = c.mem := by
  obtain ⟨c, h₀, -, -, -, -, hcall⟩ := interrupt_transparent interrupt_externalInterrupt 0
  obtain ⟨t, hret, -, hmem⟩ := hcall some c rfl ⟨fun _ _ => rfl, fun _ _ => rfl⟩
  exact ⟨c, h₀, t, hret, hmem⟩

/-! ## The floating-point registers -/

/-- `mstatus` or `sstatus`. -/
def CSR_STATUS : Priv → ℕ
  | .m => 0x300
  | .s => 0x100

/-- The field FS is not Off. -/
def FloatOn (p : Priv) (s : State) : Prop := s.csr (CSR_STATUS p) &&& 0x6000 ≠ 0

instance (p : Priv) (s : State) : Decidable (FloatOn p s) := inferInstanceAs (Decidable (_ ≠ _))

/-- All floating-point registers and `fcsr` are the same. -/
def SameFloats (s t : State) : Prop := (∀ r < 32, t.f r = s.f r) ∧ t.fcsr = s.fcsr

/-- A function leaves `ft0` to `ft11`, `fa0` to `fa7` and `fcsr` as it finds them. -/
def LeavesFloats (c d : State) : Prop :=
  (∀ r < 32, r ∉ calleeSavedF → d.f r = c.f r) ∧ d.fcsr = c.fcsr

/-- **Interrupts are transparent to the floating-point registers** exactly when `trap_dispatch`,
with the handlers that it calls, leaves alone those that it may change. -/
theorem interrupt_transparentF (hs : Interrupt p s) (link : Word) :
    ∃ c, ∀ dispatch d, dispatch c = some d → AbiF 256 c d →
      ∃ t, Returns (trapEnv dispatch link) (trapCode p) .trapEntry s .xret t ∧
        (SameFloats s t ↔ LeavesFloats c d) := by
  refine ⟨callState p link s, fun dispatch d hd habi => ?_⟩
  have hkeep : d.get sp = frame s := (habi.saved sp (by decide)).trans (callState_args _).2.2.2
  have hf : (returnState s d).f = d.f := f_restoreAll
  have hfcsr : (returnState s d).fcsr = d.fcsr := fcsr_restoreAll
  have hcf : (callState p link s).f = s.f := rfl
  have hcfcsr : (callState p link s).fcsr = s.fcsr := rfl
  refine ⟨_, trap_returns hs hd hkeep, ?_⟩
  rw [SameFloats, LeavesFloats, hf, hfcsr, hcf, hcfcsr]
  refine and_congr_left fun _ => ⟨fun h r hr _ => h r hr, fun h r hr => ?_⟩
  by_cases hsaved : r ∈ calleeSavedF
  · rw [habi.savedF r hsaved, hcf]
  · exact h r hr hsaved

/-- A handler that computes with `ft0`. -/
def floatHandler (s : State) : Option State := some { s with f := Function.update s.f 0 1 }

theorem floatHandler_ft0 {c : State} (h : floatHandler c = some d) : d.f 0 = 1 := by
  cases h
  exact Function.update_self 0 1 c.f

theorem abiF_floatHandler {c : State} (h : floatHandler c = some d) : AbiF 256 c d := by
  cases h
  refine ⟨⟨fun _ _ => rfl, fun _ _ => rfl⟩, fun r hr => Function.update_of_ne ?_ ..⟩
  rintro rfl
  revert hr
  decide

theorem interrupt_transparentF_external :
    ∃ t, Returns (trapEnv some 0) (trapCode .m) .trapEntry externalInterrupt .xret t ∧
      SameFloats externalInterrupt t := by
  obtain ⟨c, hcall⟩ := interrupt_transparentF interrupt_externalInterrupt 0
  obtain ⟨t, hret, hiff⟩ := hcall some c rfl ⟨⟨fun _ _ => rfl, fun _ _ => rfl⟩, fun _ _ => rfl⟩
  exact ⟨t, hret, hiff.2 ⟨fun _ _ _ => rfl, rfl⟩⟩

/-- **Floating-point state that is lost**: after the handler has computed with `ft0` the interrupted
code finds another number there. -/
theorem floats_lost :
    ¬ ∀ (p : Priv) (link : Word) (s : State) (dispatch : State → Option State), Interrupt p s →
      FloatOn p s → (∀ c d, dispatch c = some d → AbiF 256 c d) →
      ∀ t, Returns (trapEnv dispatch link) (trapCode p) .trapEntry s .xret t → SameFloats s t := by
  intro hall
  obtain ⟨d, hd⟩ : ∃ d, floatHandler (callState .m 0 externalInterrupt) = some d := ⟨_, rfl⟩
  have hkeep : d.get sp = frame externalInterrupt :=
    ((abiF_floatHandler hd).saved sp (by decide)).trans (callState_args _).2.2.2
  have hsame := hall .m 0 externalInterrupt floatHandler interrupt_externalInterrupt (by decide)
    (fun _ _ => abiF_floatHandler) _ (trap_returns interrupt_externalInterrupt hd hkeep)
  have hf : (returnState externalInterrupt d).f = d.f := f_restoreAll
  have hft0 : d.f 0 = 0 := (congrFun hf 0).symm.trans (hsame.1 0 (by decide))
  rw [floatHandler_ft0 hd] at hft0
  revert hft0
  decide

end RvvmHal.Trap
