import Mathlib.Data.Set.Lattice
import Mathlib.Order.CompletePartialOrder
import RvvmHal.Smp.Bringup

/-!
# The stacks of the harts

The linker scripts reserve eight stacks of 16 KiB. `_start` of `start.S` parks the harts for which
there is none, so in M-mode every hart that goes on has a stack of its own in the area. `_start` of
`start_s.S` computes the same stack pointer without the guard: the stack of the boot hart is in the
area only if its id fits, but for the bits that the multiplication loses (`boot_stacks`).
-/

namespace RvvmHal.Boot

open Smp

/-! ## The boot code -/

/-- `SMP_STACK_PER_HART`. -/
def SMP_STACK_PER_HART : BitVec 64 := 16384

/-- The stack pointer that `mul` and `sub` compute. -/
def stackPointer (stackTop hartid : BitVec 64) : BitVec 64 := stackTop - hartid * SMP_STACK_PER_HART

/-- `_start` of `start.S` up to the stack pointer, or `park_oob`. -/
def startStack (noSmp : Bool) (stackTop mhartid : BitVec 64) : Option (BitVec 64) :=
  if noSmp then if mhartid ≠ 0 then none else some stackTop
  else if mhartid ≥ 8 then none
  else some (stackPointer stackTop mhartid)

/-- `_start` and `_smp_secondary_entry` of `start_s.S` up to the stack pointer. -/
def startSStack (stackTop hartid : BitVec 64) : BitVec 64 := stackPointer stackTop hartid

/-- The harts that run C code in M-mode, each with its stack pointer. -/
def RunsM (noSmp : Bool) (stackTop h sp : BitVec 64) : Prop := startStack noSmp stackTop h = some sp

/-- The harts that run C code in S-mode, each with its stack pointer: the one with the id `boot`, on
which the firmware begins, and those that `smp_init` brings up. -/
def RunsS (noSmp : Bool) (stackTop boot : BitVec 64) (cpus : ℕ) (h sp : BitVec 64) : Prop :=
  (h = boot ∨ noSmp = false ∧ ∃ i ∈ smpInit boot.toNat cpus, h = BitVec.ofNat 64 i) ∧
    sp = startSStack stackTop h

/-! ## Where the stacks are -/

/-- The area that the linker scripts reserve. -/
structure StackArea (stackBottom stackTop : BitVec 64) : Prop where
  aligned : stackBottom.toNat % 16 = 0
  top_eq : stackTop.toNat = stackBottom.toNat + 8 * 16384

/-- The 16 KiB below a stack pointer. -/
def stack (sp : BitVec 64) : Set (BitVec 64) := {a | (sp - 1 - a).toNat < 16384}

/-- Every hart that runs has its stack in the area, and no two harts share a part of it. -/
structure StacksOk (stackBottom stackTop : BitVec 64) (runs : BitVec 64 → BitVec 64 → Prop) :
    Prop where
  inside : ∀ h sp, runs h sp → stack sp ⊆ {a | stackBottom ≤ a ∧ a < stackTop}
  disjoint : ∀ h h' sp sp', runs h sp → runs h' sp' → h ≠ h' → Disjoint (stack sp) (stack sp')

section

variable {stackBottom stackTop : BitVec 64}

theorem mem_stack {sp a : BitVec 64} :
    a ∈ stack sp ↔ (sp.toNat + (2 ^ 64 - 1) - a.toNat) % 2 ^ 64 < 16384 := by
  have hsp := sp.isLt
  have ha := a.isLt
  have hsub : (sp - 1 - a).toNat = (sp.toNat + (2 ^ 64 - 1) - a.toNat) % 2 ^ 64 := by bv_omega
  rw [stack, Set.mem_ofPred_eq, hsub]

/-- **A stack lies in the area** if its ends do. -/
theorem stack_subset_iff (harea : StackArea stackBottom stackTop) (sp : BitVec 64) :
    stack sp ⊆ {a | stackBottom ≤ a ∧ a < stackTop} ↔
      stackBottom.toNat + 16384 ≤ sp.toNat ∧ sp.toNat ≤ stackTop.toNat := by
  have htop := harea.top_eq
  have hlt := stackTop.isLt
  have hsp := sp.isLt
  constructor
  · intro h
    have hfirst := h (mem_stack.2 (by bv_omega) : sp - 1 ∈ stack sp)
    have hlast := h (mem_stack.2 (by bv_omega) : sp - 16384 ∈ stack sp)
    simp only [Set.mem_ofPred_eq, BitVec.le_def, BitVec.lt_def] at hfirst hlast
    bv_omega
  · rintro ⟨hle, hge⟩ a ha
    rw [mem_stack] at ha
    have hlt' := a.isLt
    simp only [Set.mem_ofPred_eq, BitVec.le_def, BitVec.lt_def]
    omega

/-- The multiplication loses the upper bits of an id. -/
theorem toNat_mul_size (h : BitVec 64) :
    (h * SMP_STACK_PER_HART).toNat = h.toNat % 2 ^ 50 * 16384 := by
  have hsize : SMP_STACK_PER_HART.toNat = 16384 := rfl
  rw [BitVec.toNat_mul, hsize]
  omega

/-- **The stack of a hart is in the area** if the rest of its id is one of the eight. -/
theorem stackPointer_inside_iff (harea : StackArea stackBottom stackTop) (h : BitVec 64) :
    stack (stackPointer stackTop h) ⊆ {a | stackBottom ≤ a ∧ a < stackTop} ↔
      h.toNat % 2 ^ 50 < 8 := by
  have htop := harea.top_eq
  have hlt := stackTop.isLt
  have hmul := toNat_mul_size h
  rw [stack_subset_iff harea, stackPointer, BitVec.toNat_sub, hmul]
  omega

/-- **Stacks of different slots are disjoint.** -/
theorem stackPointer_disjoint (harea : StackArea stackBottom stackTop) {h h' : BitVec 64}
    (hne : h.toNat % 2 ^ 50 ≠ h'.toNat % 2 ^ 50) :
    Disjoint (stack (stackPointer stackTop h)) (stack (stackPointer stackTop h')) := by
  have htop := harea.top_eq
  have hlt := stackTop.isLt
  have hmul := toNat_mul_size h
  have hmul' := toNat_mul_size h'
  rw [Set.disjoint_left]
  intro a ha ha'
  have hlt' := a.isLt
  rw [mem_stack, stackPointer, BitVec.toNat_sub] at ha ha'
  omega

/-- The harts of M-mode have an id below eight, and of one slot there is one hart. -/
theorem eq_stackPointer_of_runsM {noSmp : Bool} {h sp : BitVec 64} (hruns : RunsM noSmp stackTop h sp) :
    h.toNat < 8 ∧ sp = stackPointer stackTop h := by
  rw [RunsM, startStack] at hruns
  split_ifs at hruns with hno hzero hmax
  · rw [not_not] at hzero
    subst hzero
    have hmul : (0 : BitVec 64) * SMP_STACK_PER_HART = 0#64 := by decide
    refine ⟨by decide, (Option.some.inj hruns).symm.trans ?_⟩
    rw [stackPointer, hmul, BitVec.sub_zero]
  · rw [ge_iff_le, BitVec.not_le] at hmax
    exact ⟨BitVec.lt_def.1 hmax, (Option.some.inj hruns).symm⟩

/-- **M-mode**: every stack is in its place. -/
theorem stacksOk_runsM (harea : StackArea stackBottom stackTop) (noSmp : Bool) :
    StacksOk stackBottom stackTop (RunsM noSmp stackTop) where
  inside h sp hruns := by
    obtain ⟨hlt, rfl⟩ := eq_stackPointer_of_runsM hruns
    exact (stackPointer_inside_iff harea h).2 (by omega)
  disjoint h h' sp sp' hruns hruns' hne := by
    obtain ⟨hlt, rfl⟩ := eq_stackPointer_of_runsM hruns
    obtain ⟨hlt', rfl⟩ := eq_stackPointer_of_runsM hruns'
    refine stackPointer_disjoint harea fun heq => hne ?_
    exact BitVec.eq_of_toNat_eq (by omega)

/-- A hart that runs in S-mode is the boot hart, or has one of the eight ids and not the boot hart's
slot. -/
theorem runsS_cases {noSmp : Bool} {boot h sp : BitVec 64} {cpus : ℕ}
    (hboot : boot.toNat % 2 ^ 50 < 8) (hruns : RunsS noSmp stackTop boot cpus h sp) :
    sp = stackPointer stackTop h ∧
      (h = boot ∨ h.toNat < 8 ∧ h.toNat ≠ boot.toNat % 2 ^ 50) := by
  obtain ⟨rfl | ⟨-, i, hi, rfl⟩, rfl⟩ := hruns
  · exact ⟨rfl, .inl rfl⟩
  · refine ⟨rfl, .inr ?_⟩
    obtain ⟨hlt, hne⟩ := broughtUp_iff.1 hi
    have hcount : hartCount cpus ≤ 8 := hartCount_le cpus
    rw [platThisHart] at hne
    rw [BitVec.toNat_ofNat]
    omega

/-- **The stacks of the harts** are in the area, and apart, in M-mode whatever ids the harts have, and in
S-mode if and only if the id of the boot hart is below eight but for its 14 upper bits. -/
theorem boot_stacks (harea : StackArea stackBottom stackTop) :
    (∀ noSmp, StacksOk stackBottom stackTop (RunsM noSmp stackTop)) ∧
    ∀ noSmp boot cpus, StacksOk stackBottom stackTop (RunsS noSmp stackTop boot cpus) ↔
      boot.toNat % 2 ^ 50 < 8 := by
  refine ⟨stacksOk_runsM harea, fun noSmp boot cpus => ⟨fun hok => ?_, fun hboot => ⟨?_, ?_⟩⟩⟩
  · exact (stackPointer_inside_iff harea boot).1 (hok.inside boot _ ⟨.inl rfl, rfl⟩)
  · intro h sp hruns
    obtain ⟨rfl, hh⟩ := runsS_cases hboot hruns
    refine (stackPointer_inside_iff harea h).2 ?_
    rcases hh with rfl | ⟨hlt, -⟩
    · exact hboot
    · omega
  · intro h h' sp sp' hruns hruns' hne
    obtain ⟨rfl, hh⟩ := runsS_cases hboot hruns
    obtain ⟨rfl, hh'⟩ := runsS_cases hboot hruns'
    have hneq : h.toNat ≠ h'.toNat := fun heq => hne (BitVec.eq_of_toNat_eq heq)
    rcases hh with rfl | ⟨hlt, hslot⟩ <;> rcases hh' with rfl | ⟨hlt', hslot'⟩
    · exact absurd rfl hne
    · exact stackPointer_disjoint harea (by omega)
    · exact stackPointer_disjoint harea (by omega)
    · exact stackPointer_disjoint harea (by omega)

end

/-- A firmware whose heap ends at `0x80400000`. -/
theorem boot_stacks_firmware :
    StackArea 0x80400000 0x80420000 ∧ StacksOk 0x80400000 0x80420000 (RunsM false 0x80420000) ∧
      StacksOk 0x80400000 0x80420000 (RunsS false 0x80420000 3 8) := by
  have harea : StackArea 0x80400000 0x80420000 := ⟨by decide, by decide⟩
  exact ⟨harea, (boot_stacks harea).1 false, ((boot_stacks harea).2 false 3 8).2 (by decide)⟩

/-- The firmware begins on hart 8: its stack is the 16 KiB below the area. -/
theorem boot_stack_below :
    RunsS false 0x80420000 8 8 8 0x80400000 ∧
      ¬ StacksOk 0x80400000 0x80420000 (RunsS false 0x80420000 8 8) := by
  have hruns : RunsS false 0x80420000 8 8 8 0x80400000 := ⟨.inl rfl, by decide⟩
  refine ⟨hruns, fun hok => ?_⟩
  have hmem : (0x803FFFFF : BitVec 64) ∈ stack 0x80400000 := by
    rw [mem_stack]
    decide
  exact absurd (hok.inside 8 _ hruns hmem).1 (by decide)

end RvvmHal.Boot
