import RvvmHal.Foundations.Loop
import RvvmHal.Foundations.Memory64

/-!
# A fragment of RV64

The instructions of hand-written assembly, over the integer registers and a memory with 64-bit
addresses; the floating-point registers and the control registers are part of the state, too. A
program maps each label to the instructions from there to the next one. `exec` runs the instructions
after a label up to a taken branch, a jump or a return, and `run` follows the labels. A call runs a
function that is given by its effect on the state.

Where doublewords must be aligned (`Env.aligned`) an access that is not has no result, so a run that
returns has made none.
-/

namespace RvvmHal.Riscv

open Loop Memory64

/-! ## States -/

/-- The state of a hart. -/
structure State where
  x : ℕ → Word
  f : ℕ → Word
  fcsr : Word
  csr : ℕ → Word
  mem : Mem

namespace State

/-- The value of an integer register. -/
def get (s : State) (r : ℕ) : Word := if r = 0 then 0 else s.x r

/-- The state with an integer register changed. -/
def set (s : State) (r : ℕ) (v : Word) : State := { s with x := Function.update s.x r v }

/-- The state with the memory changed. -/
def withMem (s : State) (m : Mem) : State := { s with mem := m }

variable (s : State) {r r' : ℕ} (v : Word) (m : Mem)

theorem get_set : (s.set r v).get r' = if r' = r ∧ r ≠ 0 then v else s.get r' := by
  unfold get set
  by_cases h₀ : r' = 0
  · rw [if_pos h₀, if_pos h₀, if_neg (by omega)]
  · by_cases hr : r' = r
    · subst hr
      rw [if_neg h₀, if_pos ⟨rfl, h₀⟩]
      exact Function.update_self ..
    · rw [if_neg h₀, if_neg h₀, if_neg (by omega)]
      exact Function.update_of_ne hr ..

theorem get_set_self (h : r ≠ 0) : (s.set r v).get r = v := by rw [get_set, if_pos ⟨rfl, h⟩]

theorem get_set_of_ne (h : r' ≠ r) : (s.set r v).get r' = s.get r' := by
  rw [get_set, if_neg fun hr => h hr.1]

@[simp] theorem get_zero : s.get 0 = 0 := rfl

@[simp] theorem mem_set : (s.set r v).mem = s.mem := rfl

@[simp] theorem get_withMem : (s.withMem m).get r = s.get r := rfl

@[simp] theorem mem_withMem : (s.withMem m).mem = m := rfl

end State

/-! ## Instructions -/

/-- Instructions, with labels `L` and called functions `F`. The immediates are written as words. -/
inductive Instr (L F : Type)
  | addi (rd rs : ℕ) (imm : Word)
  | add (rd rs₁ rs₂ : ℕ)
  | xor (rd rs₁ rs₂ : ℕ)
  | or (rd rs₁ rs₂ : ℕ)
  | andi (rd rs : ℕ) (imm : Word)
  | slli (rd rs shamt : ℕ)
  | lb (rd : ℕ) (off : Word) (rs : ℕ)
  | ld (rd : ℕ) (off : Word) (rs : ℕ)
  | sb (rs₂ : ℕ) (off : Word) (rs₁ : ℕ)
  | sd (rs₂ : ℕ) (off : Word) (rs₁ : ℕ)
  | csrr (rd csr : ℕ)
  | beq (rs₁ rs₂ : ℕ) (l : L)
  | bne (rs₁ rs₂ : ℕ) (l : L)
  | blt (rs₁ rs₂ : ℕ) (l : L)
  | bltu (rs₁ rs₂ : ℕ) (l : L)
  | bgeu (rs₁ rs₂ : ℕ) (l : L)
  | j (l : L)
  | call (f : F)
  | ret
  | xret

namespace Instr

variable {L F : Type}

/-! The usual pseudo-instructions. -/

abbrev mv (rd rs : ℕ) : Instr L F := .addi rd rs 0

abbrev li (rd : ℕ) (imm : Word) : Instr L F := .addi rd 0 imm

abbrev beqz (rs : ℕ) (l : L) : Instr L F := .beq rs 0 l

abbrev bnez (rs : ℕ) (l : L) : Instr L F := .bne rs 0 l

abbrev bltz (rs : ℕ) (l : L) : Instr L F := .blt rs 0 l

/-- The end of the instructions after a label, before those of the label `l`. -/
abbrev fall (l : L) : Instr L F := .j l

end Instr

/-- How a program is left. -/
inductive Leave
  | ret
  | xret
  deriving DecidableEq

/-- Where the instructions after a label end. -/
inductive Exit (L : Type)
  | goto (l : L)
  | leave (k : Leave)

/-- What a program relies on: whether doublewords must be aligned, the effect of each function, when
it returns, and the address at which a call of it returns. -/
structure Env (F : Type) where
  aligned : Bool
  fn : F → State → Option State
  link : F → Word

/-- A doubleword at this address cannot be accessed. -/
def Env.Faults {F : Type} (env : Env F) (a : Word) : Prop := env.aligned = true ∧ a.toNat % 8 ≠ 0

instance {F : Type} (env : Env F) (a : Word) : Decidable (env.Faults a) :=
  inferInstanceAs (Decidable (_ ∧ _))

variable {L F : Type}

/-- The instructions after a label. -/
def exec (env : Env F) : List (Instr L F) → State → Option (Exit L × State)
  | [], _ => none
  | .addi rd rs imm :: is, s => exec env is (s.set rd (s.get rs + imm))
  | .add rd rs₁ rs₂ :: is, s => exec env is (s.set rd (s.get rs₁ + s.get rs₂))
  | .xor rd rs₁ rs₂ :: is, s => exec env is (s.set rd (s.get rs₁ ^^^ s.get rs₂))
  | .or rd rs₁ rs₂ :: is, s => exec env is (s.set rd (s.get rs₁ ||| s.get rs₂))
  | .andi rd rs imm :: is, s => exec env is (s.set rd (s.get rs &&& imm))
  | .slli rd rs shamt :: is, s => exec env is (s.set rd (s.get rs <<< shamt))
  | .lb rd off rs :: is, s =>
    exec env is (s.set rd ((s.mem (s.get rs + off)).toBitVec.signExtend 64))
  | .ld rd off rs :: is, s =>
    if env.Faults (s.get rs + off) then none
    else exec env is (s.set rd (load64 s.mem (s.get rs + off)))
  | .sb rs₂ off rs₁ :: is, s =>
    exec env is (s.withMem (store s.mem (s.get rs₁ + off)
      [UInt8.ofBitVec ((s.get rs₂).setWidth 8)]))
  | .sd rs₂ off rs₁ :: is, s =>
    if env.Faults (s.get rs₁ + off) then none
    else exec env is (s.withMem (store64 s.mem (s.get rs₁ + off) (s.get rs₂)))
  | .csrr rd csr :: is, s => exec env is (s.set rd (s.csr csr))
  | .beq rs₁ rs₂ l :: is, s =>
    if s.get rs₁ = s.get rs₂ then some (.goto l, s) else exec env is s
  | .bne rs₁ rs₂ l :: is, s =>
    if s.get rs₁ ≠ s.get rs₂ then some (.goto l, s) else exec env is s
  | .blt rs₁ rs₂ l :: is, s =>
    if (s.get rs₁).toInt < (s.get rs₂).toInt then some (.goto l, s) else exec env is s
  | .bltu rs₁ rs₂ l :: is, s =>
    if (s.get rs₁).toNat < (s.get rs₂).toNat then some (.goto l, s) else exec env is s
  | .bgeu rs₁ rs₂ l :: is, s =>
    if (s.get rs₁).toNat ≥ (s.get rs₂).toNat then some (.goto l, s) else exec env is s
  | .j l :: _, s => some (.goto l, s)
  | .call f :: is, s => (env.fn f (s.set 1 (env.link f))).bind (exec env is)
  | .ret :: _, s => some (.leave .ret, s)
  | .xret :: _, s => some (.leave .xret, s)

section

variable {env : Env F} {is : List (Instr L F)} {u : State} {r rs : ℕ} {off a v : Word}

/-- A doubleword is loaded from an address where it may be. -/
theorem exec_ld (ha : u.get rs = a) (hf : ¬ env.Faults (a + off)) :
    exec env (.ld r off rs :: is) u = exec env is (u.set r (load64 u.mem (a + off))) := by
  subst ha
  rw [exec, if_neg hf]

/-- A doubleword is stored where it may be. -/
theorem exec_sd (ha : u.get rs = a) (hv : u.get r = v) (hf : ¬ env.Faults (a + off)) :
    exec env (.sd r off rs :: is) u = exec env is (u.withMem (store64 u.mem (a + off) v)) := by
  subst ha hv
  rw [exec, if_neg hf]

end

/-! ## Programs -/

/-- The instructions after a label, as a round of a loop. -/
def round (env : Env F) (code : L → List (Instr L F)) (p : L × State) :
    Iter (L × State) (Leave × State) :=
  match exec env (code p.1) p.2 with
  | some (.goto l, s) => .next (l, s)
  | some (.leave k, s) => .stop (k, s)
  | none => .hang

/-- A program from the label `l`, for at most `n` labels. -/
def run (env : Env F) (code : L → List (Instr L F)) (n : ℕ) (l : L) (s : State) :
    Option (Leave × State) :=
  iterate (round env code) n (l, s)

/-- A program that is started at the label `l` is left with the state `t`. -/
def Returns (env : Env F) (code : L → List (Instr L F)) (l : L) (s : State) (k : Leave)
    (t : State) : Prop :=
  ∃ n, run env code n l s = some (k, t)

section

variable {env : Env F} {code : L → List (Instr L F)} {l l' : L} {s s' t t' : State} {k k' : Leave}

theorem Returns.leave (h : exec env (code l) s = some (.leave k, t)) :
    Returns env code l s k t := by
  refine ⟨1, iterate_stop ?_⟩
  rw [round, h]

theorem Returns.goto (h : exec env (code l) s = some (.goto l', s'))
    (hret : Returns env code l' s' k t) : Returns env code l s k t := by
  obtain ⟨n, hn⟩ := hret
  refine ⟨n + 1, (iterate_next ?_).trans hn⟩
  rw [round, h]

/-- A program is left with one state only. -/
theorem Returns.unique (h : Returns env code l s k t) (h' : Returns env code l s k' t') :
    k = k' ∧ t = t' := by
  obtain ⟨n, hn⟩ := h
  obtain ⟨m, hm⟩ := h'
  have hn' := iterate_mono hn (Nat.le_max_left n m)
  have hm' := iterate_mono hm (Nat.le_max_right n m)
  rw [hn', Option.some.injEq, Prod.mk.injEq] at hm'
  exact hm'

end

/-! ## The calling convention -/

/-- `sp`, `gp`, `tp` and `s0` to `s11`. -/
def calleeSaved : List ℕ := [2, 3, 4, 8, 9, 18, 19, 20, 21, 22, 23, 24, 25, 26, 27]

/-- `fs0` to `fs11`. -/
def calleeSavedF : List ℕ := [8, 9, 18, 19, 20, 21, 22, 23, 24, 25, 26, 27]

/-- What a function leaves unchanged: the registers saved by the callee, and the `own` bytes of its
caller from `sp` on. -/
structure Abi (own : ℕ) (s t : State) : Prop where
  saved : ∀ r ∈ calleeSaved, t.get r = s.get r
  own : ∀ i < own, t.mem (s.get 2 + BitVec.ofNat 64 i) = s.mem (s.get 2 + BitVec.ofNat 64 i)

/-- The same with the floating-point registers. -/
structure AbiF (own : ℕ) (s t : State) : Prop extends Abi own s t where
  savedF : ∀ r ∈ calleeSavedF, t.f r = s.f r

/-! ## Frames of registers -/

/-- The doubleword of a register in a frame. -/
def slot (base : Word) (r : ℕ) : Word := base + BitVec.ofNat 64 (8 * r)

/-- `sd xN, N*8(sp)`. -/
def save (r : ℕ) : Instr L F := .sd r (BitVec.ofNat 64 (8 * r)) 2

/-- `ld xN, N*8(sp)`. -/
def restore (r : ℕ) : Instr L F := .ld r (BitVec.ofNat 64 (8 * r)) 2

/-- The memory with registers saved in a frame, in order. -/
def saveAll (m : Mem) (base : Word) (val : ℕ → Word) (regs : List ℕ) : Mem :=
  regs.foldl (fun m r => store64 m (slot base r) (val r)) m

section

variable {m : Mem} {base x : Word} {val : ℕ → Word} {regs regs' : List ℕ} {r r' : ℕ} {s t : State}
  {env : Env F} {is : List (Instr L F)}

theorem saveAll_append :
    saveAll m base val (regs ++ regs') = saveAll (saveAll m base val regs) base val regs' :=
  List.foldl_append

/-- The slots of two registers do not meet. -/
theorem apart_slot (hr : r < 32) (hr' : r' < 32) (hne : r ≠ r') :
    Apart (slot base r) (slot base r') := by
  have hoff : ∀ i j,
      slot base i - slot base j = BitVec.ofNat 64 (8 * i) - BitVec.ofNat 64 (8 * j) :=
    fun i j => add_sub_add_left_eq_sub ..
  refine ⟨?_, ?_⟩
  · rw [hoff, BitVec.toNat_sub, toNat_ofNat (by omega), toNat_ofNat (by omega)]
    omega
  · rw [hoff, BitVec.toNat_sub, toNat_ofNat (by omega), toNat_ofNat (by omega)]
    omega

/-- The slots are in the frame. -/
theorem slot_outside (hr : r < 32) (hx : 256 ≤ (x - base).toNat) : 8 ≤ (x - slot base r).toNat := by
  have hoff : x - slot base r = x - base - BitVec.ofNat 64 (8 * r) := (sub_sub ..).symm
  have hlt := (x - base).isLt
  rw [hoff, BitVec.toNat_sub (x - base), toNat_ofNat (by omega)]
  omega

/-- **Frame rule**: only the frame is written. -/
theorem saveAll_outside (hregs : ∀ r ∈ regs, r < 32) (hx : 256 ≤ (x - base).toNat) :
    saveAll m base val regs x = m x := by
  induction regs generalizing m with
  | nil => rfl
  | cons r regs ih =>
    rw [saveAll, List.foldl_cons]
    exact (ih fun r' hr' => hregs r' (List.mem_cons_of_mem r hr')).trans
      (store64_of_not_mem (slot_outside (hregs r List.mem_cons_self) hx))

theorem load64_saveAll_of_not_mem (hregs : ∀ r ∈ regs, r < 32) (hr : r < 32) (hnot : r ∉ regs) :
    load64 (saveAll m base val regs) (slot base r) = load64 m (slot base r) := by
  induction regs generalizing m with
  | nil => rfl
  | cons r' regs ih =>
    rw [List.mem_cons, not_or] at hnot
    rw [saveAll, List.foldl_cons]
    refine (ih (fun i hi => hregs i (List.mem_cons_of_mem r' hi)) hnot.2).trans ?_
    exact load64_store64_of_apart (apart_slot (hregs r' List.mem_cons_self) hr (Ne.symm hnot.1))

/-- **What has been saved is there.** -/
theorem load64_saveAll (hregs : ∀ r ∈ regs, r < 32) (hr : r ∈ regs) :
    load64 (saveAll m base val regs) (slot base r) = val r := by
  induction regs generalizing m with
  | nil => cases hr
  | cons r' regs ih =>
    have htail : ∀ i ∈ regs, i < 32 := fun i hi => hregs i (List.mem_cons_of_mem r' hi)
    rw [saveAll, List.foldl_cons]
    by_cases hin : r ∈ regs
    · exact ih htail hin
    · obtain rfl : r = r' := (List.mem_cons.1 hr).resolve_right hin
      exact (load64_saveAll_of_not_mem htail (hregs r hr) hin).trans load64_store64

/-- The instructions that save registers. -/
theorem exec_save (hal : env.aligned = false) (regs : List ℕ) (s : State) :
    exec env (regs.map save ++ is) s =
      exec env is (s.withMem (saveAll s.mem (s.get 2) s.get regs)) := by
  induction regs generalizing s with
  | nil => rfl
  | cons r regs ih =>
    rw [List.map_cons, List.cons_append, save, exec, if_neg (fun hf => by simp [hf.1] at hal), ih]
    rfl

/-- The state with registers restored from a frame, in order. -/
def restoreAll (s : State) (base : Word) (regs : List ℕ) : State :=
  regs.foldl (fun s r => s.set r (load64 s.mem (slot base r))) s

theorem mem_restoreAll : (restoreAll s base regs).mem = s.mem := by
  induction regs generalizing s with
  | nil => rfl
  | cons r regs ih => exact ih

theorem f_restoreAll : (restoreAll s base regs).f = s.f := by
  induction regs generalizing s with
  | nil => rfl
  | cons r regs ih => exact ih

theorem fcsr_restoreAll : (restoreAll s base regs).fcsr = s.fcsr := by
  induction regs generalizing s with
  | nil => rfl
  | cons r regs ih => exact ih

theorem get_restoreAll_of_not_mem (hnot : r ∉ regs) : (restoreAll s base regs).get r = s.get r := by
  induction regs generalizing s with
  | nil => rfl
  | cons r' regs ih =>
    rw [List.mem_cons, not_or] at hnot
    rw [restoreAll, List.foldl_cons]
    exact (ih hnot.2).trans (State.get_set_of_ne _ _ hnot.1)

theorem get_restoreAll (h₀ : 0 ∉ regs) (hr : r ∈ regs) :
    (restoreAll s base regs).get r = load64 s.mem (slot base r) := by
  induction regs generalizing s with
  | nil => cases hr
  | cons r' regs ih =>
    rw [List.mem_cons, not_or] at h₀
    rw [restoreAll, List.foldl_cons]
    by_cases hin : r ∈ regs
    · exact ih h₀.2 hin
    · obtain rfl : r = r' := (List.mem_cons.1 hr).resolve_right hin
      exact (get_restoreAll_of_not_mem hin).trans (State.get_set_self _ _ (Ne.symm h₀.1))

/-- The instructions that restore registers. -/
theorem exec_restore (hal : env.aligned = false) (h₂ : 2 ∉ regs) (s : State) :
    exec env (regs.map restore ++ is) s = exec env is (restoreAll s (s.get 2) regs) := by
  induction regs generalizing s with
  | nil => rfl
  | cons r regs ih =>
    rw [List.mem_cons, not_or] at h₂
    rw [List.map_cons, List.cons_append, restore, exec, if_neg (fun hf => by simp [hf.1] at hal),
      ih h₂.2, State.get_set_of_ne _ _ h₂.1]
    rfl

end

/-- A byte that is loaded and stored. -/
theorem store_signExtend (b : UInt8) :
    UInt8.ofBitVec ((b.toBitVec.signExtend 64).setWidth 8) = b := by
  obtain ⟨v⟩ := b
  congr 1
  apply BitVec.eq_of_getLsbD_eq
  intro i hi
  rw [BitVec.getLsbD_setWidth, BitVec.getLsbD_signExtend]
  simp [hi, show i < 64 by omega]

end RvvmHal.Riscv
