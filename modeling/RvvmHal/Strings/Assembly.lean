import RvvmHal.Foundations.Riscv

/-!
# memset, memcpy and memmove in assembly

`string_asm.S`. Each works on bytes until the end it works at is aligned, then on 32 bytes a round,
then on doublewords, then on bytes; where source and destination are aligned differently `memcpy` and
`memmove` copy bytes only. `memmove` copies downwards, and branches to `memcpy` when the destination
is below the source.

Both copies have the same shape, and the same labels up to their names. `Copy` is what they have to
show for themselves: an invariant, and that each of their rounds keeps it. Then the assembly returns
with nothing left to copy (`Copy.finishes_head`), by induction on what is left. The machine faults
on a doubleword that is not aligned.
-/

namespace RvvmHal.Strings

open Riscv Memory64

/-! ## The assembly -/

abbrev t0 : ℕ := 5
abbrev t1 : ℕ := 6
abbrev t2 : ℕ := 7
abbrev a0 : ℕ := 10
abbrev a1 : ℕ := 11
abbrev a2 : ℕ := 12
abbrev t3 : ℕ := 28
abbrev t4 : ℕ := 29
abbrev t5 : ℕ := 30
abbrev t6 : ℕ := 31

/-- The labels of `memset`, `memcpy` and `memmove`: local labels are numbered as in the source.
`cpyByteloop` and `moveByteloop` are 7, and `moveDone` is what 9 is in `memcpy`. -/
inductive Label
  | memset
  | set1
  | set2
  | set3
  | set4
  | set5
  | set6
  | set7
  | set9
  | memcpy
  | cpy1
  | cpy2
  | cpy3
  | cpy4
  | cpy5
  | cpy6
  | cpyByteloop
  | cpy9
  | memmove
  | move1
  | move2
  | move3
  | move4
  | move5
  | move6
  | moveByteloop
  | moveDone
  deriving DecidableEq

/-- The assembly. It calls no function. -/
def stringCode : Label → List (Instr Label Empty)
  | .memset =>
    [.mv t0 a0, .andi t1 a1 0xff, .slli t2 t1 8, .or t1 t1 t2, .slli t2 t1 16, .or t1 t1 t2,
      .slli t2 t1 32, .or t1 t1 t2, .fall .set1]
  | .set1 =>
    [.beqz a2 .set9, .andi t2 t0 7, .beqz t2 .set2, .sb a1 0 t0, .addi t0 t0 1, .addi a2 a2 (-1),
      .j .set1]
  | .set2 => [.li t3 32, .bltu a2 t3 .set4, .fall .set3]
  | .set3 =>
    [.sd t1 0 t0, .sd t1 8 t0, .sd t1 16 t0, .sd t1 24 t0, .addi t0 t0 32, .addi a2 a2 (-32),
      .bgeu a2 t3 .set3, .fall .set4]
  | .set4 => [.li t3 8, .bltu a2 t3 .set6, .fall .set5]
  | .set5 =>
    [.sd t1 0 t0, .addi t0 t0 8, .addi a2 a2 (-8), .bgeu a2 t3 .set5, .fall .set6]
  | .set6 => [.beqz a2 .set9, .fall .set7]
  | .set7 =>
    [.sb a1 0 t0, .addi t0 t0 1, .addi a2 a2 (-1), .bnez a2 .set7, .fall .set9]
  | .set9 => [.ret]
  | .memcpy =>
    [.mv t0 a0, .mv t1 a1, .xor t2 t0 t1, .andi t2 t2 7, .bnez t2 .cpyByteloop, .fall .cpy1]
  | .cpy1 =>
    [.beqz a2 .cpy9, .andi t2 t0 7, .beqz t2 .cpy2, .lb t3 0 t1, .sb t3 0 t0, .addi t0 t0 1,
      .addi t1 t1 1, .addi a2 a2 (-1), .j .cpy1]
  | .cpy2 => [.li t6 32, .bltu a2 t6 .cpy4, .fall .cpy3]
  | .cpy3 =>
    [.ld t2 0 t1, .ld t3 8 t1, .ld t4 16 t1, .ld t5 24 t1, .sd t2 0 t0, .sd t3 8 t0, .sd t4 16 t0,
      .sd t5 24 t0, .addi t1 t1 32, .addi t0 t0 32, .addi a2 a2 (-32), .bgeu a2 t6 .cpy3,
      .fall .cpy4]
  | .cpy4 => [.li t6 8, .bltu a2 t6 .cpy6, .fall .cpy5]
  | .cpy5 =>
    [.ld t2 0 t1, .sd t2 0 t0, .addi t1 t1 8, .addi t0 t0 8, .addi a2 a2 (-8), .bgeu a2 t6 .cpy5,
      .fall .cpy6]
  | .cpy6 => [.beqz a2 .cpy9, .fall .cpyByteloop]
  | .cpyByteloop =>
    [.beqz a2 .cpy9, .lb t2 0 t1, .sb t2 0 t0, .addi t1 t1 1, .addi t0 t0 1, .addi a2 a2 (-1),
      .j .cpyByteloop]
  | .cpy9 => [.ret]
  | .memmove =>
    [.beq a0 a1 .moveDone, .beqz a2 .moveDone, .bltu a0 a1 .memcpy, .add t0 a0 a2, .add t1 a1 a2,
      .xor t2 t0 t1, .andi t2 t2 7, .bnez t2 .moveByteloop, .fall .move1]
  | .move1 =>
    [.beqz a2 .moveDone, .andi t2 t0 7, .beqz t2 .move2, .addi t0 t0 (-1), .addi t1 t1 (-1),
      .lb t3 0 t1, .sb t3 0 t0, .addi a2 a2 (-1), .j .move1]
  | .move2 => [.li t6 32, .bltu a2 t6 .move4, .fall .move3]
  | .move3 =>
    [.addi t1 t1 (-32), .addi t0 t0 (-32), .ld t2 24 t1, .ld t3 16 t1, .ld t4 8 t1, .ld t5 0 t1,
      .sd t2 24 t0, .sd t3 16 t0, .sd t4 8 t0, .sd t5 0 t0, .addi a2 a2 (-32), .bgeu a2 t6 .move3,
      .fall .move4]
  | .move4 => [.li t6 8, .bltu a2 t6 .move6, .fall .move5]
  | .move5 =>
    [.addi t1 t1 (-8), .addi t0 t0 (-8), .ld t2 0 t1, .sd t2 0 t0, .addi a2 a2 (-8),
      .bgeu a2 t6 .move5, .fall .move6]
  | .move6 => [.beqz a2 .moveDone, .fall .moveByteloop]
  | .moveByteloop =>
    [.beqz a2 .moveDone, .addi t0 t0 (-1), .addi t1 t1 (-1), .lb t2 0 t1, .sb t2 0 t0,
      .addi a2 a2 (-1), .j .moveByteloop]
  | .moveDone => [.ret]

/-- Doublewords must be aligned. -/
def stringEnv : Env Empty := ⟨true, fun f => f.elim, fun f => f.elim⟩

/-! ## Words -/

variable {m : Mem} {d s x y : Word} {n k i : ℕ} {u : State}

theorem ofNat_eq_zero_iff (hi : i < 2 ^ 64) : BitVec.ofNat 64 i = 0 ↔ i = 0 := by
  constructor
  · intro h
    have hnat := congrArg BitVec.toNat h
    rwa [toNat_ofNat hi] at hnat
  · rintro rfl
    rfl

theorem ofNat_sub (h : k ≤ i) :
    BitVec.ofNat 64 i + -BitVec.ofNat 64 k = BitVec.ofNat 64 (i - k) := by
  obtain ⟨j, rfl⟩ := Nat.exists_eq_add_of_le h
  rw [Nat.add_sub_cancel_left, BitVec.ofNat_add]
  ring

theorem toNat_and_seven (x : Word) : (x &&& 7).toNat = x.toNat % 8 :=
  Nat.and_two_pow_sub_one_eq_mod x.toNat 3

theorem and_seven_eq_zero : x &&& 7 = 0 ↔ x.toNat % 8 = 0 := by
  rw [← toNat_and_seven, ← BitVec.toNat_inj]
  rfl

/-- The source and the destination share their alignment. -/
theorem xor_and_seven : (x ^^^ y) &&& 7 = 0 ↔ x.toNat % 8 = y.toNat % 8 := by
  rw [and_seven_eq_zero, BitVec.toNat_xor, show (8 : ℕ) = 2 ^ 3 from rfl, Nat.xor_mod_two_pow,
    Nat.xor_eq_zero_iff]

theorem toNat_add_mod_eight (x : Word) (i : ℕ) :
    (x + BitVec.ofNat 64 i).toNat % 8 = (x.toNat + i) % 8 := by
  rw [BitVec.toNat_add, BitVec.toNat_ofNat]
  omega

theorem offset_add (x : Word) (i k : ℕ) :
    x + BitVec.ofNat 64 i + BitVec.ofNat 64 k = x + BitVec.ofNat 64 (i + k) := by
  rw [BitVec.ofNat_add, add_assoc]

theorem offset_sub (x : Word) (h : k ≤ i) :
    x + BitVec.ofNat 64 i + -BitVec.ofNat 64 k = x + BitVec.ofNat 64 (i - k) := by
  rw [add_assoc, ofNat_sub h]

/-- The doublewords from an aligned address on. -/
theorem not_faults (h : x.toNat % 8 = 0) (hi : i % 8 = 0) :
    ¬ stringEnv.Faults (x + BitVec.ofNat 64 i) := by
  intro hf
  have hmod := toNat_add_mod_eight x i
  have hne := hf.2
  omega

/-- A byte that is loaded and stored. -/
theorem move_byte : store m d [UInt8.ofBitVec (((m s).toBitVec.signExtend 64).setWidth 8)] =
    copied m d s 0 1 := by
  rw [store_signExtend, ← store_bytes]
  congr 1
  simp [bytes]

/-! ## The shape of both copies -/

/-- The labels of a copy: the bytes up to an aligned place, 32 bytes a round, doublewords, bytes,
and the return. -/
structure CopyLabels where
  head : Label
  chunks : Label
  chunk : Label
  words : Label
  word : Label
  rest : Label
  byte : Label
  done : Label

def memcpyLabels : CopyLabels := ⟨.cpy1, .cpy2, .cpy3, .cpy4, .cpy5, .cpy6, .cpyByteloop, .cpy9⟩

def memmoveLabels : CopyLabels :=
  ⟨.move1, .move2, .move3, .move4, .move5, .move6, .moveByteloop, .moveDone⟩

/-- The instructions after the label `l` end at the label `l'` in a state for which `P` holds. -/
def Goes (l l' : Label) (u : State) (P : State → Prop) : Prop :=
  ∃ u', exec stringEnv (stringCode l) u = some (.goto l', u') ∧ P u'

/-- The same in the registers that a copy uses, and in memory. -/
structure SameCopy (u u' : State) : Prop where
  dst : u'.get t0 = u.get t0
  src : u'.get t1 = u.get t1
  len : u'.get a2 = u.get a2
  ret : u'.get a0 = u.get a0
  mem : u'.mem = u.mem

/-- A copy of bytes. `I r` is its invariant with `r` bytes left. What both copies do at their labels
is given by the instructions there; the rounds in which they copy are given by their effect. -/
structure ByteCopy (l : CopyLabels) (I : ℕ → State → Prop) : Prop where
  lt : ∀ {r u}, I r u → r < 2 ^ 64
  len : ∀ {r u}, I r u → u.get a2 = BitVec.ofNat 64 r
  byte_code : ∃ is, stringCode l.byte = .beqz a2 l.done :: is
  done_code : stringCode l.done = [.ret]
  byte : ∀ {r u}, I (r + 1) u → ¬ u.get a2 = u.get 0 → Goes l.byte l.byte u (I r)

/-- A copy of doublewords, too. `Al r` says that the place it has come to with `r` bytes left is
aligned. -/
structure Copy (l : CopyLabels) (I : ℕ → State → Prop) (Al : ℕ → Prop) : Prop
    extends ByteCopy l I where
  congr : ∀ {r u u'}, I r u → SameCopy u u' → I r u'
  al_iff : ∀ {r u}, I r u → (Al r ↔ u.get t0 &&& 7 = 0)
  al_sub : ∀ {r w}, Al r → w % 8 = 0 → w ≤ r → Al (r - w)
  head_code : ∃ is, stringCode l.head =
    .beqz a2 l.done :: .andi t2 t0 7 :: .beqz t2 l.chunks :: is
  chunks_code : stringCode l.chunks = [.li t6 32, .bltu a2 t6 l.words, .fall l.chunk]
  words_code : stringCode l.words = [.li t6 8, .bltu a2 t6 l.rest, .fall l.word]
  rest_code : stringCode l.rest = [.beqz a2 l.done, .fall l.byte]
  head : ∀ {r u}, I (r + 1) u → ¬ u.get a2 = u.get 0 → ¬ u.get t0 &&& 7 = 0 →
    Goes l.head l.head u (I r)
  chunk : ∀ {r u}, I r u → u.get t6 = 32 → Al r → 32 ≤ r →
    Goes l.chunk (if r - 32 < 32 then l.words else l.chunk) u
      fun u' => I (r - 32) u' ∧ u'.get t6 = 32
  word : ∀ {r u}, I r u → u.get t6 = 8 → Al r → 8 ≤ r →
    Goes l.word (if r - 8 < 8 then l.rest else l.word) u fun u' => I (r - 8) u' ∧ u'.get t6 = 8

section

variable {l l' l₁ l₂ : Label} {I : ℕ → State → Prop} {Al : ℕ → Prop} {P : State → Prop}
  {c : CopyLabels} {r w : ℕ} {is : List (Instr Label Empty)}

/-- The branch at the end of a round. -/
theorem exec_bgeu {q : ℕ} (hr : u.get a2 = BitVec.ofNat 64 r) (hlt : r < 2 ^ 64)
    (hq : (u.get q).toNat = w) :
    exec stringEnv (.bgeu a2 q l₂ :: .fall l₁ :: is) u =
      some (.goto (if r < w then l₁ else l₂), u) := by
  rw [exec, hr, toNat_ofNat hlt, hq]
  by_cases h : r < w
  · rw [if_neg (by omega), if_pos h, exec]
  · rw [if_pos (by omega), if_neg h]

/-- The branch before the first round. -/
theorem exec_bltu {q : ℕ} (hr : u.get a2 = BitVec.ofNat 64 r) (hlt : r < 2 ^ 64)
    (hq : (u.get q).toNat = w) :
    exec stringEnv (.bltu a2 q l₁ :: .fall l₂ :: is) u =
      some (.goto (if r < w then l₁ else l₂), u) := by
  rw [exec, hr, toNat_ofNat hlt, hq]
  by_cases h : r < w
  · rw [if_pos h, if_pos h]
  · rw [if_neg h, if_neg h, exec]

/-- From the label `l` on the assembly returns with nothing left to copy. -/
def Finishes (I : ℕ → State → Prop) (l : Label) (u : State) : Prop :=
  ∃ t, Returns stringEnv stringCode l u .ret t ∧ I 0 t

theorem Goes.finishes (hg : Goes l l' u P) (h : ∀ u', P u' → Finishes I l' u') :
    Finishes I l u := by
  obtain ⟨u', hexec, hP⟩ := hg
  obtain ⟨t, ht, hI⟩ := h u' hP
  exact ⟨t, .goto hexec ht, hI⟩

/-- **Rounds** of `w` bytes, by induction on the bytes left. -/
theorem finishes_loop {J : ℕ → State → Prop} (hw : 0 < w)
    (hround : ∀ {r u}, J r u → w ≤ r → Goes l (if r - w < w then l' else l) u (J (r - w)))
    (hnext : ∀ {r u}, J r u → r < w → Finishes I l' u) (h : J r u) (hr : w ≤ r) :
    Finishes I l u := by
  induction r using Nat.strong_induction_on generalizing u with
  | _ r ih =>
    refine (hround h hr).finishes fun u' hu' => ?_
    split
    · rename_i hlt
      exact hnext hu' hlt
    · exact ih (r - w) (by omega) hu' (by omega)

theorem ByteCopy.beqz_iff (hc : ByteCopy c I) (h : I r u) : u.get a2 = u.get 0 ↔ r = 0 := by
  rw [hc.len h, State.get_zero, ofNat_eq_zero_iff (hc.lt h)]

/-- A change of `t2` or `t6`. -/
theorem Copy.set (hc : Copy c I Al) (h : I r u) {i : ℕ} (hi : i = t2 ∨ i = t6) (v : Word) :
    I r (u.set i v) := by
  rcases hi with rfl | rfl
  · exact hc.congr h ⟨rfl, rfl, rfl, rfl, rfl⟩
  · exact hc.congr h ⟨rfl, rfl, rfl, rfl, rfl⟩

theorem Copy.goes_chunks (hc : Copy c I Al) (h : I r u) :
    Goes c.chunks (if r < 32 then c.words else c.chunk) u fun u' => I r u' ∧ u'.get t6 = 32 := by
  have hset := hc.set h (.inr rfl) (u.get 0 + 32)
  refine ⟨u.set t6 (u.get 0 + 32), ?_, hset, rfl⟩
  rw [hc.chunks_code, exec]
  exact exec_bltu (hc.len hset) (hc.lt hset) rfl

theorem Copy.goes_words (hc : Copy c I Al) (h : I r u) :
    Goes c.words (if r < 8 then c.rest else c.word) u fun u' => I r u' ∧ u'.get t6 = 8 := by
  have hset := hc.set h (.inr rfl) (u.get 0 + 8)
  refine ⟨u.set t6 (u.get 0 + 8), ?_, hset, rfl⟩
  rw [hc.words_code, exec]
  exact exec_bltu (hc.len hset) (hc.lt hset) rfl

theorem Copy.goes_rest (hc : Copy c I Al) (h : I r u) :
    Goes c.rest (if r = 0 then c.done else c.byte) u (I r) := by
  refine ⟨u, ?_, h⟩
  rw [hc.rest_code, exec]
  by_cases hr : r = 0
  · rw [if_pos ((hc.beqz_iff h).2 hr), if_pos hr]
  · rw [if_neg (by rwa [hc.beqz_iff h]), if_neg hr, exec]

/-- Nothing is left at a label that begins with `beqz a2`. -/
theorem ByteCopy.goes_done (hc : ByteCopy c I) (h : I 0 u)
    (hcode : ∃ is, stringCode l = .beqz a2 c.done :: is) : Goes l c.done u (I 0) := by
  obtain ⟨is, hcode⟩ := hcode
  refine ⟨u, ?_, h⟩
  rw [hcode, exec, if_pos ((hc.beqz_iff h).2 rfl)]

theorem Copy.goes_head (hc : Copy c I Al) (h : I (r + 1) u) (hal : Al (r + 1)) :
    Goes c.head c.chunks u (I (r + 1)) := by
  obtain ⟨is, hcode⟩ := hc.head_code
  have hne : ¬ u.get a2 = u.get 0 := by
    rw [hc.beqz_iff h]
    omega
  have hzero : (u.set t2 (u.get t0 &&& 7)).get t2 = (u.set t2 (u.get t0 &&& 7)).get 0 :=
    (hc.al_iff h).1 hal
  refine ⟨u.set t2 (u.get t0 &&& 7), ?_, hc.set h (.inl rfl) _⟩
  rw [hcode, exec, if_neg hne, exec, exec, if_pos hzero]

theorem ByteCopy.finishes_done (hc : ByteCopy c I) (h : I 0 u) : Finishes I c.done u :=
  ⟨u, .leave (by rw [hc.done_code, exec]), h⟩

theorem ByteCopy.finishes_byte (hc : ByteCopy c I) (h : I r u) : Finishes I c.byte u := by
  induction r generalizing u with
  | zero => exact (hc.goes_done h hc.byte_code).finishes fun _ => hc.finishes_done
  | succ r ih =>
    have hne : ¬ u.get a2 = u.get 0 := by
      rw [hc.beqz_iff h]
      omega
    exact (hc.byte h hne).finishes fun _ => ih

theorem Copy.finishes_rest (hc : Copy c I Al) (h : I r u) : Finishes I c.rest u := by
  refine (hc.goes_rest h).finishes fun u' hu' => ?_
  split
  · rename_i hr
    exact hc.finishes_done (hr ▸ hu')
  · exact hc.finishes_byte hu'

/-- **Doublewords.** -/
theorem Copy.finishes_word (hc : Copy c I Al) (h : I r u) (h₆ : u.get t6 = 8)
    (hal : Al r) (hr : 8 ≤ r) : Finishes I c.word u := by
  refine finishes_loop (w := 8) (J := fun r u => (I r u ∧ u.get t6 = 8) ∧ Al r) (by decide) ?_
    (fun hJ _ => hc.finishes_rest hJ.1.1) ⟨⟨h, h₆⟩, hal⟩ hr
  intro r u hJ hr
  obtain ⟨u', hexec, hI⟩ := hc.word hJ.1.1 hJ.1.2 hJ.2 hr
  exact ⟨u', hexec, hI, hc.al_sub hJ.2 rfl hr⟩

theorem Copy.finishes_words (hc : Copy c I Al) (h : I r u) (hal : Al r) :
    Finishes I c.words u := by
  refine (hc.goes_words h).finishes fun u' hu' => ?_
  split
  · exact hc.finishes_rest hu'.1
  · exact hc.finishes_word hu'.1 hu'.2 hal (by omega)

/-- **32 bytes a round.** -/
theorem Copy.finishes_chunk (hc : Copy c I Al) (h : I r u) (h₆ : u.get t6 = 32)
    (hal : Al r) (hr : 32 ≤ r) : Finishes I c.chunk u := by
  refine finishes_loop (w := 32) (J := fun r u => (I r u ∧ u.get t6 = 32) ∧ Al r) (by decide) ?_
    (fun hJ _ => hc.finishes_words hJ.1.1 hJ.2) ⟨⟨h, h₆⟩, hal⟩ hr
  intro r u hJ hr
  obtain ⟨u', hexec, hI⟩ := hc.chunk hJ.1.1 hJ.1.2 hJ.2 hr
  exact ⟨u', hexec, hI, hc.al_sub hJ.2 rfl hr⟩

theorem Copy.finishes_chunks (hc : Copy c I Al) (h : I r u) (hal : Al r) :
    Finishes I c.chunks u := by
  refine (hc.goes_chunks h).finishes fun u' hu' => ?_
  split
  · exact hc.finishes_words hu'.1 hal
  · exact hc.finishes_chunk hu'.1 hu'.2 hal (by omega)

/-- **Bytes up to an aligned place**, and then all the rest. -/
theorem Copy.finishes_head (hc : Copy c I Al) (h : I r u) : Finishes I c.head u := by
  induction r generalizing u with
  | zero =>
    obtain ⟨is, hcode⟩ := hc.head_code
    exact (hc.goes_done h ⟨_, hcode⟩).finishes fun _ => hc.finishes_done
  | succ r ih =>
    by_cases hal : Al (r + 1)
    · exact (hc.goes_head h hal).finishes fun _ hu' => hc.finishes_chunks hu' hal
    · have hne : ¬ u.get a2 = u.get 0 := by
        rw [hc.beqz_iff h]
        omega
      exact (hc.head h hne (mt (hc.al_iff h).2 hal)).finishes fun _ => ih

end

end RvvmHal.Strings
