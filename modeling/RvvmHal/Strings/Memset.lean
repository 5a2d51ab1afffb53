import RvvmHal.Foundations.Word
import RvvmHal.Strings.MemmoveC

/-!
# memset, and both versions of memset and memcpy

`memset` stores the bytes up to an aligned address, then doublewords of eight such bytes, in
assembly four of them in a round, then bytes. `SetInv` and `SetInvC` say how far it has come: all but
the last `r` bytes have been stored.

The versions of `string_asm.S` and of `string.c` agree on all inputs (`memset_memcpy_agree`).
-/

namespace RvvmHal.Strings

open Riscv Memory64
open Bytes (leBytes)

variable {m m' : Mem} {d x y z v : Word} {b : UInt8} {n k r w : ℕ} {u u' : State} {c : Cursor}

/-! ## Eight equal bytes -/

/-- The doubleword of eight equal bytes. -/
def splat (b : UInt8) : Word := BitVec.ofNat 64 (b.toNat * 0x0101010101010101)

/-- The number whose `n` bytes are 1. -/
def ones : ℕ → ℕ
  | 0 => 0
  | n + 1 => 1 + 256 * ones n

theorem leBytes_mul_ones (b : UInt8) (n : ℕ) :
    leBytes n (b.toNat * ones n) = List.replicate n b := by
  have hlt := b.toNat_lt
  induction n with
  | zero => rfl
  | succ n ih =>
    have hmul : b.toNat * ones (n + 1) = b.toNat + 256 * (b.toNat * ones n) := by
      rw [ones]
      ring
    have hdiv : (b.toNat + 256 * (b.toNat * ones n)) / 256 = b.toNat * ones n := by omega
    have hlow : UInt8.ofNat (b.toNat + 256 * (b.toNat * ones n)) = b := by
      rw [← UInt8.toNat_inj, Bytes.toNat_ofNat_uint8]
      omega
    rw [hmul, leBytes, hlow, hdiv, ih, List.replicate_succ]

theorem store64_splat : store64 m x (splat b) = store m x (List.replicate 8 b) := by
  have hlt := b.toNat_lt
  rw [store64, splat, toNat_ofNat (by omega)]
  exact congrArg (store m x) (leBytes_mul_ones b 8)

/-- Four doublewords. -/
theorem store64_splat_four :
    store64 (store64 (store64 (store64 m (x + BitVec.ofNat 64 0) (splat b))
      (x + BitVec.ofNat 64 8) (splat b)) (x + BitVec.ofNat 64 16) (splat b))
      (x + BitVec.ofNat 64 24) (splat b) = store m x (List.replicate 32 b) := by
  rw [store64_splat, store64_splat, store64_splat, store64_splat, BitVec.add_zero,
    store_replicate_add (by decide), store_replicate_add (n := 8 + 8) (by decide),
    store_replicate_add (n := 8 + 8 + 8) (by decide)]

/-- A byte multiplied into all lanes, as in C. -/
theorem mul_eq_splat (b : UInt8) : b.toBitVec.setWidth 64 * 0x0101010101010101 = splat b := by
  apply BitVec.eq_of_toNat_eq
  have hlt := b.toNat_lt
  have hb : (b.toBitVec.setWidth 64).toNat = b.toNat := by
    rw [BitVec.toNat_setWidth]
    exact Nat.mod_eq_of_lt (by rw [UInt8.toNat_toBitVec]; omega)
  rw [BitVec.toNat_mul, hb, splat, BitVec.toNat_ofNat]
  rfl

/-- A word with a copy of itself, shifted. -/
def doubled (k : ℕ) (x : Word) : Word := x ||| x <<< k

theorem toNat_doubled (hx : x.toNat = n) (hn : n < 2 ^ k) (hk : 2 * k ≤ 64) :
    (doubled k x).toNat = n * (1 + 2 ^ k) := by
  have hlt : n * 2 ^ k < 2 ^ 64 :=
    calc n * 2 ^ k < 2 ^ k * 2 ^ k := Nat.mul_lt_mul_of_pos_right hn (Nat.two_pow_pos k)
      _ = 2 ^ (2 * k) := by rw [← pow_add, two_mul]
      _ ≤ 2 ^ 64 := Nat.pow_le_pow_right (by decide) hk
  rw [doubled, BitVec.toNat_or, BitVec.toNat_shiftLeft, hx, Nat.shiftLeft_eq, Nat.mod_eq_of_lt hlt,
    ← Nat.shiftLeft_eq, Word.or_shiftLeft hn]
  ring

/-- A byte that is doubled three times, as in assembly. -/
theorem doubled_eq_splat (hx : x.toNat = b.toNat) :
    doubled 32 (doubled 16 (doubled 8 x)) = splat b := by
  have hlt := b.toNat_lt
  have h₈ := toNat_doubled (k := 8) hx (by omega) (by decide)
  have h₁₆ := toNat_doubled (k := 16) h₈ (by omega) (by decide)
  have h₃₂ := toNat_doubled (k := 32) h₁₆ (by omega) (by decide)
  apply BitVec.eq_of_toNat_eq
  rw [h₃₂, splat, toNat_ofNat (by omega)]
  omega

/-! ## In assembly -/

/-- The low byte of a register. -/
def lowByte (v : Word) : UInt8 := UInt8.ofBitVec (v.setWidth 8)

/-- All but the last `r` bytes have been stored. -/
structure SetInv (m : Mem) (d : Word) (b : UInt8) (n r : ℕ) (u : State) : Prop where
  le : r ≤ n
  dst : u.get t0 = d + BitVec.ofNat 64 (n - r)
  len : u.get a2 = BitVec.ofNat 64 r
  ret : u.get a0 = d
  byte : lowByte (u.get a1) = b
  word : u.get t1 = splat b
  mem : u.mem = store m d (List.replicate (n - r) b)

/-- The same at an aligned place, with the bytes of a round in `t3`. -/
structure SetWordInv (m : Mem) (d : Word) (b : UInt8) (n : ℕ) (i : Word) (r : ℕ) (u : State) :
    Prop extends SetInv m d b n r u where
  chunk : u.get t3 = i
  aligned : (u.get t0).toNat % 8 = 0

/-- What a round does: `w` bytes are stored. -/
structure Stored (b : UInt8) (w : ℕ) (u u' : State) : Prop where
  dst : u'.get t0 = u.get t0 + BitVec.ofNat 64 w
  len : u'.get a2 = u.get a2 + -BitVec.ofNat 64 w
  ret : u'.get a0 = u.get a0
  byte : u'.get a1 = u.get a1
  word : u'.get t1 = u.get t1
  chunk : u'.get t3 = u.get t3
  mem : u'.mem = store u.mem (u.get t0) (List.replicate w b)

theorem SetInv.lt (h : SetInv m d b n r u) (hn : n < 2 ^ 64) : r < 2 ^ 64 :=
  Nat.lt_of_le_of_lt h.le hn

/-- **A round.** -/
theorem SetInv.advance (h : SetInv m d b n r u) (hn : n < 2 ^ 64) (hw : w ≤ r)
    (hs : Stored b w u u') : SetInv m d b n (r - w) u' := by
  have hle := h.le
  have hplace : n - (r - w) = n - r + w := by omega
  refine ⟨by omega, ?_, ?_, hs.ret.trans h.ret, ?_, hs.word.trans h.word, ?_⟩
  · rw [hs.dst, h.dst, offset_add, hplace]
  · rw [hs.len, h.len, ofNat_sub hw]
  · rw [hs.byte, h.byte]
  · rw [hs.mem, h.mem, h.dst, store_replicate_add (by omega), hplace]

/-- A change of `t2` or `t3`. -/
theorem SetInv.set (h : SetInv m d b n r u) {i : ℕ} (hi : i = t2 ∨ i = t3) (v : Word) :
    SetInv m d b n r (u.set i v) := by
  rcases hi with rfl | rfl
  · exact ⟨h.le, h.dst, h.len, h.ret, h.byte, h.word, h.mem⟩
  · exact ⟨h.le, h.dst, h.len, h.ret, h.byte, h.word, h.mem⟩

theorem SetInv.beqz_iff (h : SetInv m d b n r u) (hn : n < 2 ^ 64) :
    u.get a2 = u.get 0 ↔ r = 0 := by
  rw [h.len, State.get_zero, ofNat_eq_zero_iff (h.lt hn)]

theorem exec_set1 (hne : ¬ u.get a2 = u.get 0) (hmis : ¬ u.get t0 &&& 7 = 0)
    (hb : lowByte (u.get a1) = b) :
    ∃ u', exec stringEnv (stringCode .set1) u = some (.goto .set1, u') ∧ Stored b 1 u u' := by
  have hmis' : ¬ (u.set t2 (u.get t0 &&& 7)).get t2 = (u.set t2 (u.get t0 &&& 7)).get 0 := hmis
  subst hb
  rw [stringCode, exec, if_neg hne, exec, exec, if_neg hmis', exec, exec, exec, exec]
  refine ⟨_, rfl, rfl, rfl, rfl, rfl, rfl, rfl, ?_⟩
  simp +decide only [State.mem_set, State.mem_withMem, State.get_set, if_false, add_zero]
  rfl

theorem exec_set3 (hal : (u.get t0).toNat % 8 = 0) (hword : u.get t1 = splat b) :
    ∃ u', exec stringEnv (stringCode .set3) u =
      exec stringEnv [.bgeu a2 t3 .set3, .fall .set4] u' ∧ Stored b 32 u u' := by
  have hal' : ∀ i, i % 8 = 0 → ¬ stringEnv.Faults (u.get t0 + BitVec.ofNat 64 i) :=
    fun i => not_faults hal
  rw [stringCode]
  refine ⟨?_, ?_, ?_⟩
  rotate_left
  · refine Eq.trans (exec_sd (a := u.get t0) (v := u.get t1) rfl rfl (hal' 0 rfl)) ?_
    refine Eq.trans (exec_sd (a := u.get t0) (v := u.get t1) rfl rfl (hal' 8 rfl)) ?_
    refine Eq.trans (exec_sd (a := u.get t0) (v := u.get t1) rfl rfl (hal' 16 rfl)) ?_
    refine Eq.trans (exec_sd (a := u.get t0) (v := u.get t1) rfl rfl (hal' 24 rfl)) ?_
    rw [exec, exec]
  · refine ⟨rfl, rfl, rfl, rfl, rfl, rfl, ?_⟩
    rw [← store64_splat_four, ← hword]
    rfl

theorem exec_set5 (hal : (u.get t0).toNat % 8 = 0) (hword : u.get t1 = splat b) :
    ∃ u', exec stringEnv (stringCode .set5) u =
      exec stringEnv [.bgeu a2 t3 .set5, .fall .set6] u' ∧ Stored b 8 u u' := by
  have hal₀ := not_faults (i := 0) hal rfl
  rw [stringCode]
  refine ⟨?_, ?_, ?_⟩
  rotate_left
  · refine Eq.trans (exec_sd (a := u.get t0) (v := u.get t1) rfl rfl hal₀) ?_
    rw [exec, exec]
  · refine ⟨rfl, rfl, rfl, rfl, rfl, rfl, ?_⟩
    rw [← store64_splat, ← hword]
    simp +decide only [State.mem_set, State.mem_withMem, add_zero]

theorem exec_set7 (hb : lowByte (u.get a1) = b) :
    ∃ u', exec stringEnv (stringCode .set7) u =
      exec stringEnv [.bnez a2 .set7, .fall .set9] u' ∧ Stored b 1 u u' := by
  subst hb
  rw [stringCode, exec, exec, exec]
  refine ⟨_, rfl, rfl, rfl, rfl, rfl, rfl, rfl, ?_⟩
  simp +decide only [State.mem_set, State.mem_withMem, add_zero]
  rfl

/-! ### Labels -/

theorem finishes_set9 (h : SetInv m d b n 0 u) : Finishes (SetInv m d b n) .set9 u :=
  ⟨u, .leave (by rw [stringCode, exec]), h⟩

theorem goes_set7 (hn : n < 2 ^ 64) (h : SetInv m d b n r u) (hr : 1 ≤ r) :
    Goes .set7 (if r - 1 < 1 then .set9 else .set7) u (SetInv m d b n (r - 1)) := by
  obtain ⟨u', hexec, hs⟩ := exec_set7 h.byte
  have hadv := h.advance hn hr hs
  refine ⟨u', hexec.trans ?_, hadv⟩
  rw [exec]
  by_cases hlast : r - 1 < 1
  · rw [if_neg (not_not.2 ((hadv.beqz_iff hn).2 (by omega))), if_pos hlast, exec]
  · rw [if_pos (by rw [Ne, hadv.beqz_iff hn]; omega), if_neg hlast]

theorem finishes_set7 (hn : n < 2 ^ 64) (h : SetInv m d b n r u) (hr : 1 ≤ r) :
    Finishes (SetInv m d b n) .set7 u := by
  have hend : ∀ {r u}, SetInv m d b n r u → r < 1 → Finishes (SetInv m d b n) .set9 u := by
    intro r u h hlast
    obtain rfl : r = 0 := by omega
    exact finishes_set9 h
  exact finishes_loop Nat.one_pos (fun h hr => goes_set7 hn h hr) hend h hr

theorem finishes_set6 (hn : n < 2 ^ 64) (h : SetInv m d b n r u) :
    Finishes (SetInv m d b n) .set6 u := by
  have hgoes : Goes .set6 (if r = 0 then .set9 else .set7) u (SetInv m d b n r) := by
    refine ⟨u, ?_, h⟩
    rw [stringCode, exec]
    by_cases hr : r = 0
    · rw [if_pos ((h.beqz_iff hn).2 hr), if_pos hr]
    · rw [if_neg (by rwa [h.beqz_iff hn]), if_neg hr, exec]
  refine hgoes.finishes fun u' hu' => ?_
  split
  · rename_i hr
    exact finishes_set9 (hr ▸ hu')
  · exact finishes_set7 hn hu' (by omega)

/-- **Doublewords**: `w` bytes a round, from an aligned place on. -/
theorem finishes_words {l₀ l l' : Label} {i : Word} (hn : n < 2 ^ 64) (hi : i.toNat = w)
    (hw : 0 < w) (hw8 : w % 8 = 0)
    (hcode : stringCode l₀ = [.li t3 i, .bltu a2 t3 l', .fall l])
    (hround : ∀ {u}, (u.get t0).toNat % 8 = 0 → u.get t1 = splat b →
      ∃ u', exec stringEnv (stringCode l) u =
        exec stringEnv [.bgeu a2 t3 l, .fall l'] u' ∧ Stored b w u u')
    (hnext : ∀ {r u}, SetInv m d b n r u → (u.get t0).toNat % 8 = 0 →
      Finishes (SetInv m d b n) l' u)
    (h : SetInv m d b n r u) (hal : (u.get t0).toNat % 8 = 0) :
    Finishes (SetInv m d b n) l₀ u := by
  have hset := h.set (.inr rfl) (u.get 0 + i)
  have h₃ : (u.set t3 (u.get 0 + i)).get t3 = i := zero_add i
  have hgoes : Goes l₀ (if r < w then l' else l) u (SetWordInv m d b n i r) := by
    refine ⟨u.set t3 (u.get 0 + i), ?_, hset, h₃, hal⟩
    rw [hcode, exec]
    exact exec_bltu hset.len (hset.lt hn) (by rw [h₃, hi])
  refine hgoes.finishes fun u' hu' => ?_
  split
  · exact hnext hu'.toSetInv hu'.aligned
  · refine finishes_loop (J := SetWordInv m d b n i) hw ?_
      (fun hJ _ => hnext hJ.toSetInv hJ.aligned) hu' (by omega)
    intro r u hJ hr
    obtain ⟨u', hexec, hs⟩ := hround hJ.aligned hJ.word
    have hadv := hJ.advance hn hr hs
    have h₃' : u'.get t3 = i := hs.chunk.trans hJ.chunk
    have hal' : (u'.get t0).toNat % 8 = 0 := by
      have hal := hJ.aligned
      rw [hs.dst, toNat_add_mod_eight]
      omega
    exact ⟨u', hexec.trans (exec_bgeu hadv.len (hadv.lt hn) (by rw [h₃', hi])), hadv, h₃', hal'⟩

theorem finishes_set4 (hn : n < 2 ^ 64) (h : SetInv m d b n r u)
    (hal : (u.get t0).toNat % 8 = 0) : Finishes (SetInv m d b n) .set4 u :=
  finishes_words (l := .set5) hn rfl (by decide) rfl rfl exec_set5
    (fun h _ => finishes_set6 hn h) h hal

theorem finishes_set2 (hn : n < 2 ^ 64) (h : SetInv m d b n r u)
    (hal : (u.get t0).toNat % 8 = 0) : Finishes (SetInv m d b n) .set2 u :=
  finishes_words (l := .set3) hn rfl (by decide) rfl rfl exec_set3 (finishes_set4 hn) h hal

/-- **Bytes up to an aligned place**, and then all the rest. -/
theorem finishes_set1 (hn : n < 2 ^ 64) (h : SetInv m d b n r u) :
    Finishes (SetInv m d b n) .set1 u := by
  induction r generalizing u with
  | zero =>
    have hgoes : Goes .set1 .set9 u (SetInv m d b n 0) := by
      refine ⟨u, ?_, h⟩
      rw [stringCode, exec, if_pos ((h.beqz_iff hn).2 rfl)]
    exact hgoes.finishes fun u' => finishes_set9
  | succ r ih =>
    have hne : ¬ u.get a2 = u.get 0 := by
      rw [h.beqz_iff hn]
      omega
    by_cases hal : u.get t0 &&& 7 = 0
    · have hzero : (u.set t2 (u.get t0 &&& 7)).get t2 = (u.set t2 (u.get t0 &&& 7)).get 0 := hal
      have hgoes : Goes .set1 .set2 u fun u' =>
          SetInv m d b n (r + 1) u' ∧ (u'.get t0).toNat % 8 = 0 := by
        refine ⟨u.set t2 (u.get t0 &&& 7), ?_, h.set (.inl rfl) _, and_seven_eq_zero.1 hal⟩
        rw [stringCode, exec, if_neg hne, exec, exec, if_pos hzero]
      exact hgoes.finishes fun u' hu' => finishes_set2 hn hu'.1 hu'.2
    · obtain ⟨u', hexec, hs⟩ := exec_set1 hne hal h.byte
      have hgoes : Goes .set1 .set1 u (SetInv m d b n r) :=
        ⟨u', hexec, h.advance hn (w := 1) (by omega) hs⟩
      exact hgoes.finishes fun u' => ih

theorem toNat_and_0xff (v : Word) : (v &&& 0xff).toNat = (lowByte v).toNat := by
  have hlow : (lowByte v).toNat = v.toNat % 2 ^ 8 := BitVec.toNat_setWidth 8 v
  rw [hlow]
  exact Nat.and_two_pow_sub_one_eq_mod v.toNat 8

theorem exec_memset (u : State) :
    Goes .memset .set1 u
      (SetInv u.mem (u.get a0) (lowByte (u.get a1)) (u.get a2).toNat (u.get a2).toNat) := by
  rw [Goes, stringCode, exec, exec, exec, exec, exec, exec, exec, exec, exec]
  refine ⟨_, rfl, Nat.le_refl _, ?_, ?_, rfl, rfl, ?_, ?_⟩
  · rw [Nat.sub_self]
    rfl
  · rw [BitVec.ofNat_toNat, BitVec.setWidth_eq]
    rfl
  · exact doubled_eq_splat (toNat_and_0xff (u.get a1))
  · rw [Nat.sub_self, List.replicate_zero, store_nil]
    rfl

/-- **`memset` in assembly.** -/
theorem memset_stores (u : State) : ∃ t, Returns stringEnv stringCode .memset u .ret t ∧
    t.get a0 = u.get a0 ∧
    t.mem = store u.mem (u.get a0) (List.replicate (u.get a2).toNat (lowByte (u.get a1))) := by
  obtain ⟨t, ht, hinv⟩ := (exec_memset u).finishes fun u' => finishes_set1 (u.get a2).isLt
  exact ⟨t, ht, hinv.ret, hinv.mem⟩

/-! ## In C -/

/-- `*d++ = b`. There is no `s`. -/
def byteSet (b : UInt8) (c : Cursor) : Cursor :=
  { c with d := c.d + 1, mem := store c.mem c.d [b] }

/-- `*dw++ = w`. -/
def wordSet (w : Word) (c : Cursor) : Option Cursor :=
  if c.d.toNat % 8 = 0 then some { c with d := c.d + 8, mem := store64 c.mem c.d w } else none

/-- `memset`. -/
def memsetC (dst : Word) (c : BitVec 32) (n : ℕ) (m : Mem) : Option (Word × Mem) :=
  let b := UInt8.ofBitVec (c.setWidth 8)
  let w : Word := b.toBitVec.setWidth 64 * 0x0101010101010101
  let head := headLoop (byteSet b) n ⟨dst, 0, m⟩
  (wordLoop (wordSet w) head.1 head.2).map fun r => (dst, (byteLoop (byteSet b) r.1 r.2).mem)

/-- All but the last `r` bytes have been stored. -/
structure SetInvC (m : Mem) (d : Word) (b : UInt8) (n r : ℕ) (c : Cursor) : Prop where
  le : r ≤ n
  dst : c.d = d + BitVec.ofNat 64 (n - r)
  mem : c.mem = store m d (List.replicate (n - r) b)

theorem SetInvC.advance (h : SetInvC m d b n (r + w) c) (hn : n < 2 ^ 64) :
    SetInvC m d b n r
      ⟨c.d + BitVec.ofNat 64 w, c.s, store c.mem c.d (List.replicate w b)⟩ := by
  have hle := h.le
  have hplace : n - r = n - (r + w) + w := by omega
  refine ⟨by omega, ?_, ?_⟩
  · rw [h.dst, offset_add, hplace]
  · rw [h.mem, h.dst, store_replicate_add (by omega), hplace]

theorem SetInvC.wordSet (h : SetInvC m d b n (r + 8) c) (hn : n < 2 ^ 64) (hal : c.d &&& 7 = 0) :
    ∃ c', wordSet (splat b) c = some c' ∧ SetInvC m d b n r c' ∧ c'.d &&& 7 = 0 := by
  rw [and_seven_eq_zero] at hal
  refine ⟨_, if_pos hal, ?_, ?_⟩
  · rw [store64_splat]
    exact h.advance hn (w := 8)
  · have hnext := toNat_add_mod_eight c.d 8
    rw [and_seven_eq_zero]
    exact hnext.trans (by omega)

/-- **`memset` in C.** -/
theorem memsetC_eq (dst : Word) (c : BitVec 32) (hn : n < 2 ^ 64) :
    memsetC dst c n m =
      some (dst, store m dst (List.replicate n (UInt8.ofBitVec (c.setWidth 8)))) := by
  unfold memsetC
  generalize UInt8.ofBitVec (c.setWidth 8) = b
  have hbyte : ∀ {r c}, SetInvC m dst b n (r + 1) c → SetInvC m dst b n r (byteSet b c) :=
    fun h => h.advance hn
  have hstart : SetInvC m dst b n n ⟨dst, 0, m⟩ := by
    refine ⟨Nat.le_refl n, ?_, ?_⟩
    · rw [Nat.sub_self]
      exact (BitVec.add_zero dst).symm
    · rw [Nat.sub_self, List.replicate_zero, store_nil]
  obtain ⟨hhead, hal⟩ := headLoop_keeps hbyte hstart
  obtain ⟨p, hp, hI⟩ := wordLoop_keeps (fun h hal => h.wordSet hn hal) hhead hal
  have hend := byteLoop_keeps hbyte hI
  dsimp only
  rw [mul_eq_splat, hp, Option.map_some, hend.mem, Nat.sub_zero]

/-! ## Main result -/

/-- The bytes of a range are `b`, and no other byte is changed. -/
def FilledWith (m m' : Mem) (d : Word) (b : UInt8) (n : ℕ) : Prop :=
  (∀ i < n, m' (d + BitVec.ofNat 64 i) = b) ∧
    ∀ x, (∀ i < n, x ≠ d + BitVec.ofNat 64 i) → m' x = m x

theorem filledWith_store (hn : n < 2 ^ 64) :
    FilledWith m (store m d (List.replicate n b)) d b n := by
  constructor
  · intro i hi
    have hoff : d + BitVec.ofNat 64 i - d = BitVec.ofNat 64 i := add_sub_cancel_left ..
    have hlt : (d + BitVec.ofNat 64 i - d).toNat < (List.replicate n b).length := by
      rwa [hoff, toNat_ofNat (by omega), List.length_replicate]
    rw [store_of_mem hlt, List.getD_eq_getElem _ _ hlt, List.getElem_replicate]
  · intro x hx
    refine store_of_not_mem ?_
    rw [List.length_replicate]
    by_contra hlt
    refine hx (x - d).toNat (by omega) ?_
    rw [BitVec.ofNat_toNat, BitVec.setWidth_eq, add_sub_cancel]

/-- The ranges do not go around the end of the address space, and do not overlap, or the destination
is below the source. -/
structure Copyable (d s : Word) (n : ℕ) : Prop where
  fits_dst : d.toNat + n ≤ 2 ^ 64
  fits_src : s.toNat + n ≤ 2 ^ 64
  apart : (d.toNat + n ≤ s.toNat ∨ s.toNat + n ≤ d.toNat) ∨ d.toNat < s.toNat

theorem Copyable.up {s : Word} (h : Copyable d s n) (hn : n < 2 ^ 64) : Up d s n := by
  refine ⟨?_, h.fits_dst, h.fits_src, hn⟩
  have hapart := h.apart
  omega

/-- **Assembly and C agree** on `memset` and `memcpy`: both versions return the destination, with the
same memory. That has the low byte of the second argument in all of the range, or the bytes of the
source, and is unchanged elsewhere. -/
theorem memset_memcpy_agree (u : State) :
    (∃ t, Returns stringEnv stringCode .memset u .ret t ∧
      memsetC (u.get a0) ((u.get a1).setWidth 32) (u.get a2).toNat u.mem =
        some (t.get a0, t.mem) ∧
      t.get a0 = u.get a0 ∧
      FilledWith u.mem t.mem (u.get a0) (lowByte (u.get a1)) (u.get a2).toNat) ∧
    (Copyable (u.get a0) (u.get a1) (u.get a2).toNat →
      ∃ t, Returns stringEnv stringCode .memcpy u .ret t ∧
        memcpyC (u.get a0) (u.get a1) (u.get a2).toNat u.mem = some (t.get a0, t.mem) ∧
        t.get a0 = u.get a0 ∧
        MovedTo u.mem t.mem (u.get a0) (u.get a1) (u.get a2).toNat) := by
  have hn := (u.get a2).isLt
  constructor
  · obtain ⟨t, ht, hret, hmem⟩ := memset_stores u
    have hlow : UInt8.ofBitVec (((u.get a1).setWidth 32).setWidth 8) = lowByte (u.get a1) := by
      rw [BitVec.setWidth_setWidth_of_le _ (by decide), lowByte]
    refine ⟨t, ht, ?_, hret, hmem ▸ filledWith_store hn⟩
    rw [memsetC_eq _ _ hn, hlow, hret, hmem]
  · intro hcopy
    have hup := hcopy.up hn
    obtain ⟨t, ht, hret, hmem⟩ := memcpy_moves hup
    refine ⟨t, ht, ?_, hret, hmem ▸ movedTo_copied hn⟩
    rw [memcpyC_eq hup, hret, hmem]

/-- A copy of 77 bytes behind the source. -/
def behind : State :=
  ⟨fun r => if r = a0 then 0x2003 else if r = a1 then 0x1003 else if r = a2 then 77 else 0,
    fun _ => 0, 0, fun _ => 0, fun x => UInt8.ofNat x.toNat⟩

theorem memset_memcpy_agree_behind :
    (∃ t, Returns stringEnv stringCode .memset behind .ret t ∧
      FilledWith behind.mem t.mem 0x2003 3 77) ∧
    ∃ t, Returns stringEnv stringCode .memcpy behind .ret t ∧
      MovedTo behind.mem t.mem 0x2003 0x1003 77 := by
  obtain ⟨⟨t, ht, -, -, hfilled⟩, hcpy⟩ := memset_memcpy_agree behind
  obtain ⟨t', ht', -, -, hmoved⟩ := hcpy ⟨by decide, by decide, by decide⟩
  exact ⟨⟨t, ht, hfilled⟩, t', ht', hmoved⟩

end RvvmHal.Strings
