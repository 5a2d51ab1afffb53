import RvvmHal.Strings.Assembly

/-!
# memcpy and memmove move bytes

Both copies of `string_asm.S` keep their invariant. `UpInv` and `DownInv` say how far a copy has
come: all but the last, or the first, `r` bytes have been copied. A round loads all its bytes before
it stores the first, so it extends the copy also where the ranges overlap.
-/

namespace RvvmHal.Strings

open Riscv Memory64

variable {m : Mem} {d s : Word} {n i j r w : ℕ} {u u' : State}

/-! ## Places in the ranges -/

/-- The place that a copy has come to is aligned, in both ranges. -/
def AlignedAt (d s : Word) (i : ℕ) : Prop :=
  (d + BitVec.ofNat 64 i).toNat % 8 = 0 ∧ (s + BitVec.ofNat 64 i).toNat % 8 = 0

theorem AlignedAt.shift (h : AlignedAt d s i) (hij : i % 8 = j % 8) : AlignedAt d s j := by
  obtain ⟨hd, hs⟩ := h
  rw [toNat_add_mod_eight] at hd hs
  unfold AlignedAt
  rw [toNat_add_mod_eight, toNat_add_mod_eight]
  omega

theorem alignedAt_iff (hmod : d.toNat % 8 = s.toNat % 8) :
    AlignedAt d s i ↔ (d + BitVec.ofNat 64 i) &&& 7 = 0 := by
  unfold AlignedAt
  rw [and_seven_eq_zero, toNat_add_mod_eight, toNat_add_mod_eight]
  omega

/-! ## Copies upwards -/

/-- The ranges of a copy upwards, which reads nothing that it has written. -/
structure Up (d s : Word) (n : ℕ) : Prop where
  apart : d.toNat ≤ s.toNat ∨ s.toNat + n ≤ d.toNat
  fits_dst : d.toNat + n ≤ 2 ^ 64
  fits : s.toNat + n ≤ 2 ^ 64
  lt : n < 2 ^ 64

/-- A copy towards lower addresses. -/
theorem Up.of_le (hle : d.toNat ≤ s.toNat) (hs : s.toNat + n ≤ 2 ^ 64) (hn : n < 2 ^ 64) :
    Up d s n :=
  ⟨.inl hle, by omega, hs, hn⟩

/-- A round of a copy upwards. -/
theorem Up.copied_add (hup : Up d s n) (hij : i + j ≤ n) :
    copied (copied m d s 0 i) (d + BitVec.ofNat 64 i) (s + BitVec.ofNat 64 i) 0 j =
      copied m d s 0 (i + j) := by
  have hd := hup.fits_dst
  have hs := hup.fits
  exact copied_up (hup.apart.imp_right fun h => by omega) (by omega) (by omega)

/-- All but the last `r` bytes have been copied upwards. -/
structure UpInv (m : Mem) (d s : Word) (n r : ℕ) (u : State) : Prop where
  le : r ≤ n
  dst : u.get t0 = d + BitVec.ofNat 64 (n - r)
  src : u.get t1 = s + BitVec.ofNat 64 (n - r)
  len : u.get a2 = BitVec.ofNat 64 r
  ret : u.get a0 = d
  mem : u.mem = copied m d s 0 (n - r)

/-- What a round upwards does: `w` bytes are copied. -/
structure MovedUp (w : ℕ) (u u' : State) : Prop where
  dst : u'.get t0 = u.get t0 + BitVec.ofNat 64 w
  src : u'.get t1 = u.get t1 + BitVec.ofNat 64 w
  len : u'.get a2 = u.get a2 + -BitVec.ofNat 64 w
  ret : u'.get a0 = u.get a0
  chunk : u'.get t6 = u.get t6
  mem : u'.mem = copied u.mem (u.get t0) (u.get t1) 0 w

/-- **A round upwards.** -/
theorem UpInv.advance (hup : Up d s n) (h : UpInv m d s n r u) (hw : w ≤ r)
    (hm : MovedUp w u u') : UpInv m d s n (r - w) u' := by
  have hle := h.le
  have hplace : n - (r - w) = n - r + w := by omega
  refine ⟨by omega, ?_, ?_, ?_, hm.ret.trans h.ret, ?_⟩
  · rw [hm.dst, h.dst, offset_add, hplace]
  · rw [hm.src, h.src, offset_add, hplace]
  · rw [hm.len, h.len, ofNat_sub hw]
  · rw [hm.mem, h.mem, h.dst, h.src, hup.copied_add (by omega), hplace]

theorem exec_cpyByteloop (hne : ¬ u.get a2 = u.get 0) :
    ∃ u', exec stringEnv (stringCode .cpyByteloop) u = some (.goto .cpyByteloop, u') ∧
      MovedUp 1 u u' := by
  rw [stringCode, exec, if_neg hne, exec, exec, exec, exec, exec, exec]
  refine ⟨_, rfl, rfl, rfl, rfl, rfl, rfl, ?_⟩
  simp +decide only [State.mem_set, State.mem_withMem, State.get_set, if_true, if_false, add_zero]
  exact move_byte

theorem exec_cpy1 (hne : ¬ u.get a2 = u.get 0) (hmis : ¬ u.get t0 &&& 7 = 0) :
    ∃ u', exec stringEnv (stringCode .cpy1) u = some (.goto .cpy1, u') ∧ MovedUp 1 u u' := by
  have hmis' : ¬ (u.set t2 (u.get t0 &&& 7)).get t2 = (u.set t2 (u.get t0 &&& 7)).get 0 := hmis
  rw [stringCode, exec, if_neg hne, exec, exec, if_neg hmis', exec, exec, exec, exec, exec, exec]
  refine ⟨_, rfl, rfl, rfl, rfl, rfl, rfl, ?_⟩
  simp +decide only [State.mem_set, State.mem_withMem, State.get_set, if_true, if_false, add_zero]
  exact move_byte

theorem exec_cpy3 (hd : (u.get t0).toNat % 8 = 0) (hs : (u.get t1).toNat % 8 = 0) :
    ∃ u', exec stringEnv (stringCode .cpy3) u =
      exec stringEnv [.bgeu a2 t6 .cpy3, .fall .cpy4] u' ∧ MovedUp 32 u u' := by
  have hd' : ∀ i, i % 8 = 0 → ¬ stringEnv.Faults (u.get t0 + BitVec.ofNat 64 i) :=
    fun i => not_faults hd
  have hs' : ∀ i, i % 8 = 0 → ¬ stringEnv.Faults (u.get t1 + BitVec.ofNat 64 i) :=
    fun i => not_faults hs
  rw [stringCode]
  refine ⟨?_, ?_, ?_⟩
  rotate_left
  · refine Eq.trans (exec_ld (a := u.get t1) rfl (hs' 0 rfl)) ?_
    refine Eq.trans (exec_ld (a := u.get t1) rfl (hs' 8 rfl)) ?_
    refine Eq.trans (exec_ld (a := u.get t1) rfl (hs' 16 rfl)) ?_
    refine Eq.trans (exec_ld (a := u.get t1) rfl (hs' 24 rfl)) ?_
    refine Eq.trans
      (exec_sd (a := u.get t0) (v := load64 u.mem (u.get t1 + 0)) rfl rfl (hd' 0 rfl)) ?_
    refine Eq.trans
      (exec_sd (a := u.get t0) (v := load64 u.mem (u.get t1 + 8)) rfl rfl (hd' 8 rfl)) ?_
    refine Eq.trans
      (exec_sd (a := u.get t0) (v := load64 u.mem (u.get t1 + 16)) rfl rfl (hd' 16 rfl)) ?_
    refine Eq.trans
      (exec_sd (a := u.get t0) (v := load64 u.mem (u.get t1 + 24)) rfl rfl (hd' 24 rfl)) ?_
    rw [exec, exec, exec]
  · refine ⟨rfl, rfl, rfl, rfl, rfl, ?_⟩
    rw [← move64_up]
    rfl

theorem exec_cpy5 (hd : (u.get t0).toNat % 8 = 0) (hs : (u.get t1).toNat % 8 = 0) :
    ∃ u', exec stringEnv (stringCode .cpy5) u =
      exec stringEnv [.bgeu a2 t6 .cpy5, .fall .cpy6] u' ∧ MovedUp 8 u u' := by
  have hd₀ := not_faults (i := 0) hd rfl
  have hs₀ := not_faults (i := 0) hs rfl
  rw [stringCode]
  refine ⟨?_, ?_, ?_⟩
  rotate_left
  · refine Eq.trans (exec_ld (a := u.get t1) rfl hs₀) ?_
    refine Eq.trans (exec_sd (a := u.get t0) (v := load64 u.mem (u.get t1 + 0)) rfl rfl hd₀) ?_
    rw [exec, exec, exec]
  · refine ⟨rfl, rfl, rfl, rfl, rfl, ?_⟩
    simp +decide only [State.mem_set, State.mem_withMem, add_zero]
    rw [store64_load64, store_bytes]

theorem byteCopy_memcpy (hup : Up d s n) : ByteCopy memcpyLabels (UpInv m d s n) where
  lt := fun h => Nat.lt_of_le_of_lt h.le hup.lt
  len := fun h => h.len
  byte_code := ⟨_, rfl⟩
  done_code := rfl
  byte := fun h hne => by
    obtain ⟨u', hexec, hm⟩ := exec_cpyByteloop hne
    exact ⟨u', hexec, h.advance hup (w := 1) (by omega) hm⟩

/-- **`memcpy` copies upwards.** -/
theorem copy_memcpy (hup : Up d s n) (hmod : d.toNat % 8 = s.toNat % 8) :
    Copy memcpyLabels (UpInv m d s n) fun r => r ≤ n ∧ AlignedAt d s (n - r) where
  toByteCopy := byteCopy_memcpy hup
  congr := fun h hs => ⟨h.le, hs.dst.trans h.dst, hs.src.trans h.src, hs.len.trans h.len,
    hs.ret.trans h.ret, hs.mem.trans h.mem⟩
  al_iff := fun h => by
    rw [h.dst, ← alignedAt_iff hmod]
    exact and_iff_right h.le
  al_sub := fun ⟨hr, hal⟩ hw hwr => ⟨by omega, hal.shift (by omega)⟩
  head_code := ⟨_, rfl⟩
  chunks_code := rfl
  words_code := rfl
  rest_code := rfl
  head := fun h hne hmis => by
    obtain ⟨u', hexec, hm⟩ := exec_cpy1 hne hmis
    exact ⟨u', hexec, h.advance hup (w := 1) (by omega) hm⟩
  chunk := fun {r u} h h₆ hal hr => by
    obtain ⟨u', hexec, hm⟩ := exec_cpy3 (u := u) (by rw [h.dst]; exact hal.2.1)
      (by rw [h.src]; exact hal.2.2)
    have hadv := h.advance hup hr hm
    have h₆' : u'.get t6 = 32 := hm.chunk.trans h₆
    have hlt := Nat.lt_of_le_of_lt hadv.le hup.lt
    exact ⟨u', hexec.trans (exec_bgeu hadv.len hlt (by rw [h₆']; rfl)), hadv, h₆'⟩
  word := fun {r u} h h₆ hal hr => by
    obtain ⟨u', hexec, hm⟩ := exec_cpy5 (u := u) (by rw [h.dst]; exact hal.2.1)
      (by rw [h.src]; exact hal.2.2)
    have hadv := h.advance hup hr hm
    have h₆' : u'.get t6 = 8 := hm.chunk.trans h₆
    have hlt := Nat.lt_of_le_of_lt hadv.le hup.lt
    exact ⟨u', hexec.trans (exec_bgeu hadv.len hlt (by rw [h₆']; rfl)), hadv, h₆'⟩

/-! ## Copies downwards -/

/-- The ranges of a copy downwards. -/
structure Down (d s : Word) (n : ℕ) : Prop where
  le : s.toNat ≤ d.toNat
  fits : d.toNat + n ≤ 2 ^ 64
  lt : n < 2 ^ 64

/-- All but the first `r` bytes have been copied downwards. -/
structure DownInv (m : Mem) (d s : Word) (n r : ℕ) (u : State) : Prop where
  le : r ≤ n
  dst : u.get t0 = d + BitVec.ofNat 64 r
  src : u.get t1 = s + BitVec.ofNat 64 r
  len : u.get a2 = BitVec.ofNat 64 r
  ret : u.get a0 = d
  mem : u.mem = copied m d s r n

/-- What a round downwards does: `w` bytes are copied. -/
structure MovedDown (w : ℕ) (u u' : State) : Prop where
  dst : u'.get t0 = u.get t0 + -BitVec.ofNat 64 w
  src : u'.get t1 = u.get t1 + -BitVec.ofNat 64 w
  len : u'.get a2 = u.get a2 + -BitVec.ofNat 64 w
  ret : u'.get a0 = u.get a0
  chunk : u'.get t6 = u.get t6
  mem : u'.mem = copied u.mem (u.get t0 + -BitVec.ofNat 64 w) (u.get t1 + -BitVec.ofNat 64 w) 0 w

/-- **A round downwards.** -/
theorem DownInv.advance (hdown : Down d s n) (h : DownInv m d s n r u) (hw : w ≤ r)
    (hm : MovedDown w u u') : DownInv m d s n (r - w) u' := by
  have hle := h.le
  refine ⟨by omega, ?_, ?_, ?_, hm.ret.trans h.ret, ?_⟩
  · rw [hm.dst, h.dst, offset_sub d hw]
  · rw [hm.src, h.src, offset_sub s hw]
  · rw [hm.len, h.len, ofNat_sub hw]
  · have hcopy := copied_down (m := m) (k := r - w) (w := w) hdown.le hdown.fits (by omega)
    rw [Nat.sub_add_cancel hw] at hcopy
    rw [hm.mem, h.mem, h.dst, h.src, offset_sub d hw, offset_sub s hw, hcopy]

/-- Below an aligned place the next one is aligned. -/
theorem DownInv.aligned (h : DownInv m d s n r u) (hal : AlignedAt d s r) (hw : w ≤ r)
    (hw8 : w % 8 = 0) :
    (u.get t0 + -BitVec.ofNat 64 w).toNat % 8 = 0 ∧
      (u.get t1 + -BitVec.ofNat 64 w).toNat % 8 = 0 := by
  rw [h.dst, h.src, offset_sub d hw, offset_sub s hw]
  exact hal.shift (by omega)

theorem exec_moveByteloop (hne : ¬ u.get a2 = u.get 0) :
    ∃ u', exec stringEnv (stringCode .moveByteloop) u = some (.goto .moveByteloop, u') ∧
      MovedDown 1 u u' := by
  rw [stringCode, exec, if_neg hne, exec, exec, exec, exec, exec, exec]
  refine ⟨_, rfl, rfl, rfl, rfl, rfl, rfl, ?_⟩
  simp +decide only [State.mem_set, State.mem_withMem, State.get_set, if_true, if_false, add_zero]
  exact move_byte

theorem exec_move1 (hne : ¬ u.get a2 = u.get 0) (hmis : ¬ u.get t0 &&& 7 = 0) :
    ∃ u', exec stringEnv (stringCode .move1) u = some (.goto .move1, u') ∧ MovedDown 1 u u' := by
  have hmis' : ¬ (u.set t2 (u.get t0 &&& 7)).get t2 = (u.set t2 (u.get t0 &&& 7)).get 0 := hmis
  rw [stringCode, exec, if_neg hne, exec, exec, if_neg hmis', exec, exec, exec, exec, exec, exec]
  refine ⟨_, rfl, rfl, rfl, rfl, rfl, rfl, ?_⟩
  simp +decide only [State.mem_set, State.mem_withMem, State.get_set, if_true, if_false, add_zero]
  exact move_byte

theorem exec_move3 (hd : (u.get t0 + -32).toNat % 8 = 0) (hs : (u.get t1 + -32).toNat % 8 = 0) :
    ∃ u', exec stringEnv (stringCode .move3) u =
      exec stringEnv [.bgeu a2 t6 .move3, .fall .move4] u' ∧ MovedDown 32 u u' := by
  have hd' : ∀ i, i % 8 = 0 → ¬ stringEnv.Faults (u.get t0 + -32 + BitVec.ofNat 64 i) :=
    fun i => not_faults hd
  have hs' : ∀ i, i % 8 = 0 → ¬ stringEnv.Faults (u.get t1 + -32 + BitVec.ofNat 64 i) :=
    fun i => not_faults hs
  rw [stringCode, exec, exec]
  refine ⟨?_, ?_, ?_⟩
  rotate_left
  · refine Eq.trans (exec_ld (a := u.get t1 + -32) rfl (hs' 24 rfl)) ?_
    refine Eq.trans (exec_ld (a := u.get t1 + -32) rfl (hs' 16 rfl)) ?_
    refine Eq.trans (exec_ld (a := u.get t1 + -32) rfl (hs' 8 rfl)) ?_
    refine Eq.trans (exec_ld (a := u.get t1 + -32) rfl (hs' 0 rfl)) ?_
    refine Eq.trans (exec_sd (a := u.get t0 + -32) (v := load64 u.mem (u.get t1 + -32 + 24)) rfl rfl
      (hd' 24 rfl)) ?_
    refine Eq.trans (exec_sd (a := u.get t0 + -32) (v := load64 u.mem (u.get t1 + -32 + 16)) rfl rfl
      (hd' 16 rfl)) ?_
    refine Eq.trans (exec_sd (a := u.get t0 + -32) (v := load64 u.mem (u.get t1 + -32 + 8)) rfl rfl
      (hd' 8 rfl)) ?_
    refine Eq.trans (exec_sd (a := u.get t0 + -32) (v := load64 u.mem (u.get t1 + -32 + 0)) rfl rfl
      (hd' 0 rfl)) ?_
    rw [exec]
  · refine ⟨rfl, rfl, rfl, rfl, rfl, ?_⟩
    rw [← move64_down]
    rfl

theorem exec_move5 (hd : (u.get t0 + -8).toNat % 8 = 0) (hs : (u.get t1 + -8).toNat % 8 = 0) :
    ∃ u', exec stringEnv (stringCode .move5) u =
      exec stringEnv [.bgeu a2 t6 .move5, .fall .move6] u' ∧ MovedDown 8 u u' := by
  have hd₀ := not_faults (i := 0) hd rfl
  have hs₀ := not_faults (i := 0) hs rfl
  rw [stringCode, exec, exec]
  refine ⟨?_, ?_, ?_⟩
  rotate_left
  · refine Eq.trans (exec_ld (a := u.get t1 + -8) rfl hs₀) ?_
    refine Eq.trans
      (exec_sd (a := u.get t0 + -8) (v := load64 u.mem (u.get t1 + -8 + 0)) rfl rfl hd₀) ?_
    rw [exec]
  · refine ⟨rfl, rfl, rfl, rfl, rfl, ?_⟩
    simp +decide only [State.mem_set, State.mem_withMem, add_zero]
    rw [store64_load64, store_bytes]
    rfl

theorem byteCopy_memmove (hdown : Down d s n) : ByteCopy memmoveLabels (DownInv m d s n) where
  lt := fun h => Nat.lt_of_le_of_lt h.le hdown.lt
  len := fun h => h.len
  byte_code := ⟨_, rfl⟩
  done_code := rfl
  byte := fun h hne => by
    obtain ⟨u', hexec, hm⟩ := exec_moveByteloop hne
    exact ⟨u', hexec, h.advance hdown (w := 1) (by omega) hm⟩

/-- **`memmove` copies downwards.** -/
theorem copy_memmove (hdown : Down d s n) (hmod : d.toNat % 8 = s.toNat % 8) :
    Copy memmoveLabels (DownInv m d s n) (AlignedAt d s) where
  toByteCopy := byteCopy_memmove hdown
  congr := fun h hs => ⟨h.le, hs.dst.trans h.dst, hs.src.trans h.src, hs.len.trans h.len,
    hs.ret.trans h.ret, hs.mem.trans h.mem⟩
  al_iff := fun h => by rw [h.dst, ← alignedAt_iff hmod]
  al_sub := fun hal hw hwr => hal.shift (by omega)
  head_code := ⟨_, rfl⟩
  chunks_code := rfl
  words_code := rfl
  rest_code := rfl
  head := fun h hne hmis => by
    obtain ⟨u', hexec, hm⟩ := exec_move1 hne hmis
    exact ⟨u', hexec, h.advance hdown (w := 1) (by omega) hm⟩
  chunk := fun {r u} h h₆ hal hr => by
    obtain ⟨hd, hs⟩ := h.aligned hal hr rfl
    obtain ⟨u', hexec, hm⟩ := exec_move3 hd hs
    have hadv := h.advance hdown hr hm
    have h₆' : u'.get t6 = 32 := hm.chunk.trans h₆
    have hlt := Nat.lt_of_le_of_lt hadv.le hdown.lt
    exact ⟨u', hexec.trans (exec_bgeu hadv.len hlt (by rw [h₆']; rfl)), hadv, h₆'⟩
  word := fun {r u} h h₆ hal hr => by
    obtain ⟨hd, hs⟩ := h.aligned hal hr rfl
    obtain ⟨u', hexec, hm⟩ := exec_move5 hd hs
    have hadv := h.advance hdown hr hm
    have h₆' : u'.get t6 = 8 := hm.chunk.trans h₆
    have hlt := Nat.lt_of_le_of_lt hadv.le hdown.lt
    exact ⟨u', hexec.trans (exec_bgeu hadv.len hlt (by rw [h₆']; rfl)), hadv, h₆'⟩

/-! ## From the beginning -/

/-- A copy that returns. -/
def Moves (l : Label) (u : State) : Prop :=
  ∃ t, Returns stringEnv stringCode l u .ret t ∧ t.get a0 = u.get a0 ∧
    t.mem = copied u.mem (u.get a0) (u.get a1) 0 (u.get a2).toNat

/-- Both ends of the copy that is to be made. -/
structure Begins (dst src : Word) (u u' : State) : Prop where
  dst : u'.get t0 = dst
  src : u'.get t1 = src
  len : u'.get a2 = u.get a2
  ret : u'.get a0 = u.get a0
  mem : u'.mem = u.mem

/-- The branch to the loop of bytes. -/
theorem exec_bnez {l l' : Label} {v : Word} (hv : u.get t2 = v) :
    exec stringEnv [.bnez t2 l, .fall l'] u = some (.goto (if v = 0 then l' else l), u) := by
  rw [exec, hv, State.get_zero]
  by_cases h : v = 0
  · rw [if_neg (not_not.2 h), if_pos h, exec]
  · rw [if_pos h, if_neg h]

theorem exec_memcpy (u : State) :
    Goes .memcpy (if (u.get a0).toNat % 8 = (u.get a1).toNat % 8 then .cpy1 else .cpyByteloop) u
      (Begins (u.get a0) (u.get a1) u) := by
  have hzero : ((u.get a0 + 0) ^^^ (u.get a1 + 0)) &&& 7 = 0 ↔
      (u.get a0).toNat % 8 = (u.get a1).toNat % 8 := by
    rw [add_zero, add_zero, xor_and_seven]
  have hbegin : ∀ v w, Begins (u.get a0) (u.get a1) u
      ((((u.set t0 (u.get a0 + 0)).set t1 (u.get a1 + 0)).set t2 v).set t2 w) :=
    fun v w => ⟨add_zero _, add_zero _, rfl, rfl, rfl⟩
  refine ⟨_, ?_, hbegin ((u.get a0 + 0) ^^^ (u.get a1 + 0))
    (((u.get a0 + 0) ^^^ (u.get a1 + 0)) &&& 7)⟩
  rw [stringCode, exec, exec, exec, exec]
  refine (exec_bnez (v := ((u.get a0 + 0) ^^^ (u.get a1 + 0)) &&& 7) rfl).trans ?_
  simp only [hzero]
  rfl

theorem UpInv.start (h : Begins (u.get a0) (u.get a1) u u') :
    UpInv u.mem (u.get a0) (u.get a1) (u.get a2).toNat (u.get a2).toNat u' := by
  refine ⟨Nat.le_refl _, ?_, ?_, ?_, h.ret, ?_⟩
  · rw [Nat.sub_self, BitVec.add_zero, h.dst]
  · rw [Nat.sub_self, BitVec.add_zero, h.src]
  · rw [BitVec.ofNat_toNat, BitVec.setWidth_eq, h.len]
  · rw [Nat.sub_self, copied_self, h.mem]

/-- **`memcpy`**, towards lower addresses or behind the source. -/
theorem memcpy_moves (hup : Up (u.get a0) (u.get a1) (u.get a2).toNat) : Moves .memcpy u := by
  have hfin : Finishes (UpInv u.mem (u.get a0) (u.get a1) (u.get a2).toNat) .memcpy u := by
    refine (exec_memcpy u).finishes fun u' hu' => ?_
    by_cases hmod : (u.get a0).toNat % 8 = (u.get a1).toNat % 8
    · rw [if_pos hmod]
      exact (copy_memcpy hup hmod).finishes_head (.start hu')
    · rw [if_neg hmod]
      exact (byteCopy_memcpy hup).finishes_byte (.start hu')
  obtain ⟨t, ht, hinv⟩ := hfin
  exact ⟨t, ht, hinv.ret, hinv.mem⟩

/-- A copy of nothing, or to where the bytes are. -/
theorem copied_trivial (h : d = s ∨ n = 0) : copied m d s 0 n = m := by
  rcases h with rfl | rfl
  · funext x
    unfold copied
    rw [add_sub_cancel]
    exact ite_self _
  · exact copied_self

theorem exec_memmove_done (h : u.get a0 = u.get a1 ∨ u.get a2 = 0) :
    exec stringEnv (stringCode .memmove) u = some (.goto .moveDone, u) := by
  rw [stringCode, exec]
  by_cases heq : u.get a0 = u.get a1
  · rw [if_pos heq]
  · rw [if_neg heq, exec, State.get_zero, if_pos (h.resolve_left heq)]

theorem exec_memmove_up (hne : u.get a0 ≠ u.get a1) (hn : u.get a2 ≠ 0)
    (hlt : (u.get a0).toNat < (u.get a1).toNat) :
    exec stringEnv (stringCode .memmove) u = some (.goto .memcpy, u) := by
  rw [stringCode, exec, if_neg hne, exec, State.get_zero, if_neg hn, exec, if_pos hlt]

theorem exec_memmove_down (hne : u.get a0 ≠ u.get a1) (hn : u.get a2 ≠ 0)
    (hlt : ¬ (u.get a0).toNat < (u.get a1).toNat) :
    Goes .memmove (if (u.get a0).toNat % 8 = (u.get a1).toNat % 8 then .move1 else .moveByteloop) u
      (Begins (u.get a0 + u.get a2) (u.get a1 + u.get a2) u) := by
  have hzero : ((u.get a0 + u.get a2) ^^^ (u.get a1 + u.get a2)) &&& 7 = 0 ↔
      (u.get a0).toNat % 8 = (u.get a1).toNat % 8 := by
    rw [xor_and_seven, BitVec.toNat_add, BitVec.toNat_add]
    omega
  have hbegin : ∀ v w, Begins (u.get a0 + u.get a2) (u.get a1 + u.get a2) u
      ((((u.set t0 (u.get a0 + u.get a2)).set t1 (u.get a1 + u.get a2)).set t2 v).set t2 w) :=
    fun v w => ⟨rfl, rfl, rfl, rfl, rfl⟩
  refine ⟨_, ?_, hbegin ((u.get a0 + u.get a2) ^^^ (u.get a1 + u.get a2))
    (((u.get a0 + u.get a2) ^^^ (u.get a1 + u.get a2)) &&& 7)⟩
  rw [stringCode, exec, if_neg hne, exec, State.get_zero, if_neg hn, exec, if_neg hlt, exec, exec,
    exec, exec]
  refine (exec_bnez (v := ((u.get a0 + u.get a2) ^^^ (u.get a1 + u.get a2)) &&& 7) rfl).trans ?_
  simp only [hzero]
  rfl

theorem DownInv.start (h : Begins (u.get a0 + u.get a2) (u.get a1 + u.get a2) u u') :
    DownInv u.mem (u.get a0) (u.get a1) (u.get a2).toNat (u.get a2).toNat u' := by
  have hlen : BitVec.ofNat 64 (u.get a2).toNat = u.get a2 := by
    rw [BitVec.ofNat_toNat, BitVec.setWidth_eq]
  refine ⟨Nat.le_refl _, ?_, ?_, ?_, h.ret, ?_⟩
  · rw [hlen, h.dst]
  · rw [hlen, h.src]
  · rw [hlen, h.len]
  · rw [copied_self, h.mem]

/-- **`memmove` in assembly**: it returns the destination, with the bytes of the source moved there
and no other byte changed. No doubleword access is misaligned. -/
theorem memmove_moves (hd : (u.get a0).toNat + (u.get a2).toNat ≤ 2 ^ 64)
    (hs : (u.get a1).toNat + (u.get a2).toNat ≤ 2 ^ 64) : Moves .memmove u := by
  by_cases htriv : u.get a0 = u.get a1 ∨ u.get a2 = 0
  · refine ⟨u, .goto (exec_memmove_done htriv) (.leave rfl), rfl, (copied_trivial ?_).symm⟩
    exact htriv.imp_right fun h => by rw [h]; rfl
  · obtain ⟨hne, hn⟩ := not_or.1 htriv
    have hne' : (u.get a0).toNat ≠ (u.get a1).toNat := fun h => hne (BitVec.eq_of_toNat_eq h)
    by_cases hlt : (u.get a0).toNat < (u.get a1).toNat
    · obtain ⟨t, ht, hret, hmem⟩ := memcpy_moves (.of_le hlt.le hs (u.get a2).isLt)
      exact ⟨t, .goto (exec_memmove_up hne hn hlt) ht, hret, hmem⟩
    · have hdown : Down (u.get a0) (u.get a1) (u.get a2).toNat :=
        ⟨by omega, hd, (u.get a2).isLt⟩
      have hfin : Finishes (DownInv u.mem (u.get a0) (u.get a1) (u.get a2).toNat) .memmove u := by
        refine (exec_memmove_down hne hn hlt).finishes fun u' hu' => ?_
        by_cases hmod : (u.get a0).toNat % 8 = (u.get a1).toNat % 8
        · rw [if_pos hmod]
          exact (copy_memmove hdown hmod).finishes_head (.start hu')
        · rw [if_neg hmod]
          exact (byteCopy_memmove hdown).finishes_byte (.start hu')
      obtain ⟨t, ht, hinv⟩ := hfin
      exact ⟨t, ht, hinv.ret, hinv.mem⟩

end RvvmHal.Strings
