import Mathlib.Tactic.IntervalCases
import RvvmHal.Strings.Memmove

/-!
# memcpy and memmove in C

`string.c`, with the loops of both directions given by what they do with a byte and with a
doubleword. A doubleword that is not aligned is not accessed: then the function has no result.
-/

namespace RvvmHal.Strings

open Riscv Memory64

/-! ## The loops -/

/-- The variables `d` and `s`, and memory. -/
structure Cursor where
  d : Word
  s : Word
  mem : Mem

/-- `*d++ = *s++`. -/
def byteUp (c : Cursor) : Cursor := ⟨c.d + 1, c.s + 1, store c.mem c.d [c.mem c.s]⟩

/-- `*--d = *--s`. -/
def byteDown (c : Cursor) : Cursor := ⟨c.d - 1, c.s - 1, store c.mem (c.d - 1) [c.mem (c.s - 1)]⟩

/-- Both places may hold a doubleword. -/
def Cursor.Aligned (c : Cursor) : Prop := c.d.toNat % 8 = 0 ∧ c.s.toNat % 8 = 0

instance (c : Cursor) : Decidable c.Aligned := inferInstanceAs (Decidable (_ ∧ _))

/-- `*dw++ = *sw++`. -/
def wordUp (c : Cursor) : Option Cursor :=
  if c.Aligned then some ⟨c.d + 8, c.s + 8, store64 c.mem c.d (load64 c.mem c.s)⟩ else none

/-- `*--dw = *--sw`. -/
def wordDown (c : Cursor) : Option Cursor :=
  if Cursor.Aligned ⟨c.d - 8, c.s - 8, c.mem⟩ then
    some ⟨c.d - 8, c.s - 8, store64 c.mem (c.d - 8) (load64 c.mem (c.s - 8))⟩
  else none

/-- `while (n && ((uintptr_t)d & 7))`, with the byte moved in each round. -/
def headLoop (byte : Cursor → Cursor) : ℕ → Cursor → ℕ × Cursor
  | 0, c => (0, c)
  | n + 1, c => if c.d &&& 7 ≠ 0 then headLoop byte n (byte c) else (n + 1, c)

/-- `while (n >= 8)`, with the doubleword moved in each round. -/
def wordLoop (word : Cursor → Option Cursor) : ℕ → Cursor → Option (ℕ × Cursor)
  | n + 8, c => (word c).bind (wordLoop word n)
  | n, c => some (n, c)

/-- `while (n--)`, with the byte moved in each round. -/
def byteLoop (byte : Cursor → Cursor) : ℕ → Cursor → Cursor
  | 0, c => c
  | n + 1, c => byteLoop byte n (byte c)

/-- The loops of a copy: all of them when the two places share their alignment. -/
def copyLoops (byte : Cursor → Cursor) (word : Cursor → Option Cursor) (n : ℕ) (c : Cursor) :
    Option Cursor :=
  if (c.d ^^^ c.s) &&& 7 = 0 then
    (wordLoop word (headLoop byte n c).1 (headLoop byte n c).2).map fun r => byteLoop byte r.1 r.2
  else some (byteLoop byte n c)

/-- `memcpy`. -/
def memcpyC (dst src : Word) (n : ℕ) (m : Mem) : Option (Word × Mem) :=
  (copyLoops byteUp wordUp n ⟨dst, src, m⟩).map fun c => (dst, c.mem)

/-- `memmove`. -/
def memmoveC (dst src : Word) (n : ℕ) (m : Mem) : Option (Word × Mem) :=
  if dst = src ∨ n = 0 then some (dst, m)
  else if dst.toNat < src.toNat then memcpyC dst src n m
  else
    (copyLoops byteDown wordDown n ⟨dst + BitVec.ofNat 64 n, src + BitVec.ofNat 64 n, m⟩).map
      fun c => (dst, c.mem)

/-! ## Rounds -/

/-- A copy in C. `I r` is its invariant with `r` bytes left, and `Mod` says that source and
destination share their alignment. -/
structure CopyC (byte : Cursor → Cursor) (word : Cursor → Option Cursor)
    (I : ℕ → Cursor → Prop) (Mod : Prop) : Prop where
  byte : ∀ {r c}, I (r + 1) c → I r (byte c)
  word : ∀ {r c}, Mod → I (r + 8) c → c.d &&& 7 = 0 →
    ∃ c', word c = some c' ∧ I r c' ∧ c'.d &&& 7 = 0
  mod_iff : ∀ {r c}, I r c → ((c.d ^^^ c.s) &&& 7 = 0 ↔ Mod)

section

variable {byte : Cursor → Cursor} {word : Cursor → Option Cursor} {I : ℕ → Cursor → Prop}
  {Mod : Prop} {r : ℕ} {c : Cursor}

theorem byteLoop_keeps (hbyte : ∀ {r c}, I (r + 1) c → I r (byte c)) (h : I r c) :
    I 0 (byteLoop byte r c) := by
  induction r generalizing c with
  | zero => exact h
  | succ r ih => exact ih (hbyte h)

/-- **Bytes** up to an aligned place. -/
theorem headLoop_keeps (hbyte : ∀ {r c}, I (r + 1) c → I r (byte c)) (h : I r c) :
    I (headLoop byte r c).1 (headLoop byte r c).2 ∧
      ((headLoop byte r c).1 = 0 ∨ (headLoop byte r c).2.d &&& 7 = 0) := by
  induction r generalizing c with
  | zero => exact ⟨h, .inl rfl⟩
  | succ r ih =>
    rw [headLoop]
    by_cases hal : c.d &&& 7 = 0
    · rw [if_neg (not_not.2 hal)]
      exact ⟨h, .inr hal⟩
    · rw [if_pos hal]
      exact ih (hbyte h)

theorem wordLoop_of_lt (hr : r < 8) : wordLoop word r c = some (r, c) := by
  interval_cases r <;> rfl

/-- **Doublewords**, by induction on the bytes left. -/
theorem wordLoop_keeps (hword : ∀ {r c}, I (r + 8) c → c.d &&& 7 = 0 →
      ∃ c', word c = some c' ∧ I r c' ∧ c'.d &&& 7 = 0) (h : I r c)
    (hal : r = 0 ∨ c.d &&& 7 = 0) : ∃ p, wordLoop word r c = some p ∧ I p.1 p.2 := by
  induction r using Nat.strong_induction_on generalizing c with
  | _ r ih =>
    by_cases hr : r < 8
    · exact ⟨(r, c), wordLoop_of_lt hr, h⟩
    · obtain ⟨r, rfl⟩ := Nat.exists_eq_add_of_le' (Nat.not_lt.1 hr)
      obtain ⟨c', hc', h', hal'⟩ := hword h (hal.resolve_left (by omega))
      obtain ⟨p, hp, hI⟩ := ih r (by omega) h' (.inr hal')
      refine ⟨p, ?_, hI⟩
      rw [wordLoop, hc', Option.bind_some, hp]

/-- **All loops of a copy.** -/
theorem CopyC.copyLoops (hc : CopyC byte word I Mod) (h : I r c) :
    ∃ c', copyLoops byte word r c = some c' ∧ I 0 c' := by
  unfold Strings.copyLoops
  by_cases hmod : (c.d ^^^ c.s) &&& 7 = 0
  · obtain ⟨h', hal⟩ := headLoop_keeps hc.byte h
    obtain ⟨p, hp, hI⟩ := wordLoop_keeps (hc.word ((hc.mod_iff h).1 hmod)) h' hal
    refine ⟨byteLoop byte p.1 p.2, ?_, byteLoop_keeps hc.byte hI⟩
    rw [if_pos hmod, hp, Option.map_some]
  · exact ⟨_, if_neg hmod, byteLoop_keeps hc.byte h⟩

end

/-! ## Both directions -/

variable {m : Mem} {d s : Word} {n r : ℕ} {c : Cursor}

/-- All but the last `r` bytes have been copied upwards. -/
structure UpInvC (m : Mem) (d s : Word) (n r : ℕ) (c : Cursor) : Prop where
  le : r ≤ n
  dst : c.d = d + BitVec.ofNat 64 (n - r)
  src : c.s = s + BitVec.ofNat 64 (n - r)
  mem : c.mem = copied m d s 0 (n - r)

/-- All but the first `r` bytes have been copied downwards. -/
structure DownInvC (m : Mem) (d s : Word) (n r : ℕ) (c : Cursor) : Prop where
  le : r ≤ n
  dst : c.d = d + BitVec.ofNat 64 r
  src : c.s = s + BitVec.ofNat 64 r
  mem : c.mem = copied m d s r n

theorem UpInvC.advance (hup : Up d s n) {w : ℕ} (h : UpInvC m d s n (r + w) c) :
    UpInvC m d s n r
      ⟨c.d + BitVec.ofNat 64 w, c.s + BitVec.ofNat 64 w, copied c.mem c.d c.s 0 w⟩ := by
  have hle := h.le
  have hplace : n - r = n - (r + w) + w := by omega
  refine ⟨by omega, ?_, ?_, ?_⟩
  · rw [h.dst, offset_add, hplace]
  · rw [h.src, offset_add, hplace]
  · rw [h.mem, h.dst, h.src, hup.copied_add (by omega), hplace]

theorem DownInvC.advance (hdown : Down d s n) {w : ℕ} (h : DownInvC m d s n (r + w) c) :
    DownInvC m d s n r ⟨c.d - BitVec.ofNat 64 w, c.s - BitVec.ofNat 64 w,
      copied c.mem (c.d - BitVec.ofNat 64 w) (c.s - BitVec.ofNat 64 w) 0 w⟩ := by
  have hle := h.le
  have hback : ∀ x : Word,
      x + BitVec.ofNat 64 (r + w) - BitVec.ofNat 64 w = x + BitVec.ofNat 64 r := by
    intro x
    rw [← offset_add, add_sub_cancel_right]
  refine ⟨by omega, ?_, ?_, ?_⟩
  · rw [h.dst, hback]
  · rw [h.src, hback]
  · rw [h.mem, h.dst, h.src, hback, hback, copied_down hdown.le hdown.fits hle]

theorem store_byte {d s : Word} : store m d [m s] = copied m d s 0 1 := by
  rw [← store_bytes]
  congr 1
  simp [bytes]

/-- The places of a copy share their alignment throughout. -/
theorem mod_iff_places {x y : Word} (i : ℕ) (hx : x = d + BitVec.ofNat 64 i)
    (hy : y = s + BitVec.ofNat 64 i) :
    (x ^^^ y) &&& 7 = 0 ↔ d.toNat % 8 = s.toNat % 8 := by
  rw [xor_and_seven, hx, hy, toNat_add_mod_eight, toNat_add_mod_eight]
  omega

theorem copyC_up (hup : Up d s n) :
    CopyC byteUp wordUp (UpInvC m d s n) (d.toNat % 8 = s.toNat % 8) where
  byte := fun {r c} h => by
    rw [byteUp, store_byte]
    exact h.advance hup (w := 1)
  word := fun {r c} hmod h hal => by
    rw [and_seven_eq_zero] at hal
    have hal' : c.Aligned := by
      refine ⟨hal, ?_⟩
      rw [h.dst, toNat_add_mod_eight] at hal
      rw [h.src, toNat_add_mod_eight]
      omega
    refine ⟨_, if_pos hal', ?_, ?_⟩
    · rw [store64_load64, store_bytes]
      exact h.advance hup (w := 8)
    · have hnext := toNat_add_mod_eight c.d 8
      rw [and_seven_eq_zero]
      exact hnext.trans (by omega)
  mod_iff := fun h => mod_iff_places _ h.dst h.src

theorem copyC_down (hdown : Down d s n) :
    CopyC byteDown wordDown (DownInvC m d s n) (d.toNat % 8 = s.toNat % 8) where
  byte := fun {r c} h => by
    rw [byteDown, store_byte]
    exact h.advance hdown (w := 1)
  word := fun {r c} hmod h hal => by
    have hadv := h.advance hdown (w := 8)
    have hd := hadv.dst
    have hs := hadv.src
    dsimp only at hd hs
    rw [and_seven_eq_zero, h.dst, toNat_add_mod_eight] at hal
    have hdal : (c.d - 8).toNat % 8 = 0 := by
      refine (congrArg (fun x : Word => x.toNat % 8) hd).trans ?_
      rw [toNat_add_mod_eight]
      omega
    have hsal : (c.s - 8).toNat % 8 = 0 := by
      refine (congrArg (fun x : Word => x.toNat % 8) hs).trans ?_
      rw [toNat_add_mod_eight]
      omega
    refine ⟨_, if_pos ⟨hdal, hsal⟩, ?_, and_seven_eq_zero.2 hdal⟩
    rw [store64_load64, store_bytes]
    exact hadv
  mod_iff := fun h => mod_iff_places _ h.dst h.src

/-- **`memcpy` in C**, towards lower addresses or behind the source. -/
theorem memcpyC_eq (hup : Up d s n) : memcpyC d s n m = some (d, copied m d s 0 n) := by
  obtain ⟨c, hc, hinv⟩ := (copyC_up (m := m) hup).copyLoops (r := n) (c := ⟨d, s, m⟩)
    ⟨Nat.le_refl n, by rw [Nat.sub_self, BitVec.add_zero], by rw [Nat.sub_self, BitVec.add_zero],
      by rw [Nat.sub_self, copied_self]⟩
  rw [memcpyC, hc, Option.map_some, hinv.mem, Nat.sub_zero]

/-- **`memmove` in C.** -/
theorem memmoveC_eq (hd : d.toNat + n ≤ 2 ^ 64) (hs : s.toNat + n ≤ 2 ^ 64) :
    memmoveC d s n m = some (d, copied m d s 0 n) := by
  unfold memmoveC
  by_cases htriv : d = s ∨ n = 0
  · rw [if_pos htriv, copied_trivial htriv]
  · obtain ⟨hne, hn⟩ := not_or.1 htriv
    have hne' : d.toNat ≠ s.toNat := fun h => hne (BitVec.eq_of_toNat_eq h)
    rw [if_neg htriv]
    by_cases hlt : d.toNat < s.toNat
    · rw [if_pos hlt]
      exact memcpyC_eq (.of_le hlt.le hs (by omega))
    · have hdown : Down d s n := ⟨by omega, hd, by omega⟩
      obtain ⟨c, hc, hinv⟩ := (copyC_down (m := m) hdown).copyLoops (r := n)
        (c := ⟨d + BitVec.ofNat 64 n, s + BitVec.ofNat 64 n, m⟩)
        ⟨Nat.le_refl n, rfl, rfl, copied_self.symm⟩
      rw [if_neg hlt, hc, Option.map_some, hinv.mem]

/-! ## Main result -/

/-- The bytes of the source are moved to the destination, and no other byte is changed. -/
def MovedTo (m m' : Mem) (d s : Word) (n : ℕ) : Prop :=
  (∀ i < n, m' (d + BitVec.ofNat 64 i) = m (s + BitVec.ofNat 64 i)) ∧
    ∀ x, (∀ i < n, x ≠ d + BitVec.ofNat 64 i) → m' x = m x

theorem movedTo_copied (hn : n < 2 ^ 64) : MovedTo m (copied m d s 0 n) d s n :=
  ⟨fun i hi => copied_of_lt (Nat.zero_le i) hi (by omega),
    fun _ hx => copied_of_not_mem fun i _ => hx i⟩

/-- **`memmove` is an exact move for every overlap**, in assembly and in C: it returns the
destination, with the bytes of the source there, and changes nothing else. Where a doubleword that
is not aligned may not be accessed both return all the same. -/
theorem memmove_exact (u : State) (hd : (u.get a0).toNat + (u.get a2).toNat ≤ 2 ^ 64)
    (hs : (u.get a1).toNat + (u.get a2).toNat ≤ 2 ^ 64) :
    (∃ t, Returns stringEnv stringCode .memmove u .ret t ∧ t.get a0 = u.get a0 ∧
      MovedTo u.mem t.mem (u.get a0) (u.get a1) (u.get a2).toNat) ∧
    ∃ m', memmoveC (u.get a0) (u.get a1) (u.get a2).toNat u.mem = some (u.get a0, m') ∧
      MovedTo u.mem m' (u.get a0) (u.get a1) (u.get a2).toNat := by
  have hmoved : MovedTo u.mem _ (u.get a0) (u.get a1) (u.get a2).toNat :=
    movedTo_copied (u.get a2).isLt
  obtain ⟨t, ht, hret, hmem⟩ := memmove_moves hd hs
  exact ⟨⟨t, ht, hret, hmem ▸ hmoved⟩, _, memmoveC_eq hd hs, hmoved⟩

/-- A move of 40 bytes by 8 bytes upwards. -/
def overlapping : State :=
  ⟨fun r => if r = a0 then 0x1008 else if r = a1 then 0x1000 else if r = a2 then 40 else 0,
    fun _ => 0, 0, fun _ => 0, fun x => UInt8.ofNat x.toNat⟩

theorem memmove_exact_overlapping :
    ∃ t, Returns stringEnv stringCode .memmove overlapping .ret t ∧
      MovedTo overlapping.mem t.mem 0x1008 0x1000 40 := by
  obtain ⟨⟨t, ht, -, hmoved⟩, -⟩ := memmove_exact overlapping (by decide) (by decide)
  exact ⟨t, ht, hmoved⟩

end RvvmHal.Strings
