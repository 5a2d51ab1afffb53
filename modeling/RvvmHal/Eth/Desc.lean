import RvvmHal.Foundations.Bytes
import RvvmHal.Foundations.Cyclic

/-!
# Descriptors

The descriptor format that the driver and the device share: ownership, the end-of-ring flag and
the length in one word, and the address of a buffer. The words that either side stores are built
from the same flags, and what the other side reads back from them is collected here.
-/

namespace RvvmHal.Eth

open Bytes

/-- `ETH_RING_DEPTH`. -/
abbrev ringDepth : ℕ := 16

/-- `ETH_BUFFER_SIZE`. -/
abbrev bufferSize : ℕ := 2048

/-- `DESC_OWN`. -/
abbrev descOwn : ℕ := 0x80000000

/-- `DESC_EOR`. -/
abbrev descEor : ℕ := 0x40000000

/-- `DESC_FS`. -/
abbrev descFs : ℕ := 0x20000000

/-- `DESC_LS`. -/
abbrev descLs : ℕ := 0x10000000

/-- `DESC_LEN_MASK`. -/
abbrev descLenMask : ℕ := 0x00003FFF

/-- `desc_t`. -/
structure Desc where
  flagsLen : ℕ
  vlan : ℕ
  bufAddr : ℕ
  deriving DecidableEq

/-- The device owns a descriptor. -/
def Desc.Own (d : Desc) : Prop := d.flagsLen &&& descOwn ≠ 0

/-- A descriptor is marked as the end of the ring. -/
def Desc.Eor (d : Desc) : Prop := d.flagsLen &&& descEor ≠ 0

/-- The length in a descriptor. -/
def Desc.len (d : Desc) : ℕ := d.flagsLen &&& descLenMask

instance (d : Desc) : Decidable d.Own := inferInstanceAs (Decidable (_ ≠ _))

instance (d : Desc) : Decidable d.Eor := inferInstanceAs (Decidable (_ ≠ _))

theorem Desc.own_iff (d : Desc) : d.Own ↔ d.flagsLen / 2 ^ 31 % 2 = 1 :=
  Word.and_two_pow_ne_zero d.flagsLen 31

theorem Desc.eor_iff (d : Desc) : d.Eor ↔ d.flagsLen / 2 ^ 30 % 2 = 1 :=
  Word.and_two_pow_ne_zero d.flagsLen 30

theorem Desc.len_eq (d : Desc) : d.len = d.flagsLen % 2 ^ 14 :=
  Word.and_low_mask d.flagsLen 14

/-- The descriptors of a ring. -/
abbrev Descs := ℕ → Desc

/-- A store to the `flags_len` word of a descriptor. -/
def setFlags (ds : Descs) (i flags : ℕ) : Descs := fun j =>
  if j = i then { ds j with flagsLen := flags } else ds j

@[simp] theorem setFlags_self (ds : Descs) (i flags : ℕ) :
    setFlags ds i flags i = { ds i with flagsLen := flags } := if_pos rfl

theorem setFlags_of_ne {i j : ℕ} (h : j ≠ i) (ds : Descs) (flags : ℕ) :
    setFlags ds i flags j = ds j := if_neg h

@[simp] theorem setFlags_bufAddr (ds : Descs) (i flags j : ℕ) :
    (setFlags ds i flags j).bufAddr = (ds j).bufAddr := by
  unfold setFlags
  split <;> rfl

/-- Buffers of different slots do not overlap. -/
theorem readBytes_writeBytes_buffer (bufs : ℕ) (m : Mem) {i j k : ℕ} (hij : i ≠ j)
    (hk : k ≤ bufferSize)
    {l : List UInt8} (hl : l.length ≤ bufferSize) :
    readBytes (writeBytes m (bufs + bufferSize * i) l) (bufs + bufferSize * j) k =
      readBytes m (bufs + bufferSize * j) k := by
  refine readBytes_writeBytes_of_disjoint _ _ _ ?_
  simp only [bufferSize] at *
  rcases Nat.lt_or_gt_of_ne hij with h | h <;> omega

/-! ## The words the driver stores -/

/-- The flags of the last descriptor have the end-of-ring flag added. -/
def withEor (i flags : ℕ) : ℕ := if i = ringDepth - 1 then flags ||| descEor else flags

/-- The word that `eth_recv` and `eth_init` arm a receive descriptor with. -/
def armFlags (i : ℕ) : ℕ := withEor i (descOwn ||| bufferSize)

/-- The word that `eth_send` hands a transmit descriptor over with. -/
def sendFlags (i len : ℕ) : ℕ :=
  withEor i (descOwn ||| descFs ||| descLs ||| (len &&& descLenMask))

/-- The word that `eth_init` clears a transmit descriptor with. -/
def idleFlags (i : ℕ) : ℕ := if i = ringDepth - 1 then descEor else 0

section

variable (i len : ℕ)

theorem armFlags_own : armFlags i / 2 ^ 31 % 2 = 1 := by
  unfold armFlags withEor
  split <;> decide

theorem armFlags_eor : armFlags i / 2 ^ 30 % 2 = 1 ↔ i = ringDepth - 1 := by
  unfold armFlags withEor
  split
  · exact iff_of_true (by decide) (by assumption)
  · exact iff_of_false (by decide) (by assumption)

theorem idleFlags_own : idleFlags i / 2 ^ 31 % 2 = 0 := by
  unfold idleFlags
  split <;> decide

theorem idleFlags_eor : idleFlags i / 2 ^ 30 % 2 = 1 ↔ i = ringDepth - 1 := by
  unfold idleFlags
  split
  · exact iff_of_true (by decide) (by assumption)
  · exact iff_of_false (by decide) (by assumption)

/-- The fields of a transmit word do not overlap. -/
theorem sendFlags_eq : sendFlags i len =
    len % 2 ^ 14 + 11 * 2 ^ 28 + if i = ringDepth - 1 then 2 ^ 30 else 0 := by
  have hlen : len % 2 ^ 14 < 2 ^ 14 := Nat.mod_lt _ (by decide)
  have hmask : len &&& descLenMask = len % 2 ^ 14 := Word.and_low_mask len 14
  have hflags : descOwn ||| descFs ||| descLs = (11 * 2 ^ 14) <<< 14 := by decide
  unfold sendFlags withEor
  rw [hmask, hflags, Nat.or_comm _ (len % 2 ^ 14)]
  split
  · have heor : (11 * 2 ^ 14) <<< 14 ||| descEor = (15 * 2 ^ 14) <<< 14 := by decide
    rw [Nat.or_assoc, heor, Word.or_shiftLeft hlen]
    omega
  · rw [Word.or_shiftLeft hlen]
    omega

theorem sendFlags_own : sendFlags i len / 2 ^ 31 % 2 = 1 := by
  rw [sendFlags_eq]
  split <;> omega

theorem sendFlags_eor : sendFlags i len / 2 ^ 30 % 2 = 1 ↔ i = ringDepth - 1 := by
  rw [sendFlags_eq]
  split
  · exact iff_of_true (by omega) (by assumption)
  · exact iff_of_false (by omega) (by assumption)

theorem sendFlags_len (hlen : len ≤ bufferSize) : sendFlags i len % 2 ^ 14 = len := by
  simp only [bufferSize] at hlen
  rw [sendFlags_eq]
  split <;> omega

end

/-! ## The words the device stores -/

/-- The word with which the device returns a descriptor: a length, status bits, and the end-of-ring
flag as it was. -/
def returnFlags (old len status : ℕ) : ℕ :=
  len % 2 ^ 14 + status % 2 ^ 16 * 2 ^ 14 + old / 2 ^ 30 % 2 * 2 ^ 30

theorem returnFlags_own (old len status : ℕ) : returnFlags old len status / 2 ^ 31 % 2 = 0 := by
  unfold returnFlags
  omega

theorem returnFlags_eor (old len status : ℕ) :
    returnFlags old len status / 2 ^ 30 % 2 = old / 2 ^ 30 % 2 := by
  unfold returnFlags
  omega

theorem returnFlags_len (old status : ℕ) {len : ℕ} (hlen : len ≤ bufferSize) :
    returnFlags old len status % 2 ^ 14 = len := by
  simp only [bufferSize] at hlen
  unfold returnFlags
  omega

/-- The descriptor that the device turns to next: the first one after the end of the ring. -/
def nextDesc (ds : Descs) (i : ℕ) : ℕ := if (ds i).Eor then 0 else i + 1

/-- Following the end-of-ring flag is counting modulo the depth of the ring. -/
theorem nextDesc_eq {ds : Descs} (heor : ∀ i < ringDepth, (ds i).Eor ↔ i = ringDepth - 1) (k : ℕ) :
    nextDesc ds (k % ringDepth) = (k + 1) % ringDepth := by
  have hlt := Nat.mod_lt k (show 0 < ringDepth by decide)
  unfold nextDesc
  simp only [heor _ hlt, ringDepth] at *
  split <;> omega

/-! ## The two parties of a ring -/

/-- A ring whose device owns the slots of the positions from `a` up to `b`, with one buffer for each
slot and the end-of-ring flag on the last slot only. -/
structure RingInv (ds : Descs) (bufs a b : ℕ) : Prop where
  own_iff : ∀ i < ringDepth, (ds i).Own ↔ Cyclic.InWindow ringDepth a b i
  eor_iff : ∀ i < ringDepth, (ds i).Eor ↔ i = ringDepth - 1
  bufAddr_eq : ∀ i < ringDepth, (ds i).bufAddr = bufs + bufferSize * i

namespace RingInv

variable {ds : Descs} {bufs a b : ℕ}

theorem own_pos (h : RingInv ds bufs a b) (k : ℕ) :
    (ds (k % ringDepth)).Own ↔ Cyclic.InWindow ringDepth a b (k % ringDepth) :=
  h.own_iff _ (Nat.mod_lt _ (by decide))

theorem bufAddr_pos (h : RingInv ds bufs a b) (k : ℕ) :
    (ds (k % ringDepth)).bufAddr = bufs + bufferSize * (k % ringDepth) :=
  h.bufAddr_eq _ (Nat.mod_lt _ (by decide))

/-- The driver hands the next slot over to the device. -/
theorem handOver (h : RingInv ds bufs a b) (hab : a ≤ b) {flags : ℕ}
    (hown : flags / 2 ^ 31 % 2 = 1)
    (heor : flags / 2 ^ 30 % 2 = 1 ↔ b % ringDepth = ringDepth - 1) :
    RingInv (setFlags ds (b % ringDepth) flags) bufs a (b + 1) where
  own_iff i hi := by
    rw [Cyclic.inWindow_succ_right hab]
    by_cases hib : i = b % ringDepth
    · subst hib
      rw [setFlags_self, Desc.own_iff]
      exact iff_of_true hown (Or.inr rfl)
    · rw [setFlags_of_ne hib, h.own_iff i hi]
      simp [hib]
  eor_iff i hi := by
    by_cases hib : i = b % ringDepth
    · subst hib
      rw [setFlags_self, Desc.eor_iff]
      exact heor
    · rw [setFlags_of_ne hib, h.eor_iff i hi]
  bufAddr_eq i hi := by rw [setFlags_bufAddr, h.bufAddr_eq i hi]

/-- The device gives its first slot back to the driver. -/
theorem giveBack (h : RingInv ds bufs a b) (hab : a < b) (hb : b ≤ a + ringDepth) (len status : ℕ) :
    RingInv (setFlags ds (a % ringDepth)
      (returnFlags (ds (a % ringDepth)).flagsLen len status)) bufs (a + 1) b where
  own_iff i hi := by
    rw [Cyclic.inWindow_succ_left hab hb]
    by_cases hia : i = a % ringDepth
    · subst hia
      rw [setFlags_self, Desc.own_iff]
      simp only [returnFlags_own]
      exact iff_of_false (by decide) fun h => h.2 rfl
    · rw [setFlags_of_ne hia, h.own_iff i hi]
      simp [hia]
  eor_iff i hi := by
    by_cases hia : i = a % ringDepth
    · subst hia
      rw [setFlags_self, Desc.eor_iff, ← h.eor_iff _ hi, Desc.eor_iff]
      simp only [returnFlags_eor]
    · rw [setFlags_of_ne hia, h.eor_iff i hi]
  bufAddr_eq i hi := by rw [setFlags_bufAddr, h.bufAddr_eq i hi]

/-- The device's pointer moves on with it. -/
theorem nextDesc_eq (h : RingInv ds bufs a b) (k : ℕ) :
    nextDesc ds (k % ringDepth) = (k + 1) % ringDepth :=
  Eth.nextDesc_eq h.eor_iff k

end RingInv

end RvvmHal.Eth
