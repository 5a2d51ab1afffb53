import RvvmHal.Foundations.Bytes

/-!
# Entries of a FAT

A FAT is an array of entries of 12, 16 or 32 bits, packed in bytes. Entries of 12 bits share the
byte between two of them, and of an entry of 32 bits the upper four are not the entry's. Storing an
entry changes that entry and no other (`FatType.entry_store`).
-/

namespace RvvmHal.Fatfs

open Bytes

/-- The FAT sub-types, `FS_FAT12`, `FS_FAT16` and `FS_FAT32`. -/
inductive FatType
  | fat12
  | fat16
  | fat32
  deriving DecidableEq

namespace FatType

/-- The bits of an entry. -/
def bits : FatType → ℕ
  | .fat12 => 12
  | .fat16 => 16
  | .fat32 => 28

/-- The offset of an entry. -/
def off : FatType → ℕ → ℕ
  | .fat12, c => c + c / 2
  | .fat16, c => c * 2
  | .fat32, c => c * 4

/-- The bytes in which an entry lies. -/
def width : FatType → ℕ
  | .fat12 => 2
  | .fat16 => 2
  | .fat32 => 4

/-- The value of an entry. -/
def entry (t : FatType) (m : Mem) (c : ℕ) : ℕ :=
  match t with
  | .fat12 =>
    if c % 2 = 1 then readLe m (c + c / 2) 2 / 16 else readLe m (c + c / 2) 2 % 4096
  | .fat16 => readLe m (c * 2) 2
  | .fat32 => readLe m (c * 4) 4 % 2 ^ 28

/-- The bytes of an entry with the value `v`, and what is beside it in them. -/
def bytes (t : FatType) (m : Mem) (c v : ℕ) : List UInt8 :=
  match t with
  | .fat12 =>
    let o := c + c / 2
    if c % 2 = 1 then
      [UInt8.ofNat ((m o).toNat % 16 + v % 16 * 16), UInt8.ofNat (v / 16)]
    else [UInt8.ofNat v, UInt8.ofNat ((m (o + 1)).toNat / 16 * 16 + v / 256 % 16)]
  | .fat16 => leBytes 2 v
  | .fat32 => leBytes 4 (v % 2 ^ 28 + readLe m (c * 4) 4 / 2 ^ 28 * 2 ^ 28)

/-- The FAT after an entry has been stored. -/
def store (t : FatType) (m : Mem) (c v : ℕ) : Mem := writeBytes m (t.off c) (t.bytes m c v)

@[simp] theorem length_bytes (t : FatType) (m : Mem) (c v : ℕ) : (t.bytes m c v).length = t.width := by
  cases t
  · simp only [bytes]
    split <;> rfl
  · exact length_leBytes 2 v
  · exact length_leBytes 4 _

theorem readLe_two (m : Mem) (a : ℕ) : readLe m a 2 = (m a).toNat + 256 * (m (a + 1)).toNat := by
  rw [readLe, readBytes_succ, readBytes_succ, readBytes_zero]
  simp only [ofLe]
  omega

theorem readLe_two_congr {m m' : Mem} {a : ℕ} (h₀ : m' a = m a) (h₁ : m' (a + 1) = m (a + 1)) :
    readLe m' a 2 = readLe m a 2 := by
  rw [readLe_two, readLe_two, h₀, h₁]

/-- A write of two bytes. -/
theorem writeBytes_two (m : Mem) (a x : ℕ) (b₀ b₁ : UInt8) :
    writeBytes m a [b₀, b₁] x = if x = a then b₀ else if x = a + 1 then b₁ else m x := by
  by_cases h₀ : x = a
  · subst h₀
    rw [if_pos rfl, writeBytes_of_mem _ _ _ le_rfl (by simp), Nat.sub_self]
    rfl
  by_cases h₁ : x = a + 1
  · subst h₁
    rw [if_neg h₀, if_pos rfl, writeBytes_of_mem _ _ _ (by omega) (by simp), Nat.add_sub_cancel_left]
    rfl
  · rw [if_neg h₀, if_neg h₁, writeBytes_of_not_mem _ _ _ (by simp; omega)]

section

variable (m : Mem) (c c' v : ℕ)

theorem entry_store_fat12 :
    entry .fat12 (store .fat12 m c v) c' = if c' = c then v % 2 ^ 12 else entry .fat12 m c' := by
  have h₀ := (m (c + c / 2)).toNat_lt
  have h₁ := (m (c + c / 2 + 1)).toNat_lt
  unfold entry store bytes off
  by_cases hodd : c % 2 = 1
  · -- the entry is the upper nibble of its first byte and its second byte
    simp only [if_pos hodd, readLe_two, writeBytes_two]
    by_cases hc : c' = c
    · subst hc
      simp only [if_pos hodd, if_true, if_neg (show ¬ c' + c' / 2 + 1 = c' + c' / 2 by omega),
        toNat_ofNat_uint8]
      omega
    by_cases hp : c' + 1 = c
    · -- the entry before shares the first byte
      have he : c' % 2 ≠ 1 := by omega
      have ho : c' + c' / 2 + 1 = c + c / 2 := by omega
      simp only [if_neg hc, if_neg he, ho, if_true, if_neg (show ¬ c' + c' / 2 = c + c / 2 by omega),
        if_neg (show ¬ c' + c' / 2 = c + c / 2 + 1 by omega), toNat_ofNat_uint8]
      omega
    · simp only [if_neg hc, if_neg (show ¬ c' + c' / 2 = c + c / 2 by omega),
        if_neg (show ¬ c' + c' / 2 = c + c / 2 + 1 by omega),
        if_neg (show ¬ c' + c' / 2 + 1 = c + c / 2 by omega),
        if_neg (show ¬ c' + c' / 2 + 1 = c + c / 2 + 1 by omega)]
  · -- the entry is its first byte and the lower nibble of its second
    simp only [if_neg hodd, readLe_two, writeBytes_two]
    by_cases hc : c' = c
    · subst hc
      simp only [if_neg hodd, if_true, if_neg (show ¬ c' + c' / 2 + 1 = c' + c' / 2 by omega),
        toNat_ofNat_uint8]
      omega
    by_cases hn : c' = c + 1
    · -- the next entry shares the second byte
      have he : c' % 2 = 1 := by omega
      have ho : c' + c' / 2 = c + c / 2 + 1 := by omega
      simp only [if_neg hc, if_pos he, ho, if_true, if_neg (show ¬ c + c / 2 + 1 = c + c / 2 by omega),
        if_neg (show ¬ c + c / 2 + 1 + 1 = c + c / 2 by omega),
        if_neg (show ¬ c + c / 2 + 1 + 1 = c + c / 2 + 1 by omega), toNat_ofNat_uint8]
      omega
    · simp only [if_neg hc, if_neg (show ¬ c' + c' / 2 = c + c / 2 by omega),
        if_neg (show ¬ c' + c' / 2 = c + c / 2 + 1 by omega),
        if_neg (show ¬ c' + c' / 2 + 1 = c + c / 2 by omega),
        if_neg (show ¬ c' + c' / 2 + 1 = c + c / 2 + 1 by omega)]

theorem entry_store_fat16 :
    entry .fat16 (store .fat16 m c v) c' = if c' = c then v % 2 ^ 16 else entry .fat16 m c' := by
  unfold entry store bytes off
  by_cases hc : c' = c
  · subst hc
    simp only [if_pos]
    rw [← leBytes_mod 2 v, readLe_writeBytes_leBytes _ _ (Nat.mod_lt _ (by decide))]
    rfl
  · simp only [if_neg hc]
    exact readLe_writeBytes_of_disjoint _ _ _ (by rw [length_leBytes]; omega)

theorem entry_store_fat32 :
    entry .fat32 (store .fat32 m c v) c' = if c' = c then v % 2 ^ 28 else entry .fat32 m c' := by
  unfold entry store bytes off
  by_cases hc : c' = c
  · subst hc
    have hlt := readLe_lt m (c' * 4) 4
    simp only [if_pos]
    rw [readLe_writeBytes_leBytes _ _ (by omega)]
    omega
  · simp only [if_neg hc]
    rw [readLe_writeBytes_of_disjoint _ _ _ (by rw [length_leBytes]; omega)]

/-- **Storing an entry** gives it the value, cut to its bits, and leaves the others alone. -/
theorem entry_store (t : FatType) :
    t.entry (t.store m c v) c' = if c' = c then v % 2 ^ t.bits else t.entry m c' := by
  cases t with
  | fat12 => exact entry_store_fat12 m c c' v
  | fat16 => exact entry_store_fat16 m c c' v
  | fat32 => exact entry_store_fat32 m c c' v

/-- The table of the entries after one has been stored. -/
theorem entry_store_eq (t : FatType) :
    t.entry (t.store m c v) = Function.update (t.entry m) c (v % 2 ^ t.bits) := by
  funext c'
  rw [entry_store, Function.update_apply]

end

theorem entry_lt (t : FatType) (m : Mem) (c : ℕ) : t.entry m c < 2 ^ t.bits := by
  cases t
  · have h := readLe_lt m (c + c / 2) 2
    simp only [entry, bits]
    split <;> omega
  · exact readLe_lt m (c * 2) 2
  · exact Nat.mod_lt _ (by decide)

/-- An entry depends on its bytes only. -/
theorem entry_congr (t : FatType) {m m' : Mem} {c : ℕ}
    (h : ∀ x, t.off c ≤ x → x < t.off c + t.width → m' x = m x) : t.entry m' c = t.entry m c := by
  cases t
  · have hread : readLe m' (c + c / 2) 2 = readLe m (c + c / 2) 2 := readLe_congr _ h
    simp only [entry, hread]
  · exact readLe_congr _ h
  · have hread : readLe m' (c * 4) 4 = readLe m (c * 4) 4 := readLe_congr _ h
    simp only [entry, hread]

end FatType

end RvvmHal.Fatfs
