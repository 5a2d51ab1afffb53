import Mathlib.Data.BitVec
import Mathlib.Tactic.Ring
import RvvmHal.Foundations.Bytes

/-!
# Memory with 64-bit addresses

A memory of bytes whose addresses are 64-bit words, so that a range of addresses may go around the
end of the address space. `bytes` and `store` move lists of bytes; what a read sees of a store to
the same place or to another one is `load64_store64` and `load64_store64_of_apart`.

`copied m d s lo hi` is the memory `m` in which the bytes `lo ≤ i < hi` of the range at `d` are
those of the range at `s`. A load of `w` bytes and their store elsewhere copy `w` bytes
(`store_bytes`), and a copy that goes upwards extends a copy of the bytes below it (`copied_up`),
one that goes downwards a copy of the bytes above it (`copied_down`), even where the ranges overlap.
-/

namespace RvvmHal.Memory64

open Bytes (leBytes ofLe)

/-- A machine word, or an address. -/
abbrev Word := BitVec 64

/-- A memory of bytes. -/
abbrev Mem := Word → UInt8

/-! ## Loads and stores -/

/-- The `n` bytes at `a`. -/
def bytes (m : Mem) (a : Word) (n : ℕ) : List UInt8 :=
  (List.range n).map fun i => m (a + BitVec.ofNat 64 i)

/-- The memory with the bytes `l` stored at `a`. -/
def store (m : Mem) (a : Word) (l : List UInt8) : Mem := fun x =>
  if (x - a).toNat < l.length then l.getD (x - a).toNat 0 else m x

/-- The doubleword at `a`. -/
def load64 (m : Mem) (a : Word) : Word := BitVec.ofNat 64 (ofLe (bytes m a 8))

/-- The memory with a doubleword stored at `a`. -/
def store64 (m : Mem) (a v : Word) : Mem := store m a (leBytes 8 v.toNat)

variable {m m' : Mem} {a b d s x v : Word} {l : List UInt8} {n k w lo hi : ℕ}

@[simp] theorem length_bytes : (bytes m a n).length = n := by simp [bytes]

theorem getD_bytes {i : ℕ} (hi : i < n) : (bytes m a n).getD i 0 = m (a + BitVec.ofNat 64 i) := by
  rw [List.getD_eq_getElem _ _ (by rwa [length_bytes])]
  simp [bytes]

theorem bytes_congr (h : ∀ i < n, m (a + BitVec.ofNat 64 i) = m' (a + BitVec.ofNat 64 i)) :
    bytes m a n = bytes m' a n :=
  List.map_congr_left fun i hi => h i (List.mem_range.1 hi)

theorem load64_congr
    (h : ∀ i < 8, m (a + BitVec.ofNat 64 i) = m' (a + BitVec.ofNat 64 i)) :
    load64 m a = load64 m' a := by
  rw [load64, load64, bytes_congr h]

/-- **Frame rule**: a store changes no byte outside its range. -/
theorem store_of_not_mem (h : l.length ≤ (x - a).toNat) : store m a l x = m x :=
  if_neg (Nat.not_lt.2 h)

theorem store64_of_not_mem (h : 8 ≤ (x - a).toNat) : store64 m a v x = m x :=
  store_of_not_mem (by rwa [Bytes.length_leBytes])

@[simp] theorem store_nil : store m a [] = m := funext fun _ => store_of_not_mem (Nat.zero_le _)

theorem store_of_mem (h : (x - a).toNat < l.length) : store m a l x = l.getD (x - a).toNat 0 :=
  if_pos h

theorem toNat_ofNat (h : n < 2 ^ 64) : (BitVec.ofNat 64 n).toNat = n := by
  rw [BitVec.toNat_ofNat, Nat.mod_eq_of_lt h]

/-- A read of the stored range gives the stored bytes. -/
theorem bytes_store_self (hl : l.length ≤ 2 ^ 64) : bytes (store m a l) a l.length = l := by
  refine List.ext_getElem (by simp) fun i hi hi' => ?_
  have hoff : (a + BitVec.ofNat 64 i - a).toNat = i := by
    rw [add_sub_cancel_left, toNat_ofNat (by omega)]
  simp only [bytes, List.getElem_map, List.getElem_range]
  rw [store_of_mem (by rwa [hoff]), hoff, List.getD_eq_getElem _ _ hi']

/-- A doubleword is read back. -/
theorem load64_store64 : load64 (store64 m a v) a = v := by
  have hbytes : bytes (store64 m a v) a 8 = leBytes 8 v.toNat := by
    have hself := bytes_store_self (m := m) (a := a) (l := leBytes 8 v.toNat)
      (by rw [Bytes.length_leBytes]; norm_num)
    rwa [Bytes.length_leBytes] at hself
  rw [load64, hbytes, Bytes.ofLe_leBytes (Nat.lt_of_lt_of_eq v.isLt (by norm_num)),
    BitVec.ofNat_toNat, BitVec.setWidth_eq]

/-- The ranges of two doublewords do not meet. -/
def Apart (a b : Word) : Prop := 8 ≤ (a - b).toNat ∧ 8 ≤ (b - a).toNat

/-- A doubleword elsewhere is not changed by a store. -/
theorem load64_store64_of_apart (h : Apart a b) : load64 (store64 m a v) b = load64 m b := by
  refine load64_congr fun i hi => store64_of_not_mem ?_
  obtain ⟨h₁, h₂⟩ := h
  have hoff : b + BitVec.ofNat 64 i - a = b - a + BitVec.ofNat 64 i := add_sub_right_comm ..
  rw [BitVec.toNat_sub] at h₁ h₂
  rw [hoff, BitVec.toNat_add, toNat_ofNat (by omega), BitVec.toNat_sub]
  have ha := a.isLt
  have hb := b.isLt
  omega

/-! ## Copies -/

/-- The memory in which the bytes from `lo` up to `hi` of the range at `d` are those of the range at
`s`. -/
def copied (m : Mem) (d s : Word) (lo hi : ℕ) : Mem := fun x =>
  if lo ≤ (x - d).toNat ∧ (x - d).toNat < hi then m (s + (x - d)) else m x

@[simp] theorem copied_self : copied m d s k k = m := by
  funext x
  exact if_neg (by omega)

/-- What has been copied. -/
theorem copied_of_lt {i : ℕ} (hlo : lo ≤ i) (hhi : i < hi) (h64 : i < 2 ^ 64) :
    copied m d s lo hi (d + BitVec.ofNat 64 i) = m (s + BitVec.ofNat 64 i) := by
  have hoff : d + BitVec.ofNat 64 i - d = BitVec.ofNat 64 i := add_sub_cancel_left ..
  rw [copied, hoff, toNat_ofNat h64, if_pos ⟨hlo, hhi⟩]

/-- **Frame rule** for copies. -/
theorem copied_of_not_mem (h : ∀ i, lo ≤ i → i < hi → x ≠ d + BitVec.ofNat 64 i) :
    copied m d s lo hi x = m x := by
  refine if_neg fun ⟨hlo, hhi⟩ => h _ hlo hhi ?_
  rw [BitVec.ofNat_toNat, BitVec.setWidth_eq, add_sub_cancel]

/-- **A load and a store** copy as many bytes. -/
theorem store_bytes : store m d (bytes m s n) = copied m d s 0 n := by
  funext x
  rw [store, copied, length_bytes]
  by_cases hx : (x - d).toNat < n
  · rw [if_pos hx, if_pos ⟨Nat.zero_le _, hx⟩, getD_bytes hx, BitVec.ofNat_toNat,
      BitVec.setWidth_eq]
  · rw [if_neg hx, if_neg (by omega)]

theorem bytes_add (m : Mem) (a : Word) (n k : ℕ) :
    bytes m a (n + k) = bytes m a n ++ bytes m (a + BitVec.ofNat 64 n) k := by
  rw [bytes, List.range_add, List.map_append, List.map_map]
  congr 1
  refine List.map_congr_left fun i _ => ?_
  rw [Function.comp_apply, BitVec.ofNat_add, add_assoc]

/-- Two stores to adjacent ranges are one store, when the lower range is stored first. -/
theorem store_append {l' : List UInt8} (h : l.length + l'.length ≤ 2 ^ 64) :
    store (store m a l) (a + BitVec.ofNat 64 l.length) l' = store m a (l ++ l') := by
  funext x
  have hoff : x - (a + BitVec.ofNat 64 l.length) = x - a - BitVec.ofNat 64 l.length :=
    (sub_sub ..).symm
  have hx := (x - a).isLt
  unfold store
  rw [List.length_append, hoff]
  by_cases hl' : l'.length = 0
  · rw [List.length_eq_zero_iff.1 hl', List.append_nil, List.length_nil, Nat.add_zero,
      if_neg (Nat.not_lt_zero _)]
  · rw [BitVec.toNat_sub (x - a), toNat_ofNat (by omega)]
    by_cases hlow : (x - a).toNat < l.length
    · rw [if_neg (by omega), if_pos hlow, if_pos (by omega), List.getD_append _ _ _ _ hlow]
    · rw [if_neg hlow]
      by_cases hhigh : (x - a).toNat < l.length + l'.length
      · rw [if_pos (by omega), if_pos hhigh, List.getD_append_right _ _ _ _ (by omega)]
        congr 1
        omega
      · rw [if_neg (by omega), if_neg hhigh]

/-- More of the same byte. -/
theorem store_replicate_add {b : UInt8} (h : n + k ≤ 2 ^ 64) :
    store (store m a (List.replicate n b)) (a + BitVec.ofNat 64 n) (List.replicate k b) =
      store m a (List.replicate (n + k) b) := by
  have hlen : (List.replicate n b).length + (List.replicate k b).length ≤ 2 ^ 64 := by
    rwa [List.length_replicate, List.length_replicate]
  have happ := store_append (m := m) (a := a) hlen
  rwa [List.length_replicate, List.replicate_append_replicate] at happ

/-- The same, when the higher range is stored first. -/
theorem store_append_rev {l' : List UInt8} (h : l.length + l'.length ≤ 2 ^ 64) :
    store (store m (a + BitVec.ofNat 64 l.length) l') a l = store m a (l ++ l') := by
  rw [← store_append h]
  funext x
  have hoff : x - (a + BitVec.ofNat 64 l.length) = x - a - BitVec.ofNat 64 l.length :=
    (sub_sub ..).symm
  have hx := (x - a).isLt
  unfold store
  rw [hoff]
  by_cases hl' : l'.length = 0
  · rw [hl', if_neg (Nat.not_lt_zero _), if_neg (Nat.not_lt_zero _)]
  · rw [BitVec.toNat_sub (x - a), toNat_ofNat (by omega)]
    by_cases hlow : (x - a).toNat < l.length
    · rw [if_pos hlow, if_neg (by omega), if_pos hlow]
    · rw [if_neg hlow, if_neg hlow]

theorem leBytes_ofLe (l : List UInt8) : leBytes l.length (ofLe l) = l := by
  induction l with
  | nil => rfl
  | cons c l ih =>
    have hc := c.toNat_lt
    have hdiv : (c.toNat + 256 * ofLe l) / 256 = ofLe l := by omega
    have hlow : UInt8.ofNat (c.toNat + 256 * ofLe l) = c := by
      rw [← UInt8.toNat_inj, Bytes.toNat_ofNat_uint8]
      omega
    rw [List.length_cons, ofLe, leBytes, hlow, hdiv, ih]

/-- A doubleword that is loaded and stored. -/
theorem store64_load64 : store64 m d (load64 m' s) = store m d (bytes m' s 8) := by
  have hlt : ofLe (bytes m' s 8) < 2 ^ 64 := by
    have hlt := Bytes.ofLe_lt (bytes m' s 8)
    rw [length_bytes] at hlt
    exact Nat.lt_of_lt_of_eq hlt (by norm_num)
  have hbytes := leBytes_ofLe (bytes m' s 8)
  rw [length_bytes] at hbytes
  rw [store64, load64, toNat_ofNat hlt, hbytes]

/-- Two ranges that are loaded and stored, the lower one first. -/
theorem store_bytes_add (h : n + k ≤ 2 ^ 64) :
    store (store m d (bytes m' s n)) (d + BitVec.ofNat 64 n)
      (bytes m' (s + BitVec.ofNat 64 n) k) = store m d (bytes m' s (n + k)) := by
  have hlen : (bytes m' s n).length + (bytes m' (s + BitVec.ofNat 64 n) k).length ≤ 2 ^ 64 := by
    rwa [length_bytes, length_bytes]
  have happ := store_append (m := m) (a := d) hlen
  rwa [length_bytes, ← bytes_add] at happ

/-- Two ranges that are loaded and stored, the higher one first. -/
theorem store_bytes_add_rev {r : Mem} (h : n + k ≤ 2 ^ 64) :
    store (store m (d + BitVec.ofNat 64 n) (bytes r (s + BitVec.ofNat 64 n) k)) d
      (bytes r s n) = store m d (bytes r s (n + k)) := by
  have hlen : (bytes r s n).length + (bytes r (s + BitVec.ofNat 64 n) k).length ≤ 2 ^ 64 := by
    rwa [length_bytes, length_bytes]
  have happ := store_append_rev (m := m) (a := d) hlen
  rwa [length_bytes, ← bytes_add] at happ

/-- A doubleword that is loaded from one place and stored at another. -/
def move64 (m' m : Mem) (d s : Word) (off : ℕ) : Mem :=
  store64 m (d + BitVec.ofNat 64 off) (load64 m' (s + BitVec.ofNat 64 off))

/-- **Four doublewords** that are all loaded before they are stored, upwards. -/
theorem move64_up :
    move64 m (move64 m (move64 m (move64 m m d s 0) d s 8) d s 16) d s 24 = copied m d s 0 32 := by
  rw [← store_bytes]
  unfold move64
  rw [store64_load64, store64_load64, store64_load64, store64_load64, BitVec.add_zero,
    BitVec.add_zero, store_bytes_add (by norm_num), store_bytes_add (n := 8 + 8) (by norm_num),
    store_bytes_add (n := 8 + 8 + 8) (by norm_num)]

/-- The same, downwards. -/
theorem move64_down :
    move64 m (move64 m (move64 m (move64 m m d s 24) d s 16) d s 8) d s 0 = copied m d s 0 32 := by
  have hjoin : ∀ k ≤ 24, ∀ m₁ : Mem, store (store m₁ (d + BitVec.ofNat 64 (k + 8))
      (bytes m (s + BitVec.ofNat 64 (k + 8)) (24 - k))) (d + BitVec.ofNat 64 k)
      (bytes m (s + BitVec.ofNat 64 k) 8) =
      store m₁ (d + BitVec.ofNat 64 k) (bytes m (s + BitVec.ofNat 64 k) (8 + (24 - k))) := by
    intro k hk m₁
    have hadd := store_bytes_add_rev (m := m₁) (r := m) (d := d + BitVec.ofNat 64 k)
      (s := s + BitVec.ofNat 64 k) (n := 8) (k := 24 - k) (by omega)
    rwa [add_assoc, add_assoc, ← BitVec.ofNat_add] at hadd
  rw [← store_bytes]
  unfold move64
  rw [store64_load64, store64_load64, store64_load64, store64_load64, hjoin 16 (by norm_num),
    hjoin 8 (by norm_num), hjoin 0 (by norm_num), BitVec.add_zero, BitVec.add_zero]

/-- A copy that reads nothing of what an earlier one has changed. -/
theorem copied_copied (h64 : k + w ≤ 2 ^ 64)
    (hsrc : ∀ y : Word, k ≤ y.toNat → y.toNat < k + w →
      ¬ (lo ≤ (s + y - d).toNat ∧ (s + y - d).toNat < hi)) :
    copied (copied m d s lo hi) (d + BitVec.ofNat 64 k) (s + BitVec.ofNat 64 k) 0 w x =
      if k ≤ (x - d).toNat ∧ (x - d).toNat < k + w then m (s + (x - d))
      else copied m d s lo hi x := by
  have hoff : x - (d + BitVec.ofNat 64 k) = x - d - BitVec.ofNat 64 k := (sub_sub ..).symm
  have hsum : s + BitVec.ofNat 64 k + (x - d - BitVec.ofNat 64 k) = s + (x - d) := by ring
  have hy := (x - d).isLt
  by_cases hw : w = 0
  · subst hw
    rw [copied_self, if_neg (by omega)]
  · have hiff : (x - d - BitVec.ofNat 64 k).toNat < w ↔
        k ≤ (x - d).toNat ∧ (x - d).toNat < k + w := by
      rw [BitVec.toNat_sub (x - d), toNat_ofNat (by omega)]
      omega
    rw [copied, hoff, hsum]
    simp only [Nat.zero_le, true_and, hiff]
    by_cases hin : k ≤ (x - d).toNat ∧ (x - d).toNat < k + w
    · rw [if_pos hin, if_pos hin]
      exact if_neg (hsrc _ hin.1 hin.2)
    · rw [if_neg hin, if_neg hin]

/-- **A copy upwards**, to a lower address or behind the source. -/
theorem copied_up (hds : d.toNat ≤ s.toNat ∨ s.toNat + k + w ≤ d.toNat)
    (hd : d.toNat + k + w ≤ 2 ^ 64) (hs : s.toNat + k + w ≤ 2 ^ 64) :
    copied (copied m d s 0 k) (d + BitVec.ofNat 64 k) (s + BitVec.ofNat 64 k) 0 w =
      copied m d s 0 (k + w) := by
  funext x
  rw [copied_copied (by omega)]
  · unfold copied
    by_cases hx : (x - d).toNat < k
    · rw [if_neg (by omega), if_pos (by omega), if_pos (by omega)]
    · by_cases hx' : (x - d).toNat < k + w
      · rw [if_pos (by omega), if_pos (by omega)]
      · rw [if_neg (by omega), if_neg (by omega), if_neg (by omega)]
  · intro y hk hy
    have hlt := d.isLt
    rw [BitVec.toNat_sub, BitVec.toNat_add]
    omega

/-- **A copy downwards**, to a higher address. -/
theorem copied_down (hds : s.toNat ≤ d.toNat) (hd : d.toNat + n ≤ 2 ^ 64) (hk : k + w ≤ n) :
    copied (copied m d s (k + w) n) (d + BitVec.ofNat 64 k) (s + BitVec.ofNat 64 k) 0 w =
      copied m d s k n := by
  funext x
  rw [copied_copied (by omega)]
  · unfold copied
    by_cases hx : k ≤ (x - d).toNat ∧ (x - d).toNat < k + w
    · rw [if_pos hx, if_pos (by omega)]
    · by_cases hx' : k + w ≤ (x - d).toNat ∧ (x - d).toNat < n
      · rw [if_neg hx, if_pos hx', if_pos (by omega)]
      · rw [if_neg hx, if_neg hx', if_neg (by omega)]
  · intro y hy hyw
    have hs := s.isLt
    rw [BitVec.toNat_sub, BitVec.toNat_add]
    omega

end RvvmHal.Memory64
