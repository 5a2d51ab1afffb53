import RvvmHal.Foundations.Bytes

/-!
# A flat array of sectors

What block I/O is for: an array of 512-byte sectors that is read and written in runs. Sector
numbers are 64-bit words, so a run that passes the last number continues at the first.
`sectorBytes` is the content of a run and `storeSectors` replaces it. A run that is written in two
parts is written (`storeSectors_add`), and what was written is read back
(`sectorBytes_storeSectors`).
-/

namespace RvvmHal.Nvme

open Bytes

/-- `NVME_LBA_SIZE`. -/
abbrev lbaSize : ℕ := 512

/-- The content of a sector. -/
abbrev Sector := Fin lbaSize → UInt8

/-- A disk: the content of each sector. -/
abbrev Disk := ℕ → Sector

/-- The place of byte `i` in its sector. -/
def sectorOff (i : ℕ) : Fin lbaSize := ⟨i % lbaSize, Nat.mod_lt _ (by decide)⟩

/-- The bytes of the `n` sectors from `lba` on. -/
def sectorBytes (d : Disk) (lba n : ℕ) : List UInt8 :=
  (List.range (lbaSize * n)).map fun i => d ((lba + i / lbaSize) % 2 ^ 64) (sectorOff i)

/-- The `k`-th sector of a run of bytes. -/
def sectorOf (data : List UInt8) (k : ℕ) : Sector := fun o => data.getD (lbaSize * k + o) 0

/-- The index of sector `s` in a run from `lba` on. -/
def sectorIndex (lba s : ℕ) : ℕ := (s + 2 ^ 64 - lba % 2 ^ 64) % 2 ^ 64

/-- The disk with the `n` sectors from `lba` on replaced. -/
def storeSectors (d : Disk) (lba n : ℕ) (data : List UInt8) : Disk := fun s =>
  if s < 2 ^ 64 ∧ sectorIndex lba s < n then sectorOf data (sectorIndex lba s) else d s

variable (d : Disk) (lba n : ℕ) (data : List UInt8)

@[simp] theorem length_sectorBytes : (sectorBytes d lba n).length = lbaSize * n := by
  simp [sectorBytes]

theorem sectorBytes_add (k : ℕ) :
    sectorBytes d lba (n + k) = sectorBytes d lba n ++ sectorBytes d ((lba + n) % 2 ^ 64) k := by
  unfold sectorBytes
  rw [Nat.mul_add, List.range_add, List.map_append, List.map_map]
  refine congrArg _ (List.map_congr_left fun i _ => ?_)
  have hs : (lba + (lbaSize * n + i) / lbaSize) % 2 ^ 64 =
      ((lba + n) % 2 ^ 64 + i / lbaSize) % 2 ^ 64 := by
    simp only [lbaSize]
    omega
  have ho : sectorOff (lbaSize * n + i) = sectorOff i := Fin.ext (Nat.mul_add_mod _ _ _)
  rw [Function.comp_apply, hs, ho]

theorem sectorIndex_sector {k : ℕ} (hk : k < 2 ^ 64) :
    sectorIndex lba ((lba + k) % 2 ^ 64) = k := by
  unfold sectorIndex
  omega

/-- The sectors of the run. -/
theorem storeSectors_sector {k : ℕ} (hk : k < n) (hn : n ≤ 2 ^ 64) :
    storeSectors d lba n data ((lba + k) % 2 ^ 64) = sectorOf data k := by
  have hidx := sectorIndex_sector lba (Nat.lt_of_lt_of_le hk hn)
  rw [storeSectors, if_pos ⟨Nat.mod_lt _ (by decide), by rwa [hidx]⟩, hidx]

@[simp] theorem storeSectors_zero : storeSectors d lba 0 data = d :=
  funext fun _ => if_neg fun h => Nat.not_lt_zero _ h.2

/-- The index of a sector in the rest of a run. -/
theorem sectorIndex_add (s : ℕ) (hn : n ≤ 2 ^ 64) :
    sectorIndex ((lba + n) % 2 ^ 64) s = (sectorIndex lba s + 2 ^ 64 - n) % 2 ^ 64 := by
  unfold sectorIndex
  omega

theorem sectorOf_append_left {k : ℕ} (hlen : data.length = lbaSize * n) (hk : k < n)
    (data' : List UInt8) : sectorOf (data ++ data') k = sectorOf data k := by
  funext o
  have ho := o.isLt
  refine List.getD_append _ _ _ _ ?_
  simp only [lbaSize] at *
  omega

theorem sectorOf_append_right {k : ℕ} (hlen : data.length = lbaSize * n) (hk : n ≤ k)
    (data' : List UInt8) : sectorOf (data ++ data') k = sectorOf data' (k - n) := by
  funext o
  unfold sectorOf
  simp only [lbaSize] at hlen ⊢
  rw [List.getD_append_right _ _ _ _ (by omega),
    show 512 * k + (o : ℕ) - data.length = 512 * (k - n) + o by omega]

/-- A run written in two parts. -/
theorem storeSectors_add {k : ℕ} (hlen : data.length = lbaSize * n) (hk : n + k ≤ 2 ^ 64)
    (data' : List UInt8) :
    storeSectors (storeSectors d lba n data) ((lba + n) % 2 ^ 64) k data' =
      storeSectors d lba (n + k) (data ++ data') := by
  funext s
  have hidx := sectorIndex_add lba n s (by omega)
  have hlt : sectorIndex lba s < 2 ^ 64 := Nat.mod_lt _ (by decide)
  unfold storeSectors
  by_cases hs : s < 2 ^ 64
  swap
  · rw [if_neg (by omega), if_neg (by omega), if_neg (by omega)]
  by_cases h₁ : sectorIndex lba s < n
  · -- in the first part
    rw [if_neg (by omega), if_pos ⟨hs, h₁⟩, if_pos (by omega), sectorOf_append_left n data hlen h₁]
  have hrest : sectorIndex ((lba + n) % 2 ^ 64) s = sectorIndex lba s - n := by omega
  by_cases h₂ : sectorIndex lba s < n + k
  · -- in the second part
    rw [if_pos ⟨hs, by omega⟩, if_pos ⟨hs, h₂⟩, hrest,
      sectorOf_append_right n data hlen (by omega)]
  · rw [if_neg (by omega), if_neg (by omega), if_neg (by omega)]

/-- **Round trip**: what was written is read back. -/
theorem sectorBytes_storeSectors (hlen : data.length = lbaSize * n) (hn : n ≤ 2 ^ 64) :
    sectorBytes (storeSectors d lba n data) lba n = data := by
  refine List.ext_getElem (by rw [length_sectorBytes, hlen]) fun i h₁ h₂ => ?_
  have hi : i / lbaSize < n := Nat.div_lt_of_lt_mul (by rwa [← hlen])
  simp only [sectorBytes, List.getElem_map, List.getElem_range]
  rw [storeSectors_sector d lba n data hi hn, sectorOf, sectorOff, Nat.div_add_mod,
    List.getD_eq_getElem _ _ h₂]

end RvvmHal.Nvme
