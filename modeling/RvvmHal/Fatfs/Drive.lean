import RvvmHal.Nvme.Disk

/-!
# Drives

What the file system needs of a drive: sectors are read and written, either may fail, and the drive
can be told to finish its writes. A read that succeeds has the sectors, a write that succeeds has
replaced them, and a write that fails may have left anything in the sectors it was given, but in no
others. The file system reads and writes single sectors through its window (`readSector`,
`writeSector`).
-/

namespace RvvmHal.Fatfs

open Bytes Nvme

/-- A drive with the states `σ`: `disk_read`, `disk_write` and the `CTRL_SYNC` of `disk_ioctl`. A
read gives what is in the buffer afterwards, and whether it is `RES_OK`. -/
structure Drive (σ : Type*) where
  disk : σ → Disk
  read : σ → ℕ → ℕ → σ × List UInt8 × Bool
  write : σ → List UInt8 → ℕ → ℕ → σ × Bool
  sync : σ → σ × Bool
  read_disk : ∀ s lba n, disk (read s lba n).1 = disk s
  read_ok : ∀ s lba n, (read s lba n).2.2 = true → (read s lba n).2.1 = sectorBytes (disk s) lba n
  write_ok : ∀ s l lba n, l.length = lbaSize * n → (write s l lba n).2 = true →
    disk (write s l lba n).1 = storeSectors (disk s) lba n l
  write_frame : ∀ s l lba n x, l.length = lbaSize * n → lba + n ≤ 2 ^ 32 → x < lba ∨ lba + n ≤ x →
    disk (write s l lba n).1 x = disk s x
  sync_disk : ∀ s, disk (sync s).1 = disk s

/-! ## Sectors as lists of bytes -/

/-- The bytes of a sector. -/
def bytesOf (b : Sector) : List UInt8 := List.ofFn b

@[simp] theorem length_bytesOf (b : Sector) : (bytesOf b).length = lbaSize := List.length_ofFn

theorem getD_bytesOf (b : Sector) (o : Fin lbaSize) : (bytesOf b).getD o 0 = b o := by
  rw [List.getD_eq_getElem _ _ (by rw [length_bytesOf]; exact o.isLt)]
  exact List.getElem_ofFn _

@[simp] theorem sectorOf_bytesOf (b : Sector) : sectorOf (bytesOf b) 0 = b := by
  funext o
  rw [sectorOf, Nat.mul_zero, Nat.zero_add, getD_bytesOf]

/-- A sector of a run. -/
theorem sectorOf_sectorBytes (d : Disk) (lba : ℕ) {n k : ℕ} (hk : k < n) :
    sectorOf (sectorBytes d lba n) k = d ((lba + k) % 2 ^ 64) := by
  funext o
  have ho := o.isLt
  have hi : lbaSize * k + o < lbaSize * n := by
    have := Nat.mul_le_mul_left lbaSize (show k + 1 ≤ n from hk)
    rw [Nat.mul_succ] at this
    omega
  have hdiv : (lbaSize * k + o) / lbaSize = k := by
    rw [Nat.mul_add_div (by decide), Nat.div_eq_of_lt ho, Nat.add_zero]
  have hoff : sectorOff (lbaSize * k + o) = o :=
    Fin.ext ((Nat.mul_add_mod ..).trans (Nat.mod_eq_of_lt ho))
  rw [sectorOf, List.getD_eq_getElem _ _ (by rwa [length_sectorBytes])]
  simp only [sectorBytes, List.getElem_map, List.getElem_range, hdiv, hoff]

/-- A sector of the disk after a run has been stored. -/
theorem storeSectors_apply (d : Disk) {lba n x : ℕ} (l : List UInt8) (hn : lba + n ≤ 2 ^ 32) :
    storeSectors d lba n l x = if lba ≤ x ∧ x < lba + n then sectorOf l (x - lba) else d x := by
  unfold storeSectors sectorIndex
  by_cases hx : lba ≤ x ∧ x < lba + n
  · have hidx : (x + 2 ^ 64 - lba % 2 ^ 64) % 2 ^ 64 = x - lba := by omega
    rw [if_pos hx, hidx, if_pos (by omega)]
  · rw [if_neg hx, if_neg]
    omega

/-! ## Single sectors -/

namespace Drive

variable {σ : Type*} (D : Drive σ)

/-- `disk_read` of one sector, into a sector buffer. -/
def readSector (s : σ) (lba : ℕ) : σ × Sector × Bool :=
  let r := D.read s lba 1
  (r.1, sectorOf r.2.1 0, r.2.2)

/-- `disk_write` of one sector. -/
def writeSector (s : σ) (b : Sector) (lba : ℕ) : σ × Bool := D.write s (bytesOf b) lba 1

variable {D} {s : σ} {b : Sector} {lba : ℕ}

@[simp] theorem readSector_disk : D.disk (D.readSector s lba).1 = D.disk s := D.read_disk ..

theorem readSector_ok (h : (D.readSector s lba).2.2 = true) (hlba : lba < 2 ^ 32) :
    (D.readSector s lba).2.1 = D.disk s lba := by
  rw [readSector, D.read_ok s lba 1 h, sectorOf_sectorBytes _ _ Nat.zero_lt_one, Nat.add_zero,
    Nat.mod_eq_of_lt (by omega)]

theorem writeSector_ok (h : (D.writeSector s b lba).2 = true) (hlba : lba < 2 ^ 32) :
    D.disk (D.writeSector s b lba).1 = Function.update (D.disk s) lba b := by
  funext x
  rw [writeSector, D.write_ok s _ lba 1 (length_bytesOf b) h, storeSectors_apply _ _ (by omega)]
  by_cases hx : x = lba
  · subst hx
    rw [if_pos ⟨le_rfl, by omega⟩, Nat.sub_self, sectorOf_bytesOf, Function.update_self]
  · rw [if_neg (by omega), Function.update_of_ne hx]

theorem writeSector_frame {x : ℕ} (hlba : lba < 2 ^ 32) (hx : x ≠ lba) :
    D.disk (D.writeSector s b lba).1 x = D.disk s x :=
  D.write_frame s _ lba 1 x (length_bytesOf b) (by omega) (by omega)

end Drive

/-! ## A drive in memory -/

/-- The drive whose state is its disk, and whose calls succeed. -/
def ramDrive : Drive Disk where
  disk := id
  read d lba n := (d, sectorBytes d lba n, true)
  write d l lba n := (storeSectors d lba n l, true)
  sync d := (d, true)
  read_disk _ _ _ := rfl
  read_ok _ _ _ _ := rfl
  write_ok _ _ _ _ _ _ := rfl
  write_frame d l lba n x _ hn hx := (storeSectors_apply d l hn).trans (if_neg (by omega))
  sync_disk _ := rfl

end RvvmHal.Fatfs
