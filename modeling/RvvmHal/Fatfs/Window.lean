import RvvmHal.Fatfs.Drive
import RvvmHal.Fatfs.Entry

/-!
# The sector window

FatFs works on a volume through one sector buffer: `move_window` brings a sector into it, after
`sync_window` has written a dirty one back, and a sector of the first FAT is then written to the
second FAT too.

`Coherent` is the invariant of the window. `view` is the disk as FatFs sees it: the window hides
the sector it stands for as long as it is dirty. Neither call changes the view, whether or not the
drive fails (`moveWindow_spec`); only the second copy of the FAT may change with the write-back
(`SameData`).
-/

namespace RvvmHal.Fatfs

open Nvme

/-! ## Volumes -/

/-- The most clusters: `MAX_FAT12`, `MAX_FAT16` and `MAX_FAT32`. -/
def FatType.maxClusters : FatType → ℕ
  | .fat12 => 0xFF5
  | .fat16 => 0xFFF5
  | .fat32 => 0x0FFFFFF5

/-- The bytes that a table of `n` entries needs, `szbfat` of `mount_volume`. -/
def FatType.tableBytes : FatType → ℕ → ℕ
  | .fat12, n => n * 3 / 2 + n % 2
  | .fat16, n => n * 2
  | .fat32, n => n * 4

/-- The geometry of a mounted FAT volume: the fields of `FATFS` that `mount_volume` sets from the
boot sector, and what they satisfy. Sectors have `NVME_LBA_SIZE` bytes. -/
structure Vol where
  fsType : FatType
  nFats : ℕ
  csize : ℕ
  nFatent : ℕ
  fsize : ℕ
  fatbase : ℕ
  database : ℕ
  nFats_eq : nFats = 1 ∨ nFats = 2
  csize_pow : ∃ k ≤ 7, csize = 2 ^ k
  nFatent_gt : 2 < nFatent
  nFatent_le : nFatent ≤ fsType.maxClusters + 2
  table_fits : fsType.tableBytes nFatent ≤ lbaSize * fsize
  fats_fit : fatbase + nFats * fsize ≤ database
  end_lt : database + csize * (nFatent - 2) < 2 ^ 32

namespace Vol

variable (V : Vol)

theorem csize_pos : 0 < V.csize := by
  obtain ⟨k, -, hk⟩ := V.csize_pow
  rw [hk]
  exact Nat.two_pow_pos k

theorem fsize_pos : 0 < V.fsize := by
  have hn := V.nFatent_gt
  have ht := V.table_fits
  rcases Nat.eq_zero_or_pos V.fsize with h | h
  · rw [h, Nat.mul_zero] at ht
    cases hf : V.fsType
    all_goals
      simp only [hf, FatType.tableBytes] at ht
      omega
  · exact h

/-- The sectors of the FATs. -/
def InFat (x : ℕ) : Prop := V.fatbase ≤ x ∧ x < V.fatbase + V.nFats * V.fsize

/-- The sectors of the second FAT. -/
def InMirror (x : ℕ) : Prop :=
  V.nFats = 2 ∧ V.fatbase + V.fsize ≤ x ∧ x < V.fatbase + 2 * V.fsize

theorem inFat_of_inMirror {x : ℕ} (h : V.InMirror x) : V.InFat x := by
  obtain ⟨hn, h₁, h₂⟩ := h
  refine ⟨by omega, ?_⟩
  rwa [hn]

theorem first_le_fats : V.fsize ≤ V.nFats * V.fsize := by
  rcases V.nFats_eq with h | h <;> rw [h] <;> omega

theorem inFat_lt {x : ℕ} (h : V.InFat x) : x < 2 ^ 32 - 1 := by
  have h₁ := V.fats_fit
  have h₂ := V.end_lt
  have h₃ := V.csize_pos
  have h₄ := V.nFatent_gt
  have h₅ : 0 < V.csize * (V.nFatent - 2) := Nat.mul_pos h₃ (by omega)
  have h₆ := h.2
  omega

end Vol

/-- Two disks agree but for the second FAT. -/
def SameData (V : Vol) (d d' : Disk) : Prop := ∀ x, ¬ V.InMirror x → d' x = d x

namespace SameData

variable {V : Vol} {d d' d'' : Disk}

theorem refl (V : Vol) (d : Disk) : SameData V d d := fun _ _ => rfl

theorem trans (h : SameData V d d') (h' : SameData V d' d'') : SameData V d d'' :=
  fun x hx => (h' x hx).trans (h x hx)

end SameData

/-! ## The file system object -/

/-- The results of the calls of FatFs, of type `FRESULT`. -/
inductive FResult
  | ok
  | diskErr
  | intErr
  | denied
  deriving DecidableEq

/-- The fields of `FATFS` that change while the volume is mounted, and the drive. -/
structure FatFs (σ : Type*) where
  io : σ
  win : Sector
  winsect : ℕ
  wflag : Bool
  lastClst : ℕ
  freeClst : ℕ
  fsiFlag : ℕ

/-- `winsect` when the window holds no sector, `(LBA_t)0 - 1`. -/
abbrev noSector : ℕ := 2 ^ 32 - 1

section

variable {σ : Type*} (D : Drive σ) (V : Vol)

/-- The object after the drive has been used. -/
def FatFs.used (f : FatFs σ) (io : σ) : FatFs σ := { f with io := io }

/-- The object with another sector in its window. -/
def FatFs.load (f : FatFs σ) (io : σ) (win : Sector) (sect : ℕ) : FatFs σ :=
  { f with io := io, win := win, winsect := sect }

/-- The object after its window has been written back. -/
def FatFs.flushed (f : FatFs σ) (io : σ) : FatFs σ := { f with io := io, wflag := false }

/-- `sync_window`. -/
def syncWindow (f : FatFs σ) : FatFs σ × FResult :=
  if f.wflag then
    let w := D.writeSector f.io f.win f.winsect
    if w.2 then
      -- a sector of the 1st FAT is reflected to the 2nd; the difference is one of 32-bit words
      if (f.winsect + 2 ^ 32 - V.fatbase) % 2 ^ 32 < V.fsize ∧ V.nFats = 2 then
        (f.flushed (D.writeSector w.1 f.win (f.winsect + V.fsize)).1, .ok)
      else (f.flushed w.1, .ok)
    else (f.used w.1, .diskErr)
  else (f, .ok)

/-- `move_window`. -/
def moveWindow (f : FatFs σ) (sect : ℕ) : FatFs σ × FResult :=
  if sect ≠ f.winsect then
    let r := syncWindow D V f
    if r.2 = .ok then
      let d := D.readSector r.1.io sect
      if d.2.2 then (r.1.load d.1 d.2.1 sect, .ok)
      else (r.1.load d.1 d.2.1 noSector, .diskErr)
    else r
  else (f, .ok)

/-! ## The view through the window -/

/-- The disk as FatFs sees it. -/
def FatFs.view (f : FatFs σ) : Disk :=
  if f.wflag then Function.update (D.disk f.io) f.winsect f.win else D.disk f.io

/-- A clean window holds what is on the disk, a dirty one is of the volume. -/
structure FatFs.Coherent (f : FatFs σ) : Prop where
  sect_le : f.winsect ≤ noSector
  clean : f.wflag = false → f.winsect ≠ noSector → f.win = D.disk f.io f.winsect
  dirty : f.wflag = true → f.winsect ≠ noSector
  no_mirror : f.wflag = true → ¬ V.InMirror f.winsect

variable {D V} {f : FatFs σ}

theorem FatFs.view_of_clean (h : f.wflag = false) : f.view D = D.disk f.io := by
  rw [FatFs.view, h]
  rfl

theorem FatFs.view_of_dirty (h : f.wflag = true) :
    f.view D = Function.update (D.disk f.io) f.winsect f.win := by
  rw [FatFs.view, if_pos h]

@[simp] theorem FatFs.view_load (h : f.wflag = false) (io : σ) (win : Sector) (sect : ℕ) :
    (f.load io win sect).view D = D.disk io :=
  FatFs.view_of_clean (f := f.load io win sect) h

@[simp] theorem FatFs.view_flushed (io : σ) : (f.flushed io).view D = D.disk io := rfl

/-- The window shows its sector. -/
theorem FatFs.Coherent.view_winsect (h : f.Coherent D V) (hs : f.winsect ≠ noSector) :
    f.view D f.winsect = f.win := by
  cases hw : f.wflag with
  | false => rw [FatFs.view_of_clean hw, h.clean hw hs]
  | true => rw [FatFs.view_of_dirty hw, Function.update_self]

/-- What a call leaves of the object: the view but for the second FAT, and the allocation
information. -/
structure Kept (D : Drive σ) (V : Vol) (f f' : FatFs σ) : Prop where
  coherent : f'.Coherent D V
  data : SameData V (f.view D) (f'.view D)
  lastClst : f'.lastClst = f.lastClst
  freeClst : f'.freeClst = f.freeClst
  fsiFlag : f'.fsiFlag = f.fsiFlag

theorem Kept.refl (h : f.Coherent D V) : Kept D V f f := ⟨h, .refl V _, rfl, rfl, rfl⟩

theorem Kept.trans {f' f'' : FatFs σ} (h : Kept D V f f') (h' : Kept D V f' f'') :
    Kept D V f f'' :=
  ⟨h'.coherent, h.data.trans h'.data, h'.lastClst.trans h.lastClst, h'.freeClst.trans h.freeClst,
    h'.fsiFlag.trans h.fsiFlag⟩

/-- The sector of the second FAT that a write-back reflects to. -/
theorem inMirror_add {x : ℕ} (hx : x < 2 ^ 32) (hlt : (x + 2 ^ 32 - V.fatbase) % 2 ^ 32 < V.fsize)
    (hn : V.nFats = 2) : V.fatbase ≤ x ∧ V.InMirror (x + V.fsize) := by
  have h₁ := V.fats_fit
  have h₂ := V.end_lt
  rw [hn] at h₁
  refine ⟨?_, hn, ?_, ?_⟩ <;> omega

/-- A failed write leaves the window dirty, and the view as it was. -/
theorem FatFs.Coherent.used (h : f.Coherent D V) (hw : f.wflag = true) {io : σ}
    (hio : ∀ x, x ≠ f.winsect → D.disk io x = D.disk f.io x) : Kept D V f (f.used io) := by
  refine ⟨⟨h.sect_le, fun hc => ?_, h.dirty, h.no_mirror⟩, fun x _ => ?_, rfl, rfl, rfl⟩
  · exact absurd (hc.symm.trans hw) Bool.false_ne_true
  · rw [FatFs.view_of_dirty hw, FatFs.view_of_dirty (f := f.used io) hw]
    by_cases hx : x = f.winsect
    · subst hx
      exact (Function.update_self (f.used io).winsect _ _).trans
        (Function.update_self f.winsect f.win (D.disk f.io)).symm
    · rw [Function.update_of_ne hx]
      exact (Function.update_of_ne hx ..).trans (hio x hx)

/-- A write-back makes the disk what FatFs saw. -/
theorem FatFs.Coherent.flushed (h : f.Coherent D V) {io : σ}
    (hwin : D.disk io f.winsect = f.win) (hio : SameData V (f.view D) (D.disk io)) :
    Kept D V f (f.flushed io) :=
  ⟨⟨h.sect_le, fun _ _ => hwin.symm, fun hd => absurd hd Bool.false_ne_true,
    fun hd => absurd hd Bool.false_ne_true⟩, hio, rfl, rfl, rfl⟩

/-- **`sync_window`** keeps what FatFs sees; when it succeeds the window is clean. -/
theorem syncWindow_spec (h : f.Coherent D V) :
    Kept D V f (syncWindow D V f).1 ∧ (syncWindow D V f).1.winsect = f.winsect ∧
      ((syncWindow D V f).2 = .ok → (syncWindow D V f).1.wflag = false) := by
  rw [syncWindow]
  by_cases hw : f.wflag = true
  swap
  · rw [if_neg hw]
    exact ⟨.refl h, rfl, fun _ => Bool.eq_false_of_not_eq_true hw⟩
  have hlt : f.winsect < 2 ^ 32 := Nat.lt_of_le_of_lt h.sect_le (by decide)
  have hview := FatFs.view_of_dirty (D := D) hw
  rw [if_pos hw]
  by_cases hok : (D.writeSector f.io f.win f.winsect).2 = true
  swap
  · rw [if_neg hok]
    exact ⟨h.used hw fun x hx => Drive.writeSector_frame hlt hx, rfl, by simp⟩
  rw [if_pos hok]
  have hdisk := Drive.writeSector_ok hok hlt
  by_cases hm : (f.winsect + 2 ^ 32 - V.fatbase) % 2 ^ 32 < V.fsize ∧ V.nFats = 2
  · -- the second FAT may change, and nothing else does
    rw [if_pos hm]
    obtain ⟨-, hmir⟩ := inMirror_add hlt hm.1 hm.2
    have hmir_lt : f.winsect + V.fsize < 2 ^ 32 :=
      (V.inFat_lt (V.inFat_of_inMirror hmir)).trans (by decide)
    have hsize := V.fsize_pos
    refine ⟨h.flushed ?_ fun x hx => ?_, rfl, fun _ => rfl⟩
    · rw [Drive.writeSector_frame hmir_lt (by omega), hdisk, Function.update_self]
    · have hx' : x ≠ f.winsect + V.fsize := fun he => hx (he ▸ hmir)
      rw [Drive.writeSector_frame hmir_lt hx', hdisk, hview]
  · rw [if_neg hm]
    refine ⟨h.flushed ?_ fun x _ => ?_, rfl, fun _ => rfl⟩
    · rw [hdisk, Function.update_self]
    · rw [hdisk, hview]

/-- Another sector in a clean window. -/
theorem Kept.load {f' : FatFs σ} (h : Kept D V f f') (hw : f'.wflag = false) {io : σ} {win : Sector}
    {sect : ℕ} (hio : D.disk io = D.disk f'.io) (hle : sect ≤ noSector)
    (hwin : sect ≠ noSector → win = D.disk io sect) : Kept D V f (f'.load io win sect) := by
  refine ⟨⟨hle, fun _ => hwin, fun hd => ?_, fun hd => ?_⟩, ?_, h.lastClst, h.freeClst, h.fsiFlag⟩
  · exact absurd (hw.symm.trans hd) Bool.false_ne_true
  · exact absurd (hw.symm.trans hd) Bool.false_ne_true
  · rw [FatFs.view_load hw, hio, ← FatFs.view_of_clean hw]
    exact h.data

/-- **`move_window`** keeps what FatFs sees; when it succeeds the window shows the sector. -/
theorem moveWindow_spec (h : f.Coherent D V) {sect : ℕ} (hs : sect < noSector) :
    Kept D V f (moveWindow D V f sect).1 ∧ ((moveWindow D V f sect).2 = .ok →
      (moveWindow D V f sect).1.winsect = sect ∧
        (moveWindow D V f sect).1.win = (moveWindow D V f sect).1.view D sect) := by
  rw [moveWindow]
  by_cases hne : sect ≠ f.winsect
  swap
  · rw [if_neg hne]
    obtain rfl := not_not.1 hne
    exact ⟨.refl h, fun _ => ⟨rfl, (h.view_winsect hs.ne).symm⟩⟩
  rw [if_pos hne]
  obtain ⟨hkept, -, hclean⟩ := syncWindow_spec h
  by_cases hsync : (syncWindow D V f).2 = .ok
  swap
  · rw [if_neg hsync]
    exact ⟨hkept, fun hok => absurd hok hsync⟩
  rw [if_pos hsync]
  have hw := hclean hsync
  by_cases hok : (D.readSector (syncWindow D V f).1.io sect).2.2 = true
  · rw [if_pos hok]
    have hread := Drive.readSector_ok hok (hs.trans (by decide))
    have hdisk : D.disk (D.readSector (syncWindow D V f).1.io sect).1 =
      D.disk (syncWindow D V f).1.io := Drive.readSector_disk
    rw [← hdisk] at hread
    refine ⟨hkept.load hw Drive.readSector_disk hs.le fun _ => hread, fun _ => ⟨rfl, ?_⟩⟩
    rw [FatFs.view_load hw]
    exact hread
  · rw [if_neg hok]
    exact ⟨hkept.load hw Drive.readSector_disk le_rfl fun hno => absurd rfl hno, by simp⟩

end

/-! ## A small volume -/

/-- One FAT. -/
theorem nFats_one : 1 = 1 ∨ 1 = 2 := .inl rfl

/-- Clusters of one sector. -/
theorem csize_pow_one : ∃ k ≤ 7, 1 = 2 ^ k := ⟨0, Nat.zero_le 7, rfl⟩

/-- A volume of eight clusters and two FATs. -/
def smallVol (t : FatType) : Vol where
  fsType := t
  nFats := 2
  csize := 1
  nFatent := 10
  fsize := 1
  fatbase := 1
  database := 3
  nFats_eq := .inr rfl
  csize_pow := csize_pow_one
  nFatent_gt := Nat.le_of_ble_eq_true rfl
  nFatent_le := match t with
    | .fat12 | .fat16 | .fat32 => Nat.le_of_ble_eq_true rfl
  table_fits := match t with
    | .fat12 | .fat16 | .fat32 => Nat.le_of_ble_eq_true rfl
  fats_fit := Nat.le_of_ble_eq_true rfl
  end_lt := Nat.le_of_ble_eq_true rfl

/-- An empty volume, mounted on a drive. -/
def emptyFsOn {σ : Type*} (io : σ) : FatFs σ := ⟨io, fun _ => 0, noSector, false, 1, 8, 0x80⟩

/-- An empty volume, mounted on a drive in memory. -/
def emptyFs : FatFs Disk := emptyFsOn fun _ _ => 0

theorem coherent_emptyFsOn {σ : Type*} {D : Drive σ} {V : Vol} (io : σ) :
    (emptyFsOn io).Coherent D V :=
  ⟨le_rfl, fun _ h => absurd rfl h, fun h => absurd h Bool.false_ne_true,
    fun h => absurd h Bool.false_ne_true⟩

theorem coherent_emptyFs {V : Vol} : emptyFs.Coherent ramDrive V := coherent_emptyFsOn _

end RvvmHal.Fatfs
