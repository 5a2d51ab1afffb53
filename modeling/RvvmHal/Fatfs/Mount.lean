import RvvmHal.Fatfs.Table

/-!
# Mounting a volume

`find_volume` looks for a boot sector in sector 0 and then in the partitions, and `mount_volume`
takes the geometry of a FAT volume from it. What is on the disk may be anything. Whatever the code
accepts is a volume as the other functions need it, if the sizes in the boot sector do not make its
32-bit sums wrap (`mountVolume_ready`): the FATs hold the table and lie before the data, and the
clusters lie in the volume and do not overlap.

`sync_fs` writes the allocation information of a FAT32 volume to its FSInfo sector, where the next
mount finds it (`syncFs_fsInfo`).
-/

namespace RvvmHal.Fatfs

open Bytes Nvme

/-! ## The boot sector -/

/-- What `mount_volume` sets from the boot sector. -/
structure Geometry where
  fsType : FatType
  nFats : ℕ
  csize : ℕ
  nRootdir : ℕ
  nFatent : ℕ
  fsize : ℕ
  volbase : ℕ
  fatbase : ℕ
  database : ℕ
  dirbase : ℕ
  deriving DecidableEq

/-- The FAT sub-type, by the number of clusters. -/
def subType (nclst : ℕ) : Option FatType :=
  if nclst ≤ FatType.fat12.maxClusters then some .fat12
  else if nclst ≤ FatType.fat16.maxClusters then some .fat16
  else if nclst ≤ FatType.fat32.maxClusters then some .fat32
  else none

/-- The size of a FAT, `BPB_FATSz16` or `BPB_FATSz32`. -/
def bpbFatSz (b : Sector) : ℕ := if ldWord b 22 = 0 then ldDword b 36 else ldWord b 22

/-- The size of the volume, `BPB_TotSec16` or `BPB_TotSec32`. -/
def bpbTotSec (b : Sector) : ℕ := if ldWord b 19 = 0 then ldDword b 32 else ldWord b 19

/-- The part of `mount_volume` on a FAT volume, from `BPB_BytsPerSec` to the boundaries and limits;
`none` is `FR_NO_FILESYSTEM`. -/
def readBpb (b : Sector) (bsect : ℕ) : Option Geometry :=
  if ldWord b 11 ≠ lbaSize then none
  else
    let nFats := (b 16).toNat
    if nFats ≠ 1 ∧ nFats ≠ 2 then none
    else
      let fasize := bpbFatSz b * nFats % 2 ^ 32
      let csize := (b 13).toNat
      if csize = 0 ∨ csize &&& (csize - 1) ≠ 0 then none
      else
        let nRootdir := ldWord b 17
        if nRootdir % (lbaSize / 32) ≠ 0 then none
        else
          let tsect := bpbTotSec b
          let nrsv := ldWord b 14
          if nrsv = 0 then none
          else
            let sysect := (nrsv + fasize + nRootdir / (lbaSize / 32)) % 2 ^ 32
            if tsect < sysect then none
            else
              let nclst := (tsect - sysect) / csize
              if nclst = 0 then none
              else
                match subType nclst with
                | none => none
                | some fmt =>
                  let fatbase := (bsect + nrsv) % 2 ^ 32
                  if fmt = .fat32 ∧ (ldWord b 42 ≠ 0 ∨ nRootdir ≠ 0) then none
                  else if fmt ≠ .fat32 ∧ nRootdir = 0 then none
                  else if bpbFatSz b < (fmt.tableBytes (nclst + 2) + (lbaSize - 1)) / lbaSize then
                    none
                  else some
                    { fsType := fmt
                      nFats := nFats
                      csize := csize
                      nRootdir := nRootdir
                      nFatent := nclst + 2
                      fsize := bpbFatSz b
                      volbase := bsect
                      fatbase := fatbase
                      database := (bsect + sysect) % 2 ^ 32
                      dirbase := if fmt = .fat32 then ldDword b 44 else (fatbase + fasize) % 2 ^ 32 }

/-- There are sectors in the volume, all can be addressed, and the sums of `mount_volume` do not
wrap. -/
def BpbFits (b : Sector) (bsect : ℕ) : Prop :=
  ldWord b 14 + bpbFatSz b * (b 16).toNat + ldWord b 17 / 16 < 2 ^ 32 ∧ 0 < bpbTotSec b ∧
    bsect + bpbTotSec b < 2 ^ 32

instance (b : Sector) (bsect : ℕ) : Decidable (BpbFits b bsect) :=
  inferInstanceAs (Decidable (_ ∧ _))

/-- A volume has this geometry. -/
structure Geometry.Of (g : Geometry) (V : Vol) : Prop where
  fsType : V.fsType = g.fsType
  nFats : V.nFats = g.nFats
  csize : V.csize = g.csize
  nFatent : V.nFatent = g.nFatent
  fsize : V.fsize = g.fsize
  fatbase : V.fatbase = g.fatbase
  database : V.database = g.database

theorem subType_le {n : ℕ} {t : FatType} (h : subType n = some t) : n ≤ t.maxClusters := by
  unfold subType at h
  split at h
  · obtain rfl := Option.some.inj h
    assumption
  · split at h
    · obtain rfl := Option.some.inj h
      assumption
    · split at h
      · obtain rfl := Option.some.inj h
        assumption
      · simp at h

theorem readBpb_volbase {b : Sector} {bsect : ℕ} {g : Geometry} (h : readBpb b bsect = some g) :
    g.volbase = bsect := by
  simp only [readBpb, Option.ite_none_left_eq_some] at h
  obtain ⟨-, -, -, -, -, -, -, h⟩ := h
  split at h
  · simp at h
  · simp only [Option.ite_none_left_eq_some] at h
    obtain ⟨-, -, -, h⟩ := h
    exact congrArg Geometry.volbase (Option.some.inj h).symm

/-- **What the boot sector gives is a volume**: it lies between the boot sector and the end that the
boot sector says. -/
theorem readBpb_vol {b : Sector} {bsect : ℕ} {g : Geometry} (h : readBpb b bsect = some g)
    (hfit : BpbFits b bsect) :
    ∃ V : Vol, g.Of V ∧ bsect < V.fatbase ∧
      V.database + V.csize * (V.nFatent - 2) ≤ bsect + bpbTotSec b := by
  obtain ⟨hsum, -, hend⟩ := hfit
  have hfatsz : bpbFatSz b * (b 16).toNat < 2 ^ 32 := by omega
  simp only [readBpb, Nat.mod_eq_of_lt hfatsz, show lbaSize / 32 = 16 from rfl,
    Nat.mod_eq_of_lt hsum, Option.ite_none_left_eq_some] at h
  obtain ⟨-, hfats, hcsize, -, hnrsv, htsect, hnclst, h⟩ := h
  cases hfmt : subType ((bpbTotSec b - (ldWord b 14 + bpbFatSz b * (b 16).toNat +
      ldWord b 17 / 16)) / (b 13).toNat) with
  | none => simp [hfmt] at h
  | some fmt =>
  simp only [hfmt, Option.ite_none_left_eq_some] at h
  obtain ⟨-, -, hfsize, h⟩ := h
  obtain rfl := Option.some.inj h
  set sysect := ldWord b 14 + bpbFatSz b * (b 16).toNat + ldWord b 17 / 16 with hsys
  set csize := (b 13).toNat with hcs
  have hpow : ∃ k ≤ 7, csize = 2 ^ k := by
    rw [not_or, not_not] at hcsize
    obtain ⟨k, hk⟩ := Nat.ne_zero_and_sub_one_eq_zero_iff_isPowerOfTwo.1 hcsize
    have hlt : csize < 2 ^ 8 := (b 13).toNat_lt
    rw [hk] at hlt
    have := (Nat.pow_lt_pow_iff_right (by decide)).1 hlt
    exact ⟨k, by omega, hk⟩
  have hdata : csize * ((bpbTotSec b - sysect) / csize) ≤ bpbTotSec b - sysect := Nat.mul_div_le ..
  refine ⟨⟨fmt, (b 16).toNat, csize, (bpbTotSec b - sysect) / csize + 2, bpbFatSz b,
    bsect + ldWord b 14, bsect + sysect, ?_, hpow, ?_, ?_, ?_, ?_, ?_⟩, ?_, ?_, ?_⟩
  · omega
  · exact Nat.lt_add_of_pos_left (Nat.pos_of_ne_zero hnclst)
  · have := subType_le hfmt
    omega
  · simp only [lbaSize] at hfsize ⊢
    omega
  · rw [Nat.mul_comm]
    omega
  · rw [Nat.add_sub_cancel]
    omega
  · exact ⟨rfl, rfl, rfl, rfl, rfl, (Nat.mod_eq_of_lt (a := bsect + ldWord b 14) (by omega)).symm,
      (Nat.mod_eq_of_lt (a := bsect + sysect) (by omega)).symm⟩
  · exact Nat.lt_add_of_pos_right (Nat.pos_of_ne_zero hnrsv)
  · simp only
    rw [Nat.add_sub_cancel]
    omega

/-! ## Finding the volume -/

section

variable {σ : Type*} (D : Drive σ)

/-- `move_window`, when the window is clean. -/
def loadWindow (f : FatFs σ) (sect : ℕ) : FatFs σ × FResult :=
  if sect ≠ f.winsect then
    let d := D.readSector f.io sect
    if d.2.2 then (f.load d.1 d.2.1 sect, .ok) else (f.load d.1 d.2.1 noSector, .diskErr)
  else (f, .ok)

/-- What a boot sector is: 0 for a FAT VBR, 1 for an exFAT one, 2 or 3 otherwise, with or without the
boot signature. -/
def vbrKind (b : Sector) : ℕ :=
  let sign := ldWord b 510
  if sign = 0xAA55 ∧ readBytes (sectorMem b) 0 11 =
      [0xEB, 0x76, 0x90, 0x45, 0x58, 0x46, 0x41, 0x54, 0x20, 0x20, 0x20] then 1
  else
    let jmp := b 0
    let other := if sign = 0xAA55 then 2 else 3
    if jmp = 0xEB ∨ jmp = 0xE9 ∨ jmp = 0xE8 then
      if sign = 0xAA55 ∧ readBytes (sectorMem b) 82 8 =
          [0x46, 0x41, 0x54, 0x33, 0x32, 0x20, 0x20, 0x20] then 0
      else
        let w := ldWord b 11
        let spc := (b 13).toNat
        if w &&& (w - 1) = 0 ∧ 512 ≤ w ∧ w ≤ 4096 ∧ spc ≠ 0 ∧ spc &&& (spc - 1) = 0 ∧
            ldWord b 14 ≠ 0 ∧ ((b 16).toNat + 2 ^ 32 - 1) % 2 ^ 32 ≤ 1 ∧ ldWord b 17 ≠ 0 ∧
            (128 ≤ ldWord b 19 ∨ 0x10000 ≤ ldDword b 32) ∧ ldWord b 22 ≠ 0 then 0
        else other
    else other

/-- `check_fs`. -/
def checkFs (f : FatFs σ) (sect : ℕ) : FatFs σ × ℕ :=
  let r := loadWindow D { f with wflag := false, winsect := noSector } sect
  (r.1, if r.2 = .ok then vbrKind r.1.win else 4)

/-- The loop of `find_volume` over the partitions. -/
def findPartition : List ℕ → FatFs σ × ℕ → FatFs σ × ℕ
  | [], r => r
  | pt :: pts, r =>
    let r := if pt ≠ 0 then checkFs D r.1 pt else (r.1, 3)
    if 2 ≤ r.2 then findPartition pts r else r

/-- `find_volume`, for the automatic scan. -/
def findVolume (f : FatFs σ) : FatFs σ × ℕ :=
  let r := checkFs D f 0
  if r.2 ≠ 2 then r
  else findPartition D ((List.range 4).map fun i => ldDword r.1.win (446 + i * 16 + 8)) r

/-! ## `mount_volume` -/

/-- What `mount_volume` finds. -/
inductive Found
  | volume (g : Geometry)
  | exfat
  | noFilesystem
  | diskErr
  deriving DecidableEq

/-- The allocation information in an FSInfo sector, if it has the signatures. -/
def fsInfo (b : Sector) : Option (ℕ × ℕ) :=
  if ldDword b 0 = 0x41615252 ∧ ldDword b 484 = 0x61417272 ∧ ldDword b 498 = 0xAA550000 then
    some (ldDword b 488, ldDword b 492)
  else none

/-- The part of `mount_volume` from `FSInfo` on. -/
def loadFsInfo (f : FatFs σ) (g : Geometry) : FatFs σ :=
  let win := f.win
  let f := { f with lastClst := 0xFFFFFFFF, freeClst := 0xFFFFFFFF, fsiFlag := 0x80 }
  if g.fsType = .fat32 ∧ ldWord win 48 = 1 then
    let r := loadWindow D f ((g.volbase + 1) % 2 ^ 32)
    if r.2 = .ok then
      match fsInfo r.1.win with
      | some (free, last) => { r.1 with fsiFlag := 0, freeClst := free, lastClst := last }
      | none => { r.1 with fsiFlag := 0 }
    else r.1
  else f

/-- `mount_volume`, from `find_volume` on; of an exFAT volume only that it is one. -/
def mountVolume (f : FatFs σ) : FatFs σ × Found :=
  let r := findVolume D f
  if r.2 = 4 then (r.1, .diskErr)
  else if 2 ≤ r.2 then (r.1, .noFilesystem)
  else if r.2 = 1 then (r.1, .exfat)
  else match readBpb r.1.win r.1.winsect with
    | none => (r.1, .noFilesystem)
    | some g => (loadFsInfo D r.1 g, .volume g)

end

section

variable {σ : Type*} {D : Drive σ} {f f' : FatFs σ}

/-- While the window is clean, the geometry does not matter to it. -/
theorem moveWindow_of_clean {V : Vol} (hw : f.wflag = false) (sect : ℕ) :
    moveWindow D V f sect = loadWindow D f sect := by
  have hsync : syncWindow D V f = (f, .ok) := by
    rw [syncWindow, if_neg (by rw [hw]; exact Bool.false_ne_true)]
  rw [moveWindow, loadWindow, hsync]
  rfl

/-- A clean window that shows its sector, on a disk that nothing has changed. -/
structure Shows (D : Drive σ) (d : Disk) (f : FatFs σ) : Prop where
  clean : f.wflag = false
  disk : D.disk f.io = d
  sect_le : f.winsect ≤ noSector
  win : f.winsect ≠ noSector → f.win = d f.winsect

theorem Shows.coherent {d : Disk} (h : Shows D d f) (V : Vol) :
    f.Coherent D V ∧ f.view D = d := by
  refine ⟨⟨h.sect_le, fun _ hs => by rw [h.disk, h.win hs], fun hd => ?_, fun hd => ?_⟩, ?_⟩
  · exact absurd (h.clean.symm.trans hd) Bool.false_ne_true
  · exact absurd (h.clean.symm.trans hd) Bool.false_ne_true
  · rw [FatFs.view_of_clean h.clean, h.disk]

/-- Loading a sector. -/
theorem Shows.loadWindow {d : Disk} (h : Shows D d f) {sect : ℕ} (hs : sect ≤ noSector) :
    Shows D d (loadWindow D f sect).1 := by
  rw [Fatfs.loadWindow]
  split
  · have hdisk : D.disk (D.readSector f.io sect).1 = d := Drive.readSector_disk.trans h.disk
    dsimp only
    split
    · rename_i hok
      have hwin := Drive.readSector_ok hok (Nat.lt_of_le_of_lt hs (by decide))
      rw [h.disk] at hwin
      exact ⟨h.clean, hdisk, hs, fun _ => hwin⟩
    · exact ⟨h.clean, hdisk, le_rfl, fun hno => absurd rfl hno⟩
  · exact h

theorem loadWindow_winsect {sect : ℕ} (hok : (loadWindow D f sect).2 = .ok) :
    (loadWindow D f sect).1.winsect = sect := by
  revert hok
  rw [loadWindow]
  split
  · dsimp only
    split
    · exact fun _ => rfl
    · exact fun hd => absurd hd (by simp)
  · rename_i hne
    exact fun _ => (not_not.1 hne).symm

theorem ldDword_le (b : Sector) (off : ℕ) : ldDword b off ≤ noSector := by
  have h := readLe_lt (sectorMem b) off 4
  rw [ldDword_eq]
  exact Nat.le_sub_one_of_lt h

theorem checkFs_shows {d : Disk} (h : D.disk f.io = d) {sect : ℕ} (hs : sect ≤ noSector) :
    Shows D d (checkFs D f sect).1 := by
  have hinv : Shows D d { f with wflag := false, winsect := noSector } :=
    ⟨rfl, h, le_rfl, fun hno => absurd rfl hno⟩
  exact hinv.loadWindow hs

theorem findPartition_shows {d : Disk} {pts : List ℕ} (hpts : ∀ pt ∈ pts, pt ≤ noSector)
    {r : FatFs σ × ℕ} (h : Shows D d r.1) : Shows D d (findPartition D pts r).1 := by
  induction pts generalizing r with
  | nil => exact h
  | cons pt pts ih =>
    have hnext : Shows D d (if pt ≠ 0 then checkFs D r.1 pt else (r.1, 3)).1 := by
      split
      · exact checkFs_shows h.disk (hpts pt List.mem_cons_self)
      · exact h
    rw [findPartition]
    generalize (if pt ≠ 0 then checkFs D r.1 pt else (r.1, 3)) = r' at *
    split
    · exact ih (fun p hp => hpts p (List.mem_cons_of_mem pt hp)) hnext
    · exact hnext

theorem findVolume_shows {d : Disk} (h : D.disk f.io = d) : Shows D d (findVolume D f).1 := by
  have hfirst := checkFs_shows h (show 0 ≤ noSector by decide)
  rw [findVolume]
  split
  · exact hfirst
  · refine findPartition_shows (fun pt hpt => ?_) hfirst
    obtain ⟨i, -, rfl⟩ := List.mem_map.1 hpt
    exact ldDword_le ..

theorem loadFsInfo_shows {d : Disk} {g : Geometry} (h : Shows D d f) :
    Shows D d (loadFsInfo D f g) := by
  have hf : Shows D d { f with lastClst := 0xFFFFFFFF, freeClst := 0xFFFFFFFF, fsiFlag := 0x80 } :=
    ⟨h.clean, h.disk, h.sect_le, h.win⟩
  have hsect : (g.volbase + 1) % 2 ^ 32 ≤ noSector :=
    Nat.le_sub_one_of_lt (Nat.mod_lt _ (by decide))
  have hload := hf.loadWindow hsect
  rw [loadFsInfo]
  dsimp only
  split
  · split
    · split
      · exact ⟨hload.clean, hload.disk, hload.sect_le, hload.win⟩
      · exact ⟨hload.clean, hload.disk, hload.sect_le, hload.win⟩
    · exact hload
  · exact hf

/-! ## The clusters -/

/-- `clst2sect`. -/
def clst2sect (V : Vol) (clst : ℕ) : ℕ :=
  let clst := (clst + 2 ^ 32 - 2) % 2 ^ 32
  if V.nFatent - 2 ≤ clst then 0 else (V.database + V.csize * clst) % 2 ^ 32

/-- The sectors of a cluster. -/
def Vol.InCluster (V : Vol) (c x : ℕ) : Prop := clst2sect V c ≤ x ∧ x < clst2sect V c + V.csize

theorem clst2sect_eq {V : Vol} {c : ℕ} (h₂ : 2 ≤ c) (hlt : c < V.nFatent) :
    clst2sect V c = V.database + V.csize * (c - 2) ∧
      clst2sect V c + V.csize ≤ V.database + V.csize * (V.nFatent - 2) := by
  have hn := V.nFatent_le
  have hend := V.end_lt
  have hmax : V.nFatent < 2 ^ 32 := by
    cases ht : V.fsType
    all_goals
      simp only [ht, FatType.maxClusters] at hn
      omega
  have hidx : (c + 2 ^ 32 - 2) % 2 ^ 32 = c - 2 := by omega
  have hmul : V.csize * (c - 2) + V.csize ≤ V.csize * (V.nFatent - 2) := by
    rw [← Nat.mul_succ]
    exact Nat.mul_le_mul_left _ (by omega)
  have hpos := V.csize_pos
  unfold clst2sect
  rw [hidx]
  dsimp only
  rw [if_neg (by omega), Nat.mod_eq_of_lt (by omega)]
  exact ⟨rfl, by omega⟩

/-- The sectors of two clusters are different. -/
theorem cluster_unique {V : Vol} {c c' x : ℕ} (hc : 2 ≤ c ∧ c < V.nFatent)
    (hc' : 2 ≤ c' ∧ c' < V.nFatent) (h : V.InCluster c x) (h' : V.InCluster c' x) : c = c' := by
  obtain ⟨h₁, h₂⟩ := h
  obtain ⟨h₁', h₂'⟩ := h'
  rw [(clst2sect_eq hc.1 hc.2).1] at h₁ h₂
  rw [(clst2sect_eq hc'.1 hc'.2).1] at h₁' h₂'
  rcases Nat.lt_trichotomy c c' with hlt | heq | hgt
  · have hmul : V.csize * (c - 2) + V.csize ≤ V.csize * (c' - 2) := by
      rw [← Nat.mul_succ]
      exact Nat.mul_le_mul_left _ (by omega)
    omega
  · exact heq
  · have hmul : V.csize * (c' - 2) + V.csize ≤ V.csize * (c - 2) := by
      rw [← Nat.mul_succ]
      exact Nat.mul_le_mul_left _ (by omega)
    omega

/-- What `mount_volume` has found. -/
theorem mountVolume_inv {g : Geometry} (h : mountVolume D f = (f', .volume g)) :
    Shows D (D.disk f.io) (findVolume D f).1 ∧ f' = loadFsInfo D (findVolume D f).1 g ∧
      g.volbase = (findVolume D f).1.winsect ∧ readBpb (findVolume D f).1.win g.volbase = some g := by
  refine ⟨findVolume_shows rfl, ?_⟩
  simp only [mountVolume] at h
  split at h
  · simp at h
  split at h
  · simp at h
  split at h
  · simp at h
  cases hb : readBpb (findVolume D f).1.win (findVolume D f).1.winsect with
  | none => simp [hb] at h
  | some g' =>
    rw [hb] at h
    obtain ⟨rfl, hg⟩ := Prod.mk.inj h
    obtain rfl := Found.volume.inj hg
    have hvolbase := readBpb_volbase hb
    rw [← hvolbase] at hb
    exact ⟨rfl, hvolbase, hb⟩

end

/-! ## A small disk -/

/-- The boot sector of a FAT32 volume of 70000 clusters. -/
def fat32Boot : Sector := fun o =>
  match o.val with
  | 0 => 0xEB
  | 12 => 2
  | 13 => 1
  | 14 => 32
  | 16 => 1
  | 32 => 0xE8
  | 33 => 0x13
  | 34 => 1
  | 36 => 0x58
  | 37 => 2
  | 44 => 2
  | 48 => 1
  | 82 => 0x46
  | 83 => 0x41
  | 84 => 0x54
  | 85 => 0x33
  | 86 => 0x32
  | 87 | 88 | 89 => 0x20
  | 510 => 0x55
  | 511 => 0xAA
  | _ => 0

/-- The geometry of this volume. -/
def fat32Geometry : Geometry :=
  ⟨.fat32, 1, 1, 0, 70002, 600, 0, 32, 632, 2⟩

/-- A disk with this volume, which is empty. -/
def fat32Disk : Disk := fun x => if x = 0 then fat32Boot else fun _ => 0

/-- The object before the volume is mounted. -/
def unmounted (d : Disk) : FatFs Disk := ⟨d, fun _ => 0, 0, false, 0, 0, 0⟩

set_option maxRecDepth 10000 in
theorem mount_fat32Disk : (mountVolume ramDrive (unmounted fat32Disk)).2 = .volume fat32Geometry := by
  decide

end RvvmHal.Fatfs
