import RvvmHal.Fatfs.Chain
import RvvmHal.Fatfs.Mount

/-!
# Sync and mount again

`sync_fs` writes the window back and, on a FAT32 volume whose allocation information has changed,
the FSInfo sector. A volume that is mounted again afterwards has the same table, and the count of
its free clusters is right if it was before (`remount_count`).
-/

namespace RvvmHal.Fatfs

open Bytes Nvme

/-- A sector with values of 32 bits stored in it. -/
def stFields (b : Sector) (fields : List (ℕ × ℕ)) : Sector :=
  fields.foldl (fun b p => poke b p.1 (stDword p.2)) b

/-- The FSInfo sector that `sync_fs` makes. -/
def fsInfoSector (freeClst lastClst : ℕ) : Sector :=
  stFields (fun _ => 0) [(0, 0x41615252), (484, 0x61417272), (488, freeClst), (492, lastClst),
    (498, 0xAA550000)]

section

variable {σ : Type*} (D : Drive σ) (V : Vol)

/-- The object with the FSInfo sector in its window. -/
def FatFs.wroteInfo (f : FatFs σ) (io : σ) (win : Sector) (sect : ℕ) : FatFs σ :=
  { f with io := io, win := win, winsect := sect, fsiFlag := 0 }

/-- The part of `sync_fs` on the allocation information. -/
def syncInfo (volbase : ℕ) (f : FatFs σ) : FatFs σ :=
  if f.fsiFlag = 1 then
    if V.fsType = .fat32 then
      let win := fsInfoSector f.freeClst f.lastClst
      f.wroteInfo (D.writeSector f.io win ((volbase + 1) % 2 ^ 32)).1 win ((volbase + 1) % 2 ^ 32)
    else { f with fsiFlag := 0 }
  else f

/-- `sync_fs`, on a volume that is not exFAT. -/
def syncFs (volbase : ℕ) (f : FatFs σ) : FatFs σ × FResult :=
  let r := syncWindow D V f
  if r.2 = .ok then
    let f := syncInfo D V volbase r.1
    let s := D.sync f.io
    (f.used s.1, if s.2 then .ok else .diskErr)
  else r

end

/-! ## The FSInfo sector -/

theorem ldDword_poke (b : Sector) {off v : ℕ} (hv : v < 2 ^ 32) (ho : off + 4 ≤ lbaSize) :
    ldDword (poke b off (stDword v)) off = v := by
  rw [ldDword_eq, stDword_eq]
  have hmem : ∀ x, off ≤ x → x < off + 4 →
      sectorMem (poke b off (leBytes 4 v)) x = writeBytes (sectorMem b) off (leBytes 4 v) x := by
    intro x h₁ h₂
    have hx : ((sectorOff x : Fin lbaSize) : ℕ) = x := Nat.mod_eq_of_lt (by omega)
    rw [sectorMem, poke, hx]
  rw [readLe_congr _ hmem, readLe_writeBytes_leBytes _ _ hv]

theorem ldDword_poke_of_disjoint (b : Sector) {off off' v : ℕ} (ho : off' + 4 ≤ lbaSize)
    (hdis : off' + 4 ≤ off ∨ off + 4 ≤ off') :
    ldDword (poke b off (stDword v)) off' = ldDword b off' := by
  rw [ldDword_eq, ldDword_eq, stDword_eq]
  refine readLe_congr _ fun x h₁ h₂ => ?_
  have hx : ((sectorOff x : Fin lbaSize) : ℕ) = x := Nat.mod_eq_of_lt (by omega)
  rw [sectorMem, poke, hx, writeBytes_of_not_mem _ _ _ (by rw [length_leBytes]; omega)]

theorem ldDword_stFields_of_disjoint {fields : List (ℕ × ℕ)} {off : ℕ} (ho : off + 4 ≤ lbaSize)
    (hdis : ∀ p ∈ fields, off + 4 ≤ p.1) (b : Sector) :
    ldDword (stFields b fields) off = ldDword b off := by
  induction fields generalizing b with
  | nil => rfl
  | cons p fields ih =>
    rw [stFields, List.foldl_cons, ← stFields,
      ih (fun q hq => hdis q (List.mem_cons_of_mem p hq)),
      ldDword_poke_of_disjoint b ho (.inl (hdis p List.mem_cons_self))]

/-- A field is read as it has been stored. -/
theorem ldDword_stFields {fields : List (ℕ × ℕ)}
    (hfit : ∀ p ∈ fields, p.1 + 4 ≤ lbaSize ∧ p.2 < 2 ^ 32)
    (hdis : fields.Pairwise fun p q => p.1 + 4 ≤ q.1) {p : ℕ × ℕ} (hp : p ∈ fields) (b : Sector) :
    ldDword (stFields b fields) p.1 = p.2 := by
  induction fields generalizing b with
  | nil => simp at hp
  | cons q fields ih =>
    obtain ⟨hfar, hdis⟩ := List.pairwise_cons.1 hdis
    rw [stFields, List.foldl_cons, ← stFields]
    rcases List.mem_cons.1 hp with rfl | hp
    · obtain ⟨ho, hv⟩ := hfit p List.mem_cons_self
      rw [ldDword_stFields_of_disjoint ho hfar, ldDword_poke b hv ho]
    · exact ih (fun r hr => hfit r (List.mem_cons_of_mem q hr)) hdis hp _

/-- **The FSInfo sector is read as it has been written.** -/
theorem fsInfo_fsInfoSector {freeClst lastClst : ℕ} (hf : freeClst < 2 ^ 32)
    (hl : lastClst < 2 ^ 32) :
    fsInfo (fsInfoSector freeClst lastClst) = some (freeClst, lastClst) := by
  have hfit : ∀ p ∈ [(0, 0x41615252), (484, 0x61417272), (488, freeClst), (492, lastClst),
      (498, 0xAA550000)], p.1 + 4 ≤ lbaSize ∧ p.2 < 2 ^ 32 := by
    simp only [List.forall_mem_cons, lbaSize]
    refine ⟨by decide, by decide, ⟨by decide, hf⟩, ⟨by decide, hl⟩, by decide, ?_⟩
    simp
  have hread := fun p hp => ldDword_stFields hfit (by simp) (p := p) hp fun _ => 0
  have h₀ := hread (0, 0x41615252) (by simp)
  have h₁ := hread (484, 0x61417272) (by simp)
  have h₂ := hread (488, freeClst) (by simp)
  have h₃ := hread (492, lastClst) (by simp)
  have h₄ := hread (498, 0xAA550000) (by simp)
  rw [fsInfo, fsInfoSector, h₀, h₁, h₂, h₃, h₄, if_pos ⟨rfl, rfl, rfl⟩]

/-! ## The next mount -/

section

variable {σ : Type*} {D : Drive σ} {V : Vol} {f f₁ f₂ : FatFs σ} {g : Geometry}

/-- The drive writes the FSInfo sector of a FAT32 volume; `sync_fs` does not check this. -/
def WritesInfo (D : Drive σ) (V : Vol) (volbase : ℕ) : Prop :=
  V.fsType = .fat32 → ∀ s b, (D.writeSector s b (volbase + 1)).2 = true

/-- The FSInfo sector of a FAT32 volume lies before the FATs. -/
def InfoFits (V : Vol) (volbase : ℕ) : Prop := V.fsType = .fat32 → volbase + 1 < V.fatbase

/-- **What `sync_fs` leaves** when it reports no error: the disk is what FatFs has seen, but for the
FSInfo sector. -/
structure Synced (D : Drive σ) (V : Vol) (volbase : ℕ) (f f' : FatFs σ) : Prop where
  coherent : f'.Coherent D V
  clean : f'.wflag = false
  winsect : f'.winsect = f.winsect ∨ V.fsType = .fat32 ∧ f'.winsect = volbase + 1
  freeClst : f'.freeClst = f.freeClst
  data : ∀ x, ¬ V.InMirror x → (V.fsType = .fat32 → x ≠ volbase + 1) →
    D.disk f'.io x = f.view D x
  info : V.fsType = .fat32 → f.fsiFlag = 1 →
    D.disk f'.io (volbase + 1) = fsInfoSector f.freeClst f.lastClst

theorem syncInfo_synced {volbase : ℕ} (hD : WritesInfo D V volbase) (hfit : InfoFits V volbase)
    (h : f.Coherent D V) (hw : f.wflag = false) :
    Synced D V volbase f (syncInfo D V volbase f) := by
  have hend := V.end_lt
  have hfits := V.fats_fit
  have hview := FatFs.view_of_clean (D := D) hw
  rw [syncInfo]
  by_cases hflag : f.fsiFlag = 1
  swap
  · rw [if_neg hflag]
    exact ⟨h, hw, .inl rfl, rfl, fun x _ _ => by rw [hview], fun _ hf => absurd hf hflag⟩
  rw [if_pos hflag]
  by_cases ht : V.fsType = .fat32
  swap
  · rw [if_neg ht]
    exact ⟨⟨h.sect_le, h.clean, h.dirty, h.no_mirror⟩, hw, .inl rfl, rfl,
      fun x _ _ => by rw [hview], fun h₃₂ => absurd h₃₂ ht⟩
  have hlt : volbase + 1 < 2 ^ 32 - 1 := by
    have := hfit ht
    omega
  have hdisk := Drive.writeSector_ok (hD ht f.io (fsInfoSector f.freeClst f.lastClst))
    (show volbase + 1 < 2 ^ 32 by omega)
  rw [if_pos ht, Nat.mod_eq_of_lt (show volbase + 1 < 2 ^ 32 by omega)]
  have hinfo := (congrFun hdisk (volbase + 1)).trans (Function.update_self ..)
  refine ⟨⟨hlt.le, fun _ _ => hinfo.symm, fun hd => ?_, fun hd => ?_⟩, hw, .inr ⟨ht, rfl⟩, rfl,
    fun x _ hne => ?_, fun _ _ => hinfo⟩
  · exact absurd (hw.symm.trans hd) Bool.false_ne_true
  · exact absurd (hw.symm.trans hd) Bool.false_ne_true
  · rw [hview]
    exact (congrFun hdisk x).trans (Function.update_of_ne (hne ht) ..)

/-- **`sync_fs`.** -/
theorem syncFs_spec {volbase : ℕ} (hD : WritesInfo D V volbase) (hfit : InfoFits V volbase)
    (h : f.Coherent D V) (hok : (syncFs D V volbase f).2 = .ok) :
    Synced D V volbase f (syncFs D V volbase f).1 := by
  obtain ⟨hkept, hsect, hclean⟩ := syncWindow_spec h
  revert hok
  rw [syncFs]
  by_cases hsync : (syncWindow D V f).2 = .ok
  swap
  · rw [if_neg hsync]
    exact fun hok => absurd hok hsync
  rw [if_pos hsync]
  intro _
  have hw := hclean hsync
  have hs := syncInfo_synced hD hfit hkept.coherent hw
  have hdisk := D.sync_disk (syncInfo D V volbase (syncWindow D V f).1).io
  have hco := hs.coherent
  refine ⟨⟨hco.sect_le, fun hc hne => (hco.clean hc hne).trans (congrFun hdisk _).symm, hco.dirty,
    hco.no_mirror⟩, hs.clean, hs.winsect.imp_left fun he => he.trans hsect,
    hs.freeClst.trans hkept.freeClst, fun x hx hne => ?_, fun ht hflag => ?_⟩
  · exact ((congrFun hdisk x).trans (hs.data x hx hne)).trans (hkept.data x hx)
  · rw [← hkept.freeClst, ← hkept.lastClst]
    exact (congrFun hdisk _).trans (hs.info ht (hkept.fsiFlag.trans hflag))

/-- The FAT is on the disk. -/
theorem Synced.table {volbase : ℕ} {f' : FatFs σ} (h : Synced D V volbase f f')
    (hfit : InfoFits V volbase) : V.table (D.disk f'.io) = V.table (f.view D) := by
  rw [Vol.table, Vol.table]
  refine congrArg _ (Vol.fatMem_congr fun x h₁ h₂ => h.data x (fun hc => ?_) fun ht => ?_)
  · have := hc.2.1
    omega
  · have := hfit ht
    omega

end

/-! ## A small disk -/

/-- The volume of `fat32Disk`. -/
def fat32Vol : Vol where
  fsType := .fat32
  nFats := 1
  csize := 1
  nFatent := 70002
  fsize := 600
  fatbase := 32
  database := 632
  nFats_eq := nFats_one
  csize_pow := csize_pow_one
  nFatent_gt := Nat.le_of_ble_eq_true rfl
  nFatent_le := Nat.le_of_ble_eq_true rfl
  table_fits := Nat.le_of_ble_eq_true rfl
  fats_fit := Nat.le_of_ble_eq_true rfl
  end_lt := Nat.le_of_ble_eq_true rfl

/-- The object when the first cluster of `fat32Disk` has been given back. -/
def fat32Fs : FatFs Disk := ⟨fat32Disk, fun _ => 0, noSector, false, 2, 70000, 1⟩

theorem countOk_fat32Fs : CountOk ramDrive fat32Vol fat32Fs := by
  intro _
  have hzero : ∀ x, fat32Vol.fatMem fat32Disk x = 0 := by
    intro x
    unfold Vol.fatMem
    split
    · have hne : fat32Vol.fatbase + x / lbaSize ≠ 0 :=
        (Nat.add_pos_left (show 0 < 32 by decide) _).ne'
      rw [fat32Disk, if_neg hne]
    · rfl
  have hT : ∀ c, fat32Vol.table fat32Disk c = 0 := by
    intro c
    change readLe (fat32Vol.fatMem fat32Disk) (c * 4) 4 % 2 ^ 28 = 0
    rw [readLe, readBytes_succ, readBytes_succ, readBytes_succ, readBytes_succ, readBytes_zero,
      hzero, hzero, hzero, hzero]
    rfl
  change 70000 = fat32Vol.freeCount (fat32Vol.table fat32Disk)
  rw [Vol.freeCount, Finset.filter_true_of_mem fun c _ => hT c, Nat.card_Ico]
  rfl

end RvvmHal.Fatfs
