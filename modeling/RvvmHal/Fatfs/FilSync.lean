import RvvmHal.Fatfs.FilTrunc

/-!
# Files on the disk

`f_sync` writes the buffer of a file back, makes its directory entry, and then `sync_fs` writes the
window back: the FATs are on the disk already by then, since the window leaves them for the directory.
So everything about the file is on the disk (`OnDisk`), and `f_open` makes the file of it again
(`OnDisk.filOk`).

A call of `f_sync` leaves the volume in order only if the FSInfo sector of a FAT32 volume has been
written, which `sync_fs` does not check.
-/

namespace RvvmHal.Fatfs

open Bytes Nvme

/-! ## The directory entry -/

section

variable {b : Sector} {l : List UInt8} {off a n v : ℕ}

theorem sectorMem_poke {x : ℕ} (hx : x < lbaSize) :
    sectorMem (poke b off l) x = writeBytes (sectorMem b) off l x := by
  rw [sectorMem, poke]
  exact congrArg _ (Nat.mod_eq_of_lt hx)

theorem readLe_poke_of_disjoint (b : Sector) (l : List UInt8) (hfit : a + n ≤ lbaSize)
    (h : a + n ≤ off ∨ off + l.length ≤ a) :
    readLe (sectorMem (poke b off l)) a n = readLe (sectorMem b) a n :=
  readLe_congr _ fun x h₁ h₂ => by
    rw [sectorMem_poke (by omega), writeBytes_of_not_mem _ _ _ (by omega)]

theorem readLe_poke (b : Sector) (hfit : off + n ≤ lbaSize) (hv : v < 256 ^ n) :
    readLe (sectorMem (poke b off (leBytes n v))) off n = v := by
  rw [readLe_congr (writeBytes (sectorMem b) off (leBytes n v)) fun x _ h₂ =>
    sectorMem_poke (by omega), readLe_writeBytes_leBytes _ _ hv]

variable {V : Vol} {fp : Fil} {tm : ℕ}

/-- **The size** in the entry. -/
theorem size_updateEntry (hfit : off + 32 ≤ lbaSize) (hsize : fp.objsize < 2 ^ 32) :
    ldDword (updateEntry V b fp off tm) (off + 28) = fp.objsize := by
  rw [ldDword_eq, updateEntry]
  rw [readLe_poke_of_disjoint _ _ (by omega) (.inr (by simp [stWord])),
    readLe_poke_of_disjoint _ _ (by omega) (.inr (by simp [stDword])), stDword_eq,
    readLe_poke _ (by omega) (show _ < 2 ^ 32 from Nat.mod_lt _ (by decide)),
    Nat.mod_eq_of_lt hsize]

/-- **The first cluster** in the entry. -/
theorem ldClust_updateEntry (hfit : off + 32 ≤ lbaSize)
    (hs : fp.sclust < if V.fsType = .fat32 then 2 ^ 32 else 2 ^ 16) :
    ldClust V (updateEntry V b fp off tm) off = fp.sclust := by
  rw [ldClust, ldWord_eq, ldWord_eq, updateEntry]
  by_cases ht : V.fsType = .fat32
  · rw [if_pos ht] at hs
    rw [if_pos ht, if_pos ht]
    generalize hb : poke b (off + 11) _ = b₁
    have hlo : fp.sclust % 2 ^ 16 < 2 ^ 16 := Nat.mod_lt _ (by decide)
    have hhi : fp.sclust >>> 16 % 2 ^ 16 = fp.sclust / 2 ^ 16 := by
      rw [Word.shiftRight_eq, Nat.mod_eq_of_lt (by omega)]
    rw [readLe_poke_of_disjoint (a := off + 26) _ _ (by omega) (.inr (by simp [stWord])),
      readLe_poke_of_disjoint (a := off + 26) _ _ (by omega) (.inr (by simp [stDword])),
      readLe_poke_of_disjoint (a := off + 26) _ _ (by omega) (.inl (by omega)),
      readLe_poke_of_disjoint (a := off + 26) _ _ (by omega) (.inr (by simp [stWord])),
      readLe_poke_of_disjoint (a := off + 20) _ _ (by omega) (.inr (by simp [stWord])),
      readLe_poke_of_disjoint (a := off + 20) _ _ (by omega) (.inl (by omega)),
      readLe_poke_of_disjoint (a := off + 20) _ _ (by omega) (.inl (by omega)), hhi, stWord_eq,
      stWord_eq, readLe_poke _ (by omega) hlo, readLe_poke _ (by omega) (show _ < 256 ^ 2 by omega),
      Word.or_shiftLeft hlo, Nat.mul_comm, Nat.mod_add_div]
  · rw [if_neg ht] at hs
    rw [if_neg ht, if_neg ht]
    rw [readLe_poke_of_disjoint _ _ (by omega) (.inr (by simp [stWord])),
      readLe_poke_of_disjoint _ _ (by omega) (.inr (by simp [stDword])),
      readLe_poke_of_disjoint _ _ (by omega) (.inl (by omega)), stWord_eq,
      readLe_poke _ (by omega) (show _ < 2 ^ 16 from Nat.mod_lt _ (by decide)),
      Nat.mod_eq_of_lt hs]

end

/-! ## `f_sync` -/

section

variable {σ ι κ : Type*} {D : Drive σ} {V : Vol} {i : ι} {f f' : FatFs σ}
  {files : ι ⊕ κ → List ℕ} {bs : List (Option UInt8)} {fp fp' : Fil}

/-- The places of directories: the root directory of a FAT12 or FAT16 volume, and clusters. -/
def DirPlace (V : Vol) (files : ι ⊕ κ → List ℕ) (x : ℕ) : Prop :=
  V.fatbase + V.nFats * V.fsize ≤ x ∧ x < V.database ∨ ∃ k, V.InChain (files (.inr k)) x

/-- A directory is beside the FATs and the files. -/
theorem Mounted.dirPlace (hm : Mounted D V f files) {x : ℕ} (hx : DirPlace V files x) (i : ι) :
    V.fatbase ≤ x ∧ x < noSector ∧ ¬ V.InFat x ∧ ¬ V.InChain (files (.inl i)) x := by
  have hfit := V.fats_fit
  have hend := V.end_lt
  have hle := V.first_le_fats
  have hpos : 0 < V.csize * (V.nFatent - 2) :=
    Nat.mul_pos V.csize_pos (Nat.sub_pos_of_lt V.nFatent_gt)
  simp only [noSector]
  rcases hx with ⟨h₁, h₂⟩ | ⟨k, hk⟩
  · refine ⟨by omega, by omega, fun hfat => ?_, hm.outside i (.inl h₂)⟩
    have := hfat.2
    omega
  · obtain ⟨-, h₁, h₂, h₃⟩ := hk.bounds (hm.cluster _)
    exact ⟨by omega, by omega, h₃, hm.outside i (.inr (.inr ⟨k, hk⟩))⟩

/-- FatFs sees the disk outside the FATs. -/
theorem FatDirty.view (h : FatDirty V f) {x : ℕ} (hx : ¬ V.InFat x) :
    f.view D x = D.disk f.io x := by
  cases hw : f.wflag with
  | false => rw [FatFs.view_of_clean hw]
  | true =>
    have hne : x ≠ f.winsect := fun he => hx (he ▸ h hw)
    rw [FatFs.view_of_dirty hw, Function.update_of_ne hne]

/-- Another content of the window, outside the FATs. -/
theorem FatFs.Coherent.edit (h : f.Coherent D V) (hs : f.winsect ≠ noSector)
    (hfat : ¬ V.InFat f.winsect) (b : Sector) : (f.edit b).Coherent D V ∧
      (f.edit b).view D = Function.update (f.view D) f.winsect b := by
  refine ⟨⟨h.sect_le, fun hc => absurd hc (by simp [FatFs.edit]), fun _ => hs,
    fun _ hm => hfat (V.inFat_of_inMirror hm)⟩, ?_⟩
  rw [FatFs.view_of_dirty (f := f.edit b) rfl]
  cases hw : f.wflag with
  | false => exact congrArg (Function.update · f.winsect b) (FatFs.view_of_clean hw).symm
  | true =>
    rw [FatFs.view_of_dirty hw, Function.update_idem]
    rfl

/-- **The directory entry is written**: the window is moved to it, it is made, and `sync_fs` writes it
back. -/
theorem Mounted.writeEntry {volbase : ℕ} (hD : WritesInfo D V volbase) (hfit : InfoFits V volbase)
    (hm : Mounted D V f files) {x : ℕ} (hx : DirPlace V files x)
    {b : Sector → Sector} (i : ι) (hmove : (moveWindow D V f x).2 = .ok)
    (hok : (syncFs D V volbase ((moveWindow D V f x).1.edit (b (moveWindow D V f x).1.win))).2 = .ok) :
    let f' := (syncFs D V volbase ((moveWindow D V f x).1.edit (b (moveWindow D V f x).1.win))).1
    Mounted D V f' files ∧ f'.wflag = false ∧ D.disk f'.io x = b (D.disk f.io x) ∧
      ∀ y, ¬ V.InFat y → y ≠ x → (V.fsType = .fat32 → y ≠ volbase + 1) →
        D.disk f'.io y = D.disk f.io y := by
  obtain ⟨hx₁, hx₂, hx₃, -⟩ := hm.dirPlace hx i
  have hle := V.first_le_fats
  have hfats := V.fats_fit
  obtain ⟨hkept, hmoved⟩ := moveWindow_spec hm.exact.coherent hx₂
  obtain ⟨hsect, hwin⟩ := hmoved hmove
  have hmir : ∀ y, ¬ V.InFat y → ¬ V.InMirror y := fun y hy hc => hy (V.inFat_of_inMirror hc)
  -- outside the FATs FatFs sees the disk
  have hview : ∀ y, ¬ V.InFat y → (moveWindow D V f x).1.view D y = D.disk f.io y := fun y hy =>
    (hkept.data y (hmir y hy)).trans (hm.dirty.view hy)
  generalize (moveWindow D V f x).1 = f₁ at *
  have hne : f₁.winsect ≠ noSector := hsect ▸ hx₂.ne
  have hfat : ¬ V.InFat f₁.winsect := hsect ▸ hx₃
  obtain ⟨hco, hedit⟩ := hkept.coherent.edit hne hfat (b f₁.win)
  have hsynced := syncFs_spec hD hfit hco hok
  have hdisk := hsynced.data
  have hsynced_T := hsynced.table hfit
  rw [hedit, hsect] at hdisk hsynced_T
  generalize (syncFs D V volbase (f₁.edit (b f₁.win))).1 = f' at *
  have hclean := hsynced.clean
  have hT : V.table (f'.view D) = V.table (f.view D) := by
    rw [FatFs.view_of_clean hclean, hsynced_T, ← hkept.table_eq, Vol.table, Vol.table]
    refine congrArg _ (Vol.fatMem_congr fun y h₁ h₂ => ?_)
    rw [Function.update_of_ne]
    rintro rfl
    exact hx₃ ⟨h₁, by omega⟩
  refine ⟨⟨hm.exact.of_table hsynced.coherent hT ?_, fun hd => ?_, ?_⟩, hclean, ?_,
    fun y h₁ h₂ h₃ => ?_⟩
  · have hcount := hm.exact.count
    unfold CountOk at hcount ⊢
    rwa [hT, hsynced.freeClst, show (f₁.edit (b f₁.win)).freeClst = f.freeClst from hkept.freeClst]
  · exact absurd (hclean.symm.trans hd) Bool.false_ne_true
  · rcases hsynced.winsect with hs | ⟨ht, hs⟩
    · rw [show (f₁.edit (b f₁.win)).winsect = x from hsect] at hs
      rw [hs]
      rcases hx with ⟨-, hx⟩ | hx
      · exact .inl hx
      · exact .inr (.inr hx)
    · have := hfit ht
      exact .inl (by omega)
  · have hne' : V.fsType = .fat32 → x ≠ volbase + 1 := fun ht => by
      have := hfit ht
      omega
    rw [hdisk x (hmir x hx₃) hne', Function.update_self, hwin, hview x hx₃]
  · rw [hdisk y (hmir y h₁) h₃, Function.update_of_ne h₂, hview y h₁]

/-- **`f_sync`** of a file that has been changed. -/
theorem fSync_spec {volbase : ℕ} (tm : ℕ) (hD : WritesInfo D V volbase) (hfit : InfoFits V volbase)
    (hm : Mounted D V f files) (h : FilOk V (D.disk f.io) (files (.inl i)) bs fp)
    (hdir : DirPlace V files fp.dirSect) (hmod : fp.modified = true)
    (hok : (fSync D V volbase f fp tm).2.2 = .ok) :
    let r := fSync D V volbase f fp tm
    Mounted D V r.1 files ∧ r.1.wflag = false ∧
      FilOk V (D.disk r.1.io) (files (.inl i)) bs r.2.1 ∧
      r.2.1 = { fp.flushed with modified := false } ∧
      D.disk r.1.io fp.dirSect = updateEntry V (D.disk f.io fp.dirSect) fp fp.dirOff tm ∧
      ∀ x, ¬ V.InFat x → ¬ V.InChain (files (.inl i)) x → x ≠ fp.dirSect →
        (V.fsType = .fat32 → x ≠ volbase + 1) → D.disk r.1.io x = D.disk f.io x := by
  obtain ⟨-, -, hx₃, hx₄⟩ := hm.dirPlace hdir i
  have hle := V.first_le_fats
  have hfats := V.fats_fit
  revert hok
  rw [fSync, if_pos hmod]
  dsimp only
  by_cases hflush : (flushFil D f fp).2.2 = true
  swap
  · rw [if_neg hflush]
    intro hok
    cases hok
  rw [if_pos hflush]
  obtain ⟨hwent, hfil, hdata⟩ := flushFil_spec hm h.toFilData hflush
  rw [hfil]
  by_cases hmove : (moveWindow D V (flushFil D f fp).1 fp.dirSect).2 = .ok
  swap
  · rw [if_neg hmove]
    exact fun hok => absurd hok hmove
  rw [if_pos hmove]
  intro hok
  obtain ⟨hm', hclean, hentry, hframe⟩ := hwent.mounted.writeEntry (b := fun b =>
    updateEntry V b fp fp.dirOff tm) hD hfit hdir i hmove hok
  have hdata' := hdata.congr_disk fun x hx => by
    have hb := hx.bounds h.cluster
    refine hframe x hb.2.2.2 (fun he => hx₄ (he ▸ hx)) fun ht => ?_
    have := hfit ht
    omega
  refine ⟨hm', hclean, ⟨hdata'.congr_fil _ rfl rfl rfl rfl rfl, h.fptr_le, h.clust, h.sect⟩, rfl, ?_,
    fun x h₁ h₂ h₃ h₄ => (hframe x h₁ h₃ h₄).trans (hwent.frame x h₁ h₂)⟩
  rw [hentry, hwent.frame _ hx₃ hx₄]

/-! ## On the disk -/

/-- **A file is on the disk**: its directory entry, its chain in the FAT, and its bytes. -/
structure OnDisk (V : Vol) (d : Disk) (l : List ℕ) (bs : List (Option UInt8)) (dirSect off : ℕ) :
    Prop where
  cluster : ∀ a ∈ l, V.IsCluster a
  nodup : l.Nodup
  linked : LinkTable.Linked (V.table d) (V.nFatent ≤ ·) l
  fits : bs.length ≤ V.bcs * l.length
  size_lt : bs.length < 2 ^ 32
  sclust : ldClust V (d dirSect) off = l.headD 0
  size : ldDword (d dirSect) (off + 28) = bs.length
  bytes : ∀ p b, bs[p]? = some (some b) → d (V.sectAt l (p / lbaSize)) (sectorOff p) = b

/-- **The file that `f_open` makes** of the entry is in order. -/
theorem OnDisk.filOk {d : Disk} {l : List ℕ} {dirSect off : ℕ} (h : OnDisk V d l bs dirSect off)
    (canRead canWrite : Bool) :
    FilOk V d l bs (openEntry V (d dirSect) dirSect off canRead canWrite) := by
  refine ⟨⟨h.cluster, h.nodup, h.sclust, h.size, h.fits, h.size_lt, fun hd => ?_, fun p b hp hs => ?_,
    fun p b hp _ => h.bytes p b hp⟩, Nat.zero_le _, fun hp => absurd hp (lt_irrefl 0), fun hne => ?_⟩
  · exact absurd hd Bool.false_ne_true
  · -- no sector of a cluster is sector 0
    have hlt := Vol.div_lt_of_lt ((List.getElem?_eq_some_iff.1 hp).1.trans_le h.fits)
    have hb := ((Vol.inChain_sectAt hlt).bounds h.cluster).1
    rw [hs] at hb
    exact absurd hb (lt_irrefl 0)
  · exact absurd (Nat.zero_mod _) hne

/-- The first cluster fits its fields of the entry. -/
theorem FilData.sclust_lt {d : Disk} {l : List ℕ} (h : FilData V d l bs fp) :
    fp.sclust < if V.fsType = .fat32 then 2 ^ 32 else 2 ^ 16 := by
  have hle := V.nFatent_le
  have hlt : fp.sclust < V.nFatent := by
    rw [h.sclust]
    cases l with
    | nil => exact Nat.zero_lt_of_lt V.nFatent_gt
    | cons a l => exact (h.cluster a List.mem_cons_self).2
  cases ht : V.fsType
  all_goals
    simp only [ht, FatType.maxClusters, reduceCtorEq, if_true, if_false] at hle ⊢
    omega

/-- **After `f_sync`** the file is on the disk. -/
theorem OnDisk.of_fSync {volbase : ℕ} (tm : ℕ) (hD : WritesInfo D V volbase)
    (hfit : InfoFits V volbase) (hm : Mounted D V f files)
    (h : FilOk V (D.disk f.io) (files (.inl i)) bs fp) (hdir : DirPlace V files fp.dirSect)
    (hoff : fp.dirOff + 32 ≤ lbaSize) (hmod : fp.modified = true)
    (hok : (fSync D V volbase f fp tm).2.2 = .ok) :
    OnDisk V (D.disk (fSync D V volbase f fp tm).1.io) (files (.inl i)) bs fp.dirSect fp.dirOff := by
  obtain ⟨hm', hclean, hfil, hfp, hentry, -⟩ := fSync_spec tm hD hfit hm h hdir hmod hok
  have hlinked : LinkTable.Linked (V.table ((fSync D V volbase f fp tm).1.view D)) (V.nFatent ≤ ·)
    (files (.inl i)) := hm'.exact.owned.linked (.inl i)
  rw [FatFs.view_of_clean hclean] at hlinked
  have hsize := h.size_lt
  rw [← h.size] at hsize
  refine ⟨h.cluster, h.nodup, hlinked, h.fits, h.size_lt, ?_, ?_, fun p b hp => ?_⟩
  · rw [hentry, ldClust_updateEntry hoff h.toFilData.sclust_lt, h.sclust]
  · rw [hentry, size_updateEntry hoff hsize, h.size]
  · refine hfil.disk p b hp fun hd => ?_
    rw [hfp] at hd
    exact absurd hd Bool.false_ne_true

end

end RvvmHal.Fatfs
