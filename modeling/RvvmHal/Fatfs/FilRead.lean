import RvvmHal.Fatfs.FilOk

/-!
# Reading a file

A turn of the loop of `f_read` that reports no error has read bytes of the file (`readTurn_spec`),
from the buffer or from the drive with a dirty sector patched in, and leaves the file in order at
the place behind them. So the loop reads all it is asked for (`readLoop_spec`).
-/

namespace RvvmHal.Fatfs

open Nvme

/-- The fields of a file that no call on it changes but to report an error. -/
structure Fil.Same (fp fp' : Fil) : Prop where
  canRead : fp'.canRead = fp.canRead
  canWrite : fp'.canWrite = fp.canWrite
  err : fp'.err = fp.err
  dirSect : fp'.dirSect = fp.dirSect
  dirOff : fp'.dirOff = fp.dirOff

namespace Fil.Same

variable {fp fp' fp'' : Fil}

theorem refl (fp : Fil) : Fil.Same fp fp := ⟨rfl, rfl, rfl, rfl, rfl⟩

theorem trans (h : Fil.Same fp fp') (h' : Fil.Same fp' fp'') : Fil.Same fp fp'' :=
  ⟨h'.canRead.trans h.canRead, h'.canWrite.trans h.canWrite, h'.err.trans h.err,
    h'.dirSect.trans h.dirSect, h'.dirOff.trans h.dirOff⟩

theorem moved (fp : Fil) (n : ℕ) : Fil.Same fp (fp.moved n) := ⟨rfl, rfl, rfl, rfl, rfl⟩

theorem grown (fp : Fil) (n : ℕ) : Fil.Same fp (fp.moved n).grown := ⟨rfl, rfl, rfl, rfl, rfl⟩

end Fil.Same

section

variable {V : Vol} {d : Disk} {l : List ℕ} {bs : List (Option UInt8)} {fp fp' : Fil} {p n : ℕ}

/-- The file at a place behind the one it was at, in the same cluster. -/
theorem FilData.filOk (h : FilData V d l bs fp') (hloc : l[p / V.bcs]? = some fp'.clust)
    (hf : fp'.fptr = p + n) (hn : 0 < n) (hin : p % V.bcs + n ≤ V.bcs) (hle : p + n ≤ bs.length)
    (hsect : (p + n) % lbaSize ≠ 0 → fp'.sect = V.sectAt l ((p + n) / lbaSize)) :
    FilOk V d l bs fp' := by
  refine { toFilData := h, fptr_le := ?_, clust := fun _ => ?_, sect := ?_ }
  · rwa [hf]
  · rwa [hf, Vol.add_div_bcs hn hin]
  · rwa [hf]

/-! ## From the buffer -/

theorem length_readPartial (fp : Fil) (btr : ℕ) :
    (readPartial fp btr).length = min btr (lbaSize - fp.fptr % lbaSize) := by
  rw [readPartial, List.length_take, List.length_drop, length_bytesOf]

/-- The part of a request that lies in the sector of the buffer. -/
theorem agrees_readPartial (h : FilData V d l bs fp)
    (hs : fp.sect = V.sectAt l (fp.fptr / lbaSize)) (btr : ℕ) :
    Agrees bs fp.fptr (readPartial fp btr) := by
  intro k a b ha hb
  have hk : k < (readPartial fp btr).length := (List.getElem?_eq_some_iff.1 ha).1
  rw [length_readPartial] at hk
  have hlt := Nat.mod_lt fp.fptr (show 0 < lbaSize by decide)
  have hdiv : (fp.fptr + k) / lbaSize = fp.fptr / lbaSize := by
    simp only [lbaSize] at *
    omega
  have hoff : ((sectorOff (fp.fptr + k) : Fin lbaSize) : ℕ) = fp.fptr % lbaSize + k := by
    simp only [sectorOff, lbaSize] at *
    omega
  rw [readPartial, List.getElem?_take_of_lt (by omega), List.getElem?_drop, bytesOf,
    List.getElem?_ofFn, dif_pos (by omega)] at ha
  obtain rfl := Option.some.inj ha
  rw [← h.buf _ b hb (by rw [hdiv, hs])]
  exact congrArg fp.buf (Fin.ext hoff.symm)

/-! ## From the drive -/

/-- A byte of a run of sectors. -/
theorem getElem?_sectorBytes (d : Disk) (lba : ℕ) {n k : ℕ} (hk : k < lbaSize * n) :
    (sectorBytes d lba n)[k]? = some (d ((lba + k / lbaSize) % 2 ^ 64) (sectorOff k)) := by
  rw [sectorBytes, List.getElem?_map, List.getElem?_range hk, Option.map_some]

theorem length_patchRead (fp : Fil) (sect : ℕ) {cc : ℕ} {r : List UInt8}
    (hr : r.length = lbaSize * cc) :
    (patchRead fp sect cc r).length = lbaSize * cc := by
  rw [patchRead]
  generalize (fp.sect + 2 ^ 32 - sect) % 2 ^ 32 = j
  split
  · rename_i hk
    have hj : lbaSize * j + lbaSize ≤ lbaSize * cc := by
      have := hk.2
      simp only [lbaSize]
      omega
    rw [length_splice _ (by omega), length_bytesOf, hr]
    omega
  · exact hr

/-- Whole sectors of a cluster. -/
theorem agrees_patchRead (h : FilData V d l bs fp) (hp : fp.fptr % lbaSize = 0) {cc : ℕ}
    (hcc : csect V fp.fptr + cc ≤ V.csize) :
    Agrees bs fp.fptr (patchRead fp (V.sectAt l (fp.fptr / lbaSize)) cc
      (sectorBytes d (V.sectAt l (fp.fptr / lbaSize)) cc)) := by
  intro k a b ha hb
  set sect := V.sectAt l (fp.fptr / lbaSize) with hsect
  have hlen := length_patchRead fp sect (length_sectorBytes d sect cc)
  have hk : k < lbaSize * cc := hlen ▸ (List.getElem?_eq_some_iff.1 ha).1
  -- the sector of the byte
  obtain ⟨q, hq, hqk, hkq⟩ : ∃ q, k / lbaSize = q ∧ lbaSize * q ≤ k ∧ k < lbaSize * q + lbaSize :=
    ⟨_, rfl, by simp only [lbaSize]; omega, by simp only [lbaSize]; omega⟩
  have hqc : q < cc := hq ▸ Nat.div_lt_of_lt_mul hk
  have hdiv : (fp.fptr + k) / lbaSize = fp.fptr / lbaSize + q := by
    simp only [lbaSize] at *
    omega
  have hoff : sectorOff (fp.fptr + k) = sectorOff k :=
    Fin.ext (by simp only [sectorOff, lbaSize] at *; omega)
  rw [Vol.csect_eq] at hcc
  have hat : V.sectAt l ((fp.fptr + k) / lbaSize) = sect + q := by
    rw [hdiv, Vol.sectAt_add l (by omega)]
  have hlt : sect + q + 1 < 2 ^ 32 := by
    rw [← hat]
    exact ((Vol.inChain_sectAt (h.lt_of_getElem? hb)).bounds h.cluster).2.1
  have hbyte : (sectorBytes d sect cc)[k]? = some (d (sect + q) (sectorOff k)) := by
    rw [getElem?_sectorBytes d sect hk, hq, Nat.mod_eq_of_lt (by omega)]
  have hbuf := h.buf _ b hb
  have hdisk := h.disk _ b hb
  rw [hat, hoff] at hbuf hdisk
  rw [patchRead] at ha
  obtain ⟨j, hj⟩ : ∃ j, (fp.sect + 2 ^ 32 - sect) % 2 ^ 32 = j := ⟨_, rfl⟩
  rw [hj] at ha
  by_cases hpatch : fp.dirty = true ∧ j < cc
  swap
  · rw [if_neg hpatch, hbyte] at ha
    obtain rfl := Option.some.inj ha
    exact hdisk fun hd he => hpatch ⟨hd, by omega⟩
  rw [if_pos hpatch] at ha
  obtain ⟨hd, hjc⟩ := hpatch
  have hfs := ((h.dirty hd).bounds h.cluster).2.1
  have hjl : lbaSize * j + lbaSize ≤ lbaSize * cc := by
    simp only [lbaSize]
    omega
  rw [getElem?_splice (by rw [length_sectorBytes]; omega), length_bytesOf] at ha
  by_cases hqj : q = j
  · -- the byte is in the buffer
    have hkj : k - lbaSize * j = ((sectorOff k : Fin lbaSize) : ℕ) := by
      simp only [sectorOff, lbaSize] at *
      omega
    rw [if_neg (by rw [← hqj]; omega), if_pos (by rw [← hqj]; omega), bytesOf, hkj,
      List.getElem?_ofFn, dif_pos (sectorOff k).isLt] at ha
    obtain rfl := Option.some.inj ha
    exact hbuf (by omega)
  · have hout : ¬ (lbaSize * j ≤ k ∧ k < lbaSize * j + lbaSize) := by
      simp only [lbaSize] at *
      omega
    have ha' : d (sect + q) (sectorOff k) = a := by
      rw [hbyte] at ha
      split at ha
      · exact Option.some.inj ha
      · rw [if_neg (by omega)] at ha
        exact Option.some.inj ha
    rw [← ha']
    exact hdisk fun _ he => hqj (by omega)

end

/-! ## A turn -/

section

variable {σ ι κ : Type*} {D : Drive σ} {V : Vol} {i : ι} {f : FatFs σ} {files : ι ⊕ κ → List ℕ}
  {bs : List (Option UInt8)} {fp fp' : Fil}

theorem Mounted.getFat (h : Mounted D V f files) (i : ι) (clst : ℕ) :
    Went D V i f files (getFat D V f clst).1 files ∧
      ∀ x, ¬ V.InFat x → D.disk (Fatfs.getFat D V f clst).1.io x = D.disk f.io x := by
  have hs := steps_getFat (D := D) (V := V) clst (.refl (f := f))
  obtain ⟨hkept, -⟩ := getFat_spec h.exact.coherent clst
  have hexact := h.exact.of_table hkept.coherent hkept.table_eq (hkept.countOk h.exact.count)
  have hframe := (hs.disk h.dirty).2
  exact ⟨⟨h.of_steps hs hexact fun _ => rfl, fun _ _ => rfl, List.prefix_rfl,
    fun x hx _ => hframe x hx⟩, hframe⟩

/-- **The entry of a cluster** that is not the last is the next cluster. -/
theorem Mounted.getFat_next (h : Mounted D V f files) {k a : ℕ} (ha : (files (.inl i))[k]? = some a)
    (hk : k + 1 < (files (.inl i)).length) (hne : (Fatfs.getFat D V f a).2 ≠ diskError) :
    (files (.inl i))[k + 1]? = some (Fatfs.getFat D V f a).2 := by
  obtain ⟨-, hget⟩ := getFat_spec h.exact.coherent a
  have hlinked : LinkTable.Linked (V.table (f.view D)) (V.nFatent ≤ ·) (files (.inl i)) :=
    h.exact.owned.linked (.inl i)
  have hlink := hlinked.getElem hk
  rw [(List.getElem?_eq_some_iff.1 ha).2] at hlink
  obtain ⟨h₂, h₃⟩ := h.cluster (.inl i) _ (List.mem_of_getElem? ha)
  rw [hget hne, if_neg (by omega), List.getElem?_eq_getElem hk]
  exact congrArg some hlink.symm

/-- What a call on the FATs leaves of the file. -/
theorem FilData.of_fat {d d' : Disk} {l : List ℕ} (h : FilData V d l bs fp)
    (hd : ∀ x, ¬ V.InFat x → d' x = d x) : FilData V d' l bs fp :=
  h.congr_disk fun x hx => hd x (hx.bounds h.cluster).2.2.2

/-- **The next cluster** of a file that has one. -/
theorem readClust_spec (hm : Mounted D V f files)
    (h : FilOk V (D.disk f.io) (files (.inl i)) bs fp) (hp : fp.fptr % lbaSize = 0)
    (hlt : fp.fptr < bs.length) (hok : (readClust D V f fp).2 = .ok fp') :
    Went D V i f files (readClust D V f fp).1 files ∧
      (∀ x, ¬ V.InFat x → D.disk (readClust D V f fp).1.io x = D.disk f.io x) ∧
      ∃ a, fp' = fp.atClust a ∧ (files (.inl i))[fp.fptr / V.bcs]? = some a := by
  have hmod := Vol.mod_bcs (V := V) hp
  revert hok
  rw [readClust]
  by_cases hcs : csect V fp.fptr ≠ 0
  · rw [if_pos hcs]
    intro hok
    obtain rfl := Except.ok.inj hok
    refine ⟨.refl hm, fun _ _ => rfl, fp.clust, rfl, h.located ?_⟩
    rw [hmod]
    exact Nat.mul_ne_zero (by decide) hcs
  rw [if_neg hcs]
  rw [not_not.1 hcs, Nat.mul_zero] at hmod
  have hlen : fp.fptr / V.bcs < (files (.inl i)).length :=
    Nat.div_lt_of_lt_mul (hlt.trans_le h.fits)
  dsimp only
  by_cases h₀ : fp.fptr = 0
  · -- at the start of the file
    rw [if_pos h₀]
    intro hok
    refine ⟨.refl hm, fun _ _ => rfl, ?_⟩
    split at hok
    · cases hok
    split at hok
    · cases hok
    refine ⟨fp.sclust, (Except.ok.inj hok).symm, ?_⟩
    rw [h₀, Nat.zero_div] at hlen ⊢
    rw [h.sclust]
    obtain ⟨a, l, hl⟩ := List.exists_cons_of_length_pos hlen
    rw [hl]
    rfl
  rw [if_neg h₀]
  obtain ⟨hwent, hframe⟩ := hm.getFat i fp.clust
  intro hok
  refine ⟨hwent, hframe, ?_⟩
  split at hok
  · cases hok
  split at hok
  · cases hok
  rename_i h₁ hne
  refine ⟨_, (Except.ok.inj hok).symm, ?_⟩
  have hprev := Vol.pred_div_bcs hmod h₀
  have hnext := hm.getFat_next (h.clust (Nat.pos_of_ne_zero h₀)) (by omega) hne
  rwa [hprev] at hnext

/-- **What a turn has read**: bytes of the file at the pointer, in its cluster; the buffer is that of
the sector where they end. -/
structure ReadDone (V : Vol) (d : Disk) (l : List ℕ) (bs : List (Option UInt8)) (fp fp' : Fil)
    (btr : ℕ) (data : List UInt8) : Prop where
  fil : FilData V d l bs fp'
  pos : 0 < data.length
  le : data.length ≤ btr
  inside : fp.fptr % V.bcs + data.length ≤ V.bcs
  agrees : Agrees bs fp.fptr data
  fptr : fp'.fptr = fp.fptr
  clust : fp'.clust = fp.clust
  same : Fil.Same fp fp'
  modified : fp'.modified = fp.modified
  sect : (fp.fptr + data.length) % lbaSize ≠ 0 →
    fp'.sect = V.sectAt l ((fp.fptr + data.length) / lbaSize)

/-- What is read from the buffer. -/
theorem readDone_readPartial {d : Disk} {l : List ℕ} (h : FilData V d l bs fp)
    (hs : fp.sect = V.sectAt l (fp.fptr / lbaSize)) {btr : ℕ} (hbtr : 0 < btr) :
    ReadDone V d l bs fp fp btr (readPartial fp btr) := by
  have hlen := length_readPartial fp btr
  have hlt := Nat.mod_lt fp.fptr (show 0 < lbaSize by decide)
  refine ⟨h, by omega, by omega, ?_, agrees_readPartial h hs btr, rfl, rfl, .refl fp, rfl,
    fun hne => ?_⟩
  · -- a sector is in a cluster
    rw [Vol.bcs, Nat.mul_comm, Nat.mod_mul]
    have hmod := Nat.mod_lt (fp.fptr / lbaSize) V.csize_pos
    have hmul := Nat.mul_le_mul_left lbaSize (Nat.succ_le_of_lt hmod)
    rw [Nat.mul_succ] at hmul
    omega
  · rw [hs]
    congr 1
    simp only [lbaSize] at *
    omega

/-- A turn from a sector boundary on. -/
theorem readSects_spec (hm : Mounted D V f files)
    (h : FilData V (D.disk f.io) (files (.inl i)) bs fp) (hp : fp.fptr % lbaSize = 0) {btr : ℕ}
    (hbtr : 0 < btr) (hlt : fp.fptr < bs.length) {data : List UInt8}
    (hok : (readSects D V f fp (V.sectAt (files (.inl i)) (fp.fptr / lbaSize)) btr).2.2 = .ok data) :
    let r := readSects D V f fp (V.sectAt (files (.inl i)) (fp.fptr / lbaSize)) btr
    Went D V i f files r.1 files ∧
      ReadDone V (D.disk r.1.io) (files (.inl i)) bs fp r.2.1 btr data := by
  intro r
  have hsect : V.sectAt (files (.inl i)) (fp.fptr / lbaSize) + 1 < 2 ^ 32 :=
    ((Vol.inChain_sectAt (Vol.div_lt_of_lt (hlt.trans_le h.fits))).bounds h.cluster).2.1
  have hmod := Vol.mod_bcs (V := V) hp
  revert hok
  rw [show r = readSects D V f fp _ btr from rfl, readSects]
  dsimp only
  generalize hcc : (if V.csize < csect V fp.fptr + btr / lbaSize then V.csize - csect V fp.fptr
    else btr / lbaSize) = cc
  by_cases hdirect : 0 < btr / lbaSize
  · -- past the buffer
    rw [if_pos hdirect]
    dsimp only
    intro hok
    split at hok
    swap
    · cases hok
    rename_i hread
    obtain rfl := Except.ok.inj hok
    have hcs := Vol.csect_lt (V := V) fp.fptr
    have hcc₁ : 0 < cc ∧ cc ≤ btr / lbaSize ∧ csect V fp.fptr + cc ≤ V.csize := by
      rw [← hcc]
      split <;> omega
    obtain ⟨hcc₀, hcc₁, hcc₂⟩ := hcc₁
    rw [D.read_ok _ _ _ hread]
    have hdisk := D.read_disk f.io (V.sectAt (files (.inl i)) (fp.fptr / lbaSize)) cc
    have hlen := length_patchRead fp (V.sectAt (files (.inl i)) (fp.fptr / lbaSize))
      (length_sectorBytes (D.disk f.io) (V.sectAt (files (.inl i)) (fp.fptr / lbaSize)) cc)
    have hmul := Nat.mul_le_mul_left lbaSize hcc₂
    refine ⟨hm.went_used fun x _ => congrFun hdisk x, ?_, ?_, ?_, ?_, agrees_patchRead h hp hcc₂,
      rfl, rfl, .refl fp, rfl, fun hne => ?_⟩
    · exact h.congr_disk fun x _ => congrFun hdisk x
    · rw [hlen]
      exact Nat.mul_pos (by decide) hcc₀
    · rw [hlen]
      exact (Nat.mul_le_mul_left lbaSize hcc₁).trans (Nat.mul_div_le btr lbaSize)
    · rw [hlen, hmod, ← Nat.mul_add, Vol.bcs, Nat.mul_comm V.csize]
      exact hmul
    · rw [hlen, Nat.add_mul_mod_self_left] at hne
      exact absurd hp hne
  rw [if_neg hdirect]
  by_cases hs : fp.sect ≠ V.sectAt (files (.inl i)) (fp.fptr / lbaSize)
  swap
  · rw [if_neg hs]
    intro hok
    obtain rfl := Except.ok.inj hok
    exact ⟨.refl hm, readDone_readPartial h (not_not.1 hs) hbtr⟩
  -- through the buffer
  rw [if_pos hs]
  by_cases hflush : (flushFil D f fp).2.2 = true
  swap
  · rw [if_neg hflush]
    intro hok
    cases hok
  rw [if_pos hflush]
  obtain ⟨hwent, hfil, hdata⟩ := flushFil_spec hm h hflush
  rw [hfil]
  by_cases hload : (loadFil D (flushFil D f fp).1 fp.flushed
      (V.sectAt (files (.inl i)) (fp.fptr / lbaSize))).2.2 = true
  swap
  · rw [if_neg hload]
    intro hok
    cases hok
  rw [if_pos hload]
  intro hok
  obtain rfl := Except.ok.inj hok
  obtain ⟨hwent', hfil', hdata'⟩ := loadFil_spec hwent.mounted hdata rfl (by omega) hload
  rw [hfil']
  have hdone := readDone_readPartial hdata' (show _ = _ from rfl) hbtr
  exact ⟨hwent.trans hwent', hdone.fil, hdone.pos, hdone.le, hdone.inside, hdone.agrees, rfl, rfl,
    ⟨rfl, rfl, rfl, rfl, rfl⟩, rfl, hdone.sect⟩

/-- A turn that fails reports an error. -/
theorem readTurn_error {btr : ℕ} {e : FResult} (he : (readTurn D V f fp btr).2.2 = .error e) :
    e ≠ .ok := by
  have hclust : ∀ e', (readClust D V f fp).2 = .error e' → e' ≠ .ok := by
    grind [readClust]
  grind [readTurn, readSects]

/-- **A turn** of the loop of `f_read`. -/
theorem readTurn_spec (hm : Mounted D V f files)
    (h : FilOk V (D.disk f.io) (files (.inl i)) bs fp) {btr : ℕ} (hbtr : 0 < btr)
    (hle : fp.fptr + btr ≤ bs.length) {data : List UInt8}
    (hok : (readTurn D V f fp btr).2.2 = .ok data) :
    let r := readTurn D V f fp btr
    Went D V i f files r.1 files ∧ 0 < data.length ∧ data.length ≤ btr ∧ Agrees bs fp.fptr data ∧
      FilOk V (D.disk r.1.io) (files (.inl i)) bs (r.2.1.moved data.length) ∧
      r.2.1.fptr = fp.fptr ∧ Fil.Same fp r.2.1 ∧ r.2.1.modified = fp.modified := by
  intro r
  -- what a turn has read, wherever its cluster is from
  have hdone : ∀ {a : ℕ} {d : Disk} {fp' : Fil}, (files (.inl i))[fp.fptr / V.bcs]? = some a →
      ReadDone V d (files (.inl i)) bs (fp.atClust a) fp' btr data →
        0 < data.length ∧ data.length ≤ btr ∧ Agrees bs fp.fptr data ∧
          FilOk V d (files (.inl i)) bs (fp'.moved data.length) ∧ fp'.fptr = fp.fptr ∧
            Fil.Same fp fp' ∧ fp'.modified = fp.modified := by
    intro a d fp' hloc hd
    have hsame : Fil.Same fp (fp.atClust a) := ⟨rfl, rfl, rfl, rfl, rfl⟩
    refine ⟨hd.pos, hd.le, hd.agrees, ?_, hd.fptr, hsame.trans hd.same, hd.modified⟩
    refine (hd.fil.congr_fil (fp'.moved data.length) rfl rfl rfl rfl rfl).filOk (p := fp.fptr)
      (n := data.length) ?_ ?_ hd.pos hd.inside ?_ hd.sect
    · rw [hloc, Fil.moved_clust, hd.clust]
      rfl
    · rw [Fil.moved_fptr, hd.fptr]
      rfl
    · have := hd.le
      omega
  revert hok
  rw [show r = readTurn D V f fp btr from rfl, readTurn]
  by_cases hp : fp.fptr % lbaSize ≠ 0
  · rw [if_pos hp]
    intro hok
    obtain rfl := Except.ok.inj hok
    exact ⟨.refl hm, hdone (h.located (Vol.mod_bcs_ne hp))
      (readDone_readPartial h.toFilData (h.sect hp) hbtr)⟩
  rw [if_neg hp]
  have hlt : fp.fptr < bs.length := by omega
  dsimp only
  cases hclust : (readClust D V f fp).2 with
  | error e =>
    intro hok
    cases hok
  | ok fp' =>
    obtain ⟨hwent, hframe, a, rfl, hloc⟩ := readClust_spec hm h (not_not.1 hp) hlt hclust
    dsimp only
    split
    · intro hok
      cases hok
    have hsect := Vol.sectAt_of_clust hloc
    have hdata := (h.toFilData.of_fat hframe).congr_fil (fp.atClust a) rfl rfl rfl rfl rfl
    rw [show clst2sect V (fp.atClust a).clust + csect V (fp.atClust a).fptr =
      V.sectAt (files (.inl i)) ((fp.atClust a).fptr / lbaSize) from hsect.symm]
    intro hok
    obtain ⟨hwent', hd⟩ := readSects_spec hwent.mounted hdata (not_not.1 hp) hbtr hlt hok
    exact ⟨hwent.trans hwent', hdone hloc hd⟩

/-- **The loop of `f_read`** reads all it is asked for, if it reports no error. -/
theorem readLoop_spec {fuel btr : ℕ} (hm : Mounted D V f files)
    (h : FilOk V (D.disk f.io) (files (.inl i)) bs fp) (hfuel : btr ≤ fuel)
    (hle : fp.fptr + btr ≤ bs.length) :
    ∃ f' fp' data res, readLoop D V fuel f fp btr = some (f', fp', data, res) ∧ (res = .ok →
      Went D V i f files f' files ∧ FilOk V (D.disk f'.io) (files (.inl i)) bs fp' ∧
        data.length = btr ∧ Agrees bs fp.fptr data ∧ fp'.fptr = fp.fptr + btr ∧ Fil.Same fp fp' ∧
          fp'.modified = fp.modified) := by
  induction fuel generalizing f fp btr with
  | zero =>
    obtain rfl := Nat.le_zero.1 hfuel
    exact ⟨f, fp, [], .ok, rfl, fun _ => ⟨.refl hm, h, rfl, agrees_nil, rfl, .refl fp, rfl⟩⟩
  | succ fuel ih =>
    rw [readLoop]
    by_cases hbtr : btr = 0
    · subst hbtr
      exact ⟨f, fp, [], .ok, if_pos rfl,
        fun _ => ⟨.refl hm, h, rfl, agrees_nil, rfl, .refl fp, rfl⟩⟩
    rw [if_neg hbtr]
    dsimp only
    cases hturn : (readTurn D V f fp btr).2.2 with
    | error e =>
      exact ⟨_, _, _, _, rfl, fun he => absurd he (readTurn_error hturn)⟩
    | ok data =>
      obtain ⟨hwent, hpos, hlen, hagree, hok, hfptr, hsame, hmod⟩ :=
        readTurn_spec hm h (Nat.pos_of_ne_zero hbtr) hle hturn
      have hle' : ((readTurn D V f fp btr).2.1.moved data.length).fptr + (btr - data.length) ≤
          bs.length := by
        rw [Fil.moved_fptr, hfptr]
        omega
      obtain ⟨f', fp', data', res, hloop, hres⟩ := ih hwent.mounted hok (by omega) hle'
      refine ⟨f', fp', data ++ data', res, ?_, fun he => ?_⟩
      · dsimp only
        rw [hloop]
        rfl
      obtain ⟨hwent', hok', hlen', hagree', hfptr', hsame', hmod'⟩ := hres he
      rw [Fil.moved_fptr, hfptr] at hagree' hfptr'
      refine ⟨hwent.trans hwent', hok', ?_, hagree.append hagree', ?_, ?_, hmod'.trans hmod⟩
      · rw [List.length_append, hlen']
        omega
      · omega
      · exact (hsame.trans (.moved _ data.length)).trans hsame'

/-- **`f_read`** reads all there is of what it is asked for, if it reports no error. -/
theorem fRead_spec (hm : Mounted D V f files) (h : FilOk V (D.disk f.io) (files (.inl i)) bs fp)
    (btr : ℕ) :
    ∃ f' fp' data res, fRead D V f fp btr = some (f', fp', data, res) ∧ (res = .ok →
      Went D V i f files f' files ∧ FilOk V (D.disk f'.io) (files (.inl i)) bs fp' ∧
        data.length = min btr (bs.length - fp.fptr) ∧ Agrees bs fp.fptr data ∧
          fp'.fptr = fp.fptr + data.length ∧ Fil.Same fp fp' ∧ fp'.modified = fp.modified ∧
            fp.err = .ok ∧ fp.canRead = true) := by
  rw [fRead]
  by_cases herr : fp.err ≠ .ok
  · rw [if_pos herr]
    exact ⟨f, fp, [], _, rfl, fun hok => absurd hok herr⟩
  rw [if_neg herr]
  by_cases hread : fp.canRead = false
  · rw [if_pos hread]
    exact ⟨f, fp, [], _, rfl, fun hok => by cases hok⟩
  rw [if_neg hread]
  have hsize := h.size_lt
  have hle := h.fptr_le
  have hbtr : (let remain := (fp.objsize + 2 ^ 64 - fp.fptr) % 2 ^ 64
      if remain < btr then remain % 2 ^ 32 else btr) = min btr (bs.length - fp.fptr) := by
    have hremain : (fp.objsize + 2 ^ 64 - fp.fptr) % 2 ^ 64 = bs.length - fp.fptr := by
      rw [h.size]
      omega
    dsimp only
    rw [hremain]
    split <;> omega
  dsimp only at hbtr ⊢
  rw [hbtr]
  obtain ⟨f', fp', data, res, hloop, hres⟩ := readLoop_spec hm h
    (le_refl (min btr (bs.length - fp.fptr))) (by omega)
  refine ⟨f', fp', data, res, hloop, fun hok => ?_⟩
  obtain ⟨hwent, hfil, hlen, hagree, hfptr, hsame, hmod⟩ := hres hok
  exact ⟨hwent, hfil, hlen, hagree, by rw [hfptr, hlen], hsame, hmod, not_not.1 herr,
    Bool.eq_true_of_not_eq_false hread⟩

end

end RvvmHal.Fatfs
