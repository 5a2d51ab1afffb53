import RvvmHal.Fatfs.Fil

/-!
# The places of a file's bytes

Byte `p` of a file with the clusters `l` lies in sector `V.sectAt l (p / lbaSize)`. Different sectors
of a file lie at different places (`sectAt_inj`), the sectors within a cluster are consecutive
(`sectAt_add`), and all lie behind the FATs. The calls on the FAT leave them as they are
(`Steps.disk`).
-/

namespace RvvmHal.Fatfs

open Nvme

namespace Vol

variable (V : Vol)

/-- The `s`-th sector of a file with the clusters `l`. -/
def sectAt (l : List ℕ) (s : ℕ) : ℕ := clst2sect V (l.getD (s / V.csize) 0) + s % V.csize

/-- The sectors of the clusters `l`. -/
def InChain (l : List ℕ) (x : ℕ) : Prop := ∃ c ∈ l, V.InCluster c x

variable {V} {l m : List ℕ} {c p s t x : ℕ}

theorem bcs_pos : 0 < V.bcs := Nat.mul_pos V.csize_pos (by decide)

theorem div_bcs (p : ℕ) : p / V.bcs = p / lbaSize / V.csize := by
  rw [bcs, Nat.div_div_eq_div_mul, Nat.mul_comm]

theorem csect_eq (p : ℕ) : csect V p = p / lbaSize % V.csize := by
  obtain ⟨k, -, hk⟩ := V.csize_pow
  rw [csect, hk, Word.and_low_mask]

theorem csect_lt (p : ℕ) : csect V p < V.csize := by
  rw [csect_eq]
  exact Nat.mod_lt _ V.csize_pos

/-- A place at the start of a sector is at the start of a cluster if its `csect` is 0. -/
theorem mod_bcs (hp : p % lbaSize = 0) : p % V.bcs = lbaSize * csect V p := by
  rw [csect_eq, bcs, Nat.mul_comm, Nat.mod_mul, hp, Nat.zero_add]

theorem mod_bcs_ne (hp : p % lbaSize ≠ 0) : p % V.bcs ≠ 0 := by
  rw [bcs, Nat.mul_comm, Nat.mod_mul]
  omega

/-- The start of a cluster is the start of a sector. -/
theorem mod_lbaSize (hp : p % V.bcs = 0) : p % lbaSize = 0 := by
  by_contra hne
  exact mod_bcs_ne hne hp

/-- The cluster before the start of a cluster. -/
theorem pred_div_bcs (hp : p % V.bcs = 0) (h₀ : p ≠ 0) : (p - 1) / V.bcs + 1 = p / V.bcs := by
  have hdm := Nat.div_add_mod p V.bcs
  have hpos := bcs_pos (V := V)
  rw [hp, Nat.add_zero] at hdm
  obtain ⟨k, hk⟩ : ∃ k, p / V.bcs = k + 1 :=
    Nat.exists_eq_succ_of_ne_zero fun hk => h₀ (by rw [← hdm, hk, Nat.mul_zero])
  rw [hk] at hdm ⊢
  rw [Nat.mul_succ] at hdm
  congr 1
  rw [Nat.div_eq_iff hpos, Nat.mul_comm]
  omega

/-- The cluster of a place behind another in the same cluster. -/
theorem add_div_bcs {n : ℕ} (hn : 0 < n) (hin : p % V.bcs + n ≤ V.bcs) :
    (p + n - 1) / V.bcs = p / V.bcs := by
  have hmod := Nat.div_add_mod p V.bcs
  rw [Nat.div_eq_iff bcs_pos, Nat.mul_comm]
  omega

/-- The bytes of some clusters are those of their sectors. -/
theorem bcs_mul (n : ℕ) : V.bcs * n = lbaSize * (V.csize * n) := by
  rw [bcs, Nat.mul_comm V.csize, Nat.mul_assoc]

theorem div_lt_of_lt (hp : p < V.bcs * l.length) : p / lbaSize < V.csize * l.length := by
  rw [bcs_mul] at hp
  exact Nat.div_lt_of_lt_mul hp

theorem getD_mem (hs : s < V.csize * l.length) : l.getD (s / V.csize) 0 ∈ l := by
  have hlt : s / V.csize < l.length := Nat.div_lt_of_lt_mul hs
  rw [List.getD_eq_getElem _ _ hlt]
  exact List.getElem_mem hlt

theorem inCluster_sectAt (l : List ℕ) (s : ℕ) : V.InCluster (l.getD (s / V.csize) 0) (V.sectAt l s) :=
  ⟨Nat.le_add_right .., Nat.add_lt_add_left (Nat.mod_lt _ V.csize_pos) _⟩

theorem inChain_sectAt (hs : s < V.csize * l.length) : V.InChain l (V.sectAt l s) :=
  ⟨_, getD_mem hs, inCluster_sectAt l s⟩

/-- **Different sectors of a file** lie at different places. -/
theorem sectAt_inj (hcl : ∀ c ∈ l, V.IsCluster c) (hnd : l.Nodup) (hs : s < V.csize * l.length)
    (ht : t < V.csize * l.length) (h : V.sectAt l s = V.sectAt l t) : s = t := by
  have hx := inCluster_sectAt (V := V) l t
  rw [← h] at hx
  have hc := cluster_unique (hcl _ (getD_mem hs)) (hcl _ (getD_mem ht)) (inCluster_sectAt l s) hx
  have hmod : s % V.csize = t % V.csize := by
    rw [sectAt, sectAt, hc] at h
    exact Nat.add_left_cancel h
  have hs' : s / V.csize < l.length := Nat.div_lt_of_lt_mul hs
  have ht' : t / V.csize < l.length := Nat.div_lt_of_lt_mul ht
  rw [List.getD_eq_getElem _ _ hs', List.getD_eq_getElem _ _ ht'] at hc
  have hdiv : s / V.csize = t / V.csize := (hnd.getElem_inj_iff).1 hc
  rw [← Nat.div_add_mod s V.csize, ← Nat.div_add_mod t V.csize, hdiv, hmod]

/-- **The sectors within a cluster** are consecutive. -/
theorem sectAt_add (l : List ℕ) {k : ℕ} (hk : s % V.csize + k < V.csize) :
    V.sectAt l (s + k) = V.sectAt l s + k := by
  have hdiv : (s + k) / V.csize = s / V.csize := by
    rw [Nat.add_div V.csize_pos, Nat.div_eq_of_lt (show k < V.csize by omega),
      if_neg (by rw [Nat.mod_eq_of_lt (show k < V.csize by omega)]; omega)]
    omega
  have hmod : (s + k) % V.csize = s % V.csize + k := by
    rw [Nat.add_mod, Nat.mod_eq_of_lt (show k < V.csize by omega), Nat.mod_eq_of_lt hk]
  rw [sectAt, sectAt, hdiv, hmod, Nat.add_assoc]

/-- A chain that is longer has the same sectors at its start. -/
theorem sectAt_append (hs : s < V.csize * l.length) (m : List ℕ) :
    V.sectAt (l ++ m) s = V.sectAt l s := by
  rw [sectAt, sectAt, List.getD_append _ _ _ _ (Nat.div_lt_of_lt_mul hs)]

/-- The sector of a place, from its cluster. -/
theorem sectAt_of_clust (hc : l[p / V.bcs]? = some c) :
    V.sectAt l (p / lbaSize) = clst2sect V c + csect V p := by
  rw [sectAt, csect_eq, ← div_bcs, List.getD_eq_getElem?_getD, hc, Option.getD_some]

theorem InChain.append (h : V.InChain l x) (m : List ℕ) : V.InChain (l ++ m) x := by
  obtain ⟨c, hc, hx⟩ := h
  exact ⟨c, List.mem_append_left m hc, hx⟩

theorem InCluster.bounds (hc : V.IsCluster c) (hx : V.InCluster c x) :
    0 < x ∧ x + 1 < 2 ^ 32 ∧ V.database ≤ x ∧ ¬ V.InFat x := by
  obtain ⟨heq, hle⟩ := clst2sect_eq hc.1 hc.2
  have hend := V.end_lt
  have hfit := V.fats_fit
  have hsize := V.fsize_pos
  have hfirst := V.first_le_fats
  obtain ⟨h₁, h₂⟩ := hx
  refine ⟨by omega, by omega, by omega, fun hfat => ?_⟩
  have := hfat.2
  omega

theorem InChain.bounds (hcl : ∀ c ∈ l, V.IsCluster c) (h : V.InChain l x) :
    0 < x ∧ x + 1 < 2 ^ 32 ∧ V.database ≤ x ∧ ¬ V.InFat x := by
  obtain ⟨c, hc, hx⟩ := h
  exact hx.bounds (hcl c hc)

end Vol

/-! ## The calls on the FAT -/

section

variable {σ : Type*} {D : Drive σ} {V : Vol} {f f' : FatFs σ}

/-- A dirty window is on the FATs. -/
def FatDirty (V : Vol) (f : FatFs σ) : Prop := f.wflag = true → V.InFat f.winsect

theorem FatDirty.syncWindow (h : FatDirty V f) : FatDirty V (syncWindow D V f).1 ∧
    ∀ x, ¬ V.InFat x → D.disk (Fatfs.syncWindow D V f).1.io x = D.disk f.io x := by
  rw [Fatfs.syncWindow]
  by_cases hw : f.wflag = true
  swap
  · rw [if_neg hw]
    exact ⟨h, fun x _ => rfl⟩
  have hfat := h hw
  have hlt := V.inFat_lt hfat
  have hframe : ∀ x, ¬ V.InFat x → D.disk (D.writeSector f.io f.win f.winsect).1 x = D.disk f.io x :=
    fun x hx => Drive.writeSector_frame (by omega) fun he => hx (he ▸ hfat)
  rw [if_pos hw]
  by_cases hok : (D.writeSector f.io f.win f.winsect).2 = true
  swap
  · rw [if_neg hok]
    exact ⟨h, hframe⟩
  rw [if_pos hok]
  by_cases hm : (f.winsect + 2 ^ 32 - V.fatbase) % 2 ^ 32 < V.fsize ∧ V.nFats = 2
  · rw [if_pos hm]
    obtain ⟨-, hmir⟩ := inMirror_add (x := f.winsect) (by omega) hm.1 hm.2
    have hfat' := V.inFat_of_inMirror hmir
    have hlt' := V.inFat_lt hfat'
    refine ⟨fun hd => absurd hd Bool.false_ne_true, fun x hx => ?_⟩
    have hne : x ≠ f.winsect + V.fsize := fun he => hx (he ▸ hfat')
    exact (Drive.writeSector_frame (by omega) hne).trans (hframe x hx)
  · rw [if_neg hm]
    exact ⟨fun hd => absurd hd Bool.false_ne_true, hframe⟩

theorem syncWindow_clean (hok : (syncWindow D V f).2 = .ok) : (syncWindow D V f).1.wflag = false := by
  revert hok
  rw [syncWindow]
  split
  · dsimp only
    split
    · split <;> exact fun _ => rfl
    · exact fun hok => absurd hok (by simp)
  · rename_i hw
    exact fun _ => Bool.eq_false_of_not_eq_true hw

theorem syncWindow_winsect (f : FatFs σ) : (syncWindow D V f).1.winsect = f.winsect := by
  rw [syncWindow]
  split
  · dsimp only
    split
    · split <;> rfl
    · rfl
  · rfl

theorem FatDirty.moveWindow (h : FatDirty V f) (sect : ℕ) : FatDirty V (moveWindow D V f sect).1 ∧
      ∀ x, ¬ V.InFat x → D.disk (Fatfs.moveWindow D V f sect).1.io x = D.disk f.io x := by
  obtain ⟨hd, hframe⟩ := h.syncWindow (D := D)
  rw [Fatfs.moveWindow]
  by_cases hne : sect ≠ f.winsect
  swap
  · rw [if_neg hne]
    exact ⟨h, fun x _ => rfl⟩
  rw [if_pos hne]
  by_cases hsync : (Fatfs.syncWindow D V f).2 = .ok
  swap
  · rw [if_neg hsync]
    exact ⟨hd, hframe⟩
  rw [if_pos hsync]
  have hw := syncWindow_clean hsync
  dsimp only
  split
  · refine ⟨fun hd => absurd (hw.symm.trans hd) Bool.false_ne_true, fun x hx => ?_⟩
    exact (congrFun Drive.readSector_disk x).trans (hframe x hx)
  · refine ⟨fun hd => absurd (hw.symm.trans hd) Bool.false_ne_true, fun x hx => ?_⟩
    exact (congrFun Drive.readSector_disk x).trans (hframe x hx)

/-- **The calls on the FAT** leave the sectors outside. -/
theorem Steps.disk {P : ℕ → Prop} (h : Steps D V P f f') (hf : FatDirty V f) :
    FatDirty V f' ∧ ∀ x, ¬ V.InFat x → D.disk f'.io x = D.disk f.io x := by
  induction h with
  | refl => exact ⟨hf, fun _ _ => rfl⟩
  | move sect _ _ _ ih =>
    obtain ⟨hd, hx⟩ := ih.1.moveWindow sect
    exact ⟨hd, fun x hfat => (hx x hfat).trans (ih.2 x hfat)⟩
  | sync _ ih =>
    obtain ⟨hd, hx⟩ := ih.1.syncWindow
    exact ⟨hd, fun x hfat => (hx x hfat).trans (ih.2 x hfat)⟩
  | poke off l hw _ ih =>
    have hle := V.first_le_fats
    exact ⟨fun _ => ⟨hw.1, hw.2.trans_le (Nat.add_le_add_left hle _)⟩, ih.2⟩
  | took ncl _ ih => exact ih
  | gaveBack _ ih => exact ih

/-- The window has a sector of `P`, the one it had, or none. -/
theorem Steps.winsect {P : ℕ → Prop} (h : Steps D V P f f') :
    f'.winsect = f.winsect ∨ P f'.winsect ∨ f'.winsect = noSector := by
  induction h with
  | refl => exact .inl rfl
  | move sect _ hP _ ih =>
    rw [moveWindow]
    dsimp only
    split
    · split
      · split
        · exact .inr (.inl hP)
        · exact .inr (.inr rfl)
      · rwa [syncWindow_winsect]
    · exact ih
  | sync _ ih => rwa [syncWindow_winsect]
  | poke _ _ _ _ ih => exact ih
  | took _ _ ih => exact ih
  | gaveBack _ ih => exact ih

end

end RvvmHal.Fatfs
