import RvvmHal.Fatfs.Place

/-!
# What an open file holds

The bytes of a file, some of which have been promised, are on the disk at the places of the chain, but
for those of the sector in the buffer when it is dirty (`FilData`); and the fields of the pointer
are of its place (`FilOk`). `Mounted` is the state of the volume between the calls on its files: the
allocation is exact, a dirty window is on the FATs, and the window is beside the files. What a call on
a file may do to the volume is `Went`: it may stretch the chain of the file, and writes in the FATs
and the clusters of the chain only, so the bytes of the other files stay.
-/

namespace RvvmHal.Fatfs

open Nvme

/-- **The promised bytes are in their places**, on the disk or in the buffer. -/
structure FilData (V : Vol) (d : Disk) (l : List ℕ) (bs : List (Option UInt8)) (fp : Fil) : Prop where
  cluster : ∀ a ∈ l, V.IsCluster a
  nodup : l.Nodup
  sclust : fp.sclust = l.headD 0
  size : fp.objsize = bs.length
  fits : bs.length ≤ V.bcs * l.length
  size_lt : bs.length < 2 ^ 32
  dirty : fp.dirty = true → V.InChain l fp.sect
  buf : ∀ p b, bs[p]? = some (some b) → V.sectAt l (p / lbaSize) = fp.sect →
    fp.buf (sectorOff p) = b
  disk : ∀ p b, bs[p]? = some (some b) →
    (fp.dirty = true → V.sectAt l (p / lbaSize) ≠ fp.sect) →
      d (V.sectAt l (p / lbaSize)) (sectorOff p) = b

/-- **An open file is in order.** -/
structure FilOk (V : Vol) (d : Disk) (l : List ℕ) (bs : List (Option UInt8)) (fp : Fil) : Prop
    extends FilData V d l bs fp where
  fptr_le : fp.fptr ≤ bs.length
  clust : 0 < fp.fptr → l[(fp.fptr - 1) / V.bcs]? = some fp.clust
  sect : fp.fptr % lbaSize ≠ 0 → fp.sect = V.sectAt l (fp.fptr / lbaSize)

section

variable {V : Vol} {d d' : Disk} {l m : List ℕ} {bs : List (Option UInt8)} {fp fp' : Fil}

namespace FilData

/-- The fields that matter. -/
theorem congr_fil (h : FilData V d l bs fp) (fp' : Fil) (h₁ : fp'.sclust = fp.sclust)
    (h₂ : fp'.objsize = fp.objsize) (h₃ : fp'.dirty = fp.dirty) (h₄ : fp'.sect = fp.sect)
    (h₅ : fp'.buf = fp.buf) : FilData V d l bs fp' := by
  refine ⟨h.cluster, h.nodup, h₁.trans h.sclust, h₂.trans h.size, h.fits, h.size_lt, ?_, ?_, ?_⟩
  · rw [h₃, h₄]
    exact h.dirty
  · rw [h₄, h₅]
    exact h.buf
  · rw [h₃, h₄]
    exact h.disk

theorem lt_of_getElem? (h : FilData V d l bs fp) {p : ℕ} {o : Option UInt8} (hp : bs[p]? = some o) :
    p / lbaSize < V.csize * l.length :=
  Vol.div_lt_of_lt ((List.getElem?_eq_some_iff.1 hp).1.trans_le h.fits)

/-- **Frame rule**: what is outside the clusters does not matter. -/
theorem congr_disk (h : FilData V d l bs fp) (hd : ∀ x, V.InChain l x → d' x = d x) :
    FilData V d' l bs fp :=
  ⟨h.cluster, h.nodup, h.sclust, h.size, h.fits, h.size_lt, h.dirty, h.buf, fun p b hp hs => by
    rw [hd _ (Vol.inChain_sectAt (h.lt_of_getElem? hp))]
    exact h.disk p b hp hs⟩

/-- A longer chain. -/
theorem extend (h : FilData V d l bs fp) (hl : l ≠ []) (hcl : ∀ a ∈ l ++ m, V.IsCluster a)
    (hnd : (l ++ m).Nodup) : FilData V d (l ++ m) bs fp := by
  have hsect : ∀ (p : ℕ) (o : Option UInt8), bs[p]? = some o →
      V.sectAt (l ++ m) (p / lbaSize) = V.sectAt l (p / lbaSize) :=
    fun p o hp => Vol.sectAt_append (h.lt_of_getElem? hp) m
  refine ⟨hcl, hnd, ?_, h.size, ?_, h.size_lt, fun hd => (h.dirty hd).append m, fun p b hp => ?_,
    fun p b hp => ?_⟩
  · obtain ⟨a, l', rfl⟩ := List.exists_cons_of_ne_nil hl
    exact h.sclust
  · have hmul := Nat.mul_le_mul_left V.bcs (show l.length ≤ (l ++ m).length by simp)
    exact h.fits.trans hmul
  · rw [hsect p _ hp]
    exact h.buf p b hp
  · rw [hsect p _ hp]
    exact h.disk p b hp

/-- After the write-back. -/
theorem flushed (h : FilData V d l bs fp) (hd : ∀ x, x ≠ fp.sect → d' x = d x)
    (hs : d' fp.sect = fp.buf) : FilData V d' l bs fp.flushed := by
  refine ⟨h.cluster, h.nodup, h.sclust, h.size, h.fits, h.size_lt, nofun, h.buf, fun p b hp _ => ?_⟩
  by_cases hx : V.sectAt l (p / lbaSize) = fp.sect
  · rw [hx, hs]
    exact h.buf p b hp hx
  · rw [hd _ hx]
    exact h.disk p b hp fun _ => hx

/-- After a sector has been read. -/
theorem loaded (h : FilData V d l bs fp) (hd : fp.dirty = false) (sect : ℕ) :
    FilData V d l bs ((fp.filled (d sect)).atSect sect) := by
  have hclean : ∀ {q : Prop}, fp.dirty = true → q := fun ht => by
    rw [hd] at ht
    exact absurd ht Bool.false_ne_true
  refine ⟨h.cluster, h.nodup, h.sclust, h.size, h.fits, h.size_lt, hclean, fun p b hp hx => ?_,
    fun p b hp _ => h.disk p b hp hclean⟩
  have hread := h.disk p b hp hclean
  rw [show V.sectAt l (p / lbaSize) = sect from hx] at hread
  exact hread

/-- More bytes, of which nothing has been promised. -/
theorem grow (h : FilData V d l bs fp) {n : ℕ} (hfits : bs.length + n ≤ V.bcs * l.length)
    (hlt : bs.length + n < 2 ^ 32) (h₁ : fp'.sclust = fp.sclust) (h₂ : fp'.objsize = bs.length + n)
    (h₃ : fp'.dirty = fp.dirty) (h₄ : fp'.sect = fp.sect) (h₅ : fp'.buf = fp.buf) :
    FilData V d l (bs ++ List.replicate n none) fp' := by
  have hold : ∀ (p : ℕ) (b : UInt8), (bs ++ List.replicate n none)[p]? = some (some b) →
      bs[p]? = some (some b) := by
    intro p b hp
    rcases Nat.lt_or_ge p bs.length with hlt | hge
    · rwa [List.getElem?_append_left hlt] at hp
    · rw [List.getElem?_append_right hge, List.getElem?_replicate] at hp
      split at hp <;> simp at hp
  have hlen : (bs ++ List.replicate n (none : Option UInt8)).length = bs.length + n := by simp
  refine ⟨h.cluster, h.nodup, h₁.trans h.sclust, h₂.trans hlen.symm, hlen ▸ hfits, hlen ▸ hlt, ?_,
    ?_, ?_⟩
  · rw [h₃, h₄]
    exact h.dirty
  · rw [h₄, h₅]
    exact fun p b hp => h.buf p b (hold p b hp)
  · rw [h₃, h₄]
    exact fun p b hp => h.disk p b (hold p b hp)

/-- A file that is made longer. -/
theorem pad (h : FilData V d l bs fp) {p : ℕ} (hp : p ≤ V.bcs * l.length) (hlt : p < 2 ^ 32)
    (h₁ : fp'.sclust = fp.sclust) (h₂ : fp'.objsize = max bs.length p) (h₃ : fp'.dirty = fp.dirty)
    (h₄ : fp'.sect = fp.sect) (h₅ : fp'.buf = fp.buf) : FilData V d l (padded bs p) fp' := by
  have hfits := h.fits
  have hsize := h.size_lt
  exact h.grow (by omega) (by omega) h₁ (by omega) h₃ h₄ h₅

end FilData

/-- The cluster of the pointer, when it is not at the start of one. -/
theorem FilOk.located (h : FilOk V d l bs fp) (hp : fp.fptr % V.bcs ≠ 0) :
    l[fp.fptr / V.bcs]? = some fp.clust := by
  have hpos : 0 < fp.fptr := Nat.pos_of_ne_zero fun h₀ => hp (by rw [h₀, Nat.zero_mod])
  have hdiv : (fp.fptr - 1) / V.bcs = fp.fptr / V.bcs := by
    have hmod := Nat.div_add_mod fp.fptr V.bcs
    have hlt := Nat.mod_lt fp.fptr (Vol.bcs_pos (V := V))
    rw [Nat.div_eq_iff Vol.bcs_pos, Nat.mul_comm]
    omega
  rw [← hdiv]
  exact h.clust hpos

end

/-! ## The volume between calls -/

section

variable {σ ι κ : Type*} (D : Drive σ) (V : Vol)

/-- **The volume between calls** on the files `ι`; the directories `κ` have chains too. -/
structure Mounted (f : FatFs σ) (files : ι ⊕ κ → List ℕ) : Prop where
  exact : Exact D V ⟨f, files⟩
  dirty : FatDirty V f
  window : f.winsect < V.database ∨ f.winsect = noSector ∨
    ∃ k, V.InChain (files (.inr k)) f.winsect

/-- **What a call on file `i` does** to the volume. -/
structure Went (i : ι) (f : FatFs σ) (files : ι ⊕ κ → List ℕ) (f' : FatFs σ)
    (files' : ι ⊕ κ → List ℕ) : Prop where
  mounted : Mounted D V f' files'
  others : ∀ j, j ≠ .inl i → files' j = files j
  grow : files (.inl i) <+: files' (.inl i)
  frame : ∀ x, ¬ V.InFat x → ¬ V.InChain (files' (.inl i)) x → D.disk f'.io x = D.disk f.io x

variable {D V} {i : ι} {f f' f'' : FatFs σ} {files files' files'' : ι ⊕ κ → List ℕ}

theorem Vol.InChain.mono {l l' : List ℕ} {x : ℕ} (h : V.InChain l x) (hl : l <+: l') :
    V.InChain l' x := by
  obtain ⟨c, hc, hx⟩ := h
  exact ⟨c, hl.subset hc, hx⟩

namespace Went

theorem refl (h : Mounted D V f files) : Went D V i f files f files :=
  ⟨h, fun _ _ => rfl, List.prefix_rfl, fun _ _ _ => rfl⟩

theorem trans (h : Went D V i f files f' files') (h' : Went D V i f' files' f'' files'') :
    Went D V i f files f'' files'' :=
  ⟨h'.mounted, fun j hj => (h'.others j hj).trans (h.others j hj), h.grow.trans h'.grow,
    fun x hfat hx => (h'.frame x hfat hx).trans
      (h.frame x hfat fun hc => hx (hc.mono h'.grow))⟩

end Went

namespace Mounted

theorem cluster (h : Mounted D V f files) (j : ι ⊕ κ) : ∀ a ∈ files j, V.IsCluster a :=
  h.exact.cluster j

/-- The clusters of two files are at different places. -/
theorem disjoint (h : Mounted D V f files) {j j' : ι ⊕ κ} (hj : j ≠ j') {x : ℕ}
    (hx : V.InChain (files j) x) : ¬ V.InChain (files j') x := by
  rintro ⟨c', hc', hx'⟩
  obtain ⟨c, hc, hx⟩ := hx
  obtain rfl := cluster_unique (h.cluster j c hc) (h.cluster j' c' hc') hx hx'
  exact h.exact.owned.disjoint j j' hj c hc hc'

/-- The places of the window are beside the files. -/
theorem outside (h : Mounted D V f files) (i : ι) {x : ℕ}
    (hx : x < V.database ∨ x = noSector ∨ ∃ k, V.InChain (files (.inr k)) x) :
    ¬ V.InChain (files (.inl i)) x := by
  intro hi
  obtain ⟨-, hlt, hge, -⟩ := hi.bounds (h.cluster _)
  rcases hx with hw | hw | ⟨k, hk⟩
  · omega
  · rw [hw] at hlt
    simp only [noSector] at hlt
    omega
  · exact h.disjoint Sum.inr_ne_inl hk hi

theorem winsect (h : Mounted D V f files) (i : ι) : ¬ V.InChain (files (.inl i)) f.winsect :=
  h.outside i h.window

/-- A call on the FATs that keeps the chains. -/
theorem of_steps (h : Mounted D V f files) (hs : Steps D V V.InFirst f f')
    (hexact : Exact D V ⟨f', files'⟩) (hdirs : ∀ k, files' (.inr k) = files (.inr k)) :
    Mounted D V f' files' := by
  refine ⟨hexact, (hs.disk h.dirty).1, ?_⟩
  have hfit := V.fats_fit
  have hle := V.first_le_fats
  rcases hs.winsect with hw | hw | hw
  · rw [hw]
    exact h.window.imp_right (Or.imp_right fun ⟨k, hk⟩ => ⟨k, by rwa [hdirs]⟩)
  · exact .inl (by have := hw.2; omega)
  · exact .inr (.inl hw)

/-- The drive has been used, and has changed neither in the FATs nor in the sector of the window. -/
theorem used_of (h : Mounted D V f files) {io : σ} (hwin : D.disk io f.winsect = D.disk f.io f.winsect)
    (hfat : ∀ x, V.InFat x → D.disk io x = D.disk f.io x) : Mounted D V (f.used io) files := by
  have hview : ∀ x, V.InFat x → (f.used io).view D x = f.view D x := by
    intro x hx
    cases hw : f.wflag with
    | false =>
      rw [FatFs.view_of_clean hw, FatFs.view_of_clean (f := f.used io) hw]
      exact hfat x hx
    | true =>
      rw [FatFs.view_of_dirty hw, FatFs.view_of_dirty (f := f.used io) hw]
      by_cases hxw : x = f.winsect
      · subst hxw
        exact (Function.update_self (f.used io).winsect _ _).trans
          (Function.update_self f.winsect f.win (D.disk f.io)).symm
      · exact (Function.update_of_ne hxw ..).trans
          ((hfat x hx).trans (Function.update_of_ne hxw ..).symm)
  have hco := h.exact.coherent
  have hle := V.first_le_fats
  have hT : V.table ((f.used io).view D) = V.table (f.view D) := by
    rw [Vol.table, Vol.table, Vol.fatMem_congr fun x h₁ h₂ => hview x ⟨h₁, by omega⟩]
  refine ⟨h.exact.of_table ⟨hco.sect_le, fun hc hne => ?_, hco.dirty, hco.no_mirror⟩ hT ?_, h.dirty,
    h.window⟩
  · exact (hco.clean hc hne).trans hwin.symm
  · have hcount := h.exact.count
    unfold CountOk at hcount ⊢
    rw [hT]
    exact hcount

/-- The drive has been used, and has changed in the clusters of a file at most. -/
theorem used (h : Mounted D V f files) {io : σ}
    (hio : ∀ x, ¬ V.InChain (files (.inl i)) x → D.disk io x = D.disk f.io x) :
    Mounted D V (f.used io) files :=
  h.used_of (hio _ (h.winsect i)) fun x hx => hio x fun hc => (hc.bounds (h.cluster _)).2.2.2 hx

/-- Writes in the clusters of a file. -/
theorem went_used (h : Mounted D V f files) {io : σ}
    (hio : ∀ x, ¬ V.InChain (files (.inl i)) x → D.disk io x = D.disk f.io x) :
    Went D V i f files (f.used io) files :=
  ⟨h.used hio, fun _ _ => rfl, List.prefix_rfl, fun x _ hx => hio x hx⟩

end Mounted

/-! ## The sector buffer -/

variable {bs : List (Option UInt8)} {fp : Fil}

/-- The write-back on the disk. -/
theorem flushFil_disk (hs : fp.dirty = true → fp.sect < 2 ^ 32) (hok : (flushFil D f fp).2.2 = true) :
    (flushFil D f fp).2.1 = fp.flushed ∧ ∃ io, (flushFil D f fp).1 = f.used io ∧
      D.disk io = if fp.dirty then Function.update (D.disk f.io) fp.sect fp.buf else D.disk f.io := by
  revert hok
  rw [flushFil]
  by_cases hd : fp.dirty = true
  · rw [if_pos hd, if_pos hd]
    dsimp only
    intro hok
    rw [if_pos hok]
    exact ⟨rfl, _, rfl, Drive.writeSector_ok hok (hs hd)⟩
  · rw [if_neg hd, if_neg hd]
    have heq : fp.flushed = fp := by
      rw [Fil.flushed, ← Bool.eq_false_of_not_eq_true hd]
    exact fun _ => ⟨heq.symm, f.io, rfl, rfl⟩

/-- What the write-back leaves of the bytes. -/
theorem FilData.written {d : Disk} {l : List ℕ} (h : FilData V d l bs fp) :
    FilData V (if fp.dirty then Function.update d fp.sect fp.buf else d) l bs fp.flushed := by
  by_cases hd : fp.dirty = true
  · rw [if_pos hd]
    exact h.flushed (fun x hne => Function.update_of_ne hne ..) (Function.update_self ..)
  · rw [if_neg hd]
    have heq : fp.flushed = fp := by
      rw [Fil.flushed, ← Bool.eq_false_of_not_eq_true hd]
    rwa [heq]

/-- **The write-back** of the buffer. -/
theorem flushFil_spec (hm : Mounted D V f files)
    (h : FilData V (D.disk f.io) (files (.inl i)) bs fp) (hok : (flushFil D f fp).2.2 = true) :
    Went D V i f files (flushFil D f fp).1 files ∧ (flushFil D f fp).2.1 = fp.flushed ∧
      FilData V (D.disk (flushFil D f fp).1.io) (files (.inl i)) bs fp.flushed := by
  obtain ⟨hfil, io, hio, hdisk⟩ := flushFil_disk (fun hd => by
    have := ((h.dirty hd).bounds h.cluster).2.1
    omega) hok
  rw [hfil, hio]
  refine ⟨hm.went_used fun x hout => ?_, rfl, ?_⟩
  · rw [hdisk]
    split
    · rename_i hd
      have hne : x ≠ fp.sect := fun he => hout (he ▸ h.dirty hd)
      exact Function.update_of_ne hne ..
    · rfl
  · rw [show (f.used io).io = io from rfl, hdisk]
    exact h.written

/-- **The fill** of a clean buffer. -/
theorem loadFil_spec (hm : Mounted D V f files)
    (h : FilData V (D.disk f.io) (files (.inl i)) bs fp) (hd : fp.dirty = false) {sect : ℕ}
    (hlt : sect < 2 ^ 32) (hok : (loadFil D f fp sect).2.2 = true) :
    Went D V i f files (loadFil D f fp sect).1 files ∧
      (loadFil D f fp sect).2.1 = fp.filled (D.disk f.io sect) ∧
      FilData V (D.disk (loadFil D f fp sect).1.io) (files (.inl i)) bs
        ((fp.filled (D.disk f.io sect)).atSect sect) := by
  have hread := Drive.readSector_ok hok hlt
  have hdisk : D.disk (loadFil D f fp sect).1.io = D.disk f.io := Drive.readSector_disk
  refine ⟨hm.went_used fun x _ => congrFun hdisk x, congrArg fp.filled hread, ?_⟩
  rw [hdisk]
  exact h.loaded hd sect

end

end RvvmHal.Fatfs
