import RvvmHal.Fatfs.FilSeek

/-!
# Truncating a file

`f_truncate` removes the clusters behind that of the pointer, or all if the pointer is at the start,
and the file ends at the pointer then (`fTruncate_spec`). A dirty buffer is written back, also when
its sector has just been given back.
-/

namespace RvvmHal.Fatfs

open Nvme

/-- The number of clusters that `p` bytes take. -/
def Vol.chainLen (V : Vol) (p : ℕ) : ℕ := if p = 0 then 0 else (p - 1) / V.bcs + 1

section

variable {V : Vol} {d : Disk} {l : List ℕ} {bs : List (Option UInt8)} {fp fp' : Fil} {n p : ℕ}

theorem Vol.le_chainLen (V : Vol) (p : ℕ) : p ≤ V.bcs * V.chainLen p := by
  rw [Vol.chainLen]
  split
  · omega
  · have := Nat.lt_mul_div_succ (p - 1) (Vol.bcs_pos (V := V))
    omega

/-- The clusters that some bytes of the file take are there. -/
theorem FilData.chainLen_le (h : FilData V d l bs fp) (hp : p ≤ bs.length) :
    V.chainLen p ≤ l.length := by
  have hfits := h.fits
  rw [Vol.chainLen]
  split
  · exact Nat.zero_le _
  · exact Nat.div_lt_of_lt_mul (by omega)

/-- The start of a chain has the same sectors. -/
theorem Vol.sectAt_take {s : ℕ} (hn : n ≤ l.length) (hs : s < V.csize * n) :
    V.sectAt (l.take n) s = V.sectAt l s := by
  have hlen : (l.take n).length = n := by
    rw [List.length_take]
    omega
  have happ := Vol.sectAt_append (V := V) (l := l.take n) (s := s) (by rwa [hlen]) (l.drop n)
  rw [List.take_append_drop] at happ
  exact happ.symm

/-- The bytes at the start of a file whose buffer is clean. -/
theorem FilData.shrink (h : FilData V d l bs fp) (hd : fp.dirty = false) (hp : p ≤ bs.length)
    (hn : n ≤ l.length) (hfits : p ≤ V.bcs * n) (h₁ : fp'.sclust = (l.take n).headD 0)
    (h₂ : fp'.objsize = p) (h₃ : fp'.dirty = false) (h₄ : fp'.sect = fp.sect)
    (h₅ : fp'.buf = fp.buf) : FilData V d (l.take n) (bs.take p) fp' := by
  have hlen : (l.take n).length = n := by
    rw [List.length_take]
    omega
  have hlen' : (bs.take p).length = p := by
    rw [List.length_take]
    omega
  have hsize := h.size_lt
  -- a byte that stays
  have hold : ∀ (q : ℕ) (b : UInt8), (bs.take p)[q]? = some (some b) →
      bs[q]? = some (some b) ∧ V.sectAt (l.take n) (q / lbaSize) = V.sectAt l (q / lbaSize) := by
    intro q b hq
    have hqp : q < p := by
      rw [← hlen']
      exact (List.getElem?_eq_some_iff.1 hq).1
    refine ⟨by rwa [List.getElem?_take_of_lt hqp] at hq, Vol.sectAt_take hn ?_⟩
    rw [Vol.bcs_mul] at hfits
    exact Nat.div_lt_of_lt_mul (by omega)
  refine ⟨fun a ha => h.cluster a (List.mem_of_mem_take ha), h.nodup.sublist (List.take_sublist n l),
    h₁, h₂.trans hlen'.symm, by rwa [hlen, hlen'], by omega, fun ht => ?_, fun q b hq he => ?_,
    fun q b hq _ => ?_⟩
  · exact absurd (h₃.symm.trans ht) Bool.false_ne_true
  · obtain ⟨hq', hs⟩ := hold q b hq
    rw [h₅]
    exact h.buf q b hq' (by rw [← hs, he, h₄])
  · obtain ⟨hq', hs⟩ := hold q b hq
    rw [hs]
    exact h.disk q b hq' fun ht => absurd (hd.symm.trans ht) Bool.false_ne_true

end

section

variable {σ ι κ : Type*} {D : Drive σ} {V : Vol} {i : ι} {f f' : FatFs σ}
  {files : ι ⊕ κ → List ℕ} {bs : List (Option UInt8)} {fp fp' : Fil}

/-- **Cutting the chain of a file.** -/
theorem Mounted.cut [DecidableEq ι] [DecidableEq κ] (hm : Mounted D V f files) {l m : List ℕ} {a : ℕ}
    (hi : files (.inl i) = l ++ a :: m) :
    ∃ f' r, removeChain D V f a (l.getLast?.getD 0) = some (f', r) ∧ (r = .ok →
      Mounted D V f' (Function.update files (.inl i) l) ∧
        ∀ x, ¬ V.InFat x → D.disk f'.io x = D.disk f.io x) := by
  obtain ⟨f', r, hremove, hcut⟩ := hm.exact.toSound.removeChain hi
  refine ⟨f', r, hremove, fun hr => ?_⟩
  have hs := steps_removeChain .refl hremove
  obtain ⟨hfreed, hcount⟩ := hcut.done hr
  rcases hcut.rest (.inl hr) with ⟨hne, -⟩ | ⟨hp, hrest⟩
  · exact absurd hr hne
  have hsound := hm.exact.toSound.cut hi hcut.wrote.coherent
    (fun h₀ => by rw [hp h₀]; exact V.nFatent_le_eoc) hrest
  have hexact := hm.exact.cut hi hsound hfreed hrest (hcount hm.exact.count)
  exact ⟨hm.of_steps hs hexact fun k => Function.update_of_ne Sum.inr_ne_inl _ _,
    (hs.disk hm.dirty).2⟩

/-- **The chain of a file that is truncated.** -/
theorem truncChain_spec [DecidableEq ι] [DecidableEq κ] (hm : Mounted D V f files)
    (h : FilOk V (D.disk f.io) (files (.inl i)) bs fp) (hlt : fp.fptr < bs.length) :
    ∃ f' fp' res, truncChain D V f fp = some (f', fp', res) ∧ (res = .ok →
      fp' = { fp with sclust := if fp.fptr = 0 then 0 else fp.sclust } ∧
        Mounted D V f'
          (Function.update files (.inl i) ((files (.inl i)).take (V.chainLen fp.fptr))) ∧
        ∀ x, ¬ V.InFat x → D.disk f'.io x = D.disk f.io x) := by
  have hlen : 0 < (files (.inl i)).length := by
    have hfits := h.fits
    exact Nat.pos_of_ne_zero fun h₀ => by
      rw [h₀, Nat.mul_zero] at hfits
      omega
  rw [truncChain, Vol.chainLen]
  by_cases h₀ : fp.fptr = 0
  · -- the whole chain
    rw [if_pos h₀, if_pos h₀, if_pos h₀, List.take_zero]
    obtain ⟨a, l, hl⟩ := List.exists_cons_of_length_pos hlen
    have hs : fp.sclust = a := by
      rw [h.sclust, hl]
      rfl
    obtain ⟨f', r, hremove, hr⟩ := hm.cut (l := []) hl
    rw [List.getLast?_nil, Option.getD_none] at hremove
    rw [hs, hremove]
    exact ⟨f', _, r, rfl, fun hok => ⟨rfl, hr hok⟩⟩
  rw [if_neg h₀, if_neg h₀, if_neg h₀]
  have hclust := h.clust (Nat.pos_of_ne_zero h₀)
  generalize (fp.fptr - 1) / V.bcs = k at *
  obtain ⟨hk, hkc⟩ := List.getElem?_eq_some_iff.1 hclust
  obtain ⟨hwent, hframe⟩ := hm.getFat i fp.clust
  obtain ⟨-, hget⟩ := getFat_spec hm.exact.coherent fp.clust
  have hnext := hm.getFat_next (i := i) hclust
  dsimp only
  generalize getFat D V f fp.clust = g at *
  by_cases hd : g.2 = diskError
  · rw [if_pos hd]
    exact ⟨g.1, fp, _, rfl, fun hok => by cases hok⟩
  rw [if_neg hd]
  by_cases h₁ : g.2 = 1
  · rw [if_pos h₁]
    exact ⟨g.1, fp, _, rfl, fun hok => by cases hok⟩
  rw [if_neg h₁]
  by_cases hend : k + 1 < (files (.inl i)).length
  · -- the clusters behind that of the pointer
    have hg := hnext hend hd
    obtain ⟨hg₂, hg₃⟩ := hm.cluster (.inl i) _ (List.mem_of_getElem? hg)
    rw [if_pos hg₃]
    have hsplit : files (.inl i) = (files (.inl i)).take (k + 1) ++
        g.2 :: (files (.inl i)).drop (k + 2) := by
      rw [← (List.getElem?_eq_some_iff.1 hg).2, List.cons_getElem_drop_succ, List.take_append_drop]
    have hlast : ((files (.inl i)).take (k + 1)).getLast?.getD 0 = fp.clust := by
      rw [List.getLast?_take]
      simp [hclust]
    obtain ⟨f', r, hremove, hr⟩ := hwent.mounted.cut hsplit
    rw [hlast] at hremove
    rw [hremove]
    refine ⟨f', fp, r, rfl, fun hok => ⟨rfl, (hr hok).1, fun x hx => ?_⟩⟩
    exact ((hr hok).2 x hx).trans (hframe x hx)
  · -- there are none
    obtain ⟨h₂, h₃⟩ := hm.cluster (.inl i) _ (List.mem_of_getElem? hclust)
    have hlinked : LinkTable.Linked (V.table (f.view D)) (V.nFatent ≤ ·) (files (.inl i)) :=
      hm.exact.owned.linked (.inl i)
    have hge : V.nFatent ≤ g.2 := by
      rw [hget hd, if_neg (by omega)]
      have hlast : (files (.inl i)).getLast?.getD 0 = fp.clust := by
        rw [List.getLast?_eq_getElem?, show (files (.inl i)).length - 1 = k by omega, hclust,
          Option.getD_some]
      have hlast' := (hm.exact.last_getD (.inl i) (by rw [hlast]; omega)).2
      rwa [hlast] at hlast'
    rw [if_neg (by omega)]
    refine ⟨g.1, fp, .ok, rfl, fun _ => ⟨rfl, ?_, hframe⟩⟩
    rw [List.take_of_length_le (by omega), Function.update_eq_self]
    exact hwent.mounted

/-- **`f_truncate`.** -/
theorem fTruncate_spec [DecidableEq ι] [DecidableEq κ] (hm : Mounted D V f files)
    (h : FilOk V (D.disk f.io) (files (.inl i)) bs fp) (herr : fp.err = .ok)
    (hwrite : fp.canWrite = true) (hlt : fp.fptr < bs.length) :
    ∃ f' fp' res, fTruncate D V f fp = some (f', fp', res) ∧ (res = .ok →
      ∃ l, l <+: files (.inl i) ∧ Mounted D V f' (Function.update files (.inl i) l) ∧
        FilOk V (D.disk f'.io) l (bs.take fp.fptr) fp' ∧ fp'.fptr = fp.fptr ∧ Fil.Same fp fp' ∧
          fp'.modified = true ∧
        ∀ x, ¬ V.InFat x → ¬ V.InChain (files (.inl i)) x → D.disk f'.io x = D.disk f.io x) := by
  obtain ⟨f₁, fp₁, r, hchain, hr⟩ := truncChain_spec hm h hlt
  have hsize : fp.fptr < fp.objsize := by rwa [h.size]
  rw [fTruncate, if_neg (not_not.2 herr), if_neg (by rw [hwrite]; decide), if_pos hsize, hchain,
    Option.map_some]
  dsimp only
  by_cases hok : r = .ok
  swap
  · rw [if_neg hok]
    exact ⟨f₁, _, r, rfl, fun he => absurd he hok⟩
  rw [if_pos hok]
  obtain ⟨rfl, hm₁, hframe⟩ := hr hok
  obtain ⟨fp₁, hfp₁⟩ : ∃ fp₁ : Fil,
      Fil.cut { fp with sclust := if fp.fptr = 0 then 0 else fp.sclust } = fp₁ := ⟨_, rfl⟩
  rw [hfp₁]
  by_cases hflush : (flushFil D f₁ fp₁).2.2 = true
  swap
  · rw [if_neg hflush]
    exact ⟨_, _, _, rfl, fun he => by cases he⟩
  rw [if_pos hflush]
  have hdirty : fp₁.dirty = fp.dirty := by rw [← hfp₁]; rfl
  have hsect : fp₁.sect = fp.sect := by rw [← hfp₁]; rfl
  have hbuf : fp₁.buf = fp.buf := by rw [← hfp₁]; rfl
  obtain ⟨hfil, io, hio, hdisk⟩ := flushFil_disk (fun hd => by
    have := ((h.dirty (hdirty ▸ hd)).bounds h.cluster).2.1
    omega) hflush
  refine ⟨_, _, _, rfl, fun _ => ⟨_, List.take_prefix (V.chainLen fp.fptr) _, ?_⟩⟩
  rw [hfil, hio]
  rw [hdirty, hsect, hbuf] at hdisk
  -- the buffer has been written into the old chain at most
  have hout : ∀ x, ¬ V.InChain (files (.inl i)) x → D.disk io x = D.disk f₁.io x := by
    intro x hx
    rw [hdisk]
    split
    · rename_i hd
      have hne : x ≠ fp.sect := fun he => hx (he ▸ h.dirty hd)
      exact Function.update_of_ne hne ..
    · rfl
  have hlen := h.toFilData.chainLen_le h.fptr_le
  have hdata := (h.toFilData.of_fat hframe).written
  rw [← hdisk] at hdata
  have hshrink : FilData V (D.disk io) ((files (.inl i)).take (V.chainLen fp.fptr))
      (bs.take fp.fptr) fp₁.flushed := by
    refine hdata.shrink rfl h.fptr_le hlen (V.le_chainLen _) ?_ ?_ rfl hsect hbuf
    · rw [← hfp₁]
      change (if fp.fptr = 0 then 0 else fp.sclust) = _
      rw [Vol.chainLen]
      by_cases h₀ : fp.fptr = 0
      · rw [if_pos h₀, if_pos h₀]
        rfl
      · rw [if_neg h₀, if_neg h₀, h.sclust]
        cases files (.inl i) <;> rfl
    · rw [← hfp₁]
      rfl
  have hfptr : fp₁.flushed.fptr = fp.fptr := by rw [← hfp₁]; rfl
  have hclust : fp₁.flushed.clust = fp.clust := by rw [← hfp₁]; rfl
  refine ⟨?_, ⟨hshrink, ?_, ?_, ?_⟩, hfptr, ?_, ?_, ?_⟩
  · refine hm₁.used_of (hout _ (hm.outside i ?_)) fun x hx => hout x fun hc =>
      (hc.bounds h.cluster).2.2.2 hx
    exact hm₁.window.imp_right (Or.imp_right fun ⟨k, hk⟩ =>
      ⟨k, by rwa [Function.update_of_ne Sum.inr_ne_inl] at hk⟩)
  · rw [hfptr, List.length_take]
    omega
  · rw [hfptr, hclust]
    intro hp
    rw [List.getElem?_take_of_lt (by rw [Vol.chainLen, if_neg (by omega)]; omega)]
    exact h.clust hp
  · rw [hfptr]
    intro hne
    refine hsect.trans ((h.sect hne).trans (Vol.sectAt_take hlen ?_).symm)
    have hle := V.le_chainLen fp.fptr
    rw [Vol.bcs_mul] at hle
    simp only [lbaSize] at *
    omega
  · rw [← hfp₁]
    exact ⟨rfl, rfl, rfl, rfl, rfl⟩
  · rw [← hfp₁]
    rfl
  · exact fun x hfat hx => (hout x hx).trans (hframe x hfat)

end

end RvvmHal.Fatfs
