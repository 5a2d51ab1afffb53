import RvvmHal.Fatfs.FilWrite

/-!
# Seeking in a file

`f_lseek` follows the chain of a file from the cluster of the pointer or from the first one, and
stretches it where it ends, if the file may be written (`seekLoop_spec`). A file that becomes longer
so has places of which nothing has been promised. If `f_lseek` reports no error, the pointer is where
it should be, or no cluster is free (`fLseek_spec`).
-/

namespace RvvmHal.Fatfs

open Nvme

/-- **The file on the way** of `f_lseek`: it is long enough for the cluster `clst`, where it is; `m` has
been its change flag before. -/
structure Seeking (V : Vol) (d : Disk) (l : List ℕ) (bs : List (Option UInt8)) (m : Bool) (fp : Fil)
    (clst : ℕ) : Prop where
  data : FilData V d l (padded bs fp.fptr) fp
  aligned : fp.fptr % V.bcs = 0
  loc : l[fp.fptr / V.bcs]? = some clst
  clust : fp.clust = clst
  modified : fp.modified = (m || decide (bs.length < fp.fptr))

/-- **The file where it has been brought** by `f_lseek`. -/
structure SeekDone (V : Vol) (d : Disk) (l : List ℕ) (bs : List (Option UInt8)) (m : Bool)
    (fp : Fil) : Prop where
  fil : FilOk V d l (padded bs fp.fptr) fp
  modified : fp.modified = (m || decide (bs.length < fp.fptr))

/-- How the way to place `target` has ended. -/
inductive Sought {σ ι κ : Type*} (D : Drive σ) (V : Vol) (i : ι) (f : FatFs σ)
    (files : ι ⊕ κ → List ℕ) (bs : List (Option UInt8)) (m : Bool) (fp : Fil) (target : ℕ)
    (f' : FatFs σ) (fp' : Fil) : Except FResult (ℕ × ℕ) → Prop
  | failed (e : FResult) (he : e ≠ .ok) : Sought D V i f files bs m fp target f' fp' (.error e)
  | full {files' : ι ⊕ κ → List ℕ} (went : Went D V i f files f' files') (used : AllUsed V files')
    (done : SeekDone V (D.disk f'.io) (files' (.inl i)) bs m fp') (aligned : fp'.fptr % lbaSize = 0)
    (size : bs.length ≤ fp'.fptr) (short : fp'.fptr < target) (same : Fil.Same fp fp') :
    Sought D V i f files bs m fp target f' fp' (.ok (0, 0))
  | found {files' : ι ⊕ κ → List ℕ} {clst ofs : ℕ} (went : Went D V i f files f' files')
    (seeking : Seeking V (D.disk f'.io) (files' (.inl i)) bs m fp' clst) (pos : 0 < ofs)
    (le : ofs ≤ V.bcs) (place : fp'.fptr + ofs = target) (same : Fil.Same fp fp') :
    Sought D V i f files bs m fp target f' fp' (.ok (clst, ofs))

section

variable {σ ι κ : Type*} {D : Drive σ} {V : Vol} {i : ι} {f f' f'' : FatFs σ}
  {files files' : ι ⊕ κ → List ℕ} {bs : List (Option UInt8)} {m : Bool} {fp fp₁ fp' : Fil}
  {target clst ofs : ℕ} {r : Except FResult (ℕ × ℕ)}

/-- A way in two parts. -/
theorem Went.sought (hw : Went D V i f files f' files') (hsame : Fil.Same fp fp₁)
    (h : Sought D V i f' files' bs m fp₁ target f'' fp' r) :
    Sought D V i f files bs m fp target f'' fp' r := by
  cases h with
  | failed e he => exact .failed e he
  | full went used done aligned size short same =>
    exact .full (hw.trans went) used done aligned size short (hsame.trans same)
  | found went seeking pos le place same =>
    exact .found (hw.trans went) seeking pos le place (hsame.trans same)

theorem Fil.stepped_fields (V : Vol) (fp : Fil) : (fp.stepped V).fptr = fp.fptr + V.bcs ∧
    (fp.stepped V).clust = fp.clust ∧ (fp.stepped V).sclust = fp.sclust ∧
      (fp.stepped V).dirty = fp.dirty ∧ (fp.stepped V).sect = fp.sect ∧
        (fp.stepped V).buf = fp.buf ∧ Fil.Same fp (fp.stepped V) := by
  by_cases h : (fp.moved V.bcs).canWrite = true ∧ (fp.moved V.bcs).objsize < (fp.moved V.bcs).fptr
  · rw [show fp.stepped V = (fp.moved V.bcs).grown.changed from if_pos h]
    exact ⟨rfl, rfl, rfl, rfl, rfl, rfl, rfl, rfl, rfl, rfl, rfl⟩
  · rw [show fp.stepped V = fp.moved V.bcs from if_neg h]
    exact ⟨rfl, rfl, rfl, rfl, rfl, rfl, rfl, rfl, rfl, rfl, rfl⟩

/-- A step over a cluster. -/
theorem Seeking.stepped {d : Disk} {l : List ℕ} (h : Seeking V d l bs m fp clst)
    (hlt : fp.fptr + V.bcs < 2 ^ 32)
    (hread : fp.canWrite = false → fp.fptr + V.bcs ≤ bs.length) :
    FilData V d l (padded bs (fp.fptr + V.bcs)) (fp.stepped V) ∧
      (fp.stepped V).modified = (m || decide (bs.length < fp.fptr + V.bcs)) := by
  have hpos := Vol.bcs_pos (V := V)
  have hlen : fp.fptr / V.bcs < l.length := (List.getElem?_eq_some_iff.1 h.loc).1
  have hplace : fp.fptr + V.bcs ≤ V.bcs * l.length := by
    have hmul := Nat.mul_le_mul_left V.bcs (Nat.succ_le_of_lt hlen)
    have hdm := Nat.div_add_mod fp.fptr V.bcs
    rw [h.aligned, Nat.add_zero] at hdm
    rw [Nat.mul_succ] at hmul
    omega
  have hsize := h.data.size
  rw [length_padded] at hsize
  obtain ⟨-, -, h₁, h₃, h₄, h₅, -⟩ := Fil.stepped_fields V fp
  rw [← padded_padded (show fp.fptr ≤ fp.fptr + V.bcs by omega)]
  by_cases hgrow : fp.canWrite = true ∧ fp.objsize < fp.fptr + V.bcs
  · have hfp : fp.stepped V = (fp.moved V.bcs).grown.changed := if_pos hgrow
    refine ⟨h.data.pad hplace hlt h₁ ?_ h₃ h₄ h₅, ?_⟩
    · rw [hfp, length_padded, ← hsize]
      exact max_comm ..
    · rw [hfp, decide_eq_true (show bs.length < fp.fptr + V.bcs by omega), Bool.or_true]
      rfl
  · have hfp : fp.stepped V = fp.moved V.bcs := if_neg hgrow
    have hle : fp.fptr + V.bcs ≤ bs.length := by
      cases hcw : fp.canWrite with
      | false => exact hread hcw
      | true =>
        have := Nat.le_of_not_lt fun hlt => hgrow ⟨hcw, hlt⟩
        omega
    refine ⟨h.data.pad hplace hlt h₁ ?_ h₃ h₄ h₅, ?_⟩
    · rw [hfp, length_padded]
      change fp.objsize = _
      omega
    · rw [hfp, decide_eq_false (show ¬ bs.length < fp.fptr + V.bcs by omega)]
      refine h.modified.trans ?_
      rw [decide_eq_false (show ¬ bs.length < fp.fptr by omega)]

/-- The file behind the last cluster of its chain. -/
theorem Seeking.seekDone {d d' : Disk} {l : List ℕ} (h : Seeking V d l bs m fp clst)
    (hdata : FilData V d' l (padded bs (fp.fptr + V.bcs)) (fp.stepped V))
    (hmod : (fp.stepped V).modified = (m || decide (bs.length < fp.fptr + V.bcs))) :
    SeekDone V d' l bs m (fp.stepped V) ∧ (fp.stepped V).fptr % lbaSize = 0 := by
  have hpos := Vol.bcs_pos (V := V)
  have haligned := h.aligned
  obtain ⟨hfptr, hclust, -⟩ := Fil.stepped_fields V fp
  have hmod₀ : (fp.stepped V).fptr % lbaSize = 0 :=
    Vol.mod_lbaSize (V := V) (by rw [hfptr, Nat.add_mod_right, haligned])
  refine ⟨⟨⟨by rwa [hfptr], ?_, fun _ => ?_, fun hne => absurd hmod₀ hne⟩, by rwa [hfptr]⟩, hmod₀⟩
  · rw [length_padded, hfptr]
    exact Nat.le_max_right ..
  · rw [hfptr, Vol.add_div_bcs hpos (by omega), h.loc, hclust, h.clust]

/-- **The way along the chain.** -/
theorem seekLoop_spec [DecidableEq ι] [DecidableEq κ] {fuel : ℕ} (hm : Mounted D V f files)
    (h : Seeking V (D.disk f.io) (files (.inl i)) bs m fp clst) (hpos : 0 < ofs)
    (hfuel : ofs ≤ V.bcs * fuel) (hlt : fp.fptr + ofs < 2 ^ 32)
    (hread : fp.canWrite = false → fp.fptr + ofs ≤ bs.length) :
    ∃ f' fp' r, seekLoop D V fuel f fp clst ofs = some (f', fp', r) ∧
      Sought D V i f files bs m fp (fp.fptr + ofs) f' fp' r := by
  induction fuel generalizing f fp clst ofs files with
  | zero => omega
  | succ fuel ih =>
    rw [seekLoop]
    by_cases hofs : V.bcs < ofs
    swap
    · rw [if_neg hofs]
      exact ⟨f, fp, _, rfl, .found (.refl hm) h hpos (by omega) rfl (.refl fp)⟩
    rw [if_pos hofs]
    rw [Nat.mul_succ] at hfuel
    obtain ⟨hdata, hmod⟩ := h.stepped (by omega) fun hcw => by
      have := hread hcw
      omega
    dsimp only
    obtain ⟨hfptr, hclust, hsclust, hdirty, hsect, hbuf, hsame⟩ := Fil.stepped_fields V fp
    have hdiv : (fp.fptr + V.bcs) / V.bcs = fp.fptr / V.bcs + 1 :=
      Nat.add_div_right _ Vol.bcs_pos
    have hcl₀ := hm.cluster (.inl i) clst (List.mem_of_getElem? h.loc)
    have hend := fun {d : Disk} (hd : FilData V d (files (.inl i)) _ _) => h.seekDone hd hmod
    generalize fp.stepped V = fp₁ at *
    -- the way from the next cluster on
    have hrest : ∀ {f₁ : FatFs σ} {files₁ : ι ⊕ κ → List ℕ} {v : ℕ},
        Went D V i f files f₁ files₁ → (∀ x, ¬ V.InFat x → D.disk f₁.io x = D.disk f.io x) →
        (files₁ (.inl i))[fp.fptr / V.bcs + 1]? = some v →
        ∃ f' fp' r, seekLoop D V fuel f₁ (fp₁.atClust v) v (ofs - V.bcs) = some (f', fp', r) ∧
          Sought D V i f files bs m fp (fp.fptr + ofs) f' fp' r := by
      intro f₁ files₁ v hwent hframe hnext
      have hne : files (.inl i) ≠ [] := List.ne_nil_of_mem (List.mem_of_getElem? h.loc)
      have hfil : FilData V (D.disk f₁.io) (files₁ (.inl i)) (padded bs (fp.fptr + V.bcs))
          (fp₁.atClust v) :=
        hdata.went hwent hframe (fun hnil => absurd hnil hne) (fun _ => rfl) rfl rfl rfl rfl
      have hsame₁ : Fil.Same fp (fp₁.atClust v) := hsame.trans ⟨rfl, rfl, rfl, rfl, rfl⟩
      have hfptr₁ : (fp₁.atClust v).fptr = fp.fptr + V.bcs := hfptr
      have haligned := h.aligned
      have hseek : Seeking V (D.disk f₁.io) (files₁ (.inl i)) bs m (fp₁.atClust v) v :=
        ⟨by rwa [hfptr₁], by rw [hfptr₁, Nat.add_mod_right, haligned], by rwa [hfptr₁, hdiv], rfl,
          by rw [hfptr₁]; exact hmod⟩
      obtain ⟨f', fp', r, hloop, hsought⟩ := ih hwent.mounted hseek
        (show 0 < ofs - V.bcs by omega) (by omega) (by omega) (fun hcw => by
          have := hread (hsame₁.canWrite.symm.trans hcw)
          omega)
      rw [hfptr₁, show fp.fptr + V.bcs + (ofs - V.bcs) = fp.fptr + ofs by omega] at hsought
      exact ⟨f', fp', r, hloop, hwent.sought hsame₁ hsought⟩
    by_cases hcw : fp₁.canWrite = true
    · -- the chain is stretched where it ends
      obtain ⟨f₁, v, hcreate, hv⟩ := hm.next h.loc
      rw [if_pos hcw, hcreate, Option.bind_some]
      by_cases h₀ : v = 0
      · rw [if_pos ⟨hcw, h₀⟩]
        subst h₀
        obtain ⟨hnext, hframe⟩ := hv (by decide) (by decide)
        cases hnext with
        | @found _ files' went next =>
          have := (went.mounted.cluster (.inl i) 0 (List.mem_of_getElem? next)).1
          omega
        | full went used last =>
          obtain ⟨hdone, haligned⟩ := hend (hdata.of_fat hframe)
          have hfits := hdata.fits
          rw [length_padded, last, ← hdiv, Nat.mul_div_cancel'] at hfits
          · exact ⟨f₁, fp₁, _, rfl, .full went used hdone haligned (by omega) (by omega) hsame⟩
          · rw [Nat.dvd_iff_mod_eq_zero, Nat.add_mod_right, h.aligned]
      rw [if_neg fun hr => h₀ hr.2]
      by_cases hd : v = diskError
      · rw [if_pos hd]
        exact ⟨f₁, fp₁, _, rfl, .failed _ (by decide)⟩
      rw [if_neg hd]
      by_cases h₁ : v ≤ 1 ∨ V.nFatent ≤ v
      · rw [if_pos h₁]
        exact ⟨f₁, fp₁, _, rfl, .failed _ (by decide)⟩
      rw [if_neg h₁]
      obtain ⟨hnext, hframe⟩ := hv (by omega) hd
      cases hnext with
      | full went used last => exact absurd rfl h₀
      | found went next => exact hrest went hframe next
    · -- the chain is followed
      rw [if_neg hcw, Option.bind_some, if_neg fun hr => hcw hr.1]
      obtain ⟨hwent, hframe⟩ := hm.getFat i clst
      by_cases hd : (getFat D V f clst).2 = diskError
      · rw [if_pos hd]
        exact ⟨_, fp₁, _, rfl, .failed _ (by decide)⟩
      rw [if_neg hd]
      by_cases h₁ : (getFat D V f clst).2 ≤ 1 ∨ V.nFatent ≤ (getFat D V f clst).2
      · rw [if_pos h₁]
        exact ⟨_, fp₁, _, rfl, .failed _ (by decide)⟩
      rw [if_neg h₁]
      refine hrest hwent hframe (hm.getFat_next h.loc ?_ hd)
      have hle := hread (by rw [← hsame.canWrite]; exact Bool.eq_false_of_not_eq_true hcw)
      have hfits := h.data.fits
      rw [length_padded] at hfits
      rw [← hdiv]
      exact Nat.div_lt_of_lt_mul (by omega)

/-! ## The place -/

/-- **The file at its place**, when its size and its buffer have not been brought up yet; `nsect` is the
sector that the buffer should have. -/
structure Walked (V : Vol) (d : Disk) (l : List ℕ) (bs : List (Option UInt8)) (m : Bool) (fp : Fil)
    (nsect : ℕ) : Prop where
  data : ∃ q ≤ fp.fptr, FilData V d l (padded bs q) fp ∧ fp.modified = (m || decide (bs.length < q))
  place : fp.fptr ≤ V.bcs * l.length
  lt : fp.fptr < 2 ^ 32
  clust : 0 < fp.fptr → l[(fp.fptr - 1) / V.bcs]? = some fp.clust
  sect : fp.fptr % lbaSize ≠ 0 → nsect = V.sectAt l (fp.fptr / lbaSize)

/-- **The end of the walk** of `f_lseek`: the file is at its place, or where its chain ends and no
cluster is free. -/
structure Arrived (D : Drive σ) (V : Vol) (i : ι) (f : FatFs σ) (files : ι ⊕ κ → List ℕ)
    (bs : List (Option UInt8)) (fp : Fil) (target : ℕ) (f' : FatFs σ) (files' : ι ⊕ κ → List ℕ)
    (fp' : Fil) (nsect : ℕ) : Prop where
  went : Went D V i f files f' files'
  walked : Walked V (D.disk f'.io) (files' (.inl i)) bs fp.modified fp' nsect
  same : Fil.Same fp fp'
  le : fp'.fptr ≤ target
  short : fp'.fptr < target → bs.length ≤ fp'.fptr ∧ AllUsed V files'

/-- A place in the cluster where the way has ended. -/
theorem Seeking.walked {d : Disk} {l : List ℕ} (h : Seeking V d l bs m fp clst) (hpos : 0 < ofs)
    (hle : ofs ≤ V.bcs) (hlt : fp.fptr + ofs < 2 ^ 32) :
    Walked V d l bs m (fp.moved ofs)
      (if ofs % lbaSize ≠ 0 then clst2sect V clst + ofs / lbaSize else 0) := by
  have haligned := h.aligned
  have hmod := Vol.mod_lbaSize haligned
  have hlen : fp.fptr / V.bcs < l.length := (List.getElem?_eq_some_iff.1 h.loc).1
  obtain ⟨-, hplace⟩ := Vol.places (p := fp.fptr) (n := ofs) h.loc (by omega)
  have hcs : csect V fp.fptr = 0 := by
    have hmul := Vol.mod_bcs (V := V) hmod
    rw [haligned] at hmul
    exact (Nat.mul_eq_zero.1 hmul.symm).resolve_left (by decide)
  refine ⟨⟨fp.fptr, Nat.le_add_right .., ?_, h.modified⟩, hplace, hlt, fun _ => ?_, fun hne => ?_⟩
  · exact h.data.congr_fil _ rfl rfl rfl rfl rfl
  · rw [Fil.moved_fptr, Vol.add_div_bcs hpos (by omega), h.loc, Fil.moved_clust, h.clust]
  · rw [Fil.moved_fptr] at hne ⊢
    have hne' : ofs % lbaSize ≠ 0 := by
      simp only [lbaSize] at *
      omega
    have hdiv : (fp.fptr + ofs) / lbaSize = fp.fptr / lbaSize + ofs / lbaSize := by
      simp only [lbaSize] at *
      omega
    have hin : ofs / lbaSize < V.csize := by
      rw [Vol.bcs] at hle
      simp only [lbaSize] at *
      omega
    rw [if_pos hne', hdiv, Vol.sectAt_add l (by rw [← Vol.csect_eq, hcs]; omega),
      Vol.sectAt_of_clust h.loc, hcs, Nat.add_zero]

/-- The place where the chain ends. -/
theorem SeekDone.walked {d : Disk} {l : List ℕ} (h : SeekDone V d l bs m fp)
    (hp : fp.fptr % lbaSize = 0) : Walked V d l bs m (fp.moved 0) 0 := by
  have hle := h.fil.fits
  have hlt := h.fil.size_lt
  rw [length_padded] at hle hlt
  exact ⟨⟨fp.fptr, le_rfl, h.fil.toFilData.congr_fil _ rfl rfl rfl rfl rfl, h.modified⟩,
    (Nat.le_max_right ..).trans hle, (Nat.le_max_right ..).trans_lt hlt, h.fil.clust,
    fun hne => absurd hp hne⟩

/-- The cluster from which the chain is followed. -/
inductive Started (D : Drive σ) (V : Vol) (i : ι) (f : FatFs σ) (files : ι ⊕ κ → List ℕ)
    (bs : List (Option UInt8)) (fp : Fil) (target : ℕ) (f' : FatFs σ) (fp' : Fil) :
    Except FResult (ℕ × ℕ) → Prop
  | failed (e : FResult) (he : e ≠ .ok) : Started D V i f files bs fp target f' fp' (.error e)
  | full {ofs : ℕ} (went : Went D V i f files f' files) (used : AllUsed V files)
    (nil : files (.inl i) = []) (data : FilData V (D.disk f'.io) [] bs fp') (fptr : fp'.fptr = 0)
    (modified : fp'.modified = fp.modified) (same : Fil.Same fp fp') :
    Started D V i f files bs fp target f' fp' (.ok (0, ofs))
  | started {files' : ι ⊕ κ → List ℕ} {clst ofs : ℕ} (went : Went D V i f files f' files')
    (seeking : Seeking V (D.disk f'.io) (files' (.inl i)) bs fp.modified fp' clst) (pos : 0 < ofs)
    (place : fp'.fptr + ofs = target) (same : Fil.Same fp fp') :
    Started D V i f files bs fp target f' fp' (.ok (clst, ofs))

/-- A file without clusters. -/
theorem FilData.sclust_eq_zero {d : Disk} {l : List ℕ} (h : FilData V d l bs fp) :
    fp.sclust = 0 ↔ l = [] := by
  rw [h.sclust]
  cases l with
  | nil => simp
  | cons a l =>
    have ha := (h.cluster a List.mem_cons_self).1
    simp only [List.headD_cons, reduceCtorEq, iff_false]
    omega

/-- **The start of the way.** -/
theorem seekStart_spec [DecidableEq ι] [DecidableEq κ] (hm : Mounted D V f files)
    (h : FilOk V (D.disk f.io) (files (.inl i)) bs fp) (hpos : 0 < target) (hlt : target < 2 ^ 32) :
    ∃ f' fp' r, seekStart D V f (fp.seeked 0) fp.fptr target = some (f', fp', r) ∧
      Started D V i f files bs fp target f' fp' r := by
  have hsame : ∀ n, Fil.Same fp (fp.seeked n) := fun n => ⟨rfl, rfl, rfl, rfl, rfl⟩
  have hbcs := Vol.bcs_pos (V := V)
  -- the first cluster of a chain
  have hfirst : ∀ {f' : FatFs σ} {files' : ι ⊕ κ → List ℕ} {fp' : Fil} {a : ℕ},
      Went D V i f files f' files' → FilData V (D.disk f'.io) (files' (.inl i)) bs fp' →
      (files' (.inl i))[0]? = some a → fp'.fptr = 0 → fp'.clust = a →
      fp'.modified = fp.modified → Fil.Same fp fp' →
        Started D V i f files bs fp target f' fp' (.ok (a, target)) := by
    intro f' files' fp' a hwent hdata hloc h₀ ha hmod hsame
    refine .started hwent ⟨?_, by rw [h₀, Nat.zero_mod], by rwa [h₀, Nat.zero_div], ha, ?_⟩ hpos
      (by omega) hsame
    · rwa [h₀, padded_of_le (Nat.zero_le _)]
    · rw [hmod, h₀, decide_eq_false (Nat.not_lt_zero _), Bool.or_false]
  rw [seekStart]
  by_cases hahead : 0 < fp.fptr ∧ (fp.fptr - 1) / V.bcs ≤ (target - 1) / V.bcs
  · -- from the cluster of the pointer
    rw [if_pos hahead]
    obtain ⟨hp, hle⟩ := hahead
    have hloc := h.clust hp
    have hfits := h.fptr_le
    have hsize := h.size_lt
    have halign : (fp.fptr - 1) &&& (2 ^ 64 - V.bcs) = V.bcs * ((fp.fptr - 1) / V.bcs) := by
      obtain ⟨k, hk, hpow⟩ := V.csize_pow
      have hbk : V.bcs = 2 ^ (k + 9) := by
        rw [Vol.bcs, hpow, Nat.pow_add]
      rw [hbk, Word.and_align_mask (by omega) (by omega), Nat.mul_comm]
    have hback : V.bcs * ((fp.fptr - 1) / V.bcs) ≤ fp.fptr - 1 := Nat.mul_div_le ..
    have hfront : V.bcs * ((fp.fptr - 1) / V.bcs) ≤ target - 1 :=
      (Nat.mul_le_mul_left V.bcs hle).trans (Nat.mul_div_le ..)
    dsimp only
    rw [halign]
    refine ⟨f, _, _, rfl, .started (.refl hm) ⟨?_, ?_, ?_, rfl, ?_⟩ ?_ ?_ (hsame _)⟩
    · rw [show ((fp.seeked 0).seeked (V.bcs * ((fp.fptr - 1) / V.bcs))).fptr =
        V.bcs * ((fp.fptr - 1) / V.bcs) from rfl, padded_of_le (by omega)]
      exact h.toFilData.congr_fil _ rfl rfl rfl rfl rfl
    · exact Nat.mul_mod_right ..
    · rwa [show ((fp.seeked 0).seeked (V.bcs * ((fp.fptr - 1) / V.bcs))).fptr =
        V.bcs * ((fp.fptr - 1) / V.bcs) from rfl, Nat.mul_div_cancel_left _ hbcs]
    · rw [show ((fp.seeked 0).seeked (V.bcs * ((fp.fptr - 1) / V.bcs))).fptr =
        V.bcs * ((fp.fptr - 1) / V.bcs) from rfl, decide_eq_false (by omega), Bool.or_false]
      rfl
    · omega
    · change V.bcs * ((fp.fptr - 1) / V.bcs) + _ = _
      omega
  rw [if_neg hahead]
  by_cases hs : fp.sclust = 0
  · -- the file has no cluster
    rw [if_pos (show (fp.seeked 0).sclust = 0 from hs)]
    have hnil := h.toFilData.sclust_eq_zero.1 hs
    obtain ⟨f', v, hnew, hv⟩ := hm.stretch i
    rw [hnil] at hnew hv
    rw [List.getLast?_nil, Option.getD_none] at hnew
    rw [hnew, Option.map_some]
    dsimp only
    by_cases h₁ : v = 1
    · rw [if_pos h₁]
      exact ⟨f', _, _, rfl, .failed _ (by decide)⟩
    rw [if_neg h₁]
    by_cases hd : v = diskError
    · rw [if_pos hd]
      exact ⟨f', _, _, rfl, .failed _ (by decide)⟩
    rw [if_neg hd]
    obtain ⟨hnext, hframe⟩ := hv h₁ hd
    rw [List.length_nil] at hnext
    cases hnext with
    | full went used last =>
      refine ⟨f', _, _, rfl, .full went used hnil ?_ rfl rfl ⟨rfl, rfl, rfl, rfl, rfl⟩⟩
      have hdata := h.toFilData.of_fat hframe
      rw [hnil] at hdata
      exact hdata.congr_fil _ hs.symm rfl rfl rfl rfl
    | found went next =>
      refine ⟨f', _, _, rfl, hfirst went ?_ next rfl rfl rfl ⟨rfl, rfl, rfl, rfl, rfl⟩⟩
      refine h.toFilData.went went hframe (fun _ => ?_) (fun hne => absurd hnil hne) rfl rfl rfl rfl
      rw [List.headD_eq_head?_getD, List.head?_eq_getElem?, next, Option.getD_some]
      rfl
  · rw [if_neg (show (fp.seeked 0).sclust ≠ 0 from hs)]
    obtain ⟨a, l, hl⟩ := List.exists_cons_of_ne_nil fun hnil => hs (h.toFilData.sclust_eq_zero.2 hnil)
    have hhead : fp.sclust = a := by
      rw [h.sclust, hl]
      rfl
    refine ⟨f, _, _, rfl, hfirst (.refl hm) (h.toFilData.congr_fil _ rfl rfl rfl rfl rfl) ?_ rfl rfl rfl
      ⟨rfl, rfl, rfl, rfl, rfl⟩⟩
    rw [hl]
    exact congrArg some hhead.symm

/-- **The walk of `f_lseek`.** -/
theorem seekWalk_spec [DecidableEq ι] [DecidableEq κ] (hm : Mounted D V f files)
    (h : FilOk V (D.disk f.io) (files (.inl i)) bs fp) (hpos : 0 < target) (hlt : target < 2 ^ 32)
    (hread : fp.canWrite = false → target ≤ bs.length) :
    ∃ f' fp' r, seekWalk D V f (fp.seeked 0) fp.fptr target = some (f', fp', r) ∧
      (∀ e, r = .error e → e ≠ .ok) ∧
        ∀ nsect, r = .ok nsect → ∃ files', Arrived D V i f files bs fp target f' files' fp' nsect := by
  obtain ⟨f₁, fp₁, r₁, hstart, hstarted⟩ := seekStart_spec hm h hpos hlt
  rw [seekWalk, hstart, Option.bind_some]
  cases hstarted with
  | failed e he =>
    exact ⟨f₁, fp₁, _, rfl, fun e' he' => Except.error.inj he' ▸ he, fun _ he' => by cases he'⟩
  | full went used nil data fptr modified same =>
    have hc : bs = [] := by
      have hfits := data.fits
      rw [List.length_nil, Nat.mul_zero] at hfits
      exact List.length_eq_zero_iff.1 (Nat.le_zero.1 hfits)
    refine ⟨f₁, fp₁, _, rfl, fun _ he => by simp at he, fun nsect hok => ⟨files, went, ?_, same,
      by omega, fun _ => ⟨by simp [hc], used⟩⟩⟩
    rw [nil]
    refine ⟨⟨0, Nat.zero_le _, by rwa [padded_of_le (Nat.zero_le _)], ?_⟩, by omega, by omega,
      fun hp => by omega,
      fun hne => absurd (by rw [fptr, Nat.zero_mod]) hne⟩
    rw [modified, decide_eq_false (Nat.not_lt_zero _), Bool.or_false]
  | @started files₁ clst ofs went seeking pos place same =>
    have hcl := (went.mounted.cluster (.inl i) clst (List.mem_of_getElem? seeking.loc)).1
    dsimp only
    rw [if_neg (by omega)]
    obtain ⟨f₂, fp₂, r₂, hloop, hsought⟩ := seekLoop_spec went.mounted seeking pos
      (show ofs ≤ V.bcs * (ofs / V.bcs + 1) from (Nat.lt_mul_div_succ ofs Vol.bcs_pos).le)
      (by omega) (fun hcw => by
        have := hread (same.canWrite.symm.trans hcw)
        omega)
    rw [hloop, Option.map_some]
    rw [place] at hsought
    cases hsought with
    | failed e he =>
      exact ⟨f₂, fp₂, _, rfl, fun e' he' => Except.error.inj he' ▸ he, fun _ he' => by cases he'⟩
    | @full files₂ went' used done aligned size short same' =>
      have hsame₂ : Fil.Same fp (fp₂.moved 0) := (same.trans same').trans (.moved _ 0)
      refine ⟨f₂, fp₂.moved 0, .ok 0, rfl, fun _ he => by simp at he, fun nsect hok =>
        ⟨files₂, went.trans went', ?_, hsame₂, short.le, fun _ => ⟨size, used⟩⟩⟩
      obtain rfl := Except.ok.inj hok
      exact done.walked aligned
    | @found files₂ clst' ofs' went' seeking' pos' le place' same' =>
      have hsame₂ : Fil.Same fp (fp₂.moved ofs') := (same.trans same').trans (.moved _ ofs')
      have hwalked := seeking'.walked pos' le (by omega)
      have harrive : ∀ nsect, nsect = (if ofs' % lbaSize ≠ 0 then
          clst2sect V clst' + ofs' / lbaSize else 0) →
          Arrived D V i f files bs fp target f₂ files₂ (fp₂.moved ofs') nsect := by
        rintro nsect rfl
        exact ⟨went.trans went', hwalked, hsame₂, place'.le, fun hlt => absurd place' hlt.ne⟩
      dsimp only
      by_cases hofs : ofs' % lbaSize ≠ 0
      · rw [if_pos hofs]
        rw [if_pos hofs] at harrive
        refine ⟨f₂, _, _, rfl, fun e he => ?_, fun nsect hok => ⟨files₂, ?_⟩⟩
        · split at he
          · rw [← Except.error.inj he]
            decide
          · cases he
        · split at hok
          · cases hok
          · exact harrive nsect (Except.ok.inj hok).symm
      · rw [if_neg hofs]
        rw [if_neg hofs] at harrive
        exact ⟨f₂, _, _, rfl, fun _ he => by simp at he, fun nsect hok =>
          ⟨files₂, harrive nsect (Except.ok.inj hok).symm⟩⟩

/-! ## The end -/

/-- **The size and the buffer** are brought up. -/
theorem seekFill_spec {nsect : ℕ} (hm : Mounted D V f files)
    (h : Walked V (D.disk f.io) (files (.inl i)) bs m fp nsect)
    (hok : (seekFill D f fp nsect).2.2 = .ok) :
    let r := seekFill D f fp nsect
    Went D V i f files r.1 files ∧ SeekDone V (D.disk r.1.io) (files (.inl i)) bs m r.2.1 ∧
      r.2.1.fptr = fp.fptr ∧ Fil.Same fp r.2.1 := by
  obtain ⟨⟨q, hq, hdata, hmod⟩, hplace, hlt, hclust, hsect⟩ := h
  obtain ⟨fp₁, hfp₁⟩ : ∃ fp₁, (if fp.objsize < fp.fptr then fp.grown.changed else fp) = fp₁ :=
    ⟨_, rfl⟩
  have hsize := hdata.size
  rw [length_padded] at hsize
  -- the size is brought up
  have hgrown : FilData V (D.disk f.io) (files (.inl i)) (padded bs fp.fptr) fp₁ ∧
      fp₁.modified = (m || decide (bs.length < fp.fptr)) ∧ fp₁.fptr = fp.fptr ∧
        fp₁.clust = fp.clust ∧ Fil.Same fp fp₁ := by
    rw [← padded_padded hq, ← hfp₁]
    by_cases hgrow : fp.objsize < fp.fptr
    · rw [if_pos hgrow]
      refine ⟨hdata.pad hplace hlt rfl ?_ rfl rfl rfl, ?_, rfl, rfl, ⟨rfl, rfl, rfl, rfl, rfl⟩⟩
      · rw [length_padded, ← hsize]
        exact max_comm ..
      · rw [decide_eq_true (by omega), Bool.or_true]
        rfl
    · rw [if_neg hgrow]
      refine ⟨hdata.pad hplace hlt rfl ?_ rfl rfl rfl, ?_, rfl, rfl, .refl fp⟩
      · rw [length_padded]
        omega
      · rw [hmod, decide_eq_decide.2 (show bs.length < q ↔ bs.length < fp.fptr by omega)]
  obtain ⟨hdata₁, hmod₁, hfptr₁, hclust₁, hsame₁⟩ := hgrown
  -- the file with its buffer
  have hdone : ∀ {d : Disk} {fp' : Fil}, FilData V d (files (.inl i)) (padded bs fp.fptr) fp' →
      fp'.fptr = fp.fptr → fp'.clust = fp.clust → fp'.modified = fp₁.modified →
      (fp.fptr % lbaSize ≠ 0 → fp'.sect = V.sectAt (files (.inl i)) (fp.fptr / lbaSize)) →
        SeekDone V d (files (.inl i)) bs m fp' := by
    intro d fp' hd h₁ h₂ h₃ h₄
    refine ⟨⟨by rwa [h₁], ?_, ?_, ?_⟩, ?_⟩
    · rw [length_padded, h₁]
      exact Nat.le_max_right ..
    · rwa [h₁, h₂]
    · rwa [h₁]
    · rw [h₁, h₃, hmod₁]
  revert hok
  rw [seekFill, hfp₁]
  dsimp only
  by_cases hload : fp₁.fptr % lbaSize ≠ 0 ∧ nsect ≠ fp₁.sect
  swap
  · rw [if_neg hload]
    intro _
    refine ⟨.refl hm, hdone hdata₁ hfptr₁ hclust₁ rfl fun hne => ?_, hfptr₁, hsame₁⟩
    rw [← hsect hne]
    by_contra hs
    exact hload ⟨by rwa [hfptr₁], fun he => hs he.symm⟩
  rw [if_pos hload]
  obtain ⟨hne, -⟩ := hload
  rw [hfptr₁] at hne
  have hnsect := hsect hne
  have hbound : nsect + 1 < 2 ^ 32 := by
    have hlt' : fp.fptr < V.bcs * (files (.inl i)).length := by
      refine lt_of_le_of_ne hplace fun he => hne ?_
      rw [he, Vol.bcs_mul, Nat.mul_mod_right]
    rw [hnsect]
    exact ((Vol.inChain_sectAt (Vol.div_lt_of_lt hlt')).bounds hdata.cluster).2.1
  by_cases hflush : (flushFil D f fp₁).2.2 = true
  swap
  · rw [if_neg hflush]
    intro hok
    cases hok
  rw [if_pos hflush]
  obtain ⟨hwent, hfil, hdata₂⟩ := flushFil_spec hm hdata₁ hflush
  rw [hfil]
  by_cases hread : (loadFil D (flushFil D f fp₁).1 fp₁.flushed nsect).2.2 = true
  swap
  · rw [if_neg hread]
    intro hok
    cases hok
  rw [if_pos hread]
  intro _
  obtain ⟨hwent', hfil', hdata₃⟩ := loadFil_spec hwent.mounted hdata₂ rfl (by omega) hread
  rw [hfil']
  exact ⟨hwent.trans hwent', hdone hdata₃ hfptr₁ hclust₁ rfl fun _ => hnsect, hfptr₁,
    hsame₁.trans ⟨rfl, rfl, rfl, rfl, rfl⟩⟩

/-- The place that `f_lseek` is to go to. -/
def seekTarget (canWrite : Bool) (size ofs : ℕ) : ℕ :=
  let ofs := min ofs 0xFFFFFFFF
  if canWrite then ofs else min ofs size

/-- **`f_lseek`.** -/
theorem fLseek_spec [DecidableEq ι] [DecidableEq κ] (hm : Mounted D V f files)
    (h : FilOk V (D.disk f.io) (files (.inl i)) bs fp) (herr : fp.err = .ok) (ofs : ℕ) :
    ∃ f' fp' res, fLseek D V f fp ofs = some (f', fp', res) ∧ (res = .ok →
      ∃ files', Went D V i f files f' files' ∧
        SeekDone V (D.disk f'.io) (files' (.inl i)) bs fp.modified fp' ∧ Fil.Same fp fp' ∧
          fp'.fptr ≤ seekTarget fp.canWrite bs.length ofs ∧
            (fp'.fptr < seekTarget fp.canWrite bs.length ofs →
              bs.length ≤ fp'.fptr ∧ AllUsed V files')) := by
  have htarget : (let ofs := if 0x100000000 ≤ ofs then 0xFFFFFFFF else ofs
      if fp.objsize < ofs ∧ fp.canWrite = false then fp.objsize else ofs) =
      seekTarget fp.canWrite bs.length ofs := by
    rw [seekTarget, h.size]
    cases fp.canWrite <;> simp <;> split_ifs <;> omega
  have hlt : seekTarget fp.canWrite bs.length ofs < 2 ^ 32 := by
    rw [seekTarget]
    split <;> omega
  have hread : fp.canWrite = false → seekTarget fp.canWrite bs.length ofs ≤ bs.length := fun hcw => by
    rw [seekTarget, hcw, if_neg Bool.false_ne_true]
    omega
  rw [fLseek, if_neg (not_not.2 herr)]
  dsimp only at htarget ⊢
  rw [htarget]
  generalize seekTarget fp.canWrite bs.length ofs = target at *
  by_cases h₀ : target = 0
  · rw [if_pos h₀]
    have hwalked : Walked V (D.disk f.io) (files (.inl i)) bs fp.modified (fp.seeked 0) 0 := by
      refine ⟨⟨0, le_rfl, ?_, ?_⟩, Nat.zero_le _, show 0 < 2 ^ 32 by decide,
        fun hp => absurd hp (lt_irrefl 0),
        fun hne => absurd (Nat.zero_mod _) hne⟩
      · rw [padded_of_le (Nat.zero_le _)]
        exact h.toFilData.congr_fil _ rfl rfl rfl rfl rfl
      · rw [decide_eq_false (Nat.not_lt_zero _), Bool.or_false]
        rfl
    refine ⟨(seekFill D f (fp.seeked 0) 0).1, (seekFill D f (fp.seeked 0) 0).2.1,
      (seekFill D f (fp.seeked 0) 0).2.2, rfl, fun hok => ⟨files, ?_⟩⟩
    obtain ⟨hwent, hdone, hfptr, hsame⟩ := seekFill_spec hm hwalked hok
    have hfptr₀ : (seekFill D f (fp.seeked 0) 0).2.1.fptr = 0 := hfptr
    refine ⟨hwent, hdone, ?_, by omega, fun hlt => by omega⟩
    exact ⟨hsame.canRead, hsame.canWrite, hsame.err, hsame.dirSect, hsame.dirOff⟩
  rw [if_neg h₀]
  obtain ⟨f₁, fp₁, r, hwalk, herr', hok'⟩ := seekWalk_spec hm h (Nat.pos_of_ne_zero h₀) hlt hread
  rw [hwalk, Option.map_some]
  cases r with
  | error e => exact ⟨f₁, _, _, rfl, fun hok => absurd hok (herr' e rfl)⟩
  | ok nsect =>
    obtain ⟨files', harrived⟩ := hok' nsect rfl
    refine ⟨(seekFill D f₁ fp₁ nsect).1, (seekFill D f₁ fp₁ nsect).2.1,
      (seekFill D f₁ fp₁ nsect).2.2, rfl, fun hok => ⟨files', ?_⟩⟩
    obtain ⟨hwent, hdone, hfptr, hsame⟩ := seekFill_spec harrived.went.mounted harrived.walked hok
    refine ⟨harrived.went.trans hwent, hdone, harrived.same.trans hsame, ?_, ?_⟩
    · rw [hfptr]
      exact harrived.le
    · rw [hfptr]
      exact harrived.short

end

end RvvmHal.Fatfs
