import RvvmHal.Fatfs.FilRead

/-!
# Writing a file

A turn of the loop of `f_write` that reports no error has put bytes into the file at the pointer
(`writeTurn_spec`): into the buffer, or past it to the drive, with the buffer kept equal to its
sector. It may have stretched the chain of the file before. So the loop stores what it is given, up
to the point where no cluster is free (`writeLoop_spec`).
-/

namespace RvvmHal.Fatfs

open Nvme

/-! ## The next cluster -/

section

variable {σ ι κ : Type*} {D : Drive σ} {V : Vol} {i : ι} {f f' : FatFs σ}
  {files : ι ⊕ κ → List ℕ}

/-- Every cluster of the volume is in a chain. -/
def AllUsed (V : Vol) (files : ι ⊕ κ → List ℕ) : Prop := ∀ c, V.IsCluster c → ∃ j, c ∈ files j

/-- **What a call of `create_chain` behind the first `k` clusters of a file has done**, when it returns
`v` and reports no error: there is no free cluster, or `v` is the next cluster. -/
inductive Next (D : Drive σ) (V : Vol) (i : ι) (k : ℕ) (f : FatFs σ) (files : ι ⊕ κ → List ℕ)
    (f' : FatFs σ) : ℕ → Prop
  | full (went : Went D V i f files f' files) (used : AllUsed V files)
    (last : (files (.inl i)).length = k) : Next D V i k f files f' 0
  | found {v : ℕ} {files' : ι ⊕ κ → List ℕ} (went : Went D V i f files f' files')
    (next : (files' (.inl i))[k]? = some v) : Next D V i k f files f' v

/-- **Stretching a chain.** -/
theorem Mounted.stretch [DecidableEq ι] [DecidableEq κ] (hm : Mounted D V f files) (i : ι) :
    ∃ f' v, createChain D V f ((files (.inl i)).getLast?.getD 0) = some (f', v) ∧
      (v ≠ 1 → v ≠ diskError → Next D V i (files (.inl i)).length f files f' v ∧
        ∀ x, ¬ V.InFat x → D.disk f'.io x = D.disk f.io x) := by
  obtain ⟨f', v, hcreate, hmade⟩ := hm.exact.createChain (.inl i)
  have hcreate' : createChain D V f ((files (.inl i)).getLast?.getD 0) = some (f', v) := hcreate
  have hs := steps_createChain .refl hcreate'
  have hframe := (hs.disk hm.dirty).2
  refine ⟨f', v, hcreate', fun h₁ hd => ⟨?_, hframe⟩⟩
  rcases hmade.value with rfl | hv | hv | hv
  · -- no cluster is free
    obtain ⟨hT, hfull⟩ := hmade.full rfl
    obtain ⟨hcount, hused⟩ := hfull hm.exact.count
    have hexact := hm.exact.of_table hmade.wrote.coherent hT hcount
    exact .full ⟨hm.of_steps hs hexact fun _ => rfl, fun _ _ => rfl, List.prefix_rfl,
      fun x hx _ => hframe x hx⟩ (fun c hc => hm.exact.no_lost c hc (hused c hc)) rfl
  · exact absurd hv h₁
  · exact absurd hv hd
  · obtain ⟨hfree, hT, hcount⟩ := hmade.made hv
    have hexact := hm.exact.stretch (hm.exact.toSound.stretch hmade.wrote.coherent hv hfree hT) hT
      (hcount hm.exact.count)
    have hself : Function.update files (.inl i) (files (.inl i) ++ [v]) (.inl i) =
        files (.inl i) ++ [v] := Function.update_self ..
    have hwent : Went D V i f files f'
        (Function.update files (.inl i) (files (.inl i) ++ [v])) := by
      refine ⟨hm.of_steps hs hexact fun k => Function.update_of_ne Sum.inr_ne_inl _ _,
        fun j hj => Function.update_of_ne hj _ _, ?_, fun x hx _ => hframe x hx⟩
      rw [hself]
      exact List.prefix_append ..
    refine .found hwent ?_
    · rw [hself, List.getElem?_concat_length]

/-- **Following a chain**, which is stretched at its end. -/
theorem Mounted.next [DecidableEq ι] [DecidableEq κ] (hm : Mounted D V f files) {k a : ℕ}
    (ha : (files (.inl i))[k]? = some a) :
    ∃ f' v, createChain D V f a = some (f', v) ∧
      (v ≠ 1 → v ≠ diskError → Next D V i (k + 1) f files f' v ∧
        ∀ x, ¬ V.InFat x → D.disk f'.io x = D.disk f.io x) := by
  obtain ⟨hk, hak⟩ := List.getElem?_eq_some_iff.1 ha
  have hcl := hm.cluster (.inl i)
  rcases Nat.lt_or_ge (k + 1) (files (.inl i)).length with hlt | hge
  · -- the next cluster is there
    have hlinked : LinkTable.Linked (V.table (f.view D)) (V.nFatent ≤ ·) (files (.inl i)) :=
      hm.exact.owned.linked (.inl i)
    have hlink := hlinked.getElem hlt
    have hnext := hcl _ (List.getElem_mem hlt)
    rw [hak] at hlink
    rw [← hlink] at hnext
    obtain ⟨f', v, hcreate, hkept, hv⟩ := createChain_next (D := D) hm.exact.coherent
      (hcl a (List.mem_of_getElem? ha)) hnext
    have hs := steps_createChain .refl hcreate
    have hframe := (hs.disk hm.dirty).2
    have hexact := hm.exact.of_table hkept.coherent hkept.table_eq (hkept.countOk hm.exact.count)
    have hwent : Went D V i f files f' files := ⟨hm.of_steps hs hexact fun _ => rfl,
      fun _ _ => rfl, List.prefix_rfl, fun x hx _ => hframe x hx⟩
    refine ⟨f', v, hcreate, fun h₁ hd => ⟨.found hwent ?_, hframe⟩⟩
    rw [(hv.resolve_left h₁).resolve_left hd, hlink]
    exact List.getElem?_eq_getElem hlt
  · -- it is the last
    have hlast : (files (.inl i)).getLast?.getD 0 = a := by
      rw [List.getLast?_eq_getElem?, show (files (.inl i)).length - 1 = k by omega, ha,
        Option.getD_some]
    have hlen : (files (.inl i)).length = k + 1 := by omega
    have hstretch := hm.stretch i
    rwa [hlast, hlen] at hstretch

variable {bs : List (Option UInt8)} {fp fp' : Fil}

/-- The file when its chain is longer. -/
theorem FilData.went {d' : Disk} {files' : ι ⊕ κ → List ℕ}
    (h : FilData V (D.disk f.io) (files (.inl i)) bs fp) (hw : Went D V i f files f' files')
    (hd : ∀ x, ¬ V.InFat x → d' x = D.disk f.io x) (hnil : files (.inl i) = [] →
      fp'.sclust = (files' (.inl i)).headD 0) (hold : files (.inl i) ≠ [] → fp'.sclust = fp.sclust)
    (h₂ : fp'.objsize = fp.objsize) (h₃ : fp'.dirty = fp.dirty) (h₄ : fp'.sect = fp.sect)
    (h₅ : fp'.buf = fp.buf) : FilData V d' (files' (.inl i)) bs fp' := by
  have hcl := hw.mounted.cluster (.inl i)
  have hnd := hw.mounted.exact.owned.nodup (.inl i)
  obtain ⟨m, hm⟩ := hw.grow
  by_cases hl : files (.inl i) = []
  · -- nothing is in a file without clusters
    have hc : bs = [] := by
      have hfits := h.fits
      rw [hl, List.length_nil, Nat.mul_zero] at hfits
      exact List.length_eq_zero_iff.1 (Nat.le_zero.1 hfits)
    have hclean : fp.dirty ≠ true := fun hd => by
      obtain ⟨a, ha, -⟩ := h.dirty hd
      rw [hl] at ha
      exact absurd ha List.not_mem_nil
    subst hc
    refine ⟨hcl, hnd, hnil hl, h₂.trans h.size, Nat.zero_le _, by decide, fun hd => ?_, nofun, nofun⟩
    exact absurd (h₃.symm.trans hd) hclean
  · have hcl' := hcl
    have hnd' : (files' (.inl i)).Nodup := hnd
    rw [← hm] at hcl' hnd'
    have hext := (h.of_fat hd).extend (m := m) hl hcl' hnd'
    rw [hm] at hext
    exact hext.congr_fil fp' (hold hl) h₂ h₃ h₄ h₅

/-- How the choice of a cluster by `f_write` has ended, if it reports no error. -/
inductive Chosen (D : Drive σ) (V : Vol) (i : ι) (f : FatFs σ) (files : ι ⊕ κ → List ℕ)
    (bs : List (Option UInt8)) (fp : Fil) (f' : FatFs σ) : Except (Option FResult) Fil → Prop
  | full (went : Went D V i f files f' files) (used : AllUsed V files)
    (last : (files (.inl i)).length = fp.fptr / V.bcs)
    (data : FilData V (D.disk f'.io) (files (.inl i)) bs fp) :
    Chosen D V i f files bs fp f' (.error none)
  | failed (e : FResult) (he : e ≠ .ok) : Chosen D V i f files bs fp f' (.error (some e))
  | chosen (a s : ℕ) {files' : ι ⊕ κ → List ℕ} (went : Went D V i f files f' files')
    (next : (files' (.inl i))[fp.fptr / V.bcs]? = some a)
    (data : FilData V (D.disk f'.io) (files' (.inl i)) bs { fp with clust := a, sclust := s }) :
    Chosen D V i f files bs fp f' (.ok { fp with clust := a, sclust := s })

/-- **The cluster of a write.** -/
theorem writeClust_spec [DecidableEq ι] [DecidableEq κ] (hm : Mounted D V f files)
    (h : FilOk V (D.disk f.io) (files (.inl i)) bs fp) (hp : fp.fptr % lbaSize = 0) :
    ∃ f' r, writeClust D V f fp = some (f', r) ∧ Chosen D V i f files bs fp f' r := by
  have hmod := Vol.mod_bcs (V := V) hp
  have hsclust : fp.sclust = 0 ↔ files (.inl i) = [] := by
    rw [h.sclust]
    cases hl : files (.inl i) with
    | nil => simp
    | cons a l =>
      have ha := (hm.cluster (.inl i) a (by rw [hl]; exact List.mem_cons_self)).1
      simp only [List.headD_cons, reduceCtorEq, iff_false]
      omega
  rw [writeClust]
  by_cases hcs : csect V fp.fptr ≠ 0
  · rw [if_pos hcs]
    refine ⟨f, _, rfl, .chosen fp.clust fp.sclust (.refl hm) (h.located ?_) h.toFilData⟩
    rw [hmod]
    exact Nat.mul_ne_zero (by decide) hcs
  rw [if_neg hcs]
  rw [not_not.1 hcs, Nat.mul_zero] at hmod
  -- what a call of `create_chain` gives
  have hcreate : ∀ f' v, (v ≠ 1 → v ≠ diskError → Next D V i (fp.fptr / V.bcs) f files f' v ∧
      ∀ x, ¬ V.InFat x → D.disk f'.io x = D.disk f.io x) →
        Chosen D V i f files bs fp f' (if v = 0 then .error none
          else if v = 1 then .error (some .intErr)
          else if v = diskError then .error (some .diskErr)
          else .ok (if fp.sclust = 0 then fp.atStart v else fp.atClust v)) := by
    intro f' v hv
    by_cases h₁ : v = 1
    · rw [if_neg (by omega), if_pos h₁]
      exact .failed _ (by decide)
    by_cases hd : v = diskError
    · rw [if_neg (by rw [hd]; decide), if_neg h₁, if_pos hd]
      exact .failed _ (by decide)
    obtain ⟨hnext, hframe⟩ := hv h₁ hd
    cases hnext with
    | full went used last =>
      rw [if_pos rfl]
      exact .full went used last (h.toFilData.of_fat hframe)
    | @found _ files' went next =>
      have hcl := (went.mounted.cluster (.inl i) v (List.mem_of_getElem? next)).1
      rw [if_neg (by omega), if_neg h₁, if_neg hd]
      by_cases hs : fp.sclust = 0
      · -- the file has had no cluster
        rw [if_pos hs]
        have hnil := hsclust.1 hs
        have hfptr : fp.fptr = 0 := by
          have hle := h.fptr_le.trans h.fits
          rwa [hnil, List.length_nil, Nat.mul_zero, Nat.le_zero] at hle
        refine .chosen v v went next (h.toFilData.went went hframe (fun _ => ?_)
          (fun hne => absurd hnil hne) rfl rfl rfl rfl)
        rw [hfptr, Nat.zero_div] at next
        rw [List.headD_eq_head?_getD, List.head?_eq_getElem?, next, Option.getD_some]
      · rw [if_neg hs]
        exact .chosen v fp.sclust went next (h.toFilData.went went hframe
          (fun hnil => absurd (hsclust.2 hnil) hs) (fun _ => rfl) rfl rfl rfl rfl)
  by_cases h₀ : fp.fptr = 0
  · rw [if_pos h₀]
    by_cases hs : fp.sclust = 0
    · -- the first cluster of the file
      rw [if_pos hs]
      obtain ⟨f', v, hnew, hv⟩ := hm.stretch i
      rw [hsclust.1 hs] at hnew hv
      rw [List.getLast?_nil, Option.getD_none] at hnew
      rw [hnew]
      refine ⟨f', _, rfl, hcreate f' v ?_⟩
      rw [h₀, Nat.zero_div]
      exact hv
    · rw [if_neg hs]
      have hne := fun hnil => hs (hsclust.2 hnil)
      obtain ⟨a, l, hl⟩ := List.exists_cons_of_ne_nil hne
      have hhead : fp.sclust = a := by
        rw [h.sclust, hl]
        rfl
      refine ⟨f, _, rfl, hcreate f _ fun _ _ => ⟨.found (.refl hm) ?_, fun _ _ => rfl⟩⟩
      rw [h₀, Nat.zero_div, hhead, hl]
      rfl
  · rw [if_neg h₀]
    have hclust := h.clust (Nat.pos_of_ne_zero h₀)
    obtain ⟨f', v, hnext, hv⟩ := hm.next hclust
    rw [Vol.pred_div_bcs hmod h₀] at hv
    rw [hnext]
    exact ⟨f', _, rfl, hcreate f' v hv⟩

end

/-! ## Storing bytes -/

section

variable {V : Vol} {d d' : Disk} {l : List ℕ} {bs : List (Option UInt8)} {fp fp' : Fil} {p : ℕ}
  {data : List UInt8}

/-- The file with bytes stored from place `p` on. -/
def stored (bs : List (Option UInt8)) (p : ℕ) (data : List UInt8) : List (Option UInt8) :=
  splice bs p (data.map some)

theorem length_stored (data : List UInt8) (hp : p ≤ bs.length) :
    (stored bs p data).length = max bs.length (p + data.length) := by
  rw [stored, length_splice _ hp, List.length_map]

/-- **What storing is**: the new bytes are in their places, and so are the old ones beside them. -/
theorem FilData.store (h : FilData V d l bs fp) (data : List UInt8) (hp : p ≤ bs.length)
    (hfits : p + data.length ≤ V.bcs * l.length) (hlt : p + data.length < 2 ^ 32)
    (hsclust : fp'.sclust = fp.sclust) (hsize : fp'.objsize = max bs.length (p + data.length))
    (hdirty : fp'.dirty = true → V.InChain l fp'.sect)
    (hnew : ∀ k b, data[k]? = some b →
      (V.sectAt l ((p + k) / lbaSize) = fp'.sect → fp'.buf (sectorOff (p + k)) = b) ∧
      ((fp'.dirty = true → V.sectAt l ((p + k) / lbaSize) ≠ fp'.sect) →
        d' (V.sectAt l ((p + k) / lbaSize)) (sectorOff (p + k)) = b))
    (hold : ∀ q b, bs[q]? = some (some b) → q < p ∨ p + data.length ≤ q →
      (V.sectAt l (q / lbaSize) = fp'.sect → fp'.buf (sectorOff q) = b) ∧
      ((fp'.dirty = true → V.sectAt l (q / lbaSize) ≠ fp'.sect) →
        d' (V.sectAt l (q / lbaSize)) (sectorOff q) = b)) :
    FilData V d' l (stored bs p data) fp' := by
  have hfit := h.fits
  have hsize_lt := h.size_lt
  have hlen := length_stored data hp
  -- a byte is old or new
  have hbyte : ∀ q b, (stored bs p data)[q]? = some (some b) →
      (V.sectAt l (q / lbaSize) = fp'.sect → fp'.buf (sectorOff q) = b) ∧
      ((fp'.dirty = true → V.sectAt l (q / lbaSize) ≠ fp'.sect) →
        d' (V.sectAt l (q / lbaSize)) (sectorOff q) = b) := by
    intro q b hq
    rw [stored, getElem?_splice hp, List.length_map] at hq
    by_cases h₁ : q < p
    · rw [if_pos h₁] at hq
      exact hold q b hq (.inl h₁)
    rw [if_neg h₁] at hq
    by_cases h₂ : q < p + data.length
    · rw [if_pos h₂, List.getElem?_map] at hq
      obtain ⟨b', hb', hbb⟩ := Option.map_eq_some_iff.1 hq
      obtain rfl := Option.some.inj hbb
      have hk := hnew (q - p) b' hb'
      rwa [show p + (q - p) = q by omega] at hk
    · rw [if_neg h₂] at hq
      exact hold q b hq (.inr (by omega))
  exact ⟨h.cluster, h.nodup, hsclust.trans h.sclust, by rw [hsize, hlen], by omega, by omega, hdirty,
    fun q b hq => (hbyte q b hq).1, fun q b hq => (hbyte q b hq).2⟩

/-- A buffer for a sector of which nothing has been promised. -/
theorem FilData.atSect (h : FilData V d l bs fp) (hd : fp.dirty = false) {sect : ℕ}
    (hs : fp.sect = sect ∨ ∀ q b, bs[q]? = some (some b) → V.sectAt l (q / lbaSize) ≠ sect) :
    FilData V d l bs (fp.atSect sect) := by
  rcases hs with hs | hs
  · exact h.congr_fil _ rfl rfl rfl hs.symm rfl
  have hclean : ∀ {q : Prop}, fp.dirty = true → q := fun ht => by
    rw [hd] at ht
    exact absurd ht Bool.false_ne_true
  exact ⟨h.cluster, h.nodup, h.sclust, h.size, h.fits, h.size_lt, hclean,
    fun q b hq he => absurd he (hs q b hq), fun q b hq _ => h.disk q b hq hclean⟩

/-- A byte of a sector that has been replaced in part. -/
theorem poke_apply (b : Sector) (off : ℕ) (data : List UInt8) (o : Fin lbaSize) :
    poke b off data o = if off ≤ o ∧ o < off + data.length then data.getD (o - off) 0 else b o := by
  rw [poke]
  split
  · rename_i ho
    exact Bytes.writeBytes_of_mem _ _ _ ho.1 ho.2
  · rename_i ho
    rw [Bytes.writeBytes_of_not_mem _ _ _ (by omega), sectorMem]
    exact congrArg b (Fin.ext (Nat.mod_eq_of_lt o.isLt))

/-- The places of a sector of the chain. -/
theorem Vol.places {a : ℕ} (hloc : l[p / V.bcs]? = some a) {n : ℕ}
    (hin : p % V.bcs + n ≤ V.bcs) : p / lbaSize < V.csize * l.length ∧ p + n ≤ V.bcs * l.length := by
  have hlt : p / V.bcs < l.length := (List.getElem?_eq_some_iff.1 hloc).1
  have hmod := Nat.div_add_mod p V.bcs
  have hmul := Nat.mul_le_mul_left V.bcs (Nat.succ_le_of_lt hlt)
  rw [Nat.mul_succ] at hmul
  refine ⟨Vol.div_lt_of_lt ?_, by omega⟩
  have := Nat.mod_lt p (Vol.bcs_pos (V := V))
  omega

/-- **Bytes in the buffer.** -/
theorem FilData.writePartial (h : FilData V d l bs fp) {a : ℕ} (hloc : l[fp.fptr / V.bcs]? = some a)
    (hs : fp.sect = V.sectAt l (fp.fptr / lbaSize)) (hp : fp.fptr ≤ bs.length)
    (hlt : fp.fptr + data.length < 2 ^ 32) :
    FilData V d l (stored bs fp.fptr (data.take (partialLen fp data.length)))
      ((writePartial fp data).moved (partialLen fp data.length)).grown := by
  obtain ⟨n, hn⟩ : ∃ n, partialLen fp data.length = n := ⟨_, rfl⟩
  have hn₁ : n ≤ lbaSize - fp.fptr % lbaSize ∧ n ≤ data.length := by
    rw [← hn, partialLen]
    omega
  have hlen : (data.take n).length = n := by
    rw [List.length_take]
    omega
  have hin : fp.fptr % V.bcs + n ≤ V.bcs := by
    rw [Vol.bcs, Nat.mul_comm, Nat.mod_mul]
    have hmul := Nat.mul_le_mul_left lbaSize
      (Nat.succ_le_of_lt (Nat.mod_lt (fp.fptr / lbaSize) V.csize_pos))
    have hmod := Nat.mod_lt fp.fptr (show 0 < lbaSize by decide)
    rw [Nat.mul_succ] at hmul
    omega
  obtain ⟨hsect, hfits⟩ := Vol.places hloc hin
  rw [Fatfs.writePartial, hn]
  refine h.store (data.take n) hp (by omega) (by omega) rfl ?_
    (fun _ => hs ▸ Vol.inChain_sectAt hsect) (fun k b hk => ?_) fun q b hq hout =>
    ⟨fun he => ?_, fun hne => h.disk q b hq fun _ => hne rfl⟩
  · rw [hlen, ← h.size]
    exact max_comm ..
  · -- a new byte is in the sector of the buffer
    obtain ⟨hkn, hkb⟩ := List.getElem?_eq_some_iff.1 hk
    rw [hlen] at hkn
    have hdiv : (fp.fptr + k) / lbaSize = fp.fptr / lbaSize := by
      simp only [lbaSize] at *
      omega
    have hoff : ((sectorOff (fp.fptr + k) : Fin lbaSize) : ℕ) = fp.fptr % lbaSize + k := by
      simp only [sectorOff, lbaSize] at *
      omega
    refine ⟨fun _ => ?_, fun hne => absurd (by rw [hdiv]; exact hs.symm) (hne rfl)⟩
    refine (poke_apply ..).trans ?_
    rw [hoff, if_pos (by omega), show fp.fptr % lbaSize + k - fp.fptr % lbaSize = k by omega,
      List.getD_eq_getElem?_getD, hk, Option.getD_some]
  · -- an old one in that sector is beside them
    have hdiv : q / lbaSize = fp.fptr / lbaSize :=
      Vol.sectAt_inj h.cluster h.nodup (h.lt_of_getElem? hq) hsect (he.trans hs)
    refine (poke_apply ..).trans ?_
    rw [if_neg ?_]
    · exact h.buf q b hq he
    · simp only [sectorOff, lbaSize, hlen] at *
      omega

/-- **Whole sectors**, past the buffer. -/
theorem FilData.writeDirect (h : FilData V d l bs fp) (hd : fp.dirty = false) {a cc : ℕ}
    (hloc : l[fp.fptr / V.bcs]? = some a) (hp : fp.fptr % lbaSize = 0) (hpc : fp.fptr ≤ bs.length)
    (hcc : 0 < cc) (hle : csect V fp.fptr + cc ≤ V.csize) (hdata : lbaSize * cc ≤ data.length)
    (hlt : fp.fptr + data.length < 2 ^ 32) :
    FilData V (storeSectors d (V.sectAt l (fp.fptr / lbaSize)) cc (data.take (lbaSize * cc))) l
      (stored bs fp.fptr (data.take (lbaSize * cc)))
      (((refill fp (V.sectAt l (fp.fptr / lbaSize)) cc data).moved (lbaSize * cc)).grown) := by
  have hlen : (data.take (lbaSize * cc)).length = lbaSize * cc := by
    rw [List.length_take]
    omega
  have hin : fp.fptr % V.bcs + lbaSize * cc ≤ V.bcs := by
    rw [Vol.mod_bcs hp, ← Nat.mul_add, Vol.bcs, Nat.mul_comm V.csize]
    exact Nat.mul_le_mul_left lbaSize hle
  obtain ⟨hsect, hfits⟩ := Vol.places hloc hin
  -- the sectors of the run
  have hrun : ∀ m, m < cc → fp.fptr / lbaSize + m < V.csize * l.length ∧
      V.sectAt l (fp.fptr / lbaSize + m) = V.sectAt l (fp.fptr / lbaSize) + m := by
    intro m hm
    rw [Vol.csect_eq] at hle
    refine ⟨?_, Vol.sectAt_add l (by omega)⟩
    rw [Vol.bcs_mul] at hfits
    simp only [lbaSize] at *
    omega
  have hlast : V.sectAt l (fp.fptr / lbaSize) + cc < 2 ^ 32 := by
    obtain ⟨hs, heq⟩ := hrun (cc - 1) (by omega)
    have hb := ((Vol.inChain_sectAt hs).bounds h.cluster).2.1
    omega
  -- an old byte is in another sector
  have hother : ∀ q o, bs[q]? = some o → q < fp.fptr ∨ fp.fptr + lbaSize * cc ≤ q → ∀ m, m < cc →
      V.sectAt l (q / lbaSize) ≠ V.sectAt l (fp.fptr / lbaSize) + m := by
    intro q o hq hout m hm he
    obtain ⟨hs, heq⟩ := hrun m hm
    have hdiv := Vol.sectAt_inj h.cluster h.nodup (h.lt_of_getElem? hq) hs (he.trans heq.symm)
    simp only [lbaSize] at *
    omega
  generalize hsec : V.sectAt l (fp.fptr / lbaSize) = sect at *
  have hrefill : refill fp sect cc data = { fp with
      buf := if (fp.sect + 2 ^ 32 - sect) % 2 ^ 32 < cc then
        sectorOf data ((fp.sect + 2 ^ 32 - sect) % 2 ^ 32) else fp.buf } := by
    rw [refill]
    split
    · rw [Fil.filled, Fil.flushed, ← hd]
    · rfl
  rw [hrefill]
  refine h.store (data.take (lbaSize * cc)) hpc (by omega) (by omega) rfl ?_
    (fun ht => absurd (hd.symm.trans ht) Bool.false_ne_true) (fun k b hk => ?_)
    fun q b hq hout => ?_
  · rw [hlen, ← h.size]
    exact max_comm ..
  · obtain ⟨hkn, hkb⟩ := List.getElem?_eq_some_iff.1 hk
    rw [hlen] at hkn
    have hk' : data[k]? = some b := by rwa [List.getElem?_take_of_lt hkn] at hk
    obtain ⟨m, hm⟩ : ∃ m, k / lbaSize = m := ⟨_, rfl⟩
    have hmc : m < cc := hm ▸ Nat.div_lt_of_lt_mul hkn
    have hdiv : (fp.fptr + k) / lbaSize = fp.fptr / lbaSize + m := by
      simp only [lbaSize] at *
      omega
    have hoff : lbaSize * m + ((sectorOff (fp.fptr + k) : Fin lbaSize) : ℕ) = k := by
      simp only [sectorOff, lbaSize] at *
      omega
    rw [hdiv, (hrun m hmc).2]
    refine ⟨fun he => ?_, fun _ => ?_⟩
    · have he' : sect + m = fp.sect := he
      change (if (fp.sect + 2 ^ 32 - sect) % 2 ^ 32 < cc then
        sectorOf data ((fp.sect + 2 ^ 32 - sect) % 2 ^ 32) else fp.buf) _ = b
      rw [show (fp.sect + 2 ^ 32 - sect) % 2 ^ 32 = m by omega, if_pos hmc, sectorOf, hoff,
        List.getD_eq_getElem?_getD, hk', Option.getD_some]
    · rw [storeSectors_apply _ _ hlast.le, if_pos ⟨Nat.le_add_right .., by omega⟩,
        Nat.add_sub_cancel_left, sectorOf, hoff, List.getD_eq_getElem?_getD, hk, Option.getD_some]
  · rw [hlen] at hout
    have hne := hother q _ hq hout
    have hlt' := ((Vol.inChain_sectAt (h.lt_of_getElem? hq)).bounds h.cluster).2.1
    refine ⟨fun he => ?_, fun _ => ?_⟩
    · have he' : V.sectAt l (q / lbaSize) = fp.sect := he
      change (if (fp.sect + 2 ^ 32 - sect) % 2 ^ 32 < cc then
        sectorOf data ((fp.sect + 2 ^ 32 - sect) % 2 ^ 32) else fp.buf) _ = b
      rw [if_neg]
      · exact h.buf q b hq he'
      · intro hk
        exact hne _ hk (by omega)
    · rw [storeSectors_apply _ _ hlast.le, if_neg]
      · exact h.disk q b hq fun ht => absurd (hd.symm.trans ht) Bool.false_ne_true
      · rintro ⟨h₁, h₂⟩
        exact hne (V.sectAt l (q / lbaSize) - sect) (by omega) (by omega)

/-- **What a turn has written**: `n` bytes of the request, at the pointer. -/
structure WriteDone (V : Vol) (d : Disk) (l : List ℕ) (bs : List (Option UInt8)) (fp fp' : Fil)
    (data : List UInt8) (n : ℕ) : Prop where
  fil : FilOk V d l (stored bs fp.fptr (data.take n)) (fp'.moved n).grown
  pos : 0 < n
  le : n ≤ data.length
  fptr : fp'.fptr = fp.fptr
  same : Fil.Same fp fp'

/-- The part of a request that fits the sector. -/
theorem partialLen_spec (V : Vol) (fp : Fil) {btw : ℕ} (hbtw : 0 < btw) :
    0 < partialLen fp btw ∧ partialLen fp btw ≤ btw ∧
      fp.fptr % V.bcs + partialLen fp btw ≤ V.bcs ∧
      ((fp.fptr + partialLen fp btw) % lbaSize ≠ 0 →
        (fp.fptr + partialLen fp btw) / lbaSize = fp.fptr / lbaSize) := by
  have hlt := Nat.mod_lt fp.fptr (show 0 < lbaSize by decide)
  rw [partialLen]
  refine ⟨by omega, by omega, ?_, fun hne => ?_⟩
  · rw [Vol.bcs, Nat.mul_comm, Nat.mod_mul]
    have hmul := Nat.mul_le_mul_left lbaSize
      (Nat.succ_le_of_lt (Nat.mod_lt (fp.fptr / lbaSize) V.csize_pos))
    rw [Nat.mul_succ] at hmul
    omega
  · simp only [lbaSize] at *
    omega

theorem writeDone_writePartial (h : FilData V d l bs fp) {a : ℕ}
    (hloc : l[fp.fptr / V.bcs]? = some a) (ha : fp.clust = a)
    (hs : fp.sect = V.sectAt l (fp.fptr / lbaSize)) (hp : fp.fptr ≤ bs.length)
    (hdata : 0 < data.length) (hlt : fp.fptr + data.length < 2 ^ 32) :
    WriteDone V d l bs fp (writePartial fp data) data (partialLen fp data.length) := by
  obtain ⟨hpos, hle, hin, hsect⟩ := partialLen_spec V fp hdata
  refine ⟨?_, hpos, hle, rfl, ⟨rfl, rfl, rfl, rfl, rfl⟩⟩
  refine (h.writePartial hloc hs hp hlt).filOk (p := fp.fptr) (n := partialLen fp data.length) ?_ rfl
    hpos hin ?_ fun hne => ?_
  · rw [hloc, ← ha]
    rfl
  · rw [length_stored _ hp, List.length_take]
    omega
  · rw [hsect hne]
    exact hs

end

section

variable {σ ι κ : Type*} {D : Drive σ} {V : Vol} {i : ι} {f f' : FatFs σ}
  {files : ι ⊕ κ → List ℕ} {bs : List (Option UInt8)} {fp fp' : Fil} {data : List UInt8} {n : ℕ}

/-- A turn from a sector boundary on. -/
theorem writeSects_spec (hm : Mounted D V f files)
    (h : FilData V (D.disk f.io) (files (.inl i)) bs fp) (hd : fp.dirty = false)
    (hp : fp.fptr % lbaSize = 0) (hloc : (files (.inl i))[fp.fptr / V.bcs]? = some fp.clust)
    (hpc : fp.fptr ≤ bs.length) (hdata : 0 < data.length) (hlt : fp.fptr + data.length < 2 ^ 32)
    (hok : (writeSects D V f fp (V.sectAt (files (.inl i)) (fp.fptr / lbaSize)) data).2.2 = .ok n) :
    let r := writeSects D V f fp (V.sectAt (files (.inl i)) (fp.fptr / lbaSize)) data
    Went D V i f files r.1 files ∧
      WriteDone V (D.disk r.1.io) (files (.inl i)) bs fp r.2.1 data n := by
  intro r
  have hlen : fp.fptr / V.bcs < (files (.inl i)).length := (List.getElem?_eq_some_iff.1 hloc).1
  obtain ⟨hplace, -⟩ := Vol.places (n := 0) hloc (Nat.mod_lt fp.fptr (Vol.bcs_pos (V := V))).le
  have hbound := ((Vol.inChain_sectAt hplace).bounds h.cluster).2.1
  revert hok
  rw [show r = writeSects D V f fp _ data from rfl, writeSects]
  dsimp only
  generalize hcc : (if V.csize < csect V fp.fptr + data.length / lbaSize then
    V.csize - csect V fp.fptr else data.length / lbaSize) = cc
  by_cases hdirect : 0 < data.length / lbaSize
  · -- past the buffer
    rw [if_pos hdirect]
    dsimp only
    have hcs := Vol.csect_lt (V := V) fp.fptr
    have hcc₁ : 0 < cc ∧ cc ≤ data.length / lbaSize ∧ csect V fp.fptr + cc ≤ V.csize := by
      rw [← hcc]
      split <;> omega
    obtain ⟨hcc₀, hcc₁, hcc₂⟩ := hcc₁
    have hdl : lbaSize * cc ≤ data.length :=
      (Nat.mul_le_mul_left lbaSize hcc₁).trans (Nat.mul_div_le data.length lbaSize)
    have htake : (data.take (lbaSize * cc)).length = lbaSize * cc := by
      rw [List.length_take]
      omega
    by_cases hw : (D.write f.io (data.take (lbaSize * cc))
        (V.sectAt (files (.inl i)) (fp.fptr / lbaSize)) cc).2 = true
    swap
    · rw [if_neg hw, if_neg hw]
      simp
    rw [if_pos hw, if_pos hw]
    intro hok
    obtain rfl := Except.ok.inj hok
    have hdisk := D.write_ok _ _ _ _ htake hw
    have hwrite := h.writeDirect hd hloc hp hpc hcc₀ hcc₂ hdl hlt
    have hin : fp.fptr % V.bcs + lbaSize * cc ≤ V.bcs := by
      rw [Vol.mod_bcs hp, ← Nat.mul_add, Vol.bcs, Nat.mul_comm V.csize]
      exact Nat.mul_le_mul_left lbaSize hcc₂
    rw [← hdisk] at hwrite
    refine ⟨hm.went_used fun x hx => ?_, ?_, Nat.mul_pos (by decide) hcc₀, hdl, ?_, ?_⟩
    · -- the sectors of the run are in the cluster
      rw [hdisk, storeSectors_apply _ _ ?_, if_neg]
      · rintro ⟨h₁, h₂⟩
        refine hx ⟨_, Vol.getD_mem hplace, ?_, ?_⟩
        · have := (Vol.inCluster_sectAt (V := V) (files (.inl i)) (fp.fptr / lbaSize)).1
          omega
        · rw [Vol.sectAt, ← Vol.csect_eq] at h₂
          omega
      · have hclb := (clst2sect_eq (V := V) (h.cluster _ (Vol.getD_mem hplace)).1
          (h.cluster _ (Vol.getD_mem hplace)).2).2
        have hend := V.end_lt
        rw [Vol.sectAt, ← Vol.csect_eq]
        omega
    · refine hwrite.filOk (p := fp.fptr) (n := lbaSize * cc) ?_ ?_ (Nat.mul_pos (by decide) hcc₀)
        hin ?_ fun hne => ?_
      · rw [hloc, refill]
        split <;> rfl
      · rw [refill]
        split <;> rfl
      · rw [length_stored _ hpc, htake]
        omega
      · rw [Nat.add_mul_mod_self_left] at hne
        exact absurd hp hne
    · rw [refill]
      split <;> rfl
    · rw [refill]
      split <;> exact ⟨rfl, rfl, rfl, rfl, rfl⟩
  rw [if_neg hdirect]
  by_cases hfill : fp.sect ≠ V.sectAt (files (.inl i)) (fp.fptr / lbaSize) ∧ fp.fptr < fp.objsize
  · -- the sector is read first
    rw [if_pos hfill]
    by_cases hload : (loadFil D f fp (V.sectAt (files (.inl i)) (fp.fptr / lbaSize))).2.2 = true
    swap
    · rw [if_neg hload]
      simp
    rw [if_pos hload]
    intro hok
    obtain rfl := Except.ok.inj hok
    obtain ⟨hwent, hfil, hdata'⟩ := loadFil_spec hm h hd (by omega) hload
    rw [hfil]
    have hdone := writeDone_writePartial hdata' hloc rfl rfl hpc hdata hlt
    exact ⟨hwent, hdone.fil, hdone.pos, hdone.le, rfl, ⟨rfl, rfl, rfl, rfl, rfl⟩⟩
  · -- nothing in the sector has been promised, or it is in the buffer
    rw [if_neg hfill]
    intro hok
    obtain rfl := Except.ok.inj hok
    have hfresh : FilData V (D.disk f.io) (files (.inl i)) bs
        (fp.atSect (V.sectAt (files (.inl i)) (fp.fptr / lbaSize))) := by
      refine h.atSect hd ?_
      by_cases hs : fp.sect = V.sectAt (files (.inl i)) (fp.fptr / lbaSize)
      · exact .inl hs
      refine .inr fun q b hq he => hfill ⟨hs, ?_⟩
      have hdiv := Vol.sectAt_inj h.cluster h.nodup (h.lt_of_getElem? hq) hplace he
      have hqc := (List.getElem?_eq_some_iff.1 hq).1
      rw [h.size]
      simp only [lbaSize] at *
      omega
    have hdone := writeDone_writePartial hfresh hloc rfl rfl hpc hdata hlt
    exact ⟨.refl hm, hdone.fil, hdone.pos, hdone.le, rfl, ⟨rfl, rfl, rfl, rfl, rfl⟩⟩

/-- A turn that fails reports an error. -/
theorem writeSects_error {sect : ℕ} {e : Option FResult}
    (he : (writeSects D V f fp sect data).2.2 = .error e) : ∃ e', e = some e' ∧ e' ≠ .ok := by
  grind [writeSects]

/-- **What a turn of the loop of `f_write` has done.** -/
inductive WriteTurned (D : Drive σ) (V : Vol) (i : ι) (f : FatFs σ) (files : ι ⊕ κ → List ℕ)
    (bs : List (Option UInt8)) (fp : Fil) (data : List UInt8) (f' : FatFs σ) (fp' : Fil) :
    Except (Option FResult) ℕ → Prop
  | full (went : Went D V i f files f' files) (used : AllUsed V files)
    (fil : FilOk V (D.disk f'.io) (files (.inl i)) bs fp') (fptr : fp'.fptr = fp.fptr)
    (same : Fil.Same fp fp') : WriteTurned D V i f files bs fp data f' fp' (.error none)
  | failed (e : FResult) (he : e ≠ .ok) : WriteTurned D V i f files bs fp data f' fp' (.error (some e))
  | wrote {n : ℕ} {files' : ι ⊕ κ → List ℕ} (went : Went D V i f files f' files')
    (done : WriteDone V (D.disk f'.io) (files' (.inl i)) bs fp fp' data n) :
    WriteTurned D V i f files bs fp data f' fp' (.ok n)

/-- **A turn** of the loop of `f_write`. -/
theorem writeTurn_spec [DecidableEq ι] [DecidableEq κ] (hm : Mounted D V f files)
    (h : FilOk V (D.disk f.io) (files (.inl i)) bs fp) (hdata : 0 < data.length)
    (hlt : fp.fptr + data.length < 2 ^ 32) :
    ∃ f' fp' r, writeTurn D V f fp data = some (f', fp', r) ∧
      WriteTurned D V i f files bs fp data f' fp' r := by
  rw [writeTurn]
  by_cases hp : fp.fptr % lbaSize ≠ 0
  · rw [if_pos hp]
    exact ⟨f, _, _, rfl, .wrote (.refl hm) (writeDone_writePartial h.toFilData
      (h.located (Vol.mod_bcs_ne hp)) rfl (h.sect hp) h.fptr_le hdata hlt)⟩
  rw [if_neg hp]
  obtain ⟨f₁, r, hclust, hchosen⟩ := writeClust_spec hm h (not_not.1 hp)
  rw [hclust, Option.map_some]
  cases hchosen with
  | full went used last data =>
    exact ⟨f₁, fp, _, rfl, .full went used ⟨data, h.fptr_le, h.clust, h.sect⟩ rfl (.refl fp)⟩
  | failed e he => exact ⟨f₁, fp, _, rfl, .failed e he⟩
  | @chosen a s files' went next fil =>
    dsimp only
    obtain ⟨fp₁, hfp₁⟩ : ∃ fp₁ : Fil, fp₁ = { fp with clust := a, sclust := s } := ⟨_, rfl⟩
    rw [← hfp₁] at fil ⊢
    have hsame : Fil.Same fp fp₁ := by
      rw [hfp₁]
      exact ⟨rfl, rfl, rfl, rfl, rfl⟩
    have hfptr : fp₁.fptr = fp.fptr := by rw [hfp₁]
    have hnext : (files' (.inl i))[fp₁.fptr / V.bcs]? = some fp₁.clust := by rwa [hfptr, hfp₁]
    by_cases hflush : (flushFil D f₁ fp₁).2.2 = true
    swap
    · rw [if_neg hflush]
      exact ⟨_, _, _, rfl, .failed _ (by decide)⟩
    rw [if_pos hflush]
    obtain ⟨hwent, hfil, hdata'⟩ := flushFil_spec went.mounted fil hflush
    rw [hfil]
    split
    · exact ⟨_, _, _, rfl, .failed _ (by decide)⟩
    rw [show clst2sect V fp₁.flushed.clust + csect V fp₁.flushed.fptr =
      V.sectAt (files' (.inl i)) (fp₁.flushed.fptr / lbaSize) from (Vol.sectAt_of_clust hnext).symm]
    have hflush₀ : fp₁.flushed.fptr = fp.fptr := hfptr
    obtain ⟨w, hw⟩ : ∃ w, writeSects D V (flushFil D f₁ fp₁).1 fp₁.flushed
        (V.sectAt (files' (.inl i)) (fp₁.flushed.fptr / lbaSize)) data = w := ⟨_, rfl⟩
    rw [hw]
    obtain ⟨f', fp', r⟩ := w
    cases r with
    | error e =>
      obtain ⟨e', rfl, he'⟩ := writeSects_error (congrArg (fun w => w.2.2) hw)
      exact ⟨f', fp', _, rfl, .failed e' he'⟩
    | ok n =>
      have hspec := writeSects_spec hwent.mounted hdata' rfl
        (by rw [hflush₀]; exact not_not.1 hp) hnext (by rw [hflush₀]; exact h.fptr_le) hdata
        (by rw [hflush₀]; exact hlt) (congrArg (fun w => w.2.2) hw)
      rw [hw] at hspec
      obtain ⟨hwent', hdone⟩ := hspec
      refine ⟨f', fp', _, rfl,
        .wrote ((went.trans hwent).trans hwent') ⟨?_, hdone.pos, hdone.le, ?_, ?_⟩⟩
      · have hfil' := hdone.fil
        rwa [hflush₀] at hfil'
      · exact hdone.fptr.trans hflush₀
      · have hsame' : Fil.Same fp fp₁.flushed := hsame.trans ⟨rfl, rfl, rfl, rfl, rfl⟩
        exact hsame'.trans hdone.same

/-- **The loop of `f_write`** stores what it is given, up to where no cluster is free, if it reports no
error. -/
theorem writeLoop_spec [DecidableEq ι] [DecidableEq κ] {fuel : ℕ} (hm : Mounted D V f files)
    (h : FilOk V (D.disk f.io) (files (.inl i)) bs fp) (hfuel : data.length ≤ fuel)
    (hlt : fp.fptr + data.length < 2 ^ 32) :
    ∃ f' fp' k res, writeLoop D V fuel f fp data = some (f', fp', k, res) ∧ (res = .ok →
      ∃ files', Went D V i f files f' files' ∧ k ≤ data.length ∧
        FilOk V (D.disk f'.io) (files' (.inl i)) (stored bs fp.fptr (data.take k)) fp' ∧
          fp'.fptr = fp.fptr + k ∧ Fil.Same fp fp' ∧ (k < data.length → AllUsed V files')) := by
  have hnone : FilOk V (D.disk f.io) (files (.inl i)) (stored bs fp.fptr (data.take 0)) fp := by
    rwa [List.take_zero, stored, List.map_nil, splice_nil]
  induction fuel generalizing f fp data files bs with
  | zero =>
    obtain rfl := List.length_eq_zero_iff.1 (Nat.le_zero.1 hfuel)
    exact ⟨f, fp, 0, .ok, rfl, fun _ => ⟨files, .refl hm, le_rfl, hnone, rfl, .refl fp, by simp⟩⟩
  | succ fuel ih =>
    rw [writeLoop]
    by_cases hdata : data = []
    · subst hdata
      exact ⟨f, fp, 0, .ok, if_pos rfl,
        fun _ => ⟨files, .refl hm, le_rfl, hnone, rfl, .refl fp, by simp⟩⟩
    rw [if_neg hdata]
    obtain ⟨f₁, fp₁, r, hturn, hturned⟩ := writeTurn_spec hm h
      (List.length_pos_iff.2 hdata) hlt
    rw [hturn, Option.bind_some]
    cases hturned with
    | full went used fil fptr same =>
      refine ⟨f₁, fp₁, 0, .ok, rfl, fun _ => ⟨files, went, Nat.zero_le _, ?_, fptr, same,
        fun _ => used⟩⟩
      rwa [List.take_zero, stored, List.map_nil, splice_nil]
    | failed e he => exact ⟨f₁, _, 0, e, rfl, fun hok => absurd hok he⟩
    | @wrote n files₁ went done =>
      have hfptr : ((fp₁.moved n).grown).fptr = fp.fptr + n := congrArg (· + n) done.fptr
      have hle := done.le
      have hnone' := done.fil
      have hdrop : (data.drop n).length = data.length - n := List.length_drop
      have hpos := done.pos
      obtain ⟨f', fp', k, res, hloop, hres⟩ := ih went.mounted done.fil
        (show (data.drop n).length ≤ fuel by omega) (by rw [hfptr]; omega)
        (by rwa [List.take_zero, stored, List.map_nil, splice_nil])
      refine ⟨f', fp', n + k, res, ?_, fun hok => ?_⟩
      · dsimp only
        rw [hloop]
        rfl
      obtain ⟨files', hwent, hk, hfil, hfptr', hsame, hfull⟩ := hres hok
      have htake : (data.take n).length = n := by
        rw [List.length_take]
        omega
      refine ⟨files', went.trans hwent, by omega, ?_, by omega, ?_, fun hlt => hfull (by omega)⟩
      · have hsplice := splice_splice ((data.take n).map some)
          (((data.drop n).take k).map some) h.fptr_le
        rw [List.length_map, htake, ← List.map_append, ← List.take_add] at hsplice
        rw [stored, ← hsplice]
        rwa [hfptr, stored, stored] at hfil
      · exact (done.same.trans (.grown _ n)).trans hsame

/-- **`f_write`** stores what it is given, up to 4 GiB and to where no cluster is free, if it reports no
error. -/
theorem fWrite_spec [DecidableEq ι] [DecidableEq κ] (hm : Mounted D V f files)
    (h : FilOk V (D.disk f.io) (files (.inl i)) bs fp) (hlen : data.length < 2 ^ 32) :
    ∃ f' fp' k res, fWrite D V f fp data = some (f', fp', k, res) ∧ (res = .ok →
      ∃ files', Went D V i f files f' files' ∧ k ≤ min data.length (0xFFFFFFFF - fp.fptr) ∧
        FilOk V (D.disk f'.io) (files' (.inl i)) (stored bs fp.fptr (data.take k)) fp' ∧
          fp'.fptr = fp.fptr + k ∧ Fil.Same fp fp' ∧ fp'.modified = true ∧ fp.err = .ok ∧
            fp.canWrite = true ∧
              (k < min data.length (0xFFFFFFFF - fp.fptr) → AllUsed V files')) := by
  rw [fWrite]
  by_cases herr : fp.err ≠ .ok
  · rw [if_pos herr]
    exact ⟨f, fp, 0, _, rfl, fun hok => absurd hok herr⟩
  rw [if_neg herr]
  by_cases hwrite : fp.canWrite = false
  · rw [if_pos hwrite]
    exact ⟨f, fp, 0, _, rfl, fun hok => by cases hok⟩
  rw [if_neg hwrite]
  have hsize := h.size_lt
  have hle := h.fptr_le
  -- the request is cut where the pointer would wrap
  have hdata : (if (fp.fptr + data.length) % 2 ^ 32 < fp.fptr % 2 ^ 32 then
      data.take (0xFFFFFFFF - fp.fptr % 2 ^ 32) else data) =
      data.take (min data.length (0xFFFFFFFF - fp.fptr)) := by
    rw [Nat.mod_eq_of_lt (show fp.fptr < 2 ^ 32 by omega)]
    split
    · rw [show min data.length (0xFFFFFFFF - fp.fptr) = 0xFFFFFFFF - fp.fptr by omega]
    · rw [show min data.length (0xFFFFFFFF - fp.fptr) = data.length by omega, List.take_length]
  dsimp only
  rw [hdata]
  generalize hn : min data.length (0xFFFFFFFF - fp.fptr) = n
  have htake : (data.take n).length = n := by
    rw [List.length_take]
    omega
  obtain ⟨f', fp', k, res, hloop, hres⟩ := writeLoop_spec hm h
    (le_refl (data.take n).length) (by omega)
  rw [hloop, Option.map_some]
  refine ⟨f', _, k, res, rfl, fun hok => ?_⟩
  obtain ⟨files', hwent, hk, hfil, hfptr, hsame, hfull⟩ := hres hok
  rw [htake] at hk hfull
  rw [List.take_take, Nat.min_eq_left hk] at hfil
  rw [if_pos hok]
  exact ⟨files', hwent, hk, ⟨hfil.toFilData.congr_fil _ rfl rfl rfl rfl rfl, hfil.fptr_le, hfil.clust,
    hfil.sect⟩, hfptr, hsame.trans ⟨rfl, rfl, rfl, rfl, rfl⟩, rfl, not_not.1 herr,
    Bool.eq_true_of_not_eq_false hwrite, hfull⟩

end

end RvvmHal.Fatfs
