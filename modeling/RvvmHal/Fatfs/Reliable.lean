import RvvmHal.Fatfs.Files

/-!
# Drives that do not fail

On a drive whose reads and writes succeed, no call on a volume whose allocation is exact reports an
error: the allocation finds a cluster or there is none, and a removal ends. So every state that a
run reaches is exact, and a file is given a cluster whenever one is free (`files_live`).
-/

namespace RvvmHal.Fatfs

open Nvme LinkTable

/-- The reads and the writes of sectors succeed. -/
structure Drive.Reliable {σ : Type*} (D : Drive σ) : Prop where
  read : ∀ s lba, (D.readSector s lba).2.2 = true
  write : ∀ s b lba, (D.writeSector s b lba).2 = true

section

variable {σ : Type*} {D : Drive σ} {V : Vol} {f f' : FatFs σ}

theorem Drive.Reliable.syncWindow (hD : D.Reliable) : (syncWindow D V f).2 = .ok := by
  rw [Fatfs.syncWindow]
  split
  · rw [if_pos (hD.write ..)]
    split <;> rfl
  · rfl

theorem Drive.Reliable.moveWindow (hD : D.Reliable) (sect : ℕ) :
    (moveWindow D V f sect).2 = .ok := by
  rw [Fatfs.moveWindow]
  split
  · rw [if_pos hD.syncWindow, if_pos (hD.read ..)]
  · rfl

/-- **`get_fat` returns the entry.** -/
theorem Drive.Reliable.getFat (hD : D.Reliable) (h : f.Coherent D V) {c : ℕ} (hc : V.IsCluster c) :
    (Fatfs.getFat D V f c).2 = V.table (f.view D) c := by
  obtain ⟨h₂, hlt⟩ := hc
  -- no entry has the value of an error
  have hne : (Fatfs.getFat D V f c).2 < 2 ^ 28 := by
    rw [Fatfs.getFat, if_neg (by omega)]
    cases V.fsType with
    | fat12 =>
      dsimp only
      rw [if_neg (not_not.2 (hD.moveWindow _)), if_neg (not_not.2 (hD.moveWindow _))]
      generalize (Fatfs.moveWindow D V f (V.fatbase + (c + c / 2) / lbaSize)).1 = g
      have hlow := (g.win (sectorOff (c + c / 2))).toNat_lt
      generalize (Fatfs.moveWindow D V g (V.fatbase + (c + c / 2 + 1) / lbaSize)).1 = g'
      have hhigh := (g'.win (sectorOff (c + c / 2 + 1))).toNat_lt
      rw [Word.or_shiftLeft hlow, Word.shiftRight_eq, show 0xFFF = 2 ^ 12 - 1 from rfl,
        Word.and_low_mask]
      dsimp only
      split <;> omega
    | fat16 =>
      dsimp only
      rw [if_neg (not_not.2 (hD.moveWindow _)), ldWord_eq]
      exact (Bytes.readLe_lt ..).trans (by decide)
    | fat32 =>
      dsimp only
      rw [if_neg (not_not.2 (hD.moveWindow _)), show 0x0FFFFFFF = 2 ^ 28 - 1 from rfl,
        Word.and_low_mask]
      exact Nat.mod_lt _ (by decide)
  have hget := (getFat_spec h c).2 (by omega)
  rwa [if_neg (by omega)] at hget

/-- **`put_fat` stores the entry.** -/
theorem Drive.Reliable.putFat (hD : D.Reliable) {c v : ℕ} (hc : V.IsCluster c) :
    (Fatfs.putFat D V f c v).2 = .ok := by
  rw [Fatfs.putFat, if_pos (show 2 ≤ c ∧ c < V.nFatent from hc)]
  cases V.fsType with
  | fat12 =>
    dsimp only
    rw [if_neg (not_not.2 (hD.moveWindow _)), if_neg (not_not.2 (hD.moveWindow _))]
  | fat16 =>
    dsimp only
    rw [if_neg (not_not.2 (hD.moveWindow _))]
  | fat32 =>
    dsimp only
    rw [if_neg (not_not.2 (hD.moveWindow _))]

/-! ## Allocation -/

/-- The search finds a cluster, or there is none. -/
theorem Drive.Reliable.findFree (hD : D.Reliable) {scl ncl fuel v : ℕ} (h : f.Coherent D V)
    (hone : ∀ c, V.IsCluster c → V.table (f.view D) c ≠ 1) (hncl : 1 ≤ ncl)
    (hfind : findFree D V scl fuel f ncl = some (f', .error v)) : v = 0 := by
  induction fuel generalizing f ncl with
  | zero => simp [Fatfs.findFree] at hfind
  | succ fuel ih =>
    have hcl := isCluster_nextCluster (V := V) hncl
    obtain ⟨hkept, -⟩ := getFat_spec (D := D) h (nextCluster V ncl)
    have hget := hD.getFat h hcl
    have hlt : V.table (f.view D) (nextCluster V ncl) < 2 ^ V.fsType.bits :=
      FatType.entry_lt ..
    have hbits : 2 ^ V.fsType.bits ≤ 2 ^ 28 :=
      Nat.pow_le_pow_right (by decide) (by cases V.fsType <;> decide)
    rw [Fatfs.findFree] at hfind
    dsimp only at hfind
    split at hfind
    · obtain ⟨-, hv⟩ := Prod.mk.inj (Option.some.inj hfind)
      exact (Except.error.inj hv).symm
    split at hfind
    · obtain ⟨-, hv⟩ := Prod.mk.inj (Option.some.inj hfind)
      simp at hv
    rw [if_neg (by have := hone _ hcl; simp only [diskError]; omega)] at hfind
    split at hfind
    · obtain ⟨-, hv⟩ := Prod.mk.inj (Option.some.inj hfind)
      exact (Except.error.inj hv).symm
    · refine ih hkept.coherent ?_ (by have := hcl.1; omega) hfind
      rwa [hkept.table_eq]

theorem Drive.Reliable.linkCluster (hD : D.Reliable) {clst ncl : ℕ} (hncl : V.IsCluster ncl)
    (hclst : clst ≠ 0 → V.IsCluster clst) : (linkCluster D V f clst ncl).2 = ncl := by
  have hsel : (if (Fatfs.putFat D V f ncl 0xFFFFFFFF).2 = .ok ∧ clst ≠ 0 then
      Fatfs.putFat D V (Fatfs.putFat D V f ncl 0xFFFFFFFF).1 clst ncl
      else Fatfs.putFat D V f ncl 0xFFFFFFFF).2 = .ok := by
    split
    · rename_i hc
      exact hD.putFat (hclst hc.2)
    · exact hD.putFat hncl
  rw [Fatfs.linkCluster, if_pos hsel]

theorem Drive.Reliable.findAndLink (hD : D.Reliable) {clst scl v : ℕ} (h : f.Coherent D V)
    (hone : ∀ c, V.IsCluster c → V.table (f.view D) c ≠ 1) (hscl : 1 ≤ scl)
    (hlt : scl < V.nFatent) (hclst : clst ≠ 0 → V.IsCluster clst)
    (hfind : findAndLink D V f clst scl = some (f', v)) : v = 0 ∨ V.IsCluster v := by
  obtain ⟨⟨g, r⟩, hfree, hr⟩ := Option.map_eq_some_iff.1 hfind
  cases r with
  | ok ncl =>
    have hmeet : toMeet V scl scl < V.nFatent := by
      rw [toMeet, if_neg (Nat.lt_irrefl _)]
      omega
    obtain ⟨f₁, r₁, hfree₁, -, hok, -⟩ := findFree_spec (D := D) h hlt hscl hlt hmeet
      fun c _ hm => by
        rw [Met, if_pos le_rfl] at hm
        omega
    obtain ⟨rfl, rfl⟩ := Prod.mk.inj (Option.some.inj (hfree₁.symm.trans hfree))
    obtain ⟨hncl, -⟩ := hok ncl rfl
    have hv := hD.linkCluster (f := f₁) hncl hclst
    rw [show Fatfs.linkCluster D V f₁ clst ncl = (f', v) from hr] at hv
    rw [show v = ncl from hv]
    exact .inr hncl
  | error e =>
    obtain ⟨-, rfl⟩ := Prod.mk.inj hr
    exact .inl (hD.findFree h hone hscl hfree)

theorem Drive.Reliable.newCluster (hD : D.Reliable) {clst scl v : ℕ} (h : f.Coherent D V)
    (hone : ∀ c, V.IsCluster c → V.table (f.view D) c ≠ 1) (hscl : 1 ≤ scl)
    (hlt : scl < V.nFatent) (hclst : clst ≠ 0 → V.IsCluster clst)
    (hnew : newCluster D V f clst scl = some (f', v)) : v = 0 ∨ V.IsCluster v := by
  have hcl := isCluster_nextCluster (V := V) hscl
  obtain ⟨hkept, -⟩ := getFat_spec (D := D) h (nextCluster V scl)
  have hget := hD.getFat h hcl
  have hsmall : V.table (f.view D) (nextCluster V scl) < 2 ^ V.fsType.bits := FatType.entry_lt ..
  have hbits : 2 ^ V.fsType.bits ≤ 2 ^ 28 :=
    Nat.pow_le_pow_right (by decide) (by cases V.fsType <;> decide)
  rw [Fatfs.newCluster] at hnew
  split at hnew
  · obtain ⟨-, rfl⟩ := Prod.mk.inj (Option.some.inj hnew)
    exact .inl rfl
  split at hnew
  swap
  · exact hD.findAndLink h hone hscl hlt hclst hnew
  dsimp only at hnew
  rw [if_neg (by have := hone _ hcl; simp only [diskError]; omega)] at hnew
  split at hnew
  · have hscl' : ∀ l : ℕ, 1 ≤ (if 2 ≤ l ∧ l < V.nFatent then l else scl) ∧
        (if 2 ≤ l ∧ l < V.nFatent then l else scl) < V.nFatent := fun l => by
      split <;> omega
    exact hD.findAndLink hkept.coherent (by rwa [hkept.table_eq]) (hscl' _).1 (hscl' _).2 hclst hnew
  · have hv := hD.linkCluster (f := (Fatfs.getFat D V f (nextCluster V scl)).1) hcl hclst
    rw [Option.some.inj hnew] at hv
    rw [show v = nextCluster V scl from hv]
    exact .inr hcl

/-- **`create_chain` reports no error**: it gives a cluster, or says that there is none. -/
theorem Drive.Reliable.createChain (hD : D.Reliable) {clst v : ℕ} (h : f.Coherent D V)
    (hone : ∀ c, V.IsCluster c → V.table (f.view D) c ≠ 1)
    (hclst : clst ≠ 0 → V.IsCluster clst ∧ V.nFatent ≤ V.table (f.view D) clst)
    (hcreate : createChain D V f clst = some (f', v)) : v = 0 ∨ V.IsCluster v := by
  have hn := V.nFatent_gt
  rw [Fatfs.createChain] at hcreate
  by_cases h₀ : clst = 0
  · rw [if_pos h₀] at hcreate
    have hscl : ∀ l : ℕ, 1 ≤ (if l = 0 ∨ V.nFatent ≤ l then 1 else l) ∧
        (if l = 0 ∨ V.nFatent ≤ l then 1 else l) < V.nFatent := fun l => by
      split <;> omega
    exact hD.newCluster h hone (hscl _).1 (hscl _).2 (fun hne => absurd h₀ hne) hcreate
  · obtain ⟨hcl, hlast⟩ := hclst h₀
    obtain ⟨hkept, -⟩ := getFat_spec (D := D) h clst
    have hget := hD.getFat h hcl
    have hsmall : V.table (f.view D) clst < 2 ^ V.fsType.bits := FatType.entry_lt ..
    have hbits : 2 ^ V.fsType.bits ≤ 2 ^ 28 :=
      Nat.pow_le_pow_right (by decide) (by cases V.fsType <;> decide)
    rw [if_neg h₀] at hcreate
    dsimp only at hcreate
    rw [if_neg (by omega), if_neg (by simp only [diskError]; omega), if_neg (by omega)] at hcreate
    exact hD.newCluster hkept.coherent (by rwa [hkept.table_eq]) (by have := hcl.1; omega) hcl.2
      (fun _ => hcl) hcreate

/-! ## Removal -/

/-- **`remove_chain` reports no error.** -/
theorem Drive.Reliable.freeClusters (hD : D.Reliable) {m : List ℕ} {c fuel : ℕ} {r : FResult}
    (h : f.Coherent D V)
    (hl : Linked (V.table (f.view D)) (V.nFatent ≤ ·) (c :: m)) (hnd : (c :: m).Nodup)
    (hcl : ∀ a ∈ c :: m, V.IsCluster a) (hfree : freeClusters D V fuel f c = some (f', r)) :
    r = .ok := by
  induction fuel generalizing f m c with
  | zero => simp [Fatfs.freeClusters] at hfree
  | succ fuel ih =>
    have hc := hcl c List.mem_cons_self
    obtain ⟨hkept, -⟩ := getFat_spec (D := D) h c
    have hget := hD.getFat h hc
    have hsmall : V.table (f.view D) c < 2 ^ V.fsType.bits := FatType.entry_lt ..
    have hbits : 2 ^ V.fsType.bits ≤ 2 ^ 28 :=
      Nat.pow_le_pow_right (by decide) (by cases V.fsType <;> decide)
    obtain ⟨ht, hput⟩ := putFat_spec (D := D) hkept.coherent c 0
    have hok := hD.putFat (f := (Fatfs.getFat D V f c).1) (v := 0) hc
    obtain ⟨-, -, hT⟩ := hput hok
    rw [Fatfs.freeClusters] at hfree
    dsimp only at hfree
    split at hfree
    · exact (Prod.mk.inj (Option.some.inj hfree)).2.symm
    have hn := V.nFatent_gt
    have hentry : V.table (f.view D) c ≠ 1 := by
      cases m with
      | nil =>
        have hend : V.nFatent ≤ V.table (f.view D) c := hl
        omega
      | cons c' m =>
        have hnext := hl.1
        have := (hcl c' (by simp)).1
        omega
    rw [if_neg (by omega), if_neg (by simp only [diskError]; omega), if_neg (not_not.2 hok)] at hfree
    split at hfree
    · rename_i hlt
      cases m with
      | nil =>
        have hend : V.nFatent ≤ V.table (f.view D) c := hl
        omega
      | cons c' m =>
        rw [hget, hl.1] at hfree
        refine ih (ht.wrote.gaveBack).coherent ?_ (List.nodup_cons.1 hnd).2
          (fun a ha => hcl a (List.mem_cons_of_mem c ha)) hfree
        refine hl.2.congr fun a ha => ?_
        rw [FatFs.view_gaveBack, hT, hkept.table_eq,
          Function.update_of_ne (ne_of_mem_of_not_mem ha (List.nodup_cons.1 hnd).1)]
    · exact (Prod.mk.inj (Option.some.inj hfree)).2.symm

theorem Drive.Reliable.removeChain (hD : D.Reliable) {m : List ℕ} {c pclst : ℕ} {r : FResult}
    (h : f.Coherent D V)
    (hl : Linked (V.table (f.view D)) (V.nFatent ≤ ·) (c :: m)) (hnd : (c :: m).Nodup)
    (hcl : ∀ a ∈ c :: m, V.IsCluster a)
    (hp : pclst ≠ 0 → V.IsCluster pclst ∧ pclst ∉ c :: m)
    (hremove : removeChain D V f c pclst = some (f', r)) : r = .ok := by
  have hc := hcl c List.mem_cons_self
  obtain ⟨h₂, hlt⟩ := hc
  rw [Fatfs.removeChain, if_neg (by omega)] at hremove
  by_cases h₀ : pclst ≠ 0
  · obtain ⟨hpc, hpm⟩ := hp h₀
    obtain ⟨ht, hput⟩ := putFat_spec (D := D) h pclst 0xFFFFFFFF
    have hok := hD.putFat (f := f) (v := 0xFFFFFFFF) hpc
    obtain ⟨-, -, hT⟩ := hput hok
    rw [if_pos h₀] at hremove
    dsimp only at hremove
    rw [if_neg (not_not.2 hok)] at hremove
    refine hD.freeClusters ht.coherent (hl.congr fun a ha => ?_) hnd hcl hremove
    rw [hT, Function.update_of_ne (ne_of_mem_of_not_mem ha hpm)]
  · rw [if_neg h₀] at hremove
    exact hD.freeClusters h hl hnd hcl hremove

end

/-! ## The calls -/

section

variable {σ ι : Type*} {D : Drive σ} {V : Vol} {s s₀ : FileSys σ ι}

/-- No entry of an exact allocation has the value of an error. -/
theorem Exact.entry_ne_one (h : Exact D V s) {c : ℕ} (hc : V.IsCluster c) :
    V.table (s.fs.view D) c ≠ 1 := by
  intro hone
  have hn := V.nFatent_gt
  obtain ⟨i, hi⟩ := h.no_lost c hc (by omega)
  rcases (h.owned.linked i).entry hi with hmem | hend
  · have := (h.cluster i _ hmem).1
    omega
  · omega

/-- **A call reports no error.** -/
theorem Exact.succeeds [DecidableEq ι] (hD : D.Reliable) (h : Exact D V s) {a : Call ι}
    {r : FileSys σ ι × Bool} (hc : s.call D V a = some r) : r.2 = true := by
  cases a with
  | stretch i =>
    obtain ⟨⟨f', v⟩, hcreate, rfl⟩ := Option.map_eq_some_iff.1 hc
    have hlt := V.nFatent_lt_diskError
    refine decide_eq_true ?_
    rcases hD.createChain h.coherent (fun c => h.entry_ne_one) (h.last_getD i) hcreate with
      rfl | ⟨h₂, hlt'⟩
    · exact ⟨Nat.zero_ne_one, (show 0 ≠ diskError by decide)⟩
    · constructor <;> omega
  | cut i n =>
    rw [FileSys.call] at hc
    cases hd : (s.files i).drop n with
    | nil =>
      rw [hd] at hc
      exact (congrArg Prod.snd (Option.some.inj hc)).symm
    | cons c m =>
      rw [hd] at hc
      obtain ⟨⟨f', r⟩, hremove, rfl⟩ := Option.map_eq_some_iff.1 hc
      refine decide_eq_true ?_
      have hi : s.files i = (s.files i).take n ++ c :: m := by
        rw [← hd, List.take_append_drop]
      have hl := h.owned.linked i
      have hn := h.owned.nodup i
      rw [hi] at hl hn
      refine hD.removeChain h.coherent (linked_append.1 hl).2 (List.nodup_append.1 hn).2.1
        (fun a ha => h.cluster i a (hi ▸ List.mem_append_right _ ha)) (fun h₀ => ?_) hremove
      cases hlast : ((s.files i).take n).getLast? with
      | none =>
        rw [hlast] at h₀
        exact absurd rfl h₀
      | some a =>
        have ha : a ∈ (s.files i).take n := List.mem_of_getLast? hlast
        rw [Option.getD_some]
        exact ⟨h.cluster i a (List.mem_of_mem_take ha), fun hm =>
          (List.nodup_append.1 hn).2.2 a ha a hm rfl⟩
  | move sect =>
    rw [FileSys.call] at hc
    split at hc
    · obtain rfl := Option.some.inj hc
      exact decide_eq_true (hD.moveWindow _)
    · simp at hc
  | store off l =>
    rw [FileSys.call] at hc
    split at hc
    · simp at hc
    · exact (congrArg Prod.snd (Option.some.inj hc)).symm
  | sync =>
    obtain rfl := Option.some.inj hc
    exact decide_eq_true hD.syncWindow

theorem Exact.reachable [DecidableEq ι] (hD : D.Reliable) (h₀ : Exact D V s₀)
    (hs : (fileCalls D V s₀).Reachable s) : Exact D V s := by
  refine hs.invariant h₀ fun {t t' a} ht _ hstep => ?_
  obtain ⟨⟨t'', ok⟩, hcall, rfl⟩ := Option.map_eq_some_iff.1 hstep
  obtain rfl : ok = true := ht.succeeds hD hcall
  exact ht.call hcall

/-- **On a drive that does not fail**, every call of a run reports no error, the allocation is exact
in every state that is reached, and a file is given a cluster, of no file before, exactly if there
is one. -/
theorem files_live [DecidableEq ι] (hD : D.Reliable) (h₀ : Exact D V s₀)
    (hs : (fileCalls D V s₀).Reachable s) :
    Exact D V s ∧ (∀ a r, s.call D V a = some r → r.2 = true) ∧
      ∀ i, ∃ f' v, createChain D V s.fs ((s.files i).getLast?.getD 0) = some (f', v) ∧
        (v = 0 ∧ (∀ c, V.IsCluster c → ∃ j, c ∈ s.files j) ∨
          V.IsCluster v ∧ ∀ j, v ∉ s.files j) := by
  have hexact := h₀.reachable hD hs
  refine ⟨hexact, fun a r => hexact.succeeds hD, fun i => ?_⟩
  obtain ⟨f', v, hcreate, hmade⟩ := hexact.createChain i
  refine ⟨f', v, hcreate, ?_⟩
  rcases hD.createChain hexact.coherent (fun c => hexact.entry_ne_one) (hexact.last_getD i)
    hcreate with hv | hv
  · exact .inl ⟨hv, fun c hc =>
      hexact.no_lost c hc (((hmade.full hv).2 hexact.count).2 c hc)⟩
  · exact .inr ⟨hv, fun j hj => hexact.used hj (hmade.made hv).1⟩

end

theorem reliable_ramDrive : ramDrive.Reliable := ⟨fun _ _ => rfl, fun _ _ _ => rfl⟩

set_option maxRecDepth 10000 in
theorem files_live_emptyFiles : ∃ s,
    (fileCalls ramDrive (smallVol .fat16) emptyFiles).run
        [.stretch true, .stretch false, .stretch true, .cut true 1] emptyFiles = some s ∧
      Exact ramDrive (smallVol .fat16) s ∧
      (∀ a r, s.call ramDrive (smallVol .fat16) a = some r → r.2 = true) ∧
      ∀ i, ∃ f' v,
        createChain ramDrive (smallVol .fat16) s.fs ((s.files i).getLast?.getD 0) = some (f', v) ∧
          (v = 0 ∧ (∀ c, (smallVol .fat16).IsCluster c → ∃ j, c ∈ s.files j) ∨
            (smallVol .fat16).IsCluster v ∧ ∀ j, v ∉ s.files j) := by
  have hsome : ((fileCalls ramDrive (smallVol .fat16) emptyFiles).run
      [.stretch true, .stretch false, .stretch true, .cut true 1] emptyFiles).isSome := by decide
  obtain ⟨s, hs⟩ := Option.isSome_iff_exists.1 hsome
  exact ⟨s, hs, files_live reliable_ramDrive exact_emptyFiles
    (Machine.ReachableBy.init.of_run (fun _ _ _ => trivial) hs)⟩

end RvvmHal.Fatfs
