import RvvmHal.Fatfs.Chain
import RvvmHal.Foundations.Machine

/-!
# The files of a volume

A machine for the calls by which FatFs works on a volume: it stretches the chain of a file, cuts
one, moves the window, and stores bytes of directories in it. Beside the file system object the
state has the chain of each file, which is what the FAT says from the first cluster of the file on.

Over any run, in any order of the calls and with a drive that may fail in any of them, no cluster
gets into two chains (`chains_sound`); where an entry may lie in two sectors, a call that fails ends
this. Over the runs in which the drive does not fail the count of the free clusters is right, and no
cluster is lost (`chains_exact`).
-/

namespace RvvmHal.Fatfs

open Nvme LinkTable

instance (V : Vol) (x : ℕ) : Decidable (V.InFat x) := inferInstanceAs (Decidable (_ ∧ _))

instance (V : Vol) (c : ℕ) : Decidable (V.IsCluster c) := inferInstanceAs (Decidable (_ ∧ _))

/-- The file system object, and the chains of the files. -/
structure FileSys (σ ι : Type*) where
  fs : FatFs σ
  files : ι → List ℕ

/-- What FatFs does on the volume. -/
inductive Call (ι : Type*)
  /-- `create_chain`, at the end of the chain of a file. -/
  | stretch (i : ι)
  /-- `remove_chain`, of all but the first `n` clusters of a file. -/
  | cut (i : ι) (n : ℕ)
  /-- `move_window`. -/
  | move (sect : ℕ)
  /-- Bytes are stored in the window, which is not on a FAT. -/
  | store (off : ℕ) (l : List UInt8)
  /-- `sync_window`. -/
  | sync

section

variable {σ ι : Type*} [DecidableEq ι] (D : Drive σ) (V : Vol)

/-- A call, and whether it reports no error. -/
def FileSys.call (s : FileSys σ ι) : Call ι → Option (FileSys σ ι × Bool)
  | .stretch i =>
    (createChain D V s.fs ((s.files i).getLast?.getD 0)).map fun r =>
      (⟨r.1, if V.IsCluster r.2 then Function.update s.files i (s.files i ++ [r.2]) else s.files⟩,
        decide (r.2 ≠ 1 ∧ r.2 ≠ diskError))
  | .cut i n =>
    let keep := (s.files i).take n
    match (s.files i).drop n with
    | [] => some (s, true)
    | c :: _ =>
      let pclst := keep.getLast?.getD 0
      (removeChain D V s.fs c pclst).map fun r =>
        -- a call that fails at once leaves the chain linked
        (⟨r.1, if pclst ≠ 0 ∧ V.table (r.1.view D) pclst = c then s.files
          else Function.update s.files i keep⟩, decide (r.2 = .ok))
  | .move sect =>
    if sect < noSector then
      let r := moveWindow D V s.fs sect
      some (⟨r.1, s.files⟩, decide (r.2 = .ok))
    else none
  | .store off l =>
    if s.fs.winsect = noSector ∨ V.InFat s.fs.winsect then none
    else some (⟨s.fs.poke off l, s.files⟩, true)
  | .sync =>
    let r := syncWindow D V s.fs
    some (⟨r.1, s.files⟩, decide (r.2 = .ok))

/-- The calls on a volume that starts as `s₀`. -/
def fileCalls (s₀ : FileSys σ ι) : Machine (FileSys σ ι) (Call ι) where
  init := s₀
  step a s := (s.call D V a).map Prod.fst

/-- The call reports no error. -/
def Succeeds (a : Call ι) (s : FileSys σ ι) : Prop := (s.call D V a).map Prod.snd = some true

instance (a : Call ι) (s : FileSys σ ι) : Decidable (Succeeds D V a s) :=
  inferInstanceAs (Decidable (_ = _))

/-- **The invariant of the chains.** -/
structure Sound (s : FileSys σ ι) : Prop where
  coherent : s.fs.Coherent D V
  owned : Owned (V.table (s.fs.view D)) (V.nFatent ≤ ·) s.files
  cluster : ∀ i, ∀ c ∈ s.files i, V.IsCluster c

/-- **The allocation is exact**: the count of the free clusters is right, and a cluster that is not
free is in a chain. -/
structure Exact (s : FileSys σ ι) : Prop extends Sound D V s where
  count : CountOk D V s.fs
  no_lost : ∀ c, V.IsCluster c → V.table (s.fs.view D) c ≠ 0 → ∃ i, c ∈ s.files i

end

section

variable {σ ι : Type*} {D : Drive σ} {V : Vol} {s s' : FileSys σ ι} {f' : FatFs σ}

/-- A cluster of a chain is not free. -/
theorem Sound.used (h : Sound D V s) {i : ι} {c : ℕ} (hc : c ∈ s.files i) :
    V.table (s.fs.view D) c ≠ 0 := by
  have hn := V.nFatent_gt
  rcases (h.owned.linked i).entry hc with hmem | hend
  · have := (h.cluster i _ hmem).1
    omega
  · omega

/-- The last cluster of a chain. -/
theorem Sound.last (h : Sound D V s) {i : ι} {l : List ℕ} {a : ℕ} (hi : s.files i = l ++ [a]) :
    V.IsCluster a ∧ V.nFatent ≤ V.table (s.fs.view D) a := by
  have hl := h.owned.linked i
  rw [hi] at hl
  exact ⟨h.cluster i a (hi ▸ List.mem_append_right l List.mem_cons_self), (linked_concat.1 hl).2⟩

theorem Sound.last_getD (h : Sound D V s) (i : ι) (h₀ : (s.files i).getLast?.getD 0 ≠ 0) :
    V.IsCluster ((s.files i).getLast?.getD 0) ∧
      V.nFatent ≤ V.table (s.fs.view D) ((s.files i).getLast?.getD 0) := by
  rcases List.eq_nil_or_concat' (s.files i) with hi | ⟨l, a, hi⟩
  · rw [hi] at h₀
    exact absurd rfl h₀
  · rw [hi, List.getLast?_concat]
    exact h.last hi

/-- A chain has fewer clusters than the FAT has entries. -/
theorem Sound.length_lt (h : Sound D V s) (i : ι) : (s.files i).length < V.nFatent := by
  have hsub : (s.files i).toFinset ⊆ Finset.Ico 2 V.nFatent := fun c hc =>
    Finset.mem_Ico.2 (h.cluster i c (List.mem_toFinset.1 hc))
  have hcard := Finset.card_le_card hsub
  rw [List.toFinset_card_of_nodup (h.owned.nodup i), Nat.card_Ico] at hcard
  have := V.nFatent_gt
  omega

/-- What leaves the FATs alone keeps the chains. -/
theorem Sound.of_table (h : Sound D V s) (hw : f'.Coherent D V)
    (hT : ∀ c, V.table (s.fs.view D) c ≠ 0 → V.table (f'.view D) c = V.table (s.fs.view D) c) :
    Sound D V ⟨f', s.files⟩ :=
  ⟨hw, h.owned.congr fun _ c hc => hT c (h.used hc), h.cluster⟩

/-- What leaves the FATs alone keeps the allocation. -/
theorem Exact.of_table (h : Exact D V s) (hw : f'.Coherent D V)
    (hT : V.table (f'.view D) = V.table (s.fs.view D)) (hcount : CountOk D V f') :
    Exact D V ⟨f', s.files⟩ :=
  ⟨h.toSound.of_table hw fun c _ => by rw [hT], hcount, fun c hc hc₀ =>
    h.no_lost c hc (by rwa [← hT])⟩

/-! ## Stretching a chain -/

/-- The call of `create_chain` for a file. -/
theorem Sound.createChain (h : Sound D V s) (i : ι) :
    ∃ f' v, createChain D V s.fs ((s.files i).getLast?.getD 0) = some (f', v) ∧
      Made D V ((s.files i).getLast?.getD 0) s.fs f' v := by
  rcases List.eq_nil_or_concat' (s.files i) with hi | ⟨l, a, hi⟩
  · rw [hi]
    exact createChain_new h.coherent
  · rw [hi, List.getLast?_concat]
    obtain ⟨hcl, hlast⟩ := h.last hi
    exact createChain_last h.coherent hcl hlast

/-- The chains after a cluster has been put at the end of one. -/
theorem Sound.stretch [DecidableEq ι] (h : Sound D V s) {i : ι} {v : ℕ} (hw : f'.Coherent D V)
    (hv : V.IsCluster v) (hfree : V.table (s.fs.view D) v = 0)
    (hT : V.table (f'.view D) = V.link (V.table (s.fs.view D)) ((s.files i).getLast?.getD 0) v) :
    Sound D V ⟨f', Function.update s.files i (s.files i ++ [v])⟩ := by
  have hno : ∀ j, v ∉ s.files j := fun j hj => h.used hj hfree
  refine ⟨hw, ?_, fun j c hc => ?_⟩
  · dsimp only
    rcases List.eq_nil_or_concat' (s.files i) with hi | ⟨l, a, hi⟩
    · rw [hT, hi]
      exact h.owned.alloc hno V.nFatent_le_eoc
    · have ha := (h.last hi).1.1
      rw [hT, hi, List.getLast?_concat, List.append_assoc, Vol.link, Option.getD_some,
        if_pos (by omega)]
      exact h.owned.append hi hno V.nFatent_le_eoc
  · dsimp only at hc
    by_cases hj : j = i
    · subst hj
      rw [Function.update_self, List.mem_append, List.mem_singleton] at hc
      rcases hc with hc | rfl
      · exact h.cluster j c hc
      · exact hv
    · rw [Function.update_of_ne hj] at hc
      exact h.cluster j c hc

/-- An allocation loses no cluster. -/
theorem Exact.stretch [DecidableEq ι] (h : Exact D V s) {i : ι} {v : ℕ}
    (hsound : Sound D V ⟨f', Function.update s.files i (s.files i ++ [v])⟩)
    (hT : V.table (f'.view D) = V.link (V.table (s.fs.view D)) ((s.files i).getLast?.getD 0) v)
    (hcount : CountOk D V f') :
    Exact D V ⟨f', Function.update s.files i (s.files i ++ [v])⟩ := by
  refine ⟨hsound, hcount, fun c hc hc₀ => ?_⟩
  by_cases hcv : c = v
  · refine ⟨i, ?_⟩
    rw [hcv]
    simp
  have hold : V.table (s.fs.view D) c ≠ 0 := by
    dsimp only at hc₀
    rw [hT, Vol.link] at hc₀
    rcases List.eq_nil_or_concat' (s.files i) with hi | ⟨l, a, hi⟩
    · rw [hi] at hc₀
      exact fun h₀ => hc₀ ((Function.update_of_ne hcv ..).trans h₀)
    · have ha : a ∈ s.files i := hi ▸ List.mem_append_right l List.mem_cons_self
      by_cases hca : c = a
      · exact hca ▸ h.used ha
      · rw [hi, List.getLast?_concat, Option.getD_some,
          if_pos (by have := (h.last hi).1.1; omega), Function.update_of_ne hca,
          Function.update_of_ne hcv] at hc₀
        exact hc₀
  obtain ⟨j, hj⟩ := h.no_lost c hc hold
  refine ⟨j, ?_⟩
  by_cases hji : j = i
  · subst hji
    dsimp only
    rw [Function.update_self]
    exact List.mem_append_left _ hj
  · dsimp only
    rwa [Function.update_of_ne hji]

/-! ## Cutting a chain -/

/-- The call of `remove_chain` for the end of a file. -/
theorem Sound.removeChain (h : Sound D V s) {i : ι} {l m : List ℕ} {c : ℕ}
    (hi : s.files i = l ++ c :: m) :
    ∃ f' r, removeChain D V s.fs c (l.getLast?.getD 0) = some (f', r) ∧
      Cut D V (l.getLast?.getD 0) (c :: m) s.fs f' r := by
  have hl := h.owned.linked i
  have hn := h.owned.nodup i
  have hlen := h.length_lt i
  rw [hi] at hl hn hlen
  rw [List.length_append, List.length_cons] at hlen
  refine removeChain_spec h.coherent (linked_append.1 hl).2 (List.nodup_append.1 hn).2.1
    (fun a ha => h.cluster i a (hi ▸ List.mem_append_right l ha)) (by omega) fun h₀ => ?_
  rcases List.eq_nil_or_concat' l with rfl | ⟨k, a, rfl⟩
  · exact absurd rfl h₀
  · have ha : a ∈ k ++ [a] := List.mem_append_right k List.mem_cons_self
    rw [List.getLast?_concat, Option.getD_some]
    exact ⟨fun hm => (List.nodup_append.1 hn).2.2 a ha a hm rfl,
      h.used (i := i) (hi ▸ List.mem_append_left _ ha)⟩

/-- The chains after the end of one has been cut off. -/
theorem Sound.cut [DecidableEq ι] (h : Sound D V s) {i : ι} {l m : List ℕ} (hi : s.files i = l ++ m)
    (hw : f'.Coherent D V)
    (hp : l.getLast?.getD 0 ≠ 0 → V.nFatent ≤ V.table (f'.view D) (l.getLast?.getD 0))
    (hrest : ∀ a, a ∉ m → (l.getLast?.getD 0 ≠ 0 → a ≠ l.getLast?.getD 0) →
      V.table (f'.view D) a = V.table (s.fs.view D) a) :
    Sound D V ⟨f', Function.update s.files i l⟩ := by
  refine ⟨hw, h.owned.cut hi (fun a ha => ?_) fun a ham hal => ?_, fun j c hc => ?_⟩
  · have hcl : V.IsCluster a := h.cluster i a (hi ▸ List.mem_append_left m (List.mem_of_getLast? ha))
    rw [Option.mem_def.1 ha, Option.getD_some] at hp
    exact hp (by have := hcl.1; omega)
  · refine hrest a ham fun h₀ ha => ?_
    cases hlast : l.getLast? with
    | none => exact h₀ (by rw [hlast, Option.getD_none])
    | some b =>
      rw [hlast, Option.getD_some] at ha
      exact hal (hlast.trans (congrArg some ha.symm))
  · dsimp only at hc
    by_cases hj : j = i
    · subst hj
      rw [Function.update_self] at hc
      exact h.cluster j c (hi ▸ List.mem_append_left m hc)
    · rw [Function.update_of_ne hj] at hc
      exact h.cluster j c hc

/-- The chains after a call of `remove_chain`, whatever it reports. -/
theorem Sound.cutCall [DecidableEq ι] (h : Sound D V s) {i : ι} {l m : List ℕ} {c : ℕ}
    {r : FResult} (hi : s.files i = l ++ c :: m)
    (hcut : Cut D V (l.getLast?.getD 0) (c :: m) s.fs f' r)
    (hr : r = .ok ∨ V.fsType ≠ .fat12) :
    Sound D V ⟨f', if l.getLast?.getD 0 ≠ 0 ∧ V.table (f'.view D) (l.getLast?.getD 0) = c then s.files
      else Function.update s.files i l⟩ := by
  have hl := h.owned.linked i
  rw [hi] at hl
  have hc : c < V.nFatent := (h.cluster i c (hi ▸ List.mem_append_right l List.mem_cons_self)).2
  have heoc := V.nFatent_le_eoc
  rcases hcut.rest hr with ⟨-, hT⟩ | ⟨hp, hrest⟩
  · -- the call has failed at once
    by_cases h₀ : l.getLast?.getD 0 ≠ 0
    · have hlink : V.table (s.fs.view D) (l.getLast?.getD 0) = c := by
        rcases List.eq_nil_or_concat' l with rfl | ⟨k, a, rfl⟩
        · exact absurd rfl h₀
        · rw [List.getLast?_concat, Option.getD_some]
          exact (linked_concat.1 (linked_append.1 hl).1).2
      rw [hT, if_pos ⟨h₀, hlink⟩]
      exact h.of_table hcut.wrote.coherent fun a _ => by rw [hT]
    · rw [if_neg fun hc => h₀ hc.1]
      exact h.cut hi hcut.wrote.coherent (fun hne => absurd hne h₀) fun a _ _ => by rw [hT]
  · rw [if_neg]
    · exact h.cut hi hcut.wrote.coherent (fun h₀ => by rw [hp h₀]; exact heoc) hrest
    · rintro ⟨h₀, he⟩
      rw [hp h₀] at he
      omega

/-- Cutting a chain loses no cluster. -/
theorem Exact.cut [DecidableEq ι] (h : Exact D V s) {i : ι} {l m : List ℕ}
    (hi : s.files i = l ++ m) (hsound : Sound D V ⟨f', Function.update s.files i l⟩)
    (hfreed : ∀ a ∈ m, V.table (f'.view D) a = 0)
    (hrest : ∀ a, a ∉ m → (l.getLast?.getD 0 ≠ 0 → a ≠ l.getLast?.getD 0) →
      V.table (f'.view D) a = V.table (s.fs.view D) a)
    (hcount : CountOk D V f') : Exact D V ⟨f', Function.update s.files i l⟩ := by
  refine ⟨hsound, hcount, fun c hc hc₀ => ?_⟩
  have hcm : c ∉ m := fun hcm => hc₀ (hfreed c hcm)
  by_cases hcl : c ∈ l
  · refine ⟨i, ?_⟩
    dsimp only
    rwa [Function.update_self]
  have hold : V.table (s.fs.view D) c ≠ 0 := by
    rw [← hrest c hcm fun h₀ hlast => ?_]
    · exact hc₀
    · cases hl : l.getLast? with
      | none => exact h₀ (by rw [hl, Option.getD_none])
      | some b =>
        rw [hl, Option.getD_some] at hlast
        exact hcl (hlast ▸ List.mem_of_getLast? hl)
  obtain ⟨j, hj⟩ := h.no_lost c hc hold
  have hji : j ≠ i := by
    rintro rfl
    rw [hi, List.mem_append] at hj
    exact hj.elim hcl hcm
  refine ⟨j, ?_⟩
  dsimp only
  rwa [Function.update_of_ne hji]

/-! ## The calls -/

/-- A store in the window, outside the FATs. -/
theorem FatFs.Coherent.store {f : FatFs σ} (h : f.Coherent D V) (hs : f.winsect ≠ noSector)
    (hfat : ¬ V.InFat f.winsect) (off : ℕ) (l : List UInt8) :
    (f.poke off l).Coherent D V ∧
      ∀ x, x ≠ f.winsect → (f.poke off l).view D x = f.view D x := by
  refine ⟨⟨h.sect_le, fun hc => absurd hc (by simp [FatFs.poke]), fun _ => hs,
    fun _ hm => hfat (V.inFat_of_inMirror hm)⟩, fun x hx => ?_⟩
  rw [FatFs.view_of_dirty (f := f.poke off l) rfl]
  refine (Function.update_of_ne hx ..).trans ?_
  unfold FatFs.view
  split
  · exact (Function.update_of_ne hx ..).symm
  · rfl

/-- A store outside the FATs leaves the table. -/
theorem table_store {f : FatFs σ} (h : f.Coherent D V) (hs : f.winsect ≠ noSector)
    (hfat : ¬ V.InFat f.winsect) (off : ℕ) (l : List UInt8) :
    V.table ((f.poke off l).view D) = V.table (f.view D) := by
  have hle := V.first_le_fats
  rw [Vol.table, Vol.fatMem_congr fun x h₁ h₂ => (h.store hs hfat off l).2 x ?_, Vol.table]
  rintro rfl
  exact hfat ⟨h₁, by omega⟩

/-- **What a call does.** -/
inductive Did [DecidableEq ι] (D : Drive σ) (V : Vol) (s : FileSys σ ι) :
    Call ι → FileSys σ ι → Bool → Prop
  | stretched {i : ι} {f' : FatFs σ} {v : ℕ}
      (made : Made D V ((s.files i).getLast?.getD 0) s.fs f' v) :
      Did D V s (.stretch i)
        ⟨f', if V.IsCluster v then Function.update s.files i (s.files i ++ [v]) else s.files⟩
        (decide (v ≠ 1 ∧ v ≠ diskError))
  | cut {i : ι} {n c : ℕ} {l m : List ℕ} {f' : FatFs σ} {r : FResult}
      (files : s.files i = l ++ c :: m) (cut : Cut D V (l.getLast?.getD 0) (c :: m) s.fs f' r) :
      Did D V s (.cut i n)
        ⟨f', if l.getLast?.getD 0 ≠ 0 ∧ V.table (f'.view D) (l.getLast?.getD 0) = c then s.files
          else Function.update s.files i l⟩
        (decide (r = .ok))
  | kept {a : Call ι} {f' : FatFs σ} {ok : Bool} (kept : Kept D V s.fs f') :
      Did D V s a ⟨f', s.files⟩ ok
  | stored {off : ℕ} {l : List UInt8} (sect : s.fs.winsect ≠ noSector)
      (fat : ¬ V.InFat s.fs.winsect) : Did D V s (.store off l) ⟨s.fs.poke off l, s.files⟩ true

theorem Sound.did [DecidableEq ι] (h : Sound D V s) {a : Call ι} {ok : Bool}
    (hc : s.call D V a = some (s', ok)) : Did D V s a s' ok := by
  cases a with
  | stretch i =>
    obtain ⟨f', v, hcreate, hmade⟩ := h.createChain i
    rw [FileSys.call, hcreate] at hc
    obtain ⟨rfl, rfl⟩ := Prod.mk.inj (Option.some.inj hc)
    exact .stretched hmade
  | cut i n =>
    rw [FileSys.call] at hc
    cases hd : (s.files i).drop n with
    | nil =>
      rw [hd] at hc
      obtain ⟨rfl, rfl⟩ := Prod.mk.inj (Option.some.inj hc)
      exact .kept (.refl h.coherent)
    | cons c m =>
      have hi : s.files i = (s.files i).take n ++ c :: m := by
        rw [← hd, List.take_append_drop]
      obtain ⟨f', r, hremove, hcut⟩ := h.removeChain hi
      rw [hd] at hc
      dsimp only at hc
      rw [hremove] at hc
      obtain ⟨rfl, rfl⟩ := Prod.mk.inj (Option.some.inj hc)
      exact .cut hi hcut
  | move sect =>
    rw [FileSys.call] at hc
    split at hc
    · rename_i hs
      obtain ⟨rfl, rfl⟩ := Prod.mk.inj (Option.some.inj hc)
      exact .kept (moveWindow_spec h.coherent hs).1
    · simp at hc
  | store off l =>
    rw [FileSys.call] at hc
    split at hc
    · simp at hc
    · rename_i hs
      obtain ⟨rfl, rfl⟩ := Prod.mk.inj (Option.some.inj hc)
      rw [not_or] at hs
      exact .stored hs.1 hs.2
  | sync =>
    obtain ⟨rfl, rfl⟩ := Prod.mk.inj (Option.some.inj hc)
    exact .kept (syncWindow_spec h.coherent).1

/-- **One call** keeps the chains. -/
theorem Sound.call [DecidableEq ι] (h : Sound D V s) {a : Call ι} {ok : Bool}
    (hc : s.call D V a = some (s', ok)) (hok : V.fsType ≠ .fat12 ∨ ok = true) : Sound D V s' := by
  cases h.did hc with
  | @stretched i f' v hmade =>
    by_cases hv : V.IsCluster v
    · rw [if_pos hv]
      obtain ⟨hfree, hT, -⟩ := hmade.made hv
      exact h.stretch hmade.wrote.coherent hv hfree hT
    rw [if_neg hv]
    refine h.of_table hmade.wrote.coherent ?_
    rcases hmade.value with hv₀ | hv₁ | hv₁ | hcl
    · exact fun c _ => by rw [(hmade.full hv₀).1]
    · refine hmade.failed (.inl hv₁) (hok.resolve_right fun ht => ?_)
      exact (of_decide_eq_true ht).1 hv₁
    · refine hmade.failed (.inr hv₁) (hok.resolve_right fun ht => ?_)
      exact (of_decide_eq_true ht).2 hv₁
    · exact absurd hcl hv
  | cut hi hcut => exact h.cutCall hi hcut (hok.symm.imp_left of_decide_eq_true)
  | kept hkept => exact h.of_table hkept.coherent fun c _ => by rw [hkept.table_eq]
  | stored hs hfat =>
    exact h.of_table (h.coherent.store hs hfat _ _).1 fun c _ => by
      rw [table_store h.coherent hs hfat]

/-- A call that is no store leaves the sectors outside the FATs. -/
theorem Sound.call_data [DecidableEq ι] (h : Sound D V s) {a : Call ι} {ok : Bool}
    (hc : s.call D V a = some (s', ok)) (ha : ∀ off l, a ≠ .store off l) {x : ℕ}
    (hx : ¬ V.InFat x) : s'.fs.view D x = s.fs.view D x := by
  cases h.did hc with
  | stretched hmade => exact hmade.wrote.outside x hx
  | cut _ hcut => exact hcut.wrote.outside x hx
  | kept hkept => exact hkept.wrote.outside x hx
  | stored => exact absurd rfl (ha _ _)

/-- **One call that succeeds** keeps the allocation exact. -/
theorem Exact.call [DecidableEq ι] (h : Exact D V s) {a : Call ι}
    (hc : s.call D V a = some (s', true)) : Exact D V s' := by
  have hsound := h.toSound.call hc (.inr rfl)
  generalize hok : true = ok at hc
  cases h.did hc with
  | @stretched i f' v hmade =>
    rw [eq_comm, decide_eq_true_eq] at hok
    by_cases hv : V.IsCluster v
    · rw [if_pos hv] at hsound ⊢
      obtain ⟨-, hT, hcount⟩ := hmade.made hv
      exact h.stretch hsound hT (hcount h.count)
    · rw [if_neg hv]
      have hv₀ : v = 0 := by
        have := hmade.value
        tauto
      obtain ⟨hT, hfull⟩ := hmade.full hv₀
      exact h.of_table hmade.wrote.coherent hT (hfull h.count).1
  | @cut i n c l m f' r hi hcut =>
    have hr : r = .ok := of_decide_eq_true hok.symm
    obtain ⟨hfreed, hcount⟩ := hcut.done hr
    rcases hcut.rest (.inl hr) with ⟨hne, -⟩ | ⟨hp, hrest⟩
    · exact absurd hr hne
    have hlt := (h.cluster i c (hi ▸ List.mem_append_right _ List.mem_cons_self)).2
    have heoc := V.nFatent_le_eoc
    have hcond : ¬ (l.getLast?.getD 0 ≠ 0 ∧ V.table (f'.view D) (l.getLast?.getD 0) = c) := by
      rintro ⟨h₀, he⟩
      rw [hp h₀] at he
      omega
    rw [if_neg hcond] at hsound ⊢
    exact h.cut hi hsound hfreed hrest (hcount h.count)
  | kept hkept => exact h.of_table hkept.coherent hkept.table_eq (hkept.countOk h.count)
  | @stored off l hs hfat =>
    have hT := table_store h.coherent hs hfat off l
    refine h.of_table (h.coherent.store hs hfat off l).1 hT ?_
    unfold CountOk
    rw [hT]
    exact h.count

/-! ## Runs -/

variable {s₀ : FileSys σ ι}

theorem Sound.reachable [DecidableEq ι] (hV : V.fsType ≠ .fat12) (h₀ : Sound D V s₀)
    (hs : (fileCalls D V s₀).Reachable s) : Sound D V s := by
  refine hs.invariant h₀ fun {t t' a} ht _ hstep => ?_
  obtain ⟨⟨t'', ok⟩, hcall, rfl⟩ := Option.map_eq_some_iff.1 hstep
  exact ht.call hcall (.inl hV)

/-- **No cluster gets into two chains**, whatever the drive does. -/
theorem chains_sound [DecidableEq ι] (hV : V.fsType ≠ .fat12) (h₀ : Sound D V s₀)
    (hs : (fileCalls D V s₀).Reachable s) :
    Sound D V s ∧ ∀ a s' ok, s.call D V a = some (s', ok) → (∀ off l, a ≠ .store off l) →
      ∀ x, ¬ V.InFat x → s'.fs.view D x = s.fs.view D x := by
  have hsound := h₀.reachable hV hs
  exact ⟨hsound, fun a s' ok hc ha x hx => hsound.call_data hc ha hx⟩

/-- **The allocation stays exact** as long as the drive does not fail, and a file is refused a cluster
only when every cluster is in a chain. -/
theorem chains_exact [DecidableEq ι] (h₀ : Exact D V s₀)
    (hs : (fileCalls D V s₀).ReachableBy (Succeeds D V) s) :
    Exact D V s ∧ ∀ i, ∃ f' v,
      createChain D V s.fs ((s.files i).getLast?.getD 0) = some (f', v) ∧
        (v ≠ 1 → v ≠ diskError → (v = 0 ↔ ∀ c, V.IsCluster c → ∃ j, c ∈ s.files j)) := by
  have hexact : Exact D V s := by
    refine hs.invariant h₀ fun {t t' a} ht hok hstep => ?_
    obtain ⟨⟨t'', ok⟩, hcall, rfl⟩ := Option.map_eq_some_iff.1 hstep
    rw [Succeeds, hcall] at hok
    obtain rfl := Option.some.inj hok
    exact ht.call hcall
  refine ⟨hexact, fun i => ?_⟩
  obtain ⟨f', v, hcreate, hmade⟩ := hexact.createChain i
  refine ⟨f', v, hcreate, fun h₁ hd => ⟨fun hv c hc => ?_, fun hall => ?_⟩⟩
  · exact hexact.no_lost c hc (((hmade.full hv).2 hexact.count).2 c hc)
  · by_contra hv
    have hcl : V.IsCluster v := by
      have := hmade.value
      tauto
    obtain ⟨j, hj⟩ := hall v hcl
    exact hexact.used hj (hmade.made hcl).1

end

/-! ## An empty volume -/

/-- The volume without files, mounted on a drive. -/
def emptyFilesOn {σ : Type*} (io : σ) : FileSys σ Bool where
  fs := emptyFsOn io
  files _ := []

/-- The volume without files, mounted on a drive in memory. -/
def emptyFiles : FileSys Disk Bool where
  fs := emptyFs
  files _ := []

theorem exact_emptyFilesOn {σ : Type*} {D : Drive σ} {io : σ} (hio : D.disk io = fun _ _ => 0) :
    Exact D (smallVol .fat16) (emptyFilesOn io) := by
  have hT : (smallVol .fat16).table ((emptyFilesOn io).fs.view D) = fun _ => 0 := by
    funext c
    have hzero : ∀ x, (smallVol .fat16).fatMem ((emptyFilesOn io).fs.view D) x = 0 := fun x => by
      change (smallVol .fat16).fatMem (D.disk io) x = 0
      rw [hio]
      exact ite_self _
    change Bytes.readLe ((smallVol .fat16).fatMem ((emptyFilesOn io).fs.view D)) (c * 2) 2 = 0
    rw [FatType.readLe_two, hzero, hzero]
    rfl
  refine { coherent := coherent_emptyFsOn io,
           owned := ⟨fun _ => trivial, fun _ => List.nodup_nil, fun _ _ _ _ h => ?_⟩,
           cluster := fun _ _ h => ?_, count := fun _ => ?_, no_lost := fun c _ h => ?_ }
  · exact absurd h List.not_mem_nil
  · exact absurd h List.not_mem_nil
  · rw [hT]
    rfl
  · exact absurd (congrFun hT c) h

theorem exact_emptyFiles : Exact ramDrive (smallVol .fat16) emptyFiles := exact_emptyFilesOn rfl

set_option maxRecDepth 10000 in
/-- Two files take clusters in turn, and one of them is cut. -/
theorem chains_sound_emptyFiles : ∃ s,
    (fileCalls ramDrive (smallVol .fat16) emptyFiles).run
        [.stretch true, .stretch false, .stretch true, .cut true 1] emptyFiles = some s ∧
      Sound ramDrive (smallVol .fat16) s ∧ ∀ a s' ok,
        s.call ramDrive (smallVol .fat16) a = some (s', ok) → (∀ off l, a ≠ .store off l) →
          ∀ x, ¬ (smallVol .fat16).InFat x →
            s'.fs.view ramDrive x = s.fs.view ramDrive x := by
  have hsome : ((fileCalls ramDrive (smallVol .fat16) emptyFiles).run
      [.stretch true, .stretch false, .stretch true, .cut true 1] emptyFiles).isSome := by decide
  obtain ⟨s, hs⟩ := Option.isSome_iff_exists.1 hsome
  exact ⟨s, hs, chains_sound nofun exact_emptyFiles.toSound
    (Machine.ReachableBy.init.of_run (fun _ _ _ => trivial) hs)⟩

set_option maxRecDepth 10000 in
theorem chains_exact_emptyFiles : ∃ s,
    (fileCalls ramDrive (smallVol .fat16) emptyFiles).runBy (Succeeds ramDrive (smallVol .fat16))
        [.stretch true, .stretch false, .stretch true, .cut true 1] emptyFiles = some s ∧
      Exact ramDrive (smallVol .fat16) s ∧ ∀ i, ∃ f' v,
        createChain ramDrive (smallVol .fat16) s.fs ((s.files i).getLast?.getD 0) = some (f', v) ∧
          (v ≠ 1 → v ≠ diskError →
            (v = 0 ↔ ∀ c, (smallVol .fat16).IsCluster c → ∃ j, c ∈ s.files j)) := by
  have hsome : ((fileCalls ramDrive (smallVol .fat16) emptyFiles).runBy
      (Succeeds ramDrive (smallVol .fat16)) [.stretch true, .stretch false, .stretch true, .cut true 1] emptyFiles).isSome := by decide
  obtain ⟨s, hs⟩ := Option.isSome_iff_exists.1 hsome
  exact ⟨s, hs, chains_exact exact_emptyFiles (Machine.ReachableBy.init.of_runBy hs)⟩

end RvvmHal.Fatfs
