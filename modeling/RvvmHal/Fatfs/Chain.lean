import Mathlib.Order.Interval.Finset.Nat
import RvvmHal.Fatfs.Table
import RvvmHal.Foundations.LinkTable

/-!
# Cluster chains

`create_chain` starts a chain of clusters or stretches one, `remove_chain` gives the end of a chain
back. Each call is described by what it makes of the table (`Created`, `removeChain_spec`), whatever
the drive does: a search that finds nothing has met no free cluster, and a call that reports no
error has changed the entries it should, and no others.
-/

namespace RvvmHal.Fatfs

open Nvme

/-- What `get_fat` and `create_chain` return for an error of the drive. -/
abbrev diskError : ℕ := 0xFFFFFFFF

section

variable {σ : Type*} (D : Drive σ) (V : Vol)

/-- The object after the allocation of a cluster. -/
def FatFs.took (f : FatFs σ) (ncl : ℕ) : FatFs σ :=
  let known := 0 < f.freeClst ∧ f.freeClst ≤ V.nFatent - 2
  { f with
    lastClst := ncl
    freeClst := if known then f.freeClst - 1 else f.freeClst
    fsiFlag := if known then f.fsiFlag ||| 1 else f.fsiFlag }

/-- The object after a cluster has been given back. -/
def FatFs.gaveBack (f : FatFs σ) : FatFs σ :=
  let known := f.freeClst < V.nFatent - 2
  { f with
    freeClst := if known then f.freeClst + 1 else f.freeClst
    fsiFlag := if known then f.fsiFlag ||| 1 else f.fsiFlag }

/-! ## Allocation -/

/-- The cluster after `ncl`, around the table. -/
def nextCluster (ncl : ℕ) : ℕ := if V.nFatent ≤ ncl + 1 then 2 else ncl + 1

/-- The search of `create_chain` for a free cluster after `ncl`, around the table up to `scl`: the
cluster, or what the function returns. -/
def findFree (scl : ℕ) : ℕ → FatFs σ → ℕ → Option (FatFs σ × Except ℕ ℕ)
  | 0, _, _ => none
  | fuel + 1, f, ncl =>
    if V.nFatent ≤ ncl + 1 ∧ scl < 2 then some (f, .error 0)
    else
      let ncl := nextCluster V ncl
      let r := getFat D V f ncl
      if r.2 = 0 then some (r.1, .ok ncl)
      else if r.2 = 1 ∨ r.2 = diskError then some (r.1, .error r.2)
      else if ncl = scl then some (r.1, .error 0)
      else findFree scl fuel r.1 ncl

/-- The end of `create_chain`: the new cluster is marked, and linked from the previous one. -/
def linkCluster (f : FatFs σ) (clst ncl : ℕ) : FatFs σ × ℕ :=
  let r := putFat D V f ncl 0xFFFFFFFF
  let r := if r.2 = .ok ∧ clst ≠ 0 then putFat D V r.1 clst ncl else r
  if r.2 = .ok then (r.1.took V ncl, ncl)
  else (r.1, if r.2 = .diskErr then diskError else 1)

/-- The search from `scl`, and the link to what it finds. -/
def findAndLink (f : FatFs σ) (clst scl : ℕ) : Option (FatFs σ × ℕ) :=
  (findFree D V scl V.nFatent f scl).map fun r =>
    match r.2 with
    | .ok ncl => linkCluster D V r.1 clst ncl
    | .error v => (r.1, v)

/-- `create_chain` from the test of the free clusters on; `scl` is where to start. -/
def newCluster (f : FatFs σ) (clst scl : ℕ) : Option (FatFs σ × ℕ) :=
  if f.freeClst = 0 then some (f, 0)
  else if scl = clst then
    -- stretching a chain: the next cluster first
    let ncl := nextCluster V scl
    let r := getFat D V f ncl
    if r.2 = 1 ∨ r.2 = diskError then some r
    else if r.2 ≠ 0 then
      findAndLink D V r.1 clst
        (if 2 ≤ r.1.lastClst ∧ r.1.lastClst < V.nFatent then r.1.lastClst else scl)
    else some (linkCluster D V r.1 clst ncl)
  else findAndLink D V f clst scl

/-- `create_chain`, on a volume that is not exFAT. -/
def createChain (f : FatFs σ) (clst : ℕ) : Option (FatFs σ × ℕ) :=
  if clst = 0 then
    newCluster D V f clst (if f.lastClst = 0 ∨ V.nFatent ≤ f.lastClst then 1 else f.lastClst)
  else
    let r := getFat D V f clst
    if r.2 < 2 then some (r.1, 1)
    else if r.2 = diskError then some r
    else if r.2 < V.nFatent then some r
    else newCluster D V r.1 clst clst

/-! ## Removal -/

/-- The loop of `remove_chain`. -/
def freeClusters : ℕ → FatFs σ → ℕ → Option (FatFs σ × FResult)
  | 0, _, _ => none
  | fuel + 1, f, clst =>
    let r := getFat D V f clst
    if r.2 = 0 then some (r.1, .ok)
    else if r.2 = 1 then some (r.1, .intErr)
    else if r.2 = diskError then some (r.1, .diskErr)
    else
      let w := putFat D V r.1 clst 0
      if w.2 ≠ .ok then some w
      else if r.2 < V.nFatent then freeClusters fuel (w.1.gaveBack V) r.2
      else some (w.1.gaveBack V, .ok)

/-- `remove_chain`, on a volume that is not exFAT. -/
def removeChain (f : FatFs σ) (clst pclst : ℕ) : Option (FatFs σ × FResult) :=
  if clst < 2 ∨ V.nFatent ≤ clst then some (f, .intErr)
  else if pclst ≠ 0 then
    let w := putFat D V f pclst 0xFFFFFFFF
    if w.2 ≠ .ok then some w else freeClusters D V V.nFatent w.1 clst
  else freeClusters D V V.nFatent f clst

end

/-! ## The free clusters -/

/-- The clusters of a volume. -/
def Vol.IsCluster (V : Vol) (c : ℕ) : Prop := 2 ≤ c ∧ c < V.nFatent

/-- The number of free clusters. -/
def Vol.freeCount (V : Vol) (T : ℕ → ℕ) : ℕ := ((Finset.Ico 2 V.nFatent).filter (T · = 0)).card

/-- The entry of the last cluster of a chain, as `create_chain` and `remove_chain` write it. -/
def Vol.eoc (V : Vol) : ℕ := 0xFFFFFFFF % 2 ^ V.fsType.bits

namespace Vol

variable {V : Vol} {T : ℕ → ℕ} {c v : ℕ}

theorem nFatent_le_eoc : V.nFatent ≤ V.eoc := by
  have h := V.nFatent_le
  unfold eoc
  cases ht : V.fsType
  all_goals
    simp only [ht, FatType.maxClusters, FatType.bits] at h ⊢
    omega

theorem nFatent_lt_diskError : V.nFatent < diskError := by
  have h := V.nFatent_le
  cases ht : V.fsType
  all_goals
    simp only [ht, FatType.maxClusters, diskError] at h ⊢
    omega

theorem nFatent_lt_bits : V.nFatent < 2 ^ V.fsType.bits := by
  have h := V.nFatent_le
  cases ht : V.fsType
  all_goals
    simp only [ht, FatType.maxClusters, FatType.bits] at h ⊢
    omega

/-- A cluster that was free is no longer. -/
theorem freeCount_take (hc : V.IsCluster c) (hT : T c = 0) (hv : v ≠ 0) :
    V.freeCount (Function.update T c v) + 1 = V.freeCount T := by
  have hmem : c ∈ (Finset.Ico 2 V.nFatent).filter (T · = 0) :=
    Finset.mem_filter.2 ⟨Finset.mem_Ico.2 hc, hT⟩
  have herase : (Finset.Ico 2 V.nFatent).filter (Function.update T c v · = 0) =
      ((Finset.Ico 2 V.nFatent).filter (T · = 0)).erase c := by
    ext x
    rw [Finset.mem_erase, Finset.mem_filter, Finset.mem_filter]
    by_cases hx : x = c
    · subst hx
      simp [hv]
    · rw [Function.update_of_ne hx]
      exact ⟨fun h => ⟨hx, h⟩, fun h => h.2⟩
  rw [freeCount, freeCount, herase, Finset.card_erase_add_one hmem]

/-- An entry that is not free before or after does not count. -/
theorem freeCount_update (hT : T c ≠ 0) (hv : v ≠ 0) :
    V.freeCount (Function.update T c v) = V.freeCount T := by
  unfold freeCount
  congr 1
  refine Finset.filter_congr fun x _ => ?_
  by_cases hx : x = c
  · subst hx
    rw [Function.update_self]
    exact iff_of_false hv hT
  · rw [Function.update_of_ne hx]

/-- A cluster that was not free is now. -/
theorem freeCount_give (hc : V.IsCluster c) (hT : T c ≠ 0) :
    V.freeCount (Function.update T c 0) = V.freeCount T + 1 := by
  have h := freeCount_take (V := V) (T := Function.update T c 0) hc (Function.update_self ..) hT
  rwa [Function.update_idem, Function.update_eq_self, eq_comm] at h

theorem freeCount_le : V.freeCount T ≤ V.nFatent - 2 := by
  refine (Finset.card_filter_le _ _).trans ?_
  rw [Nat.card_Ico]

theorem freeCount_lt (hc : V.IsCluster c) (hT : T c ≠ 0) : V.freeCount T < V.nFatent - 2 := by
  have h := freeCount_give (V := V) hc hT
  have hle := freeCount_le (V := V) (T := Function.update T c 0)
  omega

theorem freeCount_pos (hc : V.IsCluster c) (hT : T c = 0) : 0 < V.freeCount T :=
  Finset.card_pos.2 ⟨c, Finset.mem_filter.2 ⟨Finset.mem_Ico.2 hc, hT⟩⟩

end Vol

section

variable {σ : Type*} {D : Drive σ} {V : Vol} {f f' f'' : FatFs σ}

/-- What a call leaves of the object, whatever it has done to the FATs and the allocation
information. -/
structure Wrote (D : Drive σ) (V : Vol) (f f' : FatFs σ) : Prop where
  coherent : f'.Coherent D V
  outside : ∀ x, ¬ V.InFat x → f'.view D x = f.view D x

theorem Touched.wrote (h : Touched D V f f') : Wrote D V f f' := ⟨h.coherent, h.outside⟩

theorem Kept.wrote (h : Kept D V f f') : Wrote D V f f' := h.touched.wrote

theorem Wrote.trans (h : Wrote D V f f') (h' : Wrote D V f' f'') : Wrote D V f f'' :=
  ⟨h'.coherent, fun x hx => (h'.outside x hx).trans (h.outside x hx)⟩

/-- The allocation information does not matter to the view. -/
theorem Wrote.took (h : Wrote D V f f') (ncl : ℕ) : Wrote D V f (f'.took V ncl) :=
  ⟨⟨h.coherent.sect_le, h.coherent.clean, h.coherent.dirty, h.coherent.no_mirror⟩, h.outside⟩

theorem Wrote.gaveBack (h : Wrote D V f f') : Wrote D V f (f'.gaveBack V) :=
  ⟨⟨h.coherent.sect_le, h.coherent.clean, h.coherent.dirty, h.coherent.no_mirror⟩, h.outside⟩

@[simp] theorem FatFs.view_took (ncl : ℕ) : (f.took V ncl).view D = f.view D := rfl

@[simp] theorem FatFs.view_gaveBack : (f.gaveBack V).view D = f.view D := rfl

/-- The count of the free clusters is right, if it is valid. -/
def CountOk (D : Drive σ) (V : Vol) (f : FatFs σ) : Prop :=
  f.freeClst ≤ V.nFatent - 2 → f.freeClst = V.freeCount (V.table (f.view D))

theorem Kept.countOk (h : Kept D V f f') (hc : CountOk D V f) : CountOk D V f' := by
  unfold CountOk
  rw [h.freeClst, h.table_eq]
  exact hc

/-! ## The search -/

/-- The clusters that a search from `scl` has met when it is at `ncl`. -/
def Met (scl ncl c : ℕ) : Prop := if scl ≤ ncl then scl < c ∧ c ≤ ncl else scl < c ∨ c ≤ ncl

/-- The clusters that are left of such a search. -/
def toMeet (V : Vol) (scl ncl : ℕ) : ℕ :=
  if ncl < scl then scl - ncl else V.nFatent - ncl + (scl - 2)

theorem nextCluster_cases (V : Vol) (ncl : ℕ) :
    V.nFatent ≤ ncl + 1 ∧ nextCluster V ncl = 2 ∨
      ncl + 1 < V.nFatent ∧ nextCluster V ncl = ncl + 1 := by
  unfold nextCluster
  split <;> omega

theorem isCluster_nextCluster {ncl : ℕ} (h : 1 ≤ ncl) : V.IsCluster (nextCluster V ncl) := by
  have hn := V.nFatent_gt
  rcases nextCluster_cases V ncl with ⟨hw, he⟩ | ⟨hw, he⟩
  all_goals
    rw [he]
    constructor <;> omega

/-- A search that has not come back is nearer to its end. -/
theorem toMeet_next {scl ncl : ℕ} (hlt : scl < V.nFatent)
    (hncl_lt : ncl < V.nFatent) (hwrap : ¬ (V.nFatent ≤ ncl + 1 ∧ scl < 2))
    (hne : nextCluster V ncl ≠ scl) :
    toMeet V scl (nextCluster V ncl) < toMeet V scl ncl := by
  rcases nextCluster_cases V ncl with ⟨hw, he⟩ | ⟨hw, he⟩
  all_goals
    rw [he] at hne ⊢
    unfold toMeet
    split_ifs <;> omega

/-- What has been met one step later. -/
theorem met_next {scl ncl c : ℕ} (hc : V.IsCluster c)
    (h : Met scl (nextCluster V ncl) c) : c = nextCluster V ncl ∨ Met scl ncl c := by
  obtain ⟨h₂, hlt⟩ := hc
  rcases nextCluster_cases V ncl with ⟨hw, he⟩ | ⟨hw, he⟩
  all_goals
    rw [he] at h ⊢
    unfold Met at *
    split_ifs at * <;> omega

/-- A search that has come back has met everything. -/
theorem met_last {scl ncl c : ℕ} (hc : V.IsCluster c) (heq : nextCluster V ncl = scl) :
    c = nextCluster V ncl ∨ Met scl ncl c := by
  obtain ⟨h₂, hlt⟩ := hc
  rcases nextCluster_cases V ncl with ⟨hw, he⟩ | ⟨hw, he⟩
  all_goals
    rw [he] at heq ⊢
    unfold Met
    split_ifs <;> omega

/-- A search from the start of the table ends with it. -/
theorem met_end {scl ncl c : ℕ} (hc : V.IsCluster c) (hncl : 1 ≤ ncl)
    (hwrap : V.nFatent ≤ ncl + 1 ∧ scl < 2) : Met scl ncl c := by
  obtain ⟨h₂, hlt⟩ := hc
  rw [Met, if_pos (by omega)]
  omega

/-- **The search goes once around the table**: it finds a free cluster, or there is none, or the
drive or the table stops it. -/
theorem findFree_spec {scl ncl fuel : ℕ} (h : f.Coherent D V)
    (hlt : scl < V.nFatent) (hncl : 1 ≤ ncl) (hncl_lt : ncl < V.nFatent)
    (hfuel : toMeet V scl ncl < fuel)
    (hmet : ∀ c, V.IsCluster c → Met scl ncl c → V.table (f.view D) c ≠ 0) :
    ∃ f' r, findFree D V scl fuel f ncl = some (f', r) ∧ Kept D V f f' ∧
      (∀ c, r = .ok c → V.IsCluster c ∧ V.table (f.view D) c = 0) ∧
      (∀ v, r = .error v → v = 0 ∧ (∀ c, V.IsCluster c → V.table (f.view D) c ≠ 0) ∨
        v = 1 ∨ v = diskError) := by
  induction fuel generalizing f ncl with
  | zero => omega
  | succ fuel ih =>
    rw [findFree]
    by_cases hwrap : V.nFatent ≤ ncl + 1 ∧ scl < 2
    · rw [if_pos hwrap]
      refine ⟨f, _, rfl, .refl h, by simp, fun v hv => .inl ⟨(Except.error.inj hv).symm, ?_⟩⟩
      exact fun c hc => hmet c hc (met_end hc hncl hwrap)
    rw [if_neg hwrap]
    dsimp only
    have hcl := isCluster_nextCluster (V := V) hncl
    obtain ⟨hkept, hget⟩ := getFat_spec (D := D) h (nextCluster V ncl)
    rw [if_neg (by have := hcl.1; have := hcl.2; omega)] at hget
    by_cases h₀ : (getFat D V f (nextCluster V ncl)).2 = 0
    · rw [if_pos h₀]
      refine ⟨_, _, rfl, hkept, fun c hc => ?_, by simp⟩
      obtain rfl := Except.ok.inj hc
      refine ⟨hcl, ?_⟩
      rw [← hget (by rw [h₀]; decide), h₀]
    rw [if_neg h₀]
    by_cases h₁ : (getFat D V f (nextCluster V ncl)).2 = 1 ∨
        (getFat D V f (nextCluster V ncl)).2 = diskError
    · rw [if_pos h₁]
      refine ⟨_, _, rfl, hkept, by simp, fun v hv => ?_⟩
      obtain rfl := Except.error.inj hv
      exact .inr h₁
    rw [if_neg h₁]
    have hT : V.table (f.view D) (nextCluster V ncl) ≠ 0 := by
      rw [← hget fun he => h₁ (.inr he)]
      exact h₀
    -- the next cluster has been met now
    have hmet' : ∀ c, V.IsCluster c → (c = nextCluster V ncl ∨ Met scl ncl c) →
        V.table (f.view D) c ≠ 0 := by
      rintro c hc (rfl | hm)
      · exact hT
      · exact hmet c hc hm
    by_cases h₂ : nextCluster V ncl = scl
    · rw [if_pos h₂]
      refine ⟨_, _, rfl, hkept, by simp, fun v hv => .inl ⟨(Except.error.inj hv).symm, ?_⟩⟩
      exact fun c hc => hmet' c hc (met_last hc h₂)
    rw [if_neg h₂]
    rw [← hkept.table_eq] at hmet' ⊢
    obtain ⟨f', r, hfind, hkept', hr⟩ := ih (f := (getFat D V f (nextCluster V ncl)).1)
      hkept.coherent (by have := hcl.1; omega) hcl.2
      (Nat.lt_of_lt_of_le (toMeet_next hlt hncl_lt hwrap h₂) (Nat.le_of_lt_succ hfuel))
      fun c hc hm => hmet' c hc (met_next hc hm)
    exact ⟨f', r, hfind, hkept.trans hkept', hr⟩

/-! ## What an allocation makes of the table -/

/-- The table after `ncl` has been put at the end of the chain that ends with `clst`, or into a chain
of its own. -/
def Vol.link (V : Vol) (T : ℕ → ℕ) (clst ncl : ℕ) : ℕ → ℕ :=
  let T := Function.update T ncl V.eoc
  if clst ≠ 0 then Function.update T clst ncl else T

/-- **What `create_chain` has done** when it returns `v`, for the chain that ends with `clst` or a new
one. -/
structure Made (D : Drive σ) (V : Vol) (clst : ℕ) (f f' : FatFs σ) (v : ℕ) : Prop where
  wrote : Wrote D V f f'
  value : v = 0 ∨ v = 1 ∨ v = diskError ∨ V.IsCluster v
  full : v = 0 → V.table (f'.view D) = V.table (f.view D) ∧ (CountOk D V f →
    CountOk D V f' ∧ ∀ c, V.IsCluster c → V.table (f.view D) c ≠ 0)
  made : V.IsCluster v → V.table (f.view D) v = 0 ∧
    V.table (f'.view D) = V.link (V.table (f.view D)) clst v ∧ (CountOk D V f → CountOk D V f')
  failed : v = 1 ∨ v = diskError → V.fsType ≠ .fat12 → ∀ a, V.table (f.view D) a ≠ 0 →
    V.table (f'.view D) a = V.table (f.view D) a

theorem Kept.made {clst v : ℕ} (h : Kept D V f f') (h' : Made D V clst f' f'' v) :
    Made D V clst f f'' v := by
  obtain ⟨hw, hv, hfull, hmade, hfail⟩ := h'
  rw [h.table_eq] at hfull hmade hfail
  refine ⟨h.wrote.trans hw, hv, fun h₀ => ?_, fun hc => ?_, hfail⟩
  · exact ⟨(hfull h₀).1, fun hc => (hfull h₀).2 (h.countOk hc)⟩
  · exact ⟨(hmade hc).1, (hmade hc).2.1, fun hc' => (hmade hc).2.2 (h.countOk hc')⟩

/-- A call that reports an error has changed nothing. -/
theorem Kept.made_error {clst v : ℕ} (h : Kept D V f f') (hv : v = 1 ∨ v = diskError) :
    Made D V clst f f' v := by
  have hlt := V.nFatent_lt_diskError
  refine ⟨h.wrote, hv.elim (fun h => .inr (.inl h)) fun h => .inr (.inr (.inl h)), fun h₀ => ?_,
    fun hc => ?_, fun _ _ a _ => by rw [h.table_eq]⟩
  · rcases hv with rfl | rfl <;> simp [diskError] at h₀
  · obtain ⟨h₂, h₃⟩ := hc
    omega

/-- A call that finds no free cluster. -/
theorem Kept.made_full {clst : ℕ} (h : Kept D V f f')
    (hfull : CountOk D V f → ∀ c, V.IsCluster c → V.table (f.view D) c ≠ 0) :
    Made D V clst f f' 0 := by
  refine ⟨h.wrote, .inl rfl, fun _ => ⟨h.table_eq, fun hc => ⟨h.countOk hc, hfull hc⟩⟩, fun hc => ?_,
    fun he => ?_⟩
  · exact absurd hc.1 (by decide)
  · simp [diskError] at he

/-- The count after an allocation. -/
theorem countOk_took {ncl clst : ℕ} (hc : CountOk D V f) (hncl : V.IsCluster ncl)
    (hfree : V.table (f.view D) ncl = 0) (hclst : clst ≠ 0 → V.table (f.view D) clst ≠ 0)
    (hcount : f'.freeClst = f.freeClst)
    (hT : V.table (f'.view D) = V.link (V.table (f.view D)) clst ncl) :
    CountOk D V (f'.took V ncl) := by
  have heoc : V.eoc ≠ 0 := by
    have := V.nFatent_gt
    have := V.nFatent_le_eoc
    omega
  have hlink : V.freeCount (V.link (V.table (f.view D)) clst ncl) + 1 =
      V.freeCount (V.table (f.view D)) := by
    have htake := Vol.freeCount_take hncl hfree heoc
    unfold Vol.link
    by_cases h₀ : clst ≠ 0
    · have hne : clst ≠ ncl := fun he => hclst h₀ (he ▸ hfree)
      rw [if_pos h₀, Vol.freeCount_update _ (show ncl ≠ 0 by have := hncl.1; omega)]
      · exact htake
      · rw [Function.update_of_ne hne]
        exact hclst h₀
    · rw [if_neg h₀]
      exact htake
  unfold CountOk at hc ⊢
  rw [FatFs.view_took, hT]
  simp only [FatFs.took, hcount]
  intro hle
  by_cases hknown : 0 < f.freeClst ∧ f.freeClst ≤ V.nFatent - 2
  · rw [if_pos hknown]
    have := hc hknown.2
    omega
  · rw [if_neg hknown] at hle ⊢
    have := hc hle
    have := Vol.freeCount_pos hncl hfree
    omega

/-- **The end of `create_chain`**, for a free cluster `ncl`. -/
theorem linkCluster_spec (h : f.Coherent D V) {clst ncl : ℕ} (hncl : V.IsCluster ncl)
    (hfree : V.table (f.view D) ncl = 0) (hclst : clst ≠ 0 → V.table (f.view D) clst ≠ 0) :
    Made D V clst f (linkCluster D V f clst ncl).1 (linkCluster D V f clst ncl).2 := by
  have hlt := V.nFatent_lt_diskError
  have hbits := V.nFatent_lt_bits
  have hncl₂ := hncl.1
  have hncl_lt := hncl.2
  obtain ⟨ht₁, hok₁⟩ := putFat_spec (D := D) h ncl 0xFFFFFFFF
  have hkeep : V.fsType ≠ .fat12 → (putFat D V f ncl 0xFFFFFFFF).2 ≠ .ok →
      Kept D V f (putFat D V f ncl 0xFFFFFFFF).1 := putFat_fail h
  -- a failed call, with what it leaves of the table
  have herr : ∀ {f'} (r : FResult), Wrote D V f f' → (V.fsType ≠ .fat12 → ∀ a,
      V.table (f.view D) a ≠ 0 → V.table (f'.view D) a = V.table (f.view D) a) →
      Made D V clst f f' (if r = .diskErr then diskError else 1) := by
    intro f' r hw hT
    have hv : (if r = .diskErr then diskError else 1) = 1 ∨
        (if r = .diskErr then diskError else 1) = diskError := by
      split <;> simp
    refine ⟨hw, .inr (hv.imp_right .inl), fun h₀ => ?_, fun hc => ?_, fun _ => hT⟩
    · rw [h₀] at hv
      simp [diskError] at hv
    · have := hc.1
      have := hc.2
      omega
  rw [linkCluster]
  generalize putFat D V f ncl 0xFFFFFFFF = r₁ at *
  by_cases hr₁ : r₁.2 = .ok
  swap
  · rw [show (if r₁.2 = .ok ∧ clst ≠ 0 then putFat D V r₁.1 clst ncl else r₁) = r₁ from
      if_neg fun hr => hr₁ hr.1, if_neg hr₁]
    exact herr _ ht₁.wrote fun hV a _ => by rw [(hkeep hV hr₁).table_eq]
  obtain ⟨-, -, hT₁⟩ := hok₁ hr₁
  by_cases h₀ : clst ≠ 0
  swap
  · rw [show (if r₁.2 = .ok ∧ clst ≠ 0 then putFat D V r₁.1 clst ncl else r₁) = r₁ from
      if_neg fun hr => h₀ hr.2, if_pos hr₁]
    have hlink : V.table (r₁.1.view D) = V.link (V.table (f.view D)) clst ncl := by
      rw [Vol.link, if_neg h₀]
      exact hT₁
    refine ⟨ht₁.wrote.took ncl, .inr (.inr (.inr hncl)), by omega, fun _ => ⟨hfree, hlink, ?_⟩, ?_⟩
    · exact fun hc => countOk_took hc hncl hfree hclst ht₁.freeClst hlink
    · omega
  rw [show (if r₁.2 = .ok ∧ clst ≠ 0 then putFat D V r₁.1 clst ncl else r₁) =
    putFat D V r₁.1 clst ncl from if_pos ⟨hr₁, h₀⟩]
  obtain ⟨ht₂, hok₂⟩ := putFat_spec (D := D) ht₁.coherent clst ncl
  have hkeep₂ : V.fsType ≠ .fat12 → (putFat D V r₁.1 clst ncl).2 ≠ .ok →
      Kept D V r₁.1 (putFat D V r₁.1 clst ncl).1 := putFat_fail ht₁.coherent
  generalize putFat D V r₁.1 clst ncl = r₂ at *
  by_cases hr₂ : r₂.2 = .ok
  swap
  · -- the new cluster is marked, and nothing leads to it
    rw [if_neg hr₂]
    refine herr _ (ht₁.wrote.trans ht₂.wrote) fun hV a ha => ?_
    rw [(hkeep₂ hV hr₂).table_eq, hT₁, Function.update_of_ne]
    rintro rfl
    exact ha hfree
  rw [if_pos hr₂]
  have hlink : V.table (r₂.1.view D) = V.link (V.table (f.view D)) clst ncl := by
    rw [Vol.link, if_pos h₀, (hok₂ hr₂).2.2, hT₁, Nat.mod_eq_of_lt (a := ncl) (by omega)]
    rfl
  refine ⟨(ht₁.wrote.trans ht₂.wrote).took ncl, .inr (.inr (.inr hncl)), by omega,
    fun _ => ⟨hfree, hlink, fun hc => ?_⟩, by omega⟩
  exact countOk_took hc hncl hfree hclst (ht₂.freeClst.trans ht₁.freeClst) hlink

/-- The search from a cluster, and the link to what it finds. -/
theorem findAndLink_spec (h : f.Coherent D V) {clst scl : ℕ} (hscl : 1 ≤ scl)
    (hlt : scl < V.nFatent) (hclst : clst ≠ 0 → V.table (f.view D) clst ≠ 0) :
    ∃ f' v, findAndLink D V f clst scl = some (f', v) ∧ Made D V clst f f' v := by
  have hmeet : toMeet V scl scl < V.nFatent := by
    rw [toMeet, if_neg (Nat.lt_irrefl _)]
    omega
  obtain ⟨f', r, hfind, hkept, hok, herr⟩ := findFree_spec (D := D) h hlt hscl hlt hmeet
    fun c _ hm => by
      rw [Met, if_pos le_rfl] at hm
      omega
  rw [findAndLink, hfind]
  cases r with
  | ok ncl =>
    obtain ⟨hncl, hfree⟩ := hok ncl rfl
    rw [← hkept.table_eq] at hfree hclst
    exact ⟨_, _, rfl, hkept.made (linkCluster_spec hkept.coherent hncl hfree hclst)⟩
  | error v =>
    refine ⟨f', v, rfl, ?_⟩
    rcases herr v rfl with ⟨rfl, hfull⟩ | hv
    · exact hkept.made_full fun _ => hfull
    · exact hkept.made_error hv

/-- `create_chain` from the test of the free clusters on. -/
theorem newCluster_spec (h : f.Coherent D V) {clst scl : ℕ} (hscl : 1 ≤ scl)
    (hlt : scl < V.nFatent) (hclst : clst ≠ 0 → V.table (f.view D) clst ≠ 0) :
    ∃ f' v, newCluster D V f clst scl = some (f', v) ∧ Made D V clst f f' v := by
  rw [newCluster]
  by_cases h₀ : f.freeClst = 0
  · rw [if_pos h₀]
    refine ⟨f, 0, rfl, (Kept.refl h).made_full fun hc c hcl hT => ?_⟩
    have hcount := hc (by omega)
    have hpos := Vol.freeCount_pos hcl hT
    omega
  rw [if_neg h₀]
  by_cases heq : scl = clst
  swap
  · rw [if_neg heq]
    exact findAndLink_spec h hscl hlt hclst
  rw [if_pos heq]
  have hcl := isCluster_nextCluster (V := V) hscl
  obtain ⟨hkept, hget⟩ := getFat_spec (D := D) h (nextCluster V scl)
  rw [if_neg (by have := hcl.1; have := hcl.2; omega)] at hget
  dsimp only
  generalize getFat D V f (nextCluster V scl) = r at *
  by_cases hr : r.2 = 1 ∨ r.2 = diskError
  · rw [if_pos hr]
    exact ⟨r.1, r.2, rfl, hkept.made_error hr⟩
  rw [if_neg hr]
  by_cases hr₀ : r.2 ≠ 0
  · rw [if_pos hr₀]
    rw [← hkept.table_eq] at hclst
    -- the search starts at the cluster that was allocated last, if there is one
    set scl' := if 2 ≤ r.1.lastClst ∧ r.1.lastClst < V.nFatent then r.1.lastClst else scl with hscl'
    have hscl₁ : 1 ≤ scl' := by
      rw [hscl']
      split <;> omega
    have hlt' : scl' < V.nFatent := by
      rw [hscl']
      split <;> omega
    obtain ⟨f', v, hfind, hmade⟩ := findAndLink_spec (D := D) hkept.coherent hscl₁ hlt' hclst
    exact ⟨f', v, hfind, hkept.made hmade⟩
  · rw [if_neg hr₀]
    have hfree : V.table (f.view D) (nextCluster V scl) = 0 := by
      rw [← hget fun he => hr (.inr he)]
      exact not_not.1 hr₀
    rw [← hkept.table_eq] at hfree hclst
    exact ⟨_, _, rfl, hkept.made (linkCluster_spec hkept.coherent hcl hfree hclst)⟩

/-- **`create_chain`** for a new chain. -/
theorem createChain_new (h : f.Coherent D V) :
    ∃ f' v, createChain D V f 0 = some (f', v) ∧ Made D V 0 f f' v := by
  have hn := V.nFatent_gt
  rw [createChain, if_pos rfl]
  exact newCluster_spec h (by split <;> omega) (by split <;> omega) fun hne => absurd rfl hne

/-- **`create_chain`** at the end of a chain. -/
theorem createChain_last (h : f.Coherent D V) {clst : ℕ} (hclst : V.IsCluster clst)
    (hlast : V.nFatent ≤ V.table (f.view D) clst) :
    ∃ f' v, createChain D V f clst = some (f', v) ∧ Made D V clst f f' v := by
  have hn := V.nFatent_gt
  obtain ⟨h₂, hlt⟩ := hclst
  obtain ⟨hkept, hget⟩ := getFat_spec (D := D) h clst
  rw [if_neg (by omega)] at hget
  rw [createChain, if_neg (by omega)]
  dsimp only
  generalize getFat D V f clst = r at *
  by_cases hr₁ : r.2 < 2
  · rw [if_pos hr₁]
    exact ⟨r.1, 1, rfl, hkept.made_error (.inl rfl)⟩
  rw [if_neg hr₁]
  by_cases hr : r.2 = diskError
  · rw [if_pos hr]
    exact ⟨r.1, r.2, rfl, hkept.made_error (.inr hr)⟩
  rw [if_neg hr, if_neg (by rw [hget hr]; omega)]
  have hused : clst ≠ 0 → V.table (r.1.view D) clst ≠ 0 := fun _ => by
    rw [hkept.table_eq]
    omega
  obtain ⟨f', v, hnew, hmade⟩ := newCluster_spec (D := D) hkept.coherent
    (show 1 ≤ clst by omega) hlt hused
  exact ⟨f', v, hnew, hkept.made hmade⟩

/-- **`create_chain`** inside a chain finds the next cluster. -/
theorem createChain_next (h : f.Coherent D V) {clst : ℕ} (hclst : V.IsCluster clst)
    (hnext : V.IsCluster (V.table (f.view D) clst)) :
    ∃ f' v, createChain D V f clst = some (f', v) ∧ Kept D V f f' ∧
      (v = 1 ∨ v = diskError ∨ v = V.table (f.view D) clst) := by
  obtain ⟨h₂, hlt⟩ := hclst
  obtain ⟨hkept, hget⟩ := getFat_spec (D := D) h clst
  rw [if_neg (by omega)] at hget
  rw [createChain, if_neg (by omega)]
  dsimp only
  generalize getFat D V f clst = r at *
  by_cases hr₁ : r.2 < 2
  · rw [if_pos hr₁]
    exact ⟨r.1, 1, rfl, hkept, .inl rfl⟩
  rw [if_neg hr₁]
  by_cases hr : r.2 = diskError
  · rw [if_pos hr]
    exact ⟨r.1, r.2, rfl, hkept, .inr (.inl hr)⟩
  rw [if_neg hr, if_pos (by rw [hget hr]; exact hnext.2)]
  exact ⟨r.1, r.2, rfl, hkept, .inr (.inr (hget hr))⟩

/-! ## What a removal makes of the table -/

/-- What the loop of `remove_chain` has done with the chain `m`. -/
structure Freed (D : Drive σ) (V : Vol) (m : List ℕ) (f f' : FatFs σ) (r : FResult) : Prop where
  wrote : Wrote D V f f'
  done : r = .ok → (∀ a ∈ m, V.table (f'.view D) a = 0) ∧ (CountOk D V f → CountOk D V f')
  rest : r = .ok ∨ V.fsType ≠ .fat12 → ∀ a, a ∉ m →
    V.table (f'.view D) a = V.table (f.view D) a

/-- The count after a cluster has been given back. -/
theorem countOk_gaveBack {c : ℕ} (hc : CountOk D V f) (hcl : V.IsCluster c)
    (hused : V.table (f.view D) c ≠ 0) (hcount : f'.freeClst = f.freeClst)
    (hT : V.table (f'.view D) = Function.update (V.table (f.view D)) c 0) :
    CountOk D V (f'.gaveBack V) := by
  have hgive := Vol.freeCount_give hcl hused
  have hlt := Vol.freeCount_lt hcl hused
  unfold CountOk at hc ⊢
  rw [FatFs.view_gaveBack, hT]
  simp only [FatFs.gaveBack, hcount]
  intro hle
  by_cases hknown : f.freeClst < V.nFatent - 2
  · rw [if_pos hknown]
    have := hc hknown.le
    omega
  · rw [if_neg hknown] at hle ⊢
    have := hc hle
    omega

/-- **The loop of `remove_chain`** frees the clusters of the chain, one after the other. -/
theorem freeClusters_spec {m : List ℕ} {c fuel : ℕ} (h : f.Coherent D V)
    (hl : LinkTable.Linked (V.table (f.view D)) (V.nFatent ≤ ·) (c :: m)) (hnd : (c :: m).Nodup)
    (hcl : ∀ a ∈ c :: m, V.IsCluster a) (hfuel : m.length < fuel) :
    ∃ f' r, freeClusters D V fuel f c = some (f', r) ∧ Freed D V (c :: m) f f' r := by
  induction fuel generalizing f m c with
  | zero => omega
  | succ fuel ih =>
    have hn := V.nFatent_gt
    have hc := hcl c List.mem_cons_self
    have hc₂ := hc.1
    have hc_lt := hc.2
    -- the entry is the next cluster, or the end of the chain
    have hT : 2 ≤ V.table (f.view D) c := by
      cases m with
      | nil => exact hn.le.trans hl
      | cons c' m => exact hl.1 ▸ (hcl c' (by simp)).1
    obtain ⟨hkept, hget⟩ := getFat_spec (D := D) h c
    rw [if_neg (by omega)] at hget
    rw [freeClusters]
    dsimp only
    generalize getFat D V f c = g at *
    by_cases hg : g.2 = diskError
    · rw [if_neg (by rw [hg]; decide), if_neg (by rw [hg]; decide), if_pos hg]
      exact ⟨g.1, _, rfl, hkept.wrote, by simp, fun _ a _ => by rw [hkept.table_eq]⟩
    have hg' := hget hg
    rw [if_neg (by omega), if_neg (by omega), if_neg hg]
    obtain ⟨ht, hok⟩ := putFat_spec (D := D) hkept.coherent c 0
    have hkeep : V.fsType ≠ .fat12 → (putFat D V g.1 c 0).2 ≠ .ok →
      Kept D V g.1 (putFat D V g.1 c 0).1 := putFat_fail hkept.coherent
    generalize putFat D V g.1 c 0 = w at *
    by_cases hw : w.2 = .ok
    swap
    · rw [if_pos hw]
      refine ⟨w.1, w.2, rfl, hkept.wrote.trans ht.wrote, fun hr => absurd hr hw, fun hr a _ => ?_⟩
      rw [(hkeep (hr.resolve_left hw) hw).table_eq, hkept.table_eq]
    rw [if_neg (not_not.2 hw)]
    obtain ⟨-, -, hT'⟩ := hok hw
    rw [hkept.table_eq, Nat.zero_mod] at hT'
    have hwrote : Wrote D V f (w.1.gaveBack V) := (hkept.wrote.trans ht.wrote).gaveBack
    have hcount : CountOk D V f → CountOk D V (w.1.gaveBack V) := fun hc' =>
      countOk_gaveBack hc' hc (by omega) (ht.freeClst.trans hkept.freeClst) hT'
    cases m with
    | nil =>
      have hend : V.nFatent ≤ V.table (f.view D) c := hl
      rw [if_neg (by omega)]
      refine ⟨_, _, rfl, hwrote, fun _ => ⟨fun a ha => ?_, hcount⟩, fun _ a ha => ?_⟩
      · obtain rfl := List.mem_singleton.1 ha
        rw [FatFs.view_gaveBack, hT', Function.update_self]
      · rw [FatFs.view_gaveBack, hT', Function.update_of_ne fun he => ha (List.mem_singleton.2 he)]
    | cons c' m =>
      have hnext : g.2 = c' := hg'.trans hl.1
      have hc' : c ∉ c' :: m := (List.nodup_cons.1 hnd).1
      rw [if_pos (by rw [hnext]; exact (hcl c' (by simp)).2), hnext]
      have hl' : LinkTable.Linked (V.table ((w.1.gaveBack V).view D)) (V.nFatent ≤ ·) (c' :: m) := by
        refine hl.2.congr fun a ha => ?_
        rw [FatFs.view_gaveBack, hT', Function.update_of_ne (ne_of_mem_of_not_mem ha hc')]
      obtain ⟨f', r, hfree, hfreed⟩ := ih hwrote.coherent hl' (List.nodup_cons.1 hnd).2
        (fun a ha => hcl a (List.mem_cons_of_mem c ha)) (Nat.lt_of_succ_lt_succ hfuel)
      have hrest : ∀ a, a ∉ c' :: m → (r = .ok ∨ V.fsType ≠ .fat12) → V.table (f'.view D) a =
          Function.update (V.table (f.view D)) c 0 a := fun a ha hr => by
        rw [hfreed.rest hr a ha, FatFs.view_gaveBack, hT']
      refine ⟨f', r, hfree, hwrote.trans hfreed.wrote, fun hr => ⟨fun a ha => ?_, fun hc'' => ?_⟩,
        fun hr a ha => ?_⟩
      · by_cases hac : a = c
        · subst hac
          rw [hrest a hc' (.inl hr), Function.update_self]
        · exact (hfreed.done hr).1 a (List.mem_of_ne_of_mem hac ha)
      · exact (hfreed.done hr).2 (hcount hc'')
      · rw [List.mem_cons, not_or] at ha
        rw [hrest a ha.2 hr, Function.update_of_ne ha.1]

/-- **What `remove_chain` has done** with the chain `m` that follows `pclst`. -/
structure Cut (D : Drive σ) (V : Vol) (pclst : ℕ) (m : List ℕ) (f f' : FatFs σ) (r : FResult) :
    Prop where
  wrote : Wrote D V f f'
  done : r = .ok → (∀ a ∈ m, V.table (f'.view D) a = 0) ∧ (CountOk D V f → CountOk D V f')
  rest : r = .ok ∨ V.fsType ≠ .fat12 → r ≠ .ok ∧ V.table (f'.view D) = V.table (f.view D) ∨
    (pclst ≠ 0 → V.table (f'.view D) pclst = V.eoc) ∧
      ∀ a, a ∉ m → (pclst ≠ 0 → a ≠ pclst) → V.table (f'.view D) a = V.table (f.view D) a

/-- **`remove_chain`** marks the end of what stays, and frees the chain. -/
theorem removeChain_spec {m : List ℕ} {c pclst : ℕ} (h : f.Coherent D V)
    (hl : LinkTable.Linked (V.table (f.view D)) (V.nFatent ≤ ·) (c :: m)) (hnd : (c :: m).Nodup)
    (hcl : ∀ a ∈ c :: m, V.IsCluster a) (hlen : m.length < V.nFatent)
    (hp : pclst ≠ 0 → pclst ∉ c :: m ∧ V.table (f.view D) pclst ≠ 0) :
    ∃ f' r, removeChain D V f c pclst = some (f', r) ∧ Cut D V pclst (c :: m) f f' r := by
  have hc := hcl c List.mem_cons_self
  have hc₂ := hc.1
  have hc_lt := hc.2
  rw [removeChain, if_neg (by omega)]
  by_cases h₀ : pclst ≠ 0
  swap
  · rw [if_neg h₀]
    obtain ⟨f', r, hfree, hfreed⟩ := freeClusters_spec h hl hnd hcl hlen
    exact ⟨f', r, hfree, hfreed.wrote, hfreed.done, fun hr =>
      .inr ⟨fun hne => absurd hne h₀, fun a ha _ => hfreed.rest hr a ha⟩⟩
  rw [if_pos h₀]
  obtain ⟨hpm, hpT⟩ := hp h₀
  obtain ⟨ht, hok⟩ := putFat_spec (D := D) h pclst 0xFFFFFFFF
  have hkeep : V.fsType ≠ .fat12 → (putFat D V f pclst 0xFFFFFFFF).2 ≠ .ok →
    Kept D V f (putFat D V f pclst 0xFFFFFFFF).1 := putFat_fail h
  dsimp only
  generalize putFat D V f pclst 0xFFFFFFFF = w at *
  by_cases hw : w.2 = .ok
  swap
  · rw [if_pos hw]
    exact ⟨w.1, w.2, rfl, ht.wrote, fun hr => absurd hr hw, fun hr =>
      .inl ⟨hw, (hkeep (hr.resolve_left hw) hw).table_eq⟩⟩
  rw [if_neg (not_not.2 hw)]
  have hT : V.table (w.1.view D) = Function.update (V.table (f.view D)) pclst V.eoc := (hok hw).2.2
  have hl' : LinkTable.Linked (V.table (w.1.view D)) (V.nFatent ≤ ·) (c :: m) :=
    hl.congr fun a ha => by rw [hT, Function.update_of_ne (ne_of_mem_of_not_mem ha hpm)]
  obtain ⟨f', r, hfree, hfreed⟩ := freeClusters_spec ht.coherent hl' hnd hcl hlen
  refine ⟨f', r, hfree, ht.wrote.trans hfreed.wrote, fun hr => ⟨(hfreed.done hr).1, fun hcount =>
    (hfreed.done hr).2 ?_⟩, fun hr => .inr ⟨fun _ => ?_, fun a ha hap => ?_⟩⟩
  · have heoc := V.nFatent_le_eoc
    have hn := V.nFatent_gt
    unfold CountOk at hcount ⊢
    rwa [ht.freeClst, hT, Vol.freeCount_update hpT (by omega)]
  · rw [hfreed.rest hr pclst hpm, hT, Function.update_self]
  · rw [hfreed.rest hr a ha, hT, Function.update_of_ne (hap h₀)]

end

end RvvmHal.Fatfs
