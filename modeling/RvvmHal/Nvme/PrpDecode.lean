import RvvmHal.Nvme.Prp

/-!
# What the controller sees of a buffer

The two results about PRP lists. `rangeAddrs_prpRanges_setupPrp`: while the start offset and the
size fit 8178 pages, the controller decodes the fields and the list that `setup_prp` wrote to
exactly the bytes of the buffer, in order. `prpStays_iff`: for the sizes that `nvme_read` and
`nvme_write` allow, the list stays in its storage under the same condition and no other. A buffer
that does not start on a page boundary, transferred at full size, needs one entry more than there
is room for; the entries past the end of `prp_list` are the new `bar0` and `num_lbas`.
-/

namespace RvvmHal.Nvme

open Bytes

/-! ## Ranges -/

@[simp] theorem rangeAddrs_nil : rangeAddrs [] = [] := rfl

@[simp] theorem rangeAddrs_cons (r : ℕ × ℕ) (rs : List (ℕ × ℕ)) :
    rangeAddrs (r :: rs) = List.range' r.1 r.2 ++ rangeAddrs rs := rfl

theorem range'_append_range' (a k l : ℕ) :
    List.range' a k ++ List.range' (a + k) l = List.range' a (k + l) := by
  rw [List.range'_append_1]

/-- Consecutive pages from `base + 4096 * i` on describe `rest` bytes from there. -/
theorem rangeAddrs_pageRanges (base : ℕ) (k : ℕ) : ∀ (i rest : ℕ), k = (rest + 4095) / 4096 →
    (0 < rest → base + 4096 * i + rest ≤ 2 ^ 64) →
    rangeAddrs (pageRanges ((List.range' i k).map fun j => (base + 4096 * j) % 2 ^ 64) rest) =
      List.range' (base + 4096 * i) rest := by
  induction k with
  | zero =>
    intro i rest hk _
    obtain rfl : rest = 0 := by omega
    rfl
  | succ k ih =>
    intro i rest hk hle
    rw [List.range'_succ, List.map_cons, pageRanges, rangeAddrs_cons,
      Nat.mod_eq_of_lt (by omega), ih (i + 1) (rest - 4096) (by omega) (by omega)]
    rcases Nat.lt_or_ge rest 4096 with hlt | hge
    · rw [min_eq_right hlt.le, Nat.sub_eq_zero_of_le hlt.le, List.range'_zero, List.append_nil]
    · rw [min_eq_left hge, show base + 4096 * (i + 1) = base + 4096 * i + 4096 by omega,
        range'_append_range', Nat.add_sub_cancel' hge]

/-! ## Round trip -/

section RoundTrip

variable {n : NvmeObj} {m : Mem} {slot : SqSlot} {buf size : ℕ}

/-- The entries needed by a transfer that fits. -/
theorem entriesNeeded_of_fits (hfit : buf % pageSize + size ≤ 8178 * pageSize) :
    entriesNeeded buf size = (size - firstChunk buf + 4095) / 4096 ∧
      (firstChunk buf + 4096 < size → entriesNeeded buf size ≤ 8177) := by
  have hfc := firstChunk_eq buf
  simp only [pageSize] at hfit
  rw [entriesNeeded_eq (by omega)]
  exact ⟨rfl, by omega⟩

/-- A transfer that fits keeps its stores, and the list pages it names, in `prp_list`. -/
theorem setupPrpStores_of_fits (hfit : buf % pageSize + size ≤ 8178 * pageSize) :
    ∀ s ∈ setupPrpStores n buf size, s.off + 8 ≤ 65536 ∧
      (s.chain = true → n.prpList ≤ s.val ∧ s.val + 4096 ≤ n.prpList + 65536) := by
  intro s hs
  rw [setupPrpStores] at hs
  split at hs
  · simp at hs
  · rename_i hsize
    exact prpStores_fits ((entriesNeeded_of_fits hfit).2 (Nat.lt_of_not_le hsize)) 0 0 0 rfl
      (by omega) (by omega) s hs

theorem setupPrpStores_val_lt (hfit : buf % pageSize + size ≤ 8178 * pageSize) :
    ∀ s ∈ setupPrpStores n buf size, s.val < 2 ^ 64 := by
  intro s hs
  by_cases hc : s.chain = true
  · have h := (setupPrpStores_of_fits hfit s hs).2 hc
    have := prpList_lt n
    simp only [prpListPages, pageSize] at this
    omega
  · rw [setupPrpStores] at hs
    split at hs
    · simp at hs
    · -- the values of the data entries are reduced to 64 bits
      have hmem : s.val ∈ ((prpStores n.prpList (nextPage buf) (entriesNeeded buf size) 0 0 0).filter
          (!·.chain)).map (·.val) :=
        List.mem_map_of_mem (List.mem_filter.2 ⟨hs, by simpa using hc⟩)
      rw [prpStores_data _ _ _ (Nat.zero_le _)] at hmem
      obtain ⟨j, -, hj⟩ := List.mem_map.1 hmem
      omega

/-- The controller's list reads, in a memory that holds the stores of `setup_prp`, are these
stores. -/
theorem prpReads_eq (hsize : firstChunk buf + 4096 < size)
    (hfit : buf % pageSize + size ≤ 8178 * pageSize)
    (hm : ∀ s ∈ setupPrpStores n buf size, readLe m (n.prpList + s.off) 8 = s.val) :
    prpReads m buf n.prpList size = (setupPrpStores n buf size).map (·.toRead n.prpList) := by
  have hfc := firstChunk_eq buf
  have hneed := (entriesNeeded_of_fits hfit).1
  have hrest : size - min size (4096 - buf % 4096) = size - firstChunk buf := by omega
  have hstores : setupPrpStores n buf size =
      prpStores n.prpList (nextPage buf) (entriesNeeded buf size) 0 0 0 := by
    rw [setupPrpStores, if_neg (by simp only [pageSize]; omega)]
  rw [prpReads, hrest, if_neg (by omega), ← hneed, hstores]
  rw [hstores] at hm
  exact prpListReads_eq _ 0 0 0 rfl (by omega) hm

/-- **The controller decodes what the driver encoded**, in any memory that holds the stores of
`setup_prp`: the ranges concatenate to the buffer, and the list slots read are those written. -/
theorem rangeAddrs_prpRanges (hfit : buf % pageSize + size ≤ 8178 * pageSize)
    (hwrap : buf + size ≤ 2 ^ 64)
    (hm : ∀ s ∈ setupPrpStores n buf size, readLe m (n.prpList + s.off) 8 = s.val) :
    rangeAddrs (prpRanges m buf (prp2Value n buf size) size) = List.range' buf size ∧
      prpReads m buf (prp2Value n buf size) size =
        (setupPrpStores n buf size).map (·.toRead n.prpList) := by
  have hfc := firstChunk_eq buf
  rw [prpRanges, rangeAddrs_cons]
  by_cases hone : size ≤ firstChunk buf
  · -- PRP1 alone
    have hmin : min size (4096 - buf % 4096) = size := by omega
    have hlist : size ≤ firstChunk buf + pageSize := hone.trans (Nat.le_add_right _ _)
    rw [prpReads, setupPrpStores, if_pos hlist, hmin, Nat.sub_self]
    simp
  have hmin : min size (4096 - buf % 4096) = firstChunk buf := by omega
  have hnext : nextPage buf = buf + firstChunk buf := nextPage_eq (by omega)
  rw [prp2Value, if_neg hone]
  by_cases htwo : size ≤ firstChunk buf + pageSize
  · -- PRP2 is the second page
    rw [if_pos htwo, prpReads, setupPrpStores, if_pos htwo, hmin, hnext]
    simp only [pageSize] at htwo
    rw [if_neg (by omega), if_pos (by omega), if_pos (by omega), rangeAddrs_cons, rangeAddrs_nil,
      List.append_nil, range'_append_range', Nat.add_sub_cancel' (by omega)]
    exact ⟨rfl, rfl⟩
  · -- PRP2 is the list
    rw [if_neg htwo, prpReads_eq (Nat.lt_of_not_le htwo) hfit hm]
    refine ⟨?_, rfl⟩
    have hneed := (entriesNeeded_of_fits hfit).1
    have hdata : (((setupPrpStores n buf size).map (·.toRead n.prpList)).filter (!·.chain)).map
        (·.val) = (List.range' 0 (entriesNeeded buf size)).map
          fun j => (nextPage buf + 4096 * j) % 2 ^ 64 := by
      rw [List.filter_map, List.map_map, setupPrpStores, if_neg htwo]
      exact prpStores_data 0 0 0 (Nat.zero_le _)
    simp only [pageSize] at htwo
    rw [hmin, if_neg (by omega), if_neg (by omega), hdata,
      rangeAddrs_pageRanges _ _ 0 _ hneed (by omega), hnext, Nat.mul_zero, Nat.add_zero,
      range'_append_range', Nat.add_sub_cancel' (by omega)]

/-- **PRP round trip.** After `setup_prp` the ranges that the controller decodes concatenate to
the buffer, and the list slots it reads are those that were written, each as the kind of entry it
was written as. -/
theorem rangeAddrs_prpRanges_setupPrp (n : NvmeObj) (m : Mem) (slot : SqSlot) {buf size : ℕ}
    (hpos : 1 ≤ size) (hfit : buf % pageSize + size ≤ 8178 * pageSize)
    (hwrap : buf + size ≤ 2 ^ 64) :
    let m' := setupPrp n m (n.sqe slot) buf size
    let prp1 := readLe m' (n.sqe slot + sqePrp1) 8
    let prp2 := readLe m' (n.sqe slot + sqePrp2) 8
    rangeAddrs (prpRanges m' prp1 prp2 size) = List.range' buf size ∧
      prpReads m' prp1 prp2 size = (setupPrpStores n buf size).map (·.toRead n.prpList) := by
  intro m' prp1 prp2
  have h₁ : prp1 = buf := readLe_setupPrp_prp1 n m slot buf size (by omega)
  have h₂ : prp2 = prp2Value n buf size := readLe_setupPrp_prp2 n m slot buf size
  rw [h₁, h₂]
  exact rangeAddrs_prpRanges hfit hwrap fun s hs =>
    readLe_setupPrp_store n m slot buf size hs (setupPrpStores_val_lt hfit s hs)

/-- A full-size transfer from a page boundary: the whole list is in use. -/
theorem rangeAddrs_prpRanges_setupPrp_full :
    let n : NvmeObj := ⟨0x80000000, by decide, by decide⟩
    let m' := setupPrp n (fun _ => 0) (n.sqe ⟨.io, 0⟩) 0x90000000 maxSingleTransfer
    rangeAddrs (prpRanges m' (readLe m' (n.sqe ⟨.io, 0⟩ + sqePrp1) 8)
      (readLe m' (n.sqe ⟨.io, 0⟩ + sqePrp2) 8) maxSingleTransfer) =
      List.range' 0x90000000 maxSingleTransfer :=
  (rangeAddrs_prpRanges_setupPrp ⟨0x80000000, by decide, by decide⟩ (fun _ => 0) ⟨.io, 0⟩
    (by decide) (by decide) (by decide)).1

end RoundTrip

/-! ## The storage of the list -/

/-- The list pages that `setup_prp` publishes: in PRP2, and in the chain pointers. -/
def publishedPages (n : NvmeObj) (buf size : ℕ) : List ℕ :=
  if size ≤ firstChunk buf + pageSize then []
  else n.prpList :: ((setupPrpStores n buf size).filter (·.chain)).map (·.val)

/-- The list of a transfer stays in its storage: every store and every published page is inside
`prp_list`, and the members of `nvme_t` behind it keep their bytes. -/
structure PrpStays (n : NvmeObj) (m : Mem) (slot : SqSlot) (buf size : ℕ) : Prop where
  stores : ∀ s ∈ setupPrpStores n buf size, s.off + 8 ≤ prpListPages * pageSize
  pages : ∀ p ∈ publishedPages n buf size,
    n.prpList ≤ p ∧ p + pageSize ≤ n.prpList + prpListPages * pageSize
  unchanged : ∀ x, n.addr + bar0Off ≤ x → x < n.addr + sizeofNvme →
    setupPrp n m (n.sqe slot) buf size x = m x

section Storage

variable {n : NvmeObj} {m : Mem} {slot : SqSlot} {buf size : ℕ}

theorem prpStays_of_fits (hfit : buf % pageSize + size ≤ 8178 * pageSize) :
    PrpStays n m slot buf size where
  stores s hs := (setupPrpStores_of_fits hfit s hs).1
  pages p hp := by
    rw [publishedPages] at hp
    split at hp
    · simp at hp
    rcases List.mem_cons.1 hp with rfl | hp
    · simp only [prpListPages, pageSize]
      omega
    · obtain ⟨s, hs, rfl⟩ := List.mem_map.1 hp
      obtain ⟨hs, hc⟩ := List.mem_filter.1 hs
      exact (setupPrpStores_of_fits hfit s hs).2 hc
  unchanged x h₁ h₂ := by
    simp only [bar0Off, prpListOff, prpListPages, pageSize] at h₁
    refine setupPrp_of_ge n m slot buf size ?_ fun s hs => ?_
    · simp only [NvmeObj.prpList, prpListOff, pageSize]
      omega
    · have := (setupPrpStores_of_fits hfit s hs).1
      simp only [NvmeObj.prpList, prpListOff, pageSize]
      omega

/-- An entry too many: the first list page behind `prp_list` gets the data entry that the chain
pointer of the last page displaced. -/
theorem mem_setupPrpStores_overrun (hmax : size ≤ maxSingleTransfer)
    (hfit : ¬ buf % pageSize + size ≤ 8178 * pageSize) :
    ⟨prpListPages * pageSize, (nextPage buf + pageSize * 8176) % 2 ^ 64, false⟩ ∈
      setupPrpStores n buf size := by
  have hfc := firstChunk_eq buf
  simp only [maxSingleTransfer, pageSize] at hmax hfit
  rw [setupPrpStores, if_neg (by simp only [pageSize]; omega)]
  exact mem_prpStores_after_chain 15 (by rw [entriesNeeded_eq (by omega)]; omega) 0 0 0 rfl
    (by omega) (by omega)

theorem PrpStays.fits (h : PrpStays n m slot buf size) (hmax : size ≤ maxSingleTransfer) :
    buf % pageSize + size ≤ 8178 * pageSize := by
  by_contra hfit
  have := h.stores _ (mem_setupPrpStores_overrun hmax hfit)
  simp only at this
  omega

/-- **The list stays in its storage exactly when offset and size together fit.** The callers of
`setup_prp` bound the size only. -/
theorem prpStays_iff (n : NvmeObj) (m : Mem) (slot : SqSlot) (buf : ℕ) {size : ℕ}
    (hmax : size ≤ maxSingleTransfer) :
    PrpStays n m slot buf size ↔ buf % pageSize + size ≤ 8178 * pageSize :=
  ⟨fun h => h.fits hmax, prpStays_of_fits⟩

/-- A buffer half a page into its page, transferred at full size, and the same transfer one page
shorter. -/
theorem prpStays_iff_half_page :
    let n : NvmeObj := ⟨0x80000000, by decide, by decide⟩
    ¬ PrpStays n (fun _ => 0) ⟨.io, 0⟩ 0x90000800 maxSingleTransfer ∧
      PrpStays n (fun _ => 0) ⟨.io, 0⟩ 0x90000800 (maxSingleTransfer - pageSize) :=
  ⟨fun h => absurd ((prpStays_iff _ _ _ _ (by decide)).1 h) (by decide),
    (prpStays_iff _ _ _ _ (by decide)).2 (by decide)⟩

/-- **A full-size transfer of a misaligned buffer overwrites `bar0`** with the address of a page
of the buffer. -/
theorem bar0_overwritten :
    let n : NvmeObj := ⟨0x80000000, by decide, by decide⟩
    let m : Mem := fun _ => 0
    ¬ PrpStays n m ⟨.io, 0⟩ 0x90000200 maxSingleTransfer ∧
      readLe (setupPrp n m (n.sqe ⟨.io, 0⟩) 0x90000200 maxSingleTransfer) (n.addr + bar0Off) 8 =
        0x90001000 + pageSize * 8176 := by
  intro n m
  have hmem : ⟨prpListPages * pageSize, (nextPage 0x90000200 + pageSize * 8176) % 2 ^ 64, false⟩ ∈
      setupPrpStores n 0x90000200 maxSingleTransfer :=
    mem_setupPrpStores_overrun le_rfl (by decide)
  have hnext : nextPage 0x90000200 = 0x90001000 := by
    rw [nextPage_eq (by rw [firstChunk_eq]; decide), firstChunk_eq]
  refine ⟨fun h => absurd (h.fits le_rfl) (by decide), ?_⟩
  rw [n.addr_add_bar0Off, readLe_setupPrp_store n m ⟨.io, 0⟩ _ _ hmem (Nat.mod_lt _ (by decide)),
    hnext]
  rfl

end Storage

end RvvmHal.Nvme
