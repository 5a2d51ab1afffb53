import RvvmHal.Nvme.Entry

/-!
# PRP lists

`setupPrp` describes a buffer to the controller: one address, two addresses, or the address of a
list of pages of addresses whose full pages end in a chain pointer. `prpRanges` is the controller's
reading of the two PRP fields. The writer counts data entries and slots separately; along its loop
`i = 511 * curPage + slot`, and from this the two sides agree at every page boundary
(`prpListReads_eq`).

The list has room for a transfer whose start offset in its page and size together take at most
8178 pages. `prpStays_iff` says that the stores stay in `prp_list` exactly then; the size
alone, which is all that the callers bound, is not enough.
-/

namespace RvvmHal.Nvme

open Bytes

/-! ## The writer -/

/-- A store of the list loop: an 8-byte entry at a byte offset of `prp_list`, which either is a
data entry or chains to the next list page. -/
structure ListStore where
  off : ℕ
  val : ℕ
  chain : Bool
  deriving DecidableEq

/-- The stores of the `while` loop of `setup_prp`, in program order. At most `2 ^ 20` entries are
needed, so none of the 32-bit counters and offsets can wrap. -/
def prpStores (prpList listBase needed curPage slot i : ℕ) : List ListStore :=
  if i < needed then
    if slot = entriesPerListPage - 1 ∧ i + 1 < needed then
      ⟨pageSize * curPage + 8 * slot, prpList + pageSize * (curPage + 1), true⟩ ::
        prpStores prpList listBase needed (curPage + 1) 0 i
    else
      ⟨pageSize * curPage + 8 * slot, (listBase + pageSize * i) % 2 ^ 64, false⟩ ::
        prpStores prpList listBase needed curPage (slot + 1) (i + 1)
  else []
termination_by 2 * (needed - i) + (if slot = entriesPerListPage - 1 then 1 else 0)
decreasing_by
  · rename_i hc
    rw [if_neg (by decide), if_pos hc.1]
    omega
  · split <;> split <;> omega

/-- `first_chunk`: the bytes from `buf` to the end of its page. -/
def firstChunk (buf : ℕ) : ℕ := pageSize - (buf &&& (pageSize - 1))

/-- `(addr + first_chunk) & ~(uint64_t)(NVME_PAGE_SIZE - 1)`: the page after the first one. -/
def nextPage (buf : ℕ) : ℕ := (buf + firstChunk buf) % 2 ^ 64 &&& (2 ^ 64 - pageSize)

/-- `entries_needed`. -/
def entriesNeeded (buf size : ℕ) : ℕ :=
  (size - firstChunk buf + pageSize - 1) % 2 ^ 32 / pageSize

/-- The stores that `setup_prp` makes to `prp_list`: none unless the transfer needs a list. -/
def setupPrpStores (n : NvmeObj) (buf size : ℕ) : List ListStore :=
  if size ≤ firstChunk buf + pageSize then []
  else prpStores n.prpList (nextPage buf) (entriesNeeded buf size) 0 0 0

/-- `setup_prp`. -/
def setupPrp (n : NvmeObj) (m : Mem) (sqe buf size : ℕ) : Mem :=
  let m := sqeW64 m sqe sqePrp1 buf
  if size ≤ firstChunk buf then sqeW64 m sqe sqePrp2 0
  else if size ≤ firstChunk buf + pageSize then sqeW64 m sqe sqePrp2 (nextPage buf)
  else
    let m := (setupPrpStores n buf size).foldl (fun m s => prpListW64 n m s.off s.val) m
    sqeW64 m sqe sqePrp2 n.prpList

/-! ## The reader -/

/-- A slot of a PRP list as the controller reads it. -/
structure ListRead where
  addr : ℕ
  val : ℕ
  chain : Bool
  deriving DecidableEq

/-- The list slots the controller reads when `pages` pages are undescribed and it stands at slot
`slot` of the list page at `ptr`. The last slot of a page is a chain pointer exactly when more than
one page is undescribed. -/
def prpListReads (m : Mem) : ℕ → ℕ → ℕ → List ListRead
  | 0, _, _ => []
  | pages + 1, ptr, slot =>
    let e := readLe m (ptr + 8 * slot) 8
    if slot = 511 ∧ 1 < pages + 1 then
      ⟨ptr + 8 * slot, e, true⟩ :: ⟨e, readLe m e 8, false⟩ :: prpListReads m pages e 1
    else ⟨ptr + 8 * slot, e, false⟩ :: prpListReads m pages ptr (slot + 1)

/-- The pages at the given addresses cover `rest` bytes, the last one possibly in part. -/
def pageRanges : List ℕ → ℕ → List (ℕ × ℕ)
  | [], _ => []
  | a :: as, rest => (a, min 4096 rest) :: pageRanges as (rest - 4096)

/-- The list slots the controller reads for a transfer of `size` bytes. -/
def prpReads (m : Mem) (prp1 prp2 size : ℕ) : List ListRead :=
  let rest := size - min size (4096 - prp1 % 4096)
  if rest ≤ 4096 then [] else prpListReads m ((rest + 4095) / 4096) prp2 0

/-- **The controller's decoding of PRP1 and PRP2**: the byte ranges `(address, length)` of a
transfer of `size` bytes. -/
def prpRanges (m : Mem) (prp1 prp2 size : ℕ) : List (ℕ × ℕ) :=
  let first := min size (4096 - prp1 % 4096)
  let rest := size - first
  (prp1, first) ::
    if rest = 0 then []
    else if rest ≤ 4096 then [(prp2, rest)]
    else pageRanges (((prpReads m prp1 prp2 size).filter (!·.chain)).map (·.val)) rest

/-- The byte addresses of a list of ranges, in order. -/
def rangeAddrs (rs : List (ℕ × ℕ)) : List ℕ := rs.flatMap fun r => List.range' r.1 r.2

/-! ## Arithmetic of the writer -/

theorem firstChunk_eq (buf : ℕ) : firstChunk buf = 4096 - buf % 4096 :=
  congrArg (4096 - ·) (Word.and_low_mask buf 12)

theorem nextPage_eq {buf : ℕ} (h : buf + firstChunk buf < 2 ^ 64) :
    nextPage buf = buf + firstChunk buf := by
  rw [nextPage, show pageSize = 4096 from rfl, Nat.mod_eq_of_lt h, Word.and_not4095 h]
  rw [firstChunk_eq] at *
  omega

/-- The entries needed, when the 32-bit sum does not wrap. -/
theorem entriesNeeded_eq {buf size : ℕ} (h : size < 2 ^ 31) :
    entriesNeeded buf size = (size - firstChunk buf + 4095) / 4096 := by
  rw [entriesNeeded, show pageSize = 4096 from rfl, Nat.mod_eq_of_lt (by omega),
    Nat.add_sub_assoc (by omega)]

/-! ## The loop

Every lemma is an induction along the loop with the invariant `i = 511 * curPage + slot`, where
`slot` passes 511 only when the loop is over. -/

section Loop

variable {prpList listBase needed : ℕ}

/-- The stores move forward through the list. -/
theorem prpStores_off_ge (curPage slot i : ℕ) :
    ∀ s ∈ prpStores prpList listBase needed curPage slot i, 4096 * curPage + 8 * slot ≤ s.off := by
  fun_induction prpStores prpList listBase needed curPage slot i with
  | case1 curPage slot i hi hc ih =>
    intro s hs
    rcases List.mem_cons.1 hs with rfl | hs
    · simp only [pageSize, le_refl]
    · have hs := ih s hs
      have hslot : slot ≤ 511 := hc.1.le
      omega
  | case2 curPage slot i hi hc ih =>
    intro s hs
    rcases List.mem_cons.1 hs with rfl | hs
    · simp only [pageSize, le_refl]
    · have := ih s hs
      omega
  | case3 curPage slot i hi => simp

/-- No two stores of the loop overlap. -/
theorem prpStores_pairwise (curPage slot i : ℕ) :
    (prpStores prpList listBase needed curPage slot i).Pairwise fun s s' => s.off + 8 ≤ s'.off := by
  fun_induction prpStores prpList listBase needed curPage slot i with
  | case1 curPage slot i hi hc ih =>
    refine List.pairwise_cons.2 ⟨fun s hs => ?_, ih⟩
    have hs := prpStores_off_ge _ _ _ s hs
    have hslot : slot ≤ 511 := hc.1.le
    simp only [pageSize]
    omega
  | case2 curPage slot i hi hc ih =>
    refine List.pairwise_cons.2 ⟨fun s hs => ?_, ih⟩
    have := prpStores_off_ge _ _ _ s hs
    simp only [pageSize]
    omega
  | case3 curPage slot i hi => exact List.Pairwise.nil

/-- **The capacity of the list**: up to 8177 entries the stores, and the list pages the chain
pointers name, lie in the 16 pages of `prp_list`. -/
theorem prpStores_fits (hn : needed ≤ 8177) (curPage slot i : ℕ) (hi : i = 511 * curPage + slot)
    (hslot : i < needed → slot ≤ 511) (hp : curPage ≤ 15) :
    ∀ s ∈ prpStores prpList listBase needed curPage slot i,
      s.off + 8 ≤ 65536 ∧ (s.chain = true → prpList ≤ s.val ∧ s.val + 4096 ≤ prpList + 65536) := by
  fun_induction prpStores prpList listBase needed curPage slot i with
  | case1 curPage slot i hlt hc ih =>
    simp only [entriesPerListPage] at hc
    intro s hs
    rcases List.mem_cons.1 hs with rfl | hs
    · simp only [pageSize]
      omega
    · exact ih (by omega) (by omega) (by omega) s hs
  | case2 curPage slot i hlt hc ih =>
    simp only [entriesPerListPage] at hc
    have := hslot hlt
    intro s hs
    rcases List.mem_cons.1 hs with rfl | hs
    · refine ⟨by simp only [pageSize]; omega, by simp⟩
    · exact ih (by omega) (by omega) (by omega) s hs
  | case3 curPage slot i hlt => simp

/-- The first slot of page `p + 1` then holds the data entry that the chain pointer displaced. -/
theorem mem_prpStores_after_chain (p : ℕ) (hn : 511 * p + 512 < needed) (curPage slot i : ℕ)
    (hi : i = 511 * curPage + slot) (hslot : slot ≤ 511) (hp : curPage ≤ p) :
    ⟨4096 * (p + 1), (listBase + 4096 * (511 * p + 511)) % 2 ^ 64, false⟩ ∈
      prpStores prpList listBase needed curPage slot i := by
  fun_induction prpStores prpList listBase needed curPage slot i with
  | case1 curPage slot i hlt hc ih =>
    simp only [entriesPerListPage] at hc
    rcases Nat.eq_or_lt_of_le hp with rfl | hp
    · have hi' : i = 511 * curPage + 511 := by omega
      refine List.mem_cons_of_mem _ ?_
      rw [prpStores, if_pos hlt, if_neg (by simp only [entriesPerListPage]; omega), hi']
      exact List.mem_cons_self
    · exact List.mem_cons_of_mem _ (ih (by omega) (by omega) hp)
  | case2 curPage slot i hlt hc ih =>
    simp only [entriesPerListPage] at hc
    exact List.mem_cons_of_mem _ (ih (by omega) (by omega) hp)
  | case3 curPage slot i hlt => omega

/-- The data entries of the list are the pages from `listBase` on, each once and in order. -/
theorem prpStores_data (curPage slot i : ℕ) (hi : i ≤ needed) :
    ((prpStores prpList listBase needed curPage slot i).filter (!·.chain)).map (·.val) =
      (List.range' i (needed - i)).map fun j => (listBase + 4096 * j) % 2 ^ 64 := by
  fun_induction prpStores prpList listBase needed curPage slot i with
  | case1 curPage slot i hlt hc ih =>
    rw [List.filter_cons_of_neg (by simp), ih hi]
  | case2 curPage slot i hlt hc ih =>
    rw [List.filter_cons_of_pos (by simp), List.map_cons, ih (by omega),
      show needed - i = needed - (i + 1) + 1 by omega, List.range'_succ, List.map_cons]
  | case3 curPage slot i hlt => simp [Nat.sub_eq_zero_of_le (Nat.le_of_not_lt hlt)]

/-- The slot of a store as the controller addresses it. -/
def ListStore.toRead (prpList : ℕ) (s : ListStore) : ListRead :=
  ⟨prpList + s.off, s.val, s.chain⟩

/-- **The reader follows the writer**: in a memory that holds the stores of the loop, the
controller reads exactly the slots that were written, data entries as data entries and chain
pointers as chain pointers. -/
theorem prpListReads_eq (m : Mem) (curPage slot i : ℕ) (hi : i = 511 * curPage + slot)
    (hslot : i < needed → slot ≤ 511)
    (hm : ∀ s ∈ prpStores prpList listBase needed curPage slot i,
      readLe m (prpList + s.off) 8 = s.val) :
    prpListReads m (needed - i) (prpList + 4096 * curPage) slot =
      (prpStores prpList listBase needed curPage slot i).map (·.toRead prpList) := by
  induction hk : needed - i generalizing curPage slot i with
  | zero =>
    rw [prpStores, if_neg (by omega)]
    rfl
  | succ k ih =>
    have hlt : i < needed := by omega
    have hs := hslot hlt
    rw [prpStores, if_pos hlt] at hm ⊢
    by_cases hc : slot = entriesPerListPage - 1 ∧ i + 1 < needed
    · -- the chain pointer and the data entry behind it, read in one step
      rw [if_pos hc] at hm ⊢
      simp only [entriesPerListPage, pageSize] at hc hm ⊢
      rw [prpStores, if_pos hlt, if_neg (by simp only [entriesPerListPage]; omega)] at hm ⊢
      simp only [pageSize, Nat.mul_zero, Nat.add_zero, zero_add] at hm ⊢
      have h₁ := hm _ List.mem_cons_self
      have h₂ := hm _ (List.mem_cons_of_mem _ List.mem_cons_self)
      simp only at h₁ h₂
      rw [prpListReads, if_pos ⟨by omega, by omega⟩]
      have haddr : prpList + 4096 * curPage + 8 * slot = prpList + (4096 * curPage + 8 * slot) := by
        omega
      simp only [haddr, h₁, List.map_cons, h₂]
      rw [ih (curPage + 1) 1 (i + 1) (by omega) (by omega)
        (fun s hs => hm s (by simp [hs])) (by omega)]
      rfl
    · rw [if_neg hc] at hm ⊢
      simp only [entriesPerListPage, pageSize] at hc hm ⊢
      have h₁ := hm _ List.mem_cons_self
      simp only at h₁
      rw [prpListReads, if_neg (by omega)]
      have haddr : prpList + 4096 * curPage + 8 * slot = prpList + (4096 * curPage + 8 * slot) := by
        omega
      simp only [haddr, h₁, List.map_cons]
      rw [ih curPage (slot + 1) (i + 1) (by omega) (by omega)
        (fun s hs => hm s (by simp [hs])) (by omega)]
      rfl

end Loop

/-! ## The memory after `setup_prp` -/

/-- The bytes that the list stores write. -/
def prpListWrites (n : NvmeObj) (ss : List ListStore) : List (ℕ × List UInt8) :=
  ss.map fun s => (n.prpList + s.off, leBytes 8 s.val)

/-- The value `setup_prp` leaves in PRP2. -/
def prp2Value (n : NvmeObj) (buf size : ℕ) : ℕ :=
  if size ≤ firstChunk buf then 0
  else if size ≤ firstChunk buf + pageSize then nextPage buf
  else n.prpList

theorem foldl_prpListW64 (n : NvmeObj) (ss : List ListStore) (m : Mem) :
    ss.foldl (fun m s => prpListW64 n m s.off s.val) m = writeAll m (prpListWrites n ss) := by
  induction ss generalizing m with
  | nil => rfl
  | cons s ss ih => rw [List.foldl_cons, ih, prpListW64_eq]; rfl

/-- `setup_prp` is one write of PRP1, the writes of the list, and one write of PRP2. -/
theorem setupPrp_eq (n : NvmeObj) (m : Mem) (sqe buf size : ℕ) :
    setupPrp n m sqe buf size =
      writeBytes (writeAll (writeBytes m (sqe + 0x18) (leBytes 8 buf))
        (prpListWrites n (setupPrpStores n buf size))) (sqe + 0x20)
        (leBytes 8 (prp2Value n buf size)) := by
  simp only [setupPrp, prp2Value, sqeW64_eq, foldl_prpListW64]
  split
  · rw [setupPrpStores, if_pos (by omega)]
    rfl
  · split
    · rw [setupPrpStores, if_pos (by assumption)]
      rfl
    · rfl

section Memory

variable (n : NvmeObj) (m : Mem) (slot : SqSlot) (buf size : ℕ)

theorem mem_prpListWrites {ss : List ListStore} {w : ℕ × List UInt8}
    (hw : w ∈ prpListWrites n ss) : n.prpList ≤ w.1 ∧ w.2.length = 8 := by
  obtain ⟨s, -, rfl⟩ := List.mem_map.1 hw
  exact ⟨Nat.le_add_right _ _, length_leBytes ..⟩

theorem setupPrpStores_pairwise :
    (setupPrpStores n buf size).Pairwise fun s s' => s.off + 8 ≤ s'.off := by
  rw [setupPrpStores]
  split
  · exact List.Pairwise.nil
  · exact prpStores_pairwise ..

theorem prpListWrites_pairwise :
    (prpListWrites n (setupPrpStores n buf size)).Pairwise WritesDisjoint := by
  refine List.pairwise_map.2 ((setupPrpStores_pairwise n buf size).imp fun {s s'} h => Or.inl ?_)
  simp only [length_leBytes]
  omega

/-- **Frame rule** for `setup_prp`: below the list it changes nothing but PRP1 and PRP2. -/
theorem setupPrp_of_lt {x : ℕ} (hx : x < n.prpList)
    (h : x < n.sqe slot + sqePrp1 ∨ n.sqe slot + sqePrp2 + 8 ≤ x) :
    setupPrp n m (n.sqe slot) buf size x = m x := by
  simp only [sqePrp1, sqePrp2] at h
  rw [setupPrp_eq, writeBytes_of_not_mem _ _ _ (by rw [length_leBytes]; omega),
    writeAll_of_not_mem _ _ fun w hw => Or.inl (hx.trans_le (mem_prpListWrites n hw).1),
    writeBytes_of_not_mem _ _ _ (by rw [length_leBytes]; omega)]

/-- **Frame rule** for `setup_prp`: above the list it changes only what the list stores cover. -/
theorem setupPrp_of_ge {x : ℕ} (hx : n.prpList ≤ x)
    (h : ∀ s ∈ setupPrpStores n buf size, n.prpList + s.off + 8 ≤ x) :
    setupPrp n m (n.sqe slot) buf size x = m x := by
  have hs := (n.sqe_bounds slot).2
  rw [setupPrp_eq, writeBytes_of_not_mem _ _ _ (by rw [length_leBytes]; omega),
    writeAll_of_not_mem _ _ fun w hw => ?_,
    writeBytes_of_not_mem _ _ _ (by rw [length_leBytes]; omega)]
  obtain ⟨s, hs, rfl⟩ := List.mem_map.1 hw
  exact Or.inr (by simpa using h s hs)

theorem readLe_setupPrp_prp1 (hbuf : buf < 2 ^ 64) :
    readLe (setupPrp n m (n.sqe slot) buf size) (n.sqe slot + sqePrp1) 8 = buf := by
  have hs := (n.sqe_bounds slot).2
  simp only [sqePrp1]
  rw [setupPrp_eq, readLe_writeBytes_of_disjoint _ _ _ (Or.inl (by omega)), readLe,
    readBytes_congr (writeBytes m (n.sqe slot + 0x18) (leBytes 8 buf)) fun x h₁ h₂ => ?_,
    ← readLe, readLe_writeBytes_leBytes _ _ hbuf]
  exact writeAll_of_not_mem _ _ fun w hw => Or.inl (by have := (mem_prpListWrites n hw).1; omega)

theorem nextPage_lt (buf : ℕ) : nextPage buf < 2 ^ 64 :=
  Nat.and_lt_two_pow _ (by decide)

theorem prpList_lt : n.prpList + prpListPages * pageSize < 2 ^ 64 := by
  have := n.fits
  simp only [NvmeObj.prpList, sizeofNvme, bar0Off, prpListOff, prpListPages, pageSize] at *
  omega

theorem readLe_setupPrp_prp2 :
    readLe (setupPrp n m (n.sqe slot) buf size) (n.sqe slot + sqePrp2) 8 = prp2Value n buf size := by
  have hlt : prp2Value n buf size < 2 ^ 64 := by
    rw [prp2Value]
    split_ifs
    · omega
    · exact nextPage_lt buf
    · exact lt_of_le_of_lt (Nat.le_add_right _ _) (prpList_lt n)
  rw [setupPrp_eq, readLe_writeBytes_leBytes _ _ hlt]

/-- After `setup_prp` the list holds every store of the loop. -/
theorem readLe_setupPrp_store {s : ListStore} (hs : s ∈ setupPrpStores n buf size)
    (hval : s.val < 2 ^ 64) :
    readLe (setupPrp n m (n.sqe slot) buf size) (n.prpList + s.off) 8 = s.val := by
  have hb := (n.sqe_bounds slot).2
  have hw : (n.prpList + s.off, leBytes 8 s.val) ∈ prpListWrites n (setupPrpStores n buf size) :=
    List.mem_map_of_mem hs
  have hread := readBytes_writeAll _ (writeBytes m (n.sqe slot + 0x18) (leBytes 8 buf))
    (prpListWrites_pairwise n buf size) hw
  rw [length_leBytes] at hread
  rw [setupPrp_eq, readLe_writeBytes_of_disjoint _ _ _ (Or.inr (by rw [length_leBytes]; omega)),
    readLe, hread, ofLe_leBytes hval]

end Memory

end RvvmHal.Nvme
