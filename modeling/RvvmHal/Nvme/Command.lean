import RvvmHal.Nvme.PrpDecode
import RvvmHal.Nvme.Disk

/-!
# I/O commands

The submission queue entry that `io_cmd` builds, and the command that a controller decodes from an
entry: opcode, starting sector, number of sectors, flags and the addresses of the data, in order.
`decode_ioSqe` is the round trip between the two.
-/

namespace RvvmHal.Nvme

open Bytes

/-! ## The encoder -/

/-- `SQE_CDW0`. -/
abbrev sqeCdw0 : ℕ := 0x00

/-- `NVME_NSID`. -/
abbrev nvmeNsid : ℕ := 1

/-- `IO_FLUSH`. -/
abbrev ioFlush : ℕ := 0x00

/-- `IO_WRITE`. -/
abbrev ioWrite : ℕ := 0x01

/-- `IO_READ`. -/
abbrev ioRead : ℕ := 0x02

/-- The entry that `io_cmd` builds, at the address `sqe`. -/
def ioSqe (n : NvmeObj) (m : Mem) (sqe opcode cid lba buf size nlb : ℕ) : Mem :=
  let m := writeBytes m sqe (List.replicate 64 0)
  let m := sqeW8 m sqe sqeCdw0 opcode
  let m := sqeW16 m sqe sqeCid cid
  let m := sqeW32 m sqe sqeNsid nvmeNsid
  let m := if size = 0 then m else setupPrp n m sqe buf size
  let m := sqeW32 m sqe sqeCdw10 (lba % 2 ^ 32)
  let m := sqeW32 m sqe sqeCdw11 ((lba >>> 32) % 2 ^ 32)
  sqeW32 m sqe sqeCdw12 (if nlb = 0 then 0 else nlb - 1)

/-! ## The decoder -/

/-- A command as the controller decodes it: the number of sectors is 0-based in the entry, and
`flags` is the other half of its dword. -/
structure Cmd where
  opcode : ℕ
  nsid : ℕ
  slba : ℕ
  nlb : ℕ
  flags : ℕ
  addrs : List ℕ
  deriving DecidableEq

/-- The command in the entry at the address `sqe`. -/
def decode (m : Mem) (sqe : ℕ) : Cmd where
  opcode := readLe m (sqe + sqeCdw0) 1
  nsid := readLe m (sqe + sqeNsid) 4
  slba := readLe m (sqe + sqeCdw10) 8
  nlb := readLe m (sqe + sqeCdw12) 2 + 1
  flags := readLe m (sqe + sqeCdw12 + 2) 2
  addrs := rangeAddrs (prpRanges m (readLe m (sqe + sqePrp1) 8) (readLe m (sqe + sqePrp2) 8)
    (lbaSize * (readLe m (sqe + sqeCdw12) 2 + 1)))

/-! ## Round trip -/

section

variable (n : NvmeObj) (m : Mem) (slot : SqSlot) (opcode cid lba buf size nlb : ℕ)

/-- The entry before the PRP fields: zeroed, with opcode, CID and namespace. -/
def ioSqeHead (m : Mem) (sqe opcode cid : ℕ) : Mem :=
  sqeW32 (sqeW16 (sqeW8 (writeBytes m sqe (List.replicate 64 0)) sqe sqeCdw0 opcode) sqe sqeCid cid)
    sqe sqeNsid nvmeNsid

/-- The entry with its PRP fields. -/
def ioSqePrp (n : NvmeObj) (m : Mem) (sqe opcode cid buf size : ℕ) : Mem :=
  if size = 0 then ioSqeHead m sqe opcode cid
  else setupPrp n (ioSqeHead m sqe opcode cid) sqe buf size

/-- The last three fields of the entry are one write of the starting sector and one of CDW12. -/
theorem ioSqe_eq (sqe : ℕ) : ioSqe n m sqe opcode cid lba buf size nlb =
    writeBytes (writeBytes (ioSqePrp n m sqe opcode cid buf size) (sqe + 0x28) (leBytes 8 lba))
      (sqe + 0x30) (leBytes 4 (if nlb = 0 then 0 else nlb - 1)) := by
  rw [← sqeW64_eq, ← sqeW32_eq]
  rfl

/-- What the last two writes leave. -/
theorem ioSqe_apply {sqe x : ℕ} (h : x < sqe + 0x28 ∨ sqe + 0x34 ≤ x) :
    ioSqe n m sqe opcode cid lba buf size nlb x = ioSqePrp n m sqe opcode cid buf size x := by
  rw [ioSqe_eq, writeBytes_of_not_mem _ _ _ (by rw [length_leBytes]; omega),
    writeBytes_of_not_mem _ _ _ (by rw [length_leBytes]; omega)]

theorem readLe_ioSqe {sqe a k : ℕ} (h : a + k ≤ sqe + 0x28 ∨ sqe + 0x34 ≤ a) :
    readLe (ioSqe n m sqe opcode cid lba buf size nlb) a k =
      readLe (ioSqePrp n m sqe opcode cid buf size) a k :=
  readLe_congr _ fun _ _ _ => ioSqe_apply _ _ _ _ _ _ _ _ (by omega)

theorem ioSqePrp_apply {x : ℕ} (h : x < n.sqe slot + 0x18) :
    ioSqePrp n m (n.sqe slot) opcode cid buf size x = ioSqeHead m (n.sqe slot) opcode cid x := by
  have hs := (n.sqe_bounds slot).2
  unfold ioSqePrp
  split
  · rfl
  · exact setupPrp_of_lt n _ slot buf size (by omega) (Or.inl h)

theorem ioSqe_slba (sqe : ℕ) (hlba : lba < 2 ^ 64) :
    readLe (ioSqe n m sqe opcode cid lba buf size nlb) (sqe + sqeCdw10) 8 = lba := by
  rw [ioSqe_eq, readLe_writeBytes_of_disjoint _ _ _ (Or.inl (by simp only [sqeCdw10]; omega)),
    readLe_writeBytes_leBytes _ _ hlba]

theorem ioSqe_opcode (hop : opcode < 256) :
    readLe (ioSqe n m (n.sqe slot) opcode cid lba buf size nlb) (n.sqe slot + sqeCdw0) 1 =
      opcode := by
  rw [readLe_ioSqe _ _ _ _ _ _ _ _ (by simp only [sqeCdw0]; omega),
    readLe_congr (ioSqeHead m (n.sqe slot) opcode cid)
      fun x _ hx => ioSqePrp_apply _ _ _ _ _ _ _ (by simp only [sqeCdw0] at hx; omega),
    ioSqeHead, sqeW32_eq, sqeW16_eq,
    readLe_writeBytes_of_disjoint _ _ _ (Or.inl (by simp only [sqeCdw0, sqeNsid]; omega)),
    readLe_writeBytes_of_disjoint _ _ _ (Or.inl (by simp only [sqeCdw0, sqeCid]; omega))]
  exact readLe_writeBytes_leBytes (n := 1) _ _ hop

theorem ioSqe_nsid :
    readLe (ioSqe n m (n.sqe slot) opcode cid lba buf size nlb) (n.sqe slot + sqeNsid) 4 =
      nvmeNsid := by
  rw [readLe_ioSqe _ _ _ _ _ _ _ _ (by simp only [sqeNsid]; omega),
    readLe_congr (ioSqeHead m (n.sqe slot) opcode cid)
      fun x _ hx => ioSqePrp_apply _ _ _ _ _ _ _ (by simp only [sqeNsid] at hx; omega),
    ioSqeHead, sqeW32_eq, readLe_writeBytes_leBytes _ _ (by decide)]

/-- The halves of CDW12: the 0-based number of sectors, and no flags. -/
theorem ioSqe_cdw12 (sqe : ℕ) (hpos : 1 ≤ nlb) (hnlb : nlb ≤ 2 ^ 16) :
    readLe (ioSqe n m sqe opcode cid lba buf size nlb) (sqe + sqeCdw12) 2 = nlb - 1 ∧
      readLe (ioSqe n m sqe opcode cid lba buf size nlb) (sqe + sqeCdw12 + 2) 2 = 0 := by
  have hfull : readLe (ioSqe n m sqe opcode cid lba buf size nlb) (sqe + sqeCdw12) 4 = nlb - 1 := by
    rw [ioSqe_eq, readLe_writeBytes_leBytes _ _ (by split <;> omega), if_neg (by omega)]
  have hlow := readLe_lt (ioSqe n m sqe opcode cid lba buf size nlb) (sqe + sqeCdw12) 2
  rw [show 4 = 2 + 2 from rfl, readLe_add] at hfull
  omega

end

/-- **Command round trip**: the controller decodes the command that `io_cmd` was asked for, with
the bytes of the buffer, in order, as its data. -/
theorem decode_ioSqe (n : NvmeObj) (m : Mem) (slot : SqSlot) {opcode lba buf nlb : ℕ} (cid : ℕ)
    (hop : opcode < 256) (hlba : lba < 2 ^ 64) (hpos : 1 ≤ nlb) (hnlb : nlb ≤ 2 ^ 16)
    (hfit : buf % pageSize + lbaSize * nlb ≤ 8178 * pageSize)
    (hwrap : buf + lbaSize * nlb ≤ 2 ^ 64) :
    decode (ioSqe n m (n.sqe slot) opcode cid lba buf (lbaSize * nlb) nlb) (n.sqe slot) =
      ⟨opcode, nvmeNsid, lba, nlb, 0, List.range' buf (lbaSize * nlb)⟩ := by
  have hs := (n.sqe_bounds slot).2
  obtain ⟨hnlb', hflags⟩ :=
    ioSqe_cdw12 n m opcode cid lba buf (lbaSize * nlb) nlb (n.sqe slot) hpos hnlb
  have hsize : lbaSize * nlb ≠ 0 := by
    simp only [lbaSize]
    omega
  have hprp : ioSqePrp n m (n.sqe slot) opcode cid buf (lbaSize * nlb) =
      setupPrp n (ioSqeHead m (n.sqe slot) opcode cid) (n.sqe slot) buf (lbaSize * nlb) :=
    if_neg hsize
  have h₁ : readLe (ioSqe n m (n.sqe slot) opcode cid lba buf (lbaSize * nlb) nlb)
      (n.sqe slot + sqePrp1) 8 = buf := by
    rw [readLe_ioSqe _ _ _ _ _ _ _ _ (by simp only [sqePrp1]; omega), hprp,
      readLe_setupPrp_prp1 _ _ _ _ _ (by omega)]
  have h₂ : readLe (ioSqe n m (n.sqe slot) opcode cid lba buf (lbaSize * nlb) nlb)
      (n.sqe slot + sqePrp2) 8 = prp2Value n buf (lbaSize * nlb) := by
    rw [readLe_ioSqe _ _ _ _ _ _ _ _ (by simp only [sqePrp2]; omega), hprp, readLe_setupPrp_prp2]
  have hstores : ∀ s ∈ setupPrpStores n buf (lbaSize * nlb),
      readLe (ioSqe n m (n.sqe slot) opcode cid lba buf (lbaSize * nlb) nlb)
        (n.prpList + s.off) 8 = s.val := by
    intro s hmem
    rw [readLe_ioSqe _ _ _ _ _ _ _ _ (by omega), hprp,
      readLe_setupPrp_store _ _ _ _ _ hmem (setupPrpStores_val_lt hfit s hmem)]
  rw [decode, ioSqe_opcode _ _ _ _ _ _ _ _ _ hop, ioSqe_nsid, ioSqe_slba _ _ _ _ _ _ _ _ _ hlba,
    hflags, hnlb', Nat.sub_add_cancel hpos, h₁, h₂, (rangeAddrs_prpRanges hfit hwrap hstores).1]

/-! ## What building an entry leaves alone -/

/-- Two memories agree outside the `nvme_t` object. -/
def SameOutside (n : NvmeObj) (m m' : Mem) : Prop :=
  ∀ x, x < n.addr ∨ n.addr + sizeofNvme ≤ x → m x = m' x

namespace SameOutside

variable {n : NvmeObj} {m m' m'' : Mem}

theorem refl (n : NvmeObj) (m : Mem) : SameOutside n m m := fun _ _ => rfl

theorem trans (h : SameOutside n m m') (h' : SameOutside n m' m'') : SameOutside n m m'' :=
  fun x hx => (h x hx).trans (h' x hx)

/-- The same bytes are written to both. -/
theorem writeBytes (h : SameOutside n m m') (a : ℕ) (l : List UInt8) :
    SameOutside n (writeBytes m a l) (writeBytes m' a l) := by
  intro x hx
  by_cases ha : a ≤ x ∧ x < a + l.length
  · rw [writeBytes_of_mem _ _ _ ha.1 ha.2, writeBytes_of_mem _ _ _ ha.1 ha.2]
  · rw [writeBytes_of_not_mem _ _ _ (by omega), writeBytes_of_not_mem _ _ _ (by omega), h x hx]

/-- A range outside the object reads the same. -/
theorem readBytes_eq (h : SameOutside n m m') {a k : ℕ}
    (ha : a + k ≤ n.addr ∨ n.addr + sizeofNvme ≤ a) : readBytes m a k = readBytes m' a k :=
  readBytes_congr m' fun x _ _ => h x (by omega)

end SameOutside

/-- **Building an entry** changes nothing outside the `nvme_t` object, provided that the transfer
fits the PRP list. -/
theorem sameOutside_ioSqe (n : NvmeObj) (m : Mem) (slot : SqSlot) (opcode cid lba nlb : ℕ)
    {buf size : ℕ} (hfit : buf % pageSize + size ≤ 8178 * pageSize) :
    SameOutside n (ioSqe n m (n.sqe slot) opcode cid lba buf size nlb) m := by
  intro x hx
  obtain ⟨hlow, hhigh⟩ := n.sqe_bounds slot
  have hlist : n.prpList = n.addr + 16384 := rfl
  simp only [sizeofNvme, bar0Off, prpListOff, prpListPages, pageSize] at hx
  have hhead : ioSqeHead m (n.sqe slot) opcode cid x = m x := by
    rw [ioSqeHead, sqeW32_eq, sqeW16_eq, sqeW8]
    simp only [sqeCdw0, sqeCid, sqeNsid]
    rw [writeBytes_of_not_mem _ _ _ (by rw [length_leBytes]; omega),
      writeBytes_of_not_mem _ _ _ (by rw [length_leBytes]; omega),
      writeBytes_of_not_mem _ _ _ (by rw [List.length_singleton]; omega),
      writeBytes_of_not_mem _ _ _ (by rw [List.length_replicate]; omega)]
  rw [ioSqe_apply _ _ _ _ _ _ _ _ (by omega), ← hhead, ioSqePrp]
  split
  · rfl
  rcases hx with hx | hx
  · exact setupPrp_of_lt _ _ _ _ _ (by omega) (Or.inl (by omega))
  · refine setupPrp_of_ge _ _ _ _ _ (by omega) fun s hs => ?_
    have := (setupPrpStores_of_fits hfit s hs).1
    omega

end RvvmHal.Nvme
