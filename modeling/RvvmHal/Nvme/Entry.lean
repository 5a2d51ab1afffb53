import RvvmHal.Foundations.Bytes

/-!
# NVMe queue entries and the driver's storage

The layout of `nvme_t`, the fields of submission and completion queue entries, and the byte-wise
accessors the driver reads and writes them with. Each accessor is related to the little-endian
list of bytes it stores or loads.
-/

namespace RvvmHal.Nvme

open Bytes

/-! ## Sizes and layout -/

/-- `NVME_PAGE_SIZE`. -/
abbrev pageSize : ℕ := 4096

/-- `NVME_PRP_LIST_PAGES`. -/
abbrev prpListPages : ℕ := 16

/-- `NVME_MAX_SINGLE_TRANSFER`, in bytes. -/
abbrev maxSingleTransfer : ℕ := 8178 * pageSize

/-- `ENTRIES_PER_LIST_PAGE`, which is `NVME_PAGE_SIZE / 8`. -/
abbrev entriesPerListPage : ℕ := 512

/-- `QUEUE_DEPTH`. -/
abbrev queueDepth : ℕ := 64

/-- The two queue pairs, `ADMIN_QID` and `IO_QID`. -/
inductive Qid
  | admin
  | io
  deriving DecidableEq

/-- Offsets of the members of `nvme_t`: the submission queues. -/
def Qid.sqBuf : Qid → ℕ
  | .admin => 0
  | .io => 2 * pageSize

/-- Offset of `prp_list` in `nvme_t`. -/
abbrev prpListOff : ℕ := 4 * pageSize

/-- Offset of `bar0`, the first member after `prp_list`. -/
abbrev bar0Off : ℕ := prpListOff + prpListPages * pageSize

/-- `sizeof(nvme_t)`: the scalar members take less than the page that the alignment adds. -/
abbrev sizeofNvme : ℕ := bar0Off + pageSize

/-- A placed `nvme_t` object: page-aligned, and inside the address space. -/
structure NvmeObj where
  addr : ℕ
  aligned : addr % pageSize = 0
  fits : addr + sizeofNvme ≤ 2 ^ 64

/-- The address of `n->prp_list`. -/
def NvmeObj.prpList (n : NvmeObj) : ℕ := n.addr + prpListOff

theorem NvmeObj.addr_add_bar0Off (n : NvmeObj) :
    n.addr + bar0Off = n.prpList + prpListPages * pageSize := by
  rw [NvmeObj.prpList, bar0Off, Nat.add_assoc]

/-- A slot of one of the submission queues. -/
structure SqSlot where
  queue : Qid
  tail : Fin queueDepth

/-- The address of a submission queue slot: `n->asq_buf + n->asq_tail * 64`, or the same for the
I/O queue. -/
def NvmeObj.sqe (n : NvmeObj) (s : SqSlot) : ℕ := n.addr + s.queue.sqBuf + s.tail * 64

theorem NvmeObj.sqe_bounds (n : NvmeObj) (s : SqSlot) :
    n.addr ≤ n.sqe s ∧ n.sqe s + 64 ≤ n.prpList := by
  have ht := s.tail.isLt
  have hq : s.queue.sqBuf ≤ 2 * pageSize := by
    cases s.queue
    · exact Nat.zero_le _
    · exact le_rfl
  simp only [NvmeObj.sqe, NvmeObj.prpList, prpListOff, pageSize, queueDepth] at *
  omega

/-! ## Submission queue entries -/

/-- `SQE_CID`. -/
abbrev sqeCid : ℕ := 0x02

/-- `SQE_NSID`. -/
abbrev sqeNsid : ℕ := 0x04

/-- `SQE_PRP1`. -/
abbrev sqePrp1 : ℕ := 0x18

/-- `SQE_PRP2`. -/
abbrev sqePrp2 : ℕ := 0x20

/-- `SQE_CDW10`. -/
abbrev sqeCdw10 : ℕ := 0x28

/-- `SQE_CDW11`. -/
abbrev sqeCdw11 : ℕ := 0x2C

/-- `SQE_CDW12`. -/
abbrev sqeCdw12 : ℕ := 0x30

/-- `sqe_w8`. -/
def sqeW8 (m : Mem) (sqe off v : ℕ) : Mem := writeBytes m (sqe + off) [UInt8.ofNat v]

/-- `sqe_w16`. -/
def sqeW16 (m : Mem) (sqe off v : ℕ) : Mem :=
  writeBytes m (sqe + off) [UInt8.ofNat (v &&& 0xFF), UInt8.ofNat ((v >>> 8) &&& 0xFF)]

/-- `sqe_w32`. -/
def sqeW32 (m : Mem) (sqe off v : ℕ) : Mem :=
  writeBytes m (sqe + off) [UInt8.ofNat (v &&& 0xFF), UInt8.ofNat ((v >>> 8) &&& 0xFF),
    UInt8.ofNat ((v >>> 16) &&& 0xFF), UInt8.ofNat ((v >>> 24) &&& 0xFF)]

/-- `sqe_w64`. -/
def sqeW64 (m : Mem) (sqe off v : ℕ) : Mem :=
  sqeW32 (sqeW32 m sqe off (v % 2 ^ 32)) sqe (off + 4) ((v >>> 32) % 2 ^ 32)

theorem sqeW16_eq (m : Mem) (sqe off v : ℕ) :
    sqeW16 m sqe off v = writeBytes m (sqe + off) (leBytes 2 v) := by
  simp only [sqeW16, ofNat_and_255, Word.shiftRight_eq, leBytes, Nat.reducePow]

theorem sqeW32_eq (m : Mem) (sqe off v : ℕ) :
    sqeW32 m sqe off v = writeBytes m (sqe + off) (leBytes 4 v) := by
  simp only [sqeW32, ofNat_and_255, Word.shiftRight_eq, leBytes, Nat.div_div_eq_div_mul,
    Nat.reducePow, Nat.reduceMul]

theorem leBytes_four_mod (v : ℕ) : leBytes 4 (v % 2 ^ 32) = leBytes 4 v := by
  have h (x y : ℕ) (hxy : x % 256 = y % 256) : UInt8.ofNat x = UInt8.ofNat y := by
    apply UInt8.toNat_inj.1
    rw [toNat_ofNat_uint8, toNat_ofNat_uint8, hxy]
  simp only [leBytes, List.cons.injEq, and_true]
  refine ⟨h _ _ ?_, h _ _ ?_, h _ _ ?_, h _ _ ?_⟩ <;> omega

theorem sqeW64_eq (m : Mem) (sqe off v : ℕ) :
    sqeW64 m sqe off v = writeBytes m (sqe + off) (leBytes 8 v) := by
  have hlen : sqe + (off + 4) = sqe + off + (leBytes 4 v).length := by simp; omega
  rw [sqeW64, sqeW32_eq, sqeW32_eq, leBytes_four_mod, leBytes_four_mod, hlen, writeBytes_append,
    Word.shiftRight_eq, show 2 ^ 32 = 256 ^ 4 from rfl, ← leBytes_add]

/-! ## Completion queue entries -/

/-- `CQE_CID_PB_SF`. -/
abbrev cqeCidPbSf : ℕ := 0x0C

/-- `CQE_PB_MASK`. -/
abbrev cqePbMask : ℕ := 0x00010000

/-- `cqe_r32`. -/
def cqeR32 (m : Mem) (cqe off : ℕ) : ℕ :=
  (m (cqe + off)).toNat ||| (m (cqe + off + 1)).toNat <<< 8 ||| (m (cqe + off + 2)).toNat <<< 16
    ||| (m (cqe + off + 3)).toNat <<< 24

theorem cqeR32_eq (m : Mem) (cqe off : ℕ) : cqeR32 m cqe off = readLe m (cqe + off) 4 := by
  rw [cqeR32, ofLe_four, readLe, readBytes_succ, readBytes_succ, readBytes_succ, readBytes_succ,
    readBytes_zero]

/-! ## The PRP list -/

/-- `prp_list_w64`. -/
def prpListW64 (n : NvmeObj) (m : Mem) (off v : ℕ) : Mem :=
  (List.range 8).foldl
    (fun m b => writeBytes m (n.prpList + (off + b)) [UInt8.ofNat ((v >>> (b * 8)) &&& 0xFF)]) m

theorem prpListW64_eq (n : NvmeObj) (m : Mem) (off v : ℕ) :
    prpListW64 n m off v = writeBytes m (n.prpList + off) (leBytes 8 v) := by
  simp only [prpListW64, ← Nat.add_assoc, foldl_writeBytes_leBytes]

end RvvmHal.Nvme
