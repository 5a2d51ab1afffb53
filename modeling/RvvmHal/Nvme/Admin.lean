import RvvmHal.Nvme.Block

/-!
# Admin commands

`admin_cmd` and `submit_and_wait` on the admin queue, against a controller that knows of the queues
only what is in its registers: it fetches the entry that the doorbell of the submission queue and
`ASQ` name, checks the command, executes it, and posts the completion where `ACQ` says, before the
poll of its choice or never. One command has one specification (`adminCmd_done`,
`adminCmd_failed`): it succeeds exactly when the controller accepts it, answers in time and with
status 0.
-/

namespace RvvmHal.Nvme

open Bytes

/-! ## Registers -/

/-- `NVME_REG_CC`. -/
abbrev regCc : ℕ := 0x14

/-- `NVME_REG_AQA`. -/
abbrev regAqa : ℕ := 0x24

/-- `NVME_REG_ASQ_LO`. -/
abbrev regAsqLo : ℕ := 0x28

/-- `NVME_REG_ASQ_HI`. -/
abbrev regAsqHi : ℕ := 0x2C

/-- `NVME_REG_ACQ_LO`. -/
abbrev regAcqLo : ℕ := 0x30

/-- `NVME_REG_ACQ_HI`. -/
abbrev regAcqHi : ℕ := 0x34

/-- `db_sq_tail`. -/
def dbSqTail (qid : ℕ) : ℕ := 0x1000 + qid * 8

/-- `db_cq_head`. -/
def dbCqHead (qid : ℕ) : ℕ := 0x1000 + qid * 8 + 4

/-- `NVME_CC_EN | NVME_CC_IOQES`. -/
def ccEnable : ℕ := 0x00000001 ||| 0x00460000

/-- `ADM_CREATE_IO_SQ`. -/
abbrev admCreateIoSq : ℕ := 0x01

/-- `ADM_CREATE_IO_CQ`. -/
abbrev admCreateIoCq : ℕ := 0x05

/-- `ADM_IDENTIFY`. -/
abbrev admIdentify : ℕ := 0x06

/-- `ADMIN_QID`. -/
abbrev adminQid : ℕ := 0

/-- `IO_QID`. -/
abbrev ioQid : ℕ := 1

/-! ## The entry -/

/-- The entry that `admin_cmd` builds, at the address `sqe`. Its buffer is never null. -/
def adminSqe (n : NvmeObj) (m : Mem) (sqe opcode cid nsid buf size cdw10 cdw11 : ℕ) : Mem :=
  let m := writeBytes m sqe (List.replicate 64 0)
  let m := sqeW8 m sqe sqeCdw0 opcode
  let m := sqeW16 m sqe sqeCid cid
  let m := sqeW32 m sqe sqeNsid nsid
  let m := setupPrp n m sqe buf size
  let m := sqeW32 m sqe sqeCdw10 cdw10
  sqeW32 m sqe sqeCdw11 cdw11

/-- An admin command as the controller decodes it. -/
structure AdminCmd where
  opcode : ℕ
  cid : ℕ
  nsid : ℕ
  prp1 : ℕ
  prp2 : ℕ
  cdw10 : ℕ
  cdw11 : ℕ
  deriving DecidableEq

/-- The admin command in the entry at the address `sqe`. -/
def decodeAdmin (m : Mem) (sqe : ℕ) : AdminCmd where
  opcode := readLe m (sqe + sqeCdw0) 1
  cid := readLe m (sqe + sqeCid) 2
  nsid := readLe m (sqe + sqeNsid) 4
  prp1 := readLe m (sqe + sqePrp1) 8
  prp2 := readLe m (sqe + sqePrp2) 8
  cdw10 := readLe m (sqe + sqeCdw10) 4
  cdw11 := readLe m (sqe + sqeCdw11) 4

/-! ## The controller -/

/-- A ring of entries in memory. -/
structure Ring where
  base : ℕ
  size : ℕ
  deriving DecidableEq

/-- The answer to an admin command: the number of polls before it, the first dwords of the
completion, and the status if the command is valid. -/
structure AdminAnswer where
  delay : ℕ
  head : List UInt8
  status : ℕ
  length_head : head.length = 12
  status_lt : status < 2 ^ 15

/-- A controller: the reads of `CSTS` after a write of `CC.EN`, the answers to the admin commands in
order, `CAP.MQES`, and the data structure of its namespace. -/
structure AdminCtl where
  csts : Bool → ℕ → ℕ
  answer : ℕ → AdminAnswer
  mqes : ℕ
  idData : List UInt8
  length_idData : idData.length = pageSize

/-- The driver's admin queue variables and memory, and the controller's registers, the number of
admin commands it has executed, and the I/O queues it has made. -/
structure Setup where
  mem : Mem
  asqTail : ℕ
  acqHead : ℕ
  acqPhase : Bool
  cmdId : ℕ
  numLbas : ℕ
  present : Bool
  regs : ℕ → ℕ
  fetched : ℕ
  ioCq : Option Ring
  ioSq : Option Ring

namespace Setup

/-- `w32`. -/
def w32 (s : Setup) (off v : ℕ) : Setup := { s with regs := Function.update s.regs off v }

/-- The admin submission queue, as the registers have it. -/
def asq (s : Setup) : Ring := ⟨s.regs regAsqLo + s.regs regAsqHi * 2 ^ 32, s.regs regAqa % 2 ^ 12 + 1⟩

/-- The admin completion queue, as the registers have it. -/
def acq (s : Setup) : Ring :=
  ⟨s.regs regAcqLo + s.regs regAcqHi * 2 ^ 32, s.regs regAqa / 2 ^ 16 % 2 ^ 12 + 1⟩

/-- The ring that a Create command describes. -/
def ring (cmd : AdminCmd) : Ring := ⟨cmd.prp1, cmd.cdw10 / 2 ^ 16 + 1⟩

end Setup

/-- The controller has a queue entry size set in `CC`, a queue identifier it does not use yet, and a
contiguous, page-aligned ring that is not too large: what the two Create commands need. -/
def AdminCtl.Creates (c : AdminCtl) (s : Setup) (cmd : AdminCmd) : Prop :=
  s.regs regCc / 2 ^ 16 % 2 ^ 8 = 0x46 ∧ cmd.cdw10 % 2 ^ 16 = ioQid ∧ cmd.cdw11 % 2 = 1 ∧
    cmd.prp1 % pageSize = 0 ∧ cmd.cdw10 / 2 ^ 16 ≤ c.mqes

/-- The commands that the controller accepts: Identify Namespace, Create I/O Completion Queue, and
Create I/O Submission Queue for a completion queue that exists. -/
def AdminCtl.Accepts (c : AdminCtl) (s : Setup) (cmd : AdminCmd) : Prop :=
  cmd.opcode = admIdentify ∧ cmd.cdw10 % 2 ^ 8 = 0 ∧ cmd.nsid = nvmeNsid ∨
  cmd.opcode = admCreateIoCq ∧ c.Creates s cmd ∧ s.ioCq = none ∨
  cmd.opcode = admCreateIoSq ∧ c.Creates s cmd ∧ s.ioSq = none ∧ cmd.cdw11 / 2 ^ 16 = ioQid ∧
    s.ioCq ≠ none

instance (c : AdminCtl) (s : Setup) (cmd : AdminCmd) : Decidable (c.Creates s cmd) :=
  inferInstanceAs (Decidable (_ ∧ _))

instance (c : AdminCtl) (s : Setup) (cmd : AdminCmd) : Decidable (c.Accepts s cmd) :=
  inferInstanceAs (Decidable (_ ∨ _))

/-- The status that a command is answered with: a command that is not accepted never gets 0. -/
def AdminCtl.status (c : AdminCtl) (s : Setup) (cmd : AdminCmd) : ℕ :=
  if c.Accepts s cmd then (c.answer s.fetched).status else max 2 (c.answer s.fetched).status

/-- What a command that succeeds does. -/
def AdminCtl.execute (c : AdminCtl) (s : Setup) (cmd : AdminCmd) : Setup :=
  if cmd.opcode = admIdentify then
    { s with mem := scatter s.mem (rangeAddrs (prpRanges s.mem cmd.prp1 cmd.prp2 pageSize)) c.idData }
  else if cmd.opcode = admCreateIoCq then { s with ioCq := some (Setup.ring cmd) }
  else { s with ioSq := some (Setup.ring cmd) }

/-- What a command does. -/
def AdminCtl.effect (c : AdminCtl) (s : Setup) (cmd : AdminCmd) : Setup :=
  if c.status s cmd = 0 then c.execute s cmd else s

/-- The completion of a command. -/
def AdminCtl.cqe (c : AdminCtl) (s : Setup) (cmd : AdminCmd) : List UInt8 :=
  (c.answer s.fetched).head ++ leBytes 4 (cmd.cid +
    (decide (s.fetched / s.acq.size % 2 = 0)).toNat * 2 ^ 16 + c.status s cmd * 2 ^ 17)

/-- The command at the controller's head. -/
def Setup.next (s : Setup) : AdminCmd :=
  decodeAdmin s.mem (s.asq.base + s.fetched % s.asq.size * 64)

/-- The controller executes the command at its head, if it is enabled and the doorbell says that
there is one, and posts the completion. -/
def AdminCtl.perform (c : AdminCtl) (s : Setup) : Setup :=
  if s.regs regCc % 2 = 1 ∧ s.fetched % s.asq.size ≠ s.regs (dbSqTail adminQid) then
    { c.effect s s.next with
      mem := writeBytes (c.effect s s.next).mem (s.acq.base + s.fetched % s.acq.size * 16)
        (c.cqe s s.next)
      fetched := s.fetched + 1 }
  else s

/-! ## The driver -/

variable (c : AdminCtl) (n : NvmeObj)

/-- Offsets of the members of `nvme_t`: the completion queues. -/
def Qid.cqBuf : Qid → ℕ
  | .admin => pageSize
  | .io => 3 * pageSize

/-- The dword that a poll reads. -/
def Setup.peek (s : Setup) : ℕ :=
  cqeR32 s.mem (n.addr + Qid.admin.cqBuf + s.acqHead * 16) cqeCidPbSf

/-- The poll loop of `submit_and_wait` on the admin queue, with the given number of polls left, and
as many made. -/
def adminPoll : ℕ → ℕ → Setup → Setup × ℕ
  | 0, _, s => (s, timeoutStatus)
  | fuel + 1, spin, s =>
    let s := if spin = (c.answer s.fetched).delay then c.perform s else s
    let d := s.peek n
    if cqePhase d = s.acqPhase then
      let head := (s.acqHead + 1) % queueDepth
      ({ s with acqHead := head, acqPhase := if head = 0 then !s.acqPhase else s.acqPhase }.w32
        (dbCqHead adminQid) head, cqeStatus d)
    else adminPoll fuel (spin + 1) s

/-- The driver's part before the poll loop: the entry in its slot, and the ring of the doorbell. -/
def Setup.submit (s : Setup) (opcode nsid buf size cdw10 cdw11 : ℕ) : Setup :=
  let mem := adminSqe n s.mem (n.addr + Qid.admin.sqBuf + s.asqTail * 64) opcode s.cmdId nsid buf size
    cdw10 cdw11
  let tail := (s.asqTail + 1) % queueDepth
  { s with mem := mem, cmdId := (s.cmdId + 1) % 2 ^ 16, asqTail := tail }.w32 (dbSqTail adminQid) tail

/-- `admin_cmd`. -/
def adminCmd (s : Setup) (opcode nsid buf size cdw10 cdw11 : ℕ) : Setup × ℕ :=
  adminPoll c n spinLimit 0 (s.submit n opcode nsid buf size cdw10 cdw11)

/-! ## The entry and its decoding -/

/-- The fields of an entry, as writes. -/
def adminFields (sqe : ℕ) (cmd : AdminCmd) : List (ℕ × List UInt8) :=
  [(sqe + sqeCdw0, leBytes 1 cmd.opcode), (sqe + sqeCid, leBytes 2 cmd.cid),
    (sqe + sqeNsid, leBytes 4 cmd.nsid), (sqe + sqePrp1, leBytes 8 cmd.prp1),
    (sqe + sqePrp2, leBytes 8 cmd.prp2), (sqe + sqeCdw10, leBytes 4 cmd.cdw10),
    (sqe + sqeCdw11, leBytes 4 cmd.cdw11)]

/-- The fields of a command fit their places. -/
structure AdminCmd.Fits (cmd : AdminCmd) : Prop where
  opcode : cmd.opcode < 256 ^ 1
  cid : cmd.cid < 256 ^ 2
  nsid : cmd.nsid < 256 ^ 4
  prp1 : cmd.prp1 < 256 ^ 8
  prp2 : cmd.prp2 < 256 ^ 8
  cdw10 : cmd.cdw10 < 256 ^ 4
  cdw11 : cmd.cdw11 < 256 ^ 4

/-- A buffer of at most one page, page-aligned, takes one PRP entry. -/
theorem setupPrp_page (m : Mem) (sqe : ℕ) {buf size : ℕ} (hbuf : buf % pageSize = 0)
    (hsize : size ≤ pageSize) :
    setupPrp n m sqe buf size = sqeW64 (sqeW64 m sqe sqePrp1 buf) sqe sqePrp2 0 := by
  have hchunk : size ≤ firstChunk buf := by
    rw [firstChunk_eq]
    simp only [pageSize] at hbuf hsize
    omega
  rw [setupPrp, if_pos hchunk]

variable {n}

theorem adminSqe_eq (m : Mem) (sqe cid : ℕ) {opcode nsid buf size cdw10 cdw11 : ℕ}
    (hbuf : buf % pageSize = 0) (hsize : size ≤ pageSize) :
    adminSqe n m sqe opcode cid nsid buf size cdw10 cdw11 =
      writeAll (writeBytes m sqe (List.replicate 64 0))
        (adminFields sqe ⟨opcode, cid, nsid, buf, 0, cdw10, cdw11⟩) := by
  simp only [adminSqe, setupPrp_page n _ _ hbuf hsize, sqeW8, sqeW16_eq, sqeW32_eq, sqeW64_eq]
  rfl

theorem pairwise_adminFields (sqe : ℕ) (cmd : AdminCmd) :
    (adminFields sqe cmd).Pairwise WritesDisjoint := by
  simp only [adminFields, List.pairwise_cons, List.mem_cons, List.not_mem_nil, or_false,
    List.Pairwise.nil, false_implies, implies_true, and_true, forall_eq_or_imp, forall_eq,
    WritesDisjoint, length_leBytes, sqeCdw0, sqeCid, sqeNsid, sqePrp1, sqePrp2, sqeCdw10, sqeCdw11]
  omega

/-- **Round trip** of an admin command. -/
theorem decodeAdmin_writeAll (m : Mem) (sqe : ℕ) {cmd : AdminCmd} (h : cmd.Fits) :
    decodeAdmin (writeAll m (adminFields sqe cmd)) sqe = cmd := by
  have hd := pairwise_adminFields sqe cmd
  rw [decodeAdmin, readLe_writeAll hd m (by simp [adminFields]) h.opcode,
    readLe_writeAll hd m (by simp [adminFields]) h.cid,
    readLe_writeAll hd m (by simp [adminFields]) h.nsid,
    readLe_writeAll hd m (by simp [adminFields]) h.prp1,
    readLe_writeAll hd m (by simp [adminFields]) h.prp2,
    readLe_writeAll hd m (by simp [adminFields]) h.cdw10,
    readLe_writeAll hd m (by simp [adminFields]) h.cdw11]

/-- An entry is built in its slot. -/
theorem adminSqe_of_not_mem (m : Mem) (sqe cid : ℕ) {opcode nsid buf size cdw10 cdw11 x : ℕ}
    (hbuf : buf % pageSize = 0) (hsize : size ≤ pageSize) (hx : x < sqe ∨ sqe + 64 ≤ x) :
    adminSqe n m sqe opcode cid nsid buf size cdw10 cdw11 x = m x := by
  rw [adminSqe_eq m sqe cid hbuf hsize, writeAll_of_not_mem, writeBytes_of_not_mem _ _ _
    (by rwa [List.length_replicate])]
  simp only [adminFields, List.mem_cons, List.not_mem_nil, or_false, forall_eq_or_imp, forall_eq,
    length_leBytes, sqeCdw0, sqeCid, sqeNsid, sqePrp1, sqePrp2, sqeCdw10, sqeCdw11]
  omega

/-! ## The poll loop -/

variable {c}

/-- Polls before the answer. -/
theorem adminPoll_wait {s : Setup} (hstale : cqePhase (s.peek n) ≠ s.acqPhase) {k spin : ℕ}
    (h : spin + k ≤ (c.answer s.fetched).delay) (fuel : ℕ) :
    adminPoll c n (fuel + k) spin s = adminPoll c n fuel (spin + k) s := by
  induction k generalizing spin with
  | zero => rfl
  | succ k ih =>
    have hearly : spin ≠ (c.answer s.fetched).delay := by omega
    rw [← Nat.add_assoc, adminPoll]
    simp only [if_neg hearly]
    rw [if_neg hstale, ih (by omega), Nat.add_right_comm, Nat.add_assoc]

/-- The poll after the answer. -/
theorem adminPoll_answered {s : Setup} {spin fuel : ℕ} (hspin : spin = (c.answer s.fetched).delay)
    (hnew : cqePhase ((c.perform s).peek n) = (c.perform s).acqPhase) :
    adminPoll c n (fuel + 1) spin s =
      ({ c.perform s with
          acqHead := ((c.perform s).acqHead + 1) % queueDepth
          acqPhase := if ((c.perform s).acqHead + 1) % queueDepth = 0 then !(c.perform s).acqPhase
            else (c.perform s).acqPhase }.w32 (dbCqHead adminQid)
          (((c.perform s).acqHead + 1) % queueDepth), cqeStatus ((c.perform s).peek n)) := by
  rw [adminPoll, if_pos hspin]
  dsimp only
  exact if_pos hnew

/-! ## One command -/

/-- The admin queue after `k` commands: the two sides agree on where the rings are, and the rest of
the completion ring is blank. -/
structure AdminReady (n : NvmeObj) (k : ℕ) (s : Setup) : Prop where
  lt : k + 1 < queueDepth
  fetched : s.fetched = k
  asqTail : s.asqTail = k
  acqHead : s.acqHead = k
  acqPhase : s.acqPhase = true
  cc : s.regs regCc = ccEnable
  asq : s.asq = ⟨n.addr + Qid.admin.sqBuf, queueDepth⟩
  acq : s.acq = ⟨n.addr + Qid.admin.cqBuf, queueDepth⟩
  cmdId : s.cmdId < 2 ^ 16
  blank : ∀ x, n.addr + Qid.admin.cqBuf + k * 16 ≤ x →
    x < n.addr + Qid.admin.cqBuf + queueDepth * 16 → s.mem x = 0

/-- What a command moves in memory, besides entries. -/
def AdminCtl.moved (c : AdminCtl) (cmd : AdminCmd) (m : Mem) : Mem :=
  if cmd.opcode = admIdentify then writeBytes m cmd.prp1 c.idData else m

theorem execute_mem (s : Setup) {cmd : AdminCmd} (hprp : cmd.prp1 % pageSize = 0) :
    (c.execute s cmd).mem = c.moved cmd s.mem := by
  have hranges : rangeAddrs (prpRanges s.mem cmd.prp1 cmd.prp2 pageSize) =
      List.range' cmd.prp1 pageSize := by
    rw [prpRanges, show min pageSize (4096 - cmd.prp1 % 4096) = pageSize by
      simp only [pageSize] at hprp ⊢
      omega, Nat.sub_self, if_pos rfl, rangeAddrs_cons, rangeAddrs_nil, List.append_nil]
  rw [AdminCtl.execute, AdminCtl.moved, hranges, scatter_range' _ _ _ c.length_idData]
  split
  · rfl
  · split <;> rfl

theorem status_lt (s : Setup) (cmd : AdminCmd) : c.status s cmd < 2 ^ 15 := by
  have h := (c.answer s.fetched).status_lt
  unfold AdminCtl.status
  split <;> omega

/-- A command is answered with success exactly when it is accepted, and the controller means to. -/
theorem status_eq_zero (s : Setup) (cmd : AdminCmd) :
    c.status s cmd = 0 ↔ c.Accepts s cmd ∧ (c.answer s.fetched).status = 0 := by
  unfold AdminCtl.status
  by_cases h : c.Accepts s cmd
  · rw [if_pos h]
    exact (and_iff_right h).symm
  · rw [if_neg h]
    exact iff_of_false (by omega) fun hand => h hand.1

/-- What a command that succeeded has done. -/
structure AdminDone (c : AdminCtl) (n : NvmeObj) (k : ℕ) (s : Setup) (cmd : AdminCmd) (s' : Setup) :
    Prop where
  ready : AdminReady n (k + 1) s'
  ioCq : s'.ioCq = (c.execute s cmd).ioCq
  ioSq : s'.ioSq = (c.execute s cmd).ioSq
  mem : ∀ x, x < n.addr ∨ n.addr + 2 * pageSize ≤ x → s'.mem x = c.moved cmd s.mem x
  cmdId : s'.cmdId = (s.cmdId + 1) % 2 ^ 16
  numLbas : s'.numLbas = s.numLbas
  present : s'.present = s.present

section Command

variable {k : ℕ} {s : Setup} {opcode nsid buf size cdw10 cdw11 : ℕ}

theorem AdminReady.peek (hs : AdminReady n k s) {m : Mem}
    (hm : ∀ x, n.addr + Qid.admin.cqBuf ≤ x → m x = s.mem x) :
    cqePhase (({ s with mem := m } : Setup).peek n) ≠ s.acqPhase := by
  have hlt := hs.lt
  have hzero : ∀ i < 4, m (n.addr + Qid.admin.cqBuf + k * 16 + cqeCidPbSf + i) = 0 := by
    intro i hi
    rw [hm _ (by omega)]
    refine hs.blank _ (by omega) ?_
    simp only [queueDepth, cqeCidPbSf] at *
    omega
  have h₀ := hzero 0 (by omega)
  rw [Nat.add_zero] at h₀
  rw [Setup.peek, cqeR32]
  simp only [hs.acqHead, hs.acqPhase, h₀, hzero 1 (by omega), hzero 2 (by omega),
    hzero 3 (by omega)]
  decide

/-- A write to a doorbell leaves the other registers alone. -/
theorem regs_w32 (s : Setup) {off r : ℕ} (v : ℕ) (h : 0x1000 ≤ off) (hr : r < 0x1000) :
    (s.w32 off v).regs r = s.regs r := by
  simp only [Setup.w32]
  exact Function.update_of_ne (Nat.ne_of_lt (Nat.lt_of_lt_of_le hr h)) v s.regs

theorem asq_w32 (s : Setup) {off : ℕ} (v : ℕ) (h : 0x1000 ≤ off) : (s.w32 off v).asq = s.asq := by
  rw [Setup.asq, regs_w32 s v h (by decide), regs_w32 s v h (by decide), regs_w32 s v h (by decide),
    Setup.asq]

theorem acq_w32 (s : Setup) {off : ℕ} (v : ℕ) (h : 0x1000 ≤ off) : (s.w32 off v).acq = s.acq := by
  rw [Setup.acq, regs_w32 s v h (by decide), regs_w32 s v h (by decide), regs_w32 s v h (by decide),
    Setup.acq]

/-- What the controller makes of a command depends on `CC` and on the queues it has made. -/
theorem accepts_congr {s t : Setup} (hcc : t.regs regCc = s.regs regCc) (hcq : t.ioCq = s.ioCq)
    (hsq : t.ioSq = s.ioSq) (cmd : AdminCmd) : c.Accepts t cmd ↔ c.Accepts s cmd := by
  rw [AdminCtl.Accepts, AdminCtl.Accepts, AdminCtl.Creates, AdminCtl.Creates, hcc, hcq, hsq]

/-- A command changes memory and the I/O queues only. -/
theorem effect_eq (s : Setup) (cmd : AdminCmd) : c.effect s cmd = { s with
    mem := (c.effect s cmd).mem, ioCq := (c.effect s cmd).ioCq, ioSq := (c.effect s cmd).ioSq } := by
  unfold AdminCtl.effect AdminCtl.execute
  split
  · split
    · rfl
    · split <;> rfl
  · rfl

theorem execute_ioCq {s t : Setup} (hcq : t.ioCq = s.ioCq) (cmd : AdminCmd) :
    (c.execute t cmd).ioCq = (c.execute s cmd).ioCq := by
  unfold AdminCtl.execute
  split
  · exact hcq
  · split
    · rfl
    · exact hcq

theorem execute_ioSq {s t : Setup} (hsq : t.ioSq = s.ioSq) (cmd : AdminCmd) :
    (c.execute t cmd).ioSq = (c.execute s cmd).ioSq := by
  unfold AdminCtl.execute
  split
  · exact hsq
  · split
    · exact hsq
    · rfl

/-- A command moves nothing within the `nvme_t` object. -/
theorem moved_of_mem {cmd : AdminCmd} (m : Mem) {x : ℕ}
    (hbeside : cmd.opcode = admIdentify →
      cmd.prp1 + pageSize ≤ n.addr ∨ n.addr + sizeofNvme ≤ cmd.prp1)
    (h₁ : n.addr ≤ x) (h₂ : x < n.addr + sizeofNvme) : c.moved cmd m x = m x := by
  unfold AdminCtl.moved
  split
  next hop =>
    have := hbeside hop
    rw [writeBytes_of_not_mem _ _ _ (by rw [c.length_idData]; omega)]
  next => rfl

/-- The same write, or none, to memories that agree at a place. -/
theorem moved_congr (cmd : AdminCmd) {m m' : Mem} {x : ℕ} (h : m x = m' x) :
    c.moved cmd m x = c.moved cmd m' x := by
  unfold AdminCtl.moved
  split
  · simp only [writeBytes, h]
  · exact h

/-- The command that the controller finds after the driver has submitted it. -/
theorem AdminReady.submit (hs : AdminReady n k s) (hbuf : buf % pageSize = 0)
    (hsize : size ≤ pageSize) (hfits : (⟨opcode, s.cmdId, nsid, buf, 0, cdw10, cdw11⟩ : AdminCmd).Fits) :
    let t := s.submit n opcode nsid buf size cdw10 cdw11
    t.next = ⟨opcode, s.cmdId, nsid, buf, 0, cdw10, cdw11⟩ ∧
      (∀ x, x < n.addr ∨ n.addr + pageSize ≤ x → t.mem x = s.mem x) ∧
      t.regs regCc = s.regs regCc ∧ t.asq = s.asq ∧ t.acq = s.acq ∧
      t.regs (dbSqTail adminQid) = k + 1 := by
  intro t
  have hlt := hs.lt
  have hdb : 0x1000 ≤ dbSqTail adminQid := by decide
  have hasq : t.asq = s.asq := asq_w32 _ _ hdb
  have hmem : t.mem = adminSqe n s.mem (n.addr + Qid.admin.sqBuf + k * 64) opcode s.cmdId nsid buf
      size cdw10 cdw11 := by
    rw [← hs.asqTail]
    rfl
  refine ⟨?_, fun x hx => ?_, regs_w32 _ _ hdb (by decide), hasq, acq_w32 _ _ hdb, ?_⟩
  · rw [Setup.next, hasq, hs.asq, show t.fetched = k from hs.fetched, hmem,
      Nat.mod_eq_of_lt (by simp only; omega), adminSqe_eq _ _ _ hbuf hsize,
      decodeAdmin_writeAll _ _ hfits]
  · rw [hmem, adminSqe_of_not_mem _ _ _ hbuf hsize]
    simp only [Qid.sqBuf, queueDepth, pageSize] at *
    omega
  · have htail : t.regs (dbSqTail adminQid) = (s.asqTail + 1) % queueDepth :=
      Function.update_self (dbSqTail adminQid) _ s.regs
    rw [htail, hs.asqTail, Nat.mod_eq_of_lt hlt]

/-- The completion of a command, as an entry of a queue. -/
def AdminCtl.entry (c : AdminCtl) (s : Setup) (cmd : AdminCmd) (h : cmd.cid < 2 ^ 16) : Cqe :=
  ⟨(c.answer s.fetched).head, cmd.cid, c.status s cmd, (c.answer s.fetched).length_head, h,
    status_lt s cmd⟩

/-- What the controller does with a submitted command, and what the driver then reads. -/
theorem perform_submitted {t : Setup} {cmd : AdminCmd} (hk : k < queueDepth)
    (hcc : t.regs regCc = ccEnable) (hasq : t.asq = ⟨n.addr + Qid.admin.sqBuf, queueDepth⟩)
    (hacq : t.acq = ⟨n.addr + Qid.admin.cqBuf, queueDepth⟩) (hfetched : t.fetched = k)
    (htail : t.regs (dbSqTail adminQid) = k + 1) (hhead : t.acqHead = k) (hnext : t.next = cmd)
    (hcid : cmd.cid < 2 ^ 16) :
    c.perform t = { c.effect t cmd with
        mem := writeBytes (c.effect t cmd).mem
          (n.addr + Qid.admin.cqBuf + k * 16) ((c.entry t cmd hcid).bytes true)
        fetched := k + 1 } ∧
      (c.perform t).peek n = (c.entry t cmd hcid).dword true := by
  have hphase : decide (t.fetched / t.acq.size % 2 = 0) = true := by
    rw [hfetched, hacq, Nat.div_eq_of_lt hk]
    rfl
  have hcqe : c.cqe t cmd = (c.entry t cmd hcid).bytes true := by
    rw [AdminCtl.cqe, hphase]
    rfl
  have hperform : c.perform t = { c.effect t cmd with
      mem := writeBytes (c.effect t cmd).mem
        (n.addr + Qid.admin.cqBuf + k * 16) ((c.entry t cmd hcid).bytes true)
      fetched := k + 1 } := by
    rw [AdminCtl.perform, hnext, hcqe, hcc, hasq, hacq, hfetched, htail, Nat.mod_eq_of_lt hk,
      if_pos ⟨by decide, Nat.ne_of_lt (Nat.lt_succ_self k)⟩]
  have hhead' : (c.effect t cmd).acqHead = k := by
    rw [effect_eq, hhead]
  refine ⟨hperform, ?_⟩
  have hlen : n.addr + Qid.admin.cqBuf + k * 16 + cqeCidPbSf = n.addr + Qid.admin.cqBuf + k * 16 +
      (c.answer t.fetched).head.length := by rw [(c.answer t.fetched).length_head]
  rw [hperform, Setup.peek, cqeR32_eq, hhead', Cqe.bytes, ← writeBytes_append, hlen]
  exact readLe_writeBytes_leBytes _ _ (Cqe.dword_lt _ _)

/-- The call returns when the controller has answered, or at the end of the poll loop. -/
theorem adminCmd_eq (hs : AdminReady n k s)
    (hstale : cqePhase ((s.submit n opcode nsid buf size cdw10 cdw11).peek n) ≠ s.acqPhase)
    {d : ℕ} (hpeek : (c.perform (s.submit n opcode nsid buf size cdw10 cdw11)).peek n = d)
    (hphase : cqePhase d = true)
    (hhead : (c.perform (s.submit n opcode nsid buf size cdw10 cdw11)).acqHead = k)
    (hexp : (c.perform (s.submit n opcode nsid buf size cdw10 cdw11)).acqPhase = true) :
    adminCmd c n s opcode nsid buf size cdw10 cdw11 =
      if (c.answer k).delay < spinLimit then
        ({ c.perform (s.submit n opcode nsid buf size cdw10 cdw11) with acqHead := k + 1 }.w32
          (dbCqHead adminQid) (k + 1), cqeStatus d)
      else (s.submit n opcode nsid buf size cdw10 cdw11, timeoutStatus) := by
  generalize ht : s.submit n opcode nsid buf size cdw10 cdw11 = t at *
  have hfetched : t.fetched = k := by
    rw [← ht]
    exact hs.fetched
  have hexp₀ : t.acqPhase = s.acqPhase := by
    rw [← ht]
    rfl
  have hmod : (k + 1) % queueDepth = k + 1 := Nat.mod_eq_of_lt hs.lt
  rw [← hexp₀] at hstale
  rw [adminCmd, ht]
  split
  next hdelay =>
    have hsplit : spinLimit = spinLimit - (c.answer k).delay - 1 + 1 + (c.answer k).delay := by omega
    rw [hsplit, adminPoll_wait hstale (by rw [hfetched]; omega), Nat.zero_add,
      adminPoll_answered (by rw [hfetched]) (by rw [hpeek, hphase, hexp]), hhead, hmod, hpeek, hexp]
    simp only [Nat.succ_ne_zero, if_false, ← hexp]
  next hdelay =>
    rw [← Nat.zero_add spinLimit, adminPoll_wait hstale (by rw [hfetched]; omega)]
    rfl

/-- **One admin command** succeeds exactly when the controller accepts it, answers within the poll
limit, and answers with status 0. -/
theorem adminCmd_spec (hs : AdminReady n k s) (hroom : k + 2 < queueDepth)
    (hbuf : buf % pageSize = 0) (hsize : size ≤ pageSize)
    (hfits : (⟨opcode, s.cmdId, nsid, buf, 0, cdw10, cdw11⟩ : AdminCmd).Fits)
    (hbeside : opcode = admIdentify → buf + pageSize ≤ n.addr ∨ n.addr + sizeofNvme ≤ buf) :
    let cmd : AdminCmd := ⟨opcode, s.cmdId, nsid, buf, 0, cdw10, cdw11⟩
    ∃ s' st, adminCmd c n s opcode nsid buf size cdw10 cdw11 = (s', st) ∧
      (st = 0 ↔ c.Accepts s cmd ∧ (c.answer k).delay < spinLimit ∧ (c.answer k).status = 0) ∧
      (st = 0 → AdminDone c n k s cmd s') ∧ s'.present = s.present := by
  intro cmd
  have hlt := hs.lt
  obtain ⟨hnext, hmem, hcc, hasq, hacq, htail⟩ := hs.submit hbuf hsize hfits
  let t := s.submit n opcode nsid buf size cdw10 cdw11
  obtain ⟨hperform, hpeek⟩ := perform_submitted (c := c) (t := t) (Nat.lt_of_succ_lt hs.lt)
    (hcc.trans hs.cc) (hasq.trans hs.asq) (hacq.trans hs.acq) hs.fetched htail hs.acqHead hnext
    hfits.cid
  have hstatus := status_eq_zero (c := c) t cmd
  rw [accepts_congr hcc rfl rfl, show t.fetched = k from hs.fetched] at hstatus
  rw [effect_eq] at hperform
  have hstale := hs.peek (m := t.mem) fun x hx => hmem x (Or.inr (by
    simp only [Qid.cqBuf] at hx
    exact hx))
  have hcmd := adminCmd_eq (c := c) (d := (c.entry t cmd hfits.cid).dword true) hs hstale hpeek
    (cqePhase_dword _ _) (by rw [hperform]; exact hs.acqHead) (by rw [hperform]; exact hs.acqPhase)
  by_cases hdelay : (c.answer k).delay < spinLimit
  swap
  · rw [if_neg hdelay] at hcmd
    exact ⟨_, _, hcmd, iff_of_false (by decide) fun h => hdelay h.2.1, fun h => absurd h (by decide),
      rfl⟩
  rw [if_pos hdelay, hperform] at hcmd
  refine ⟨_, _, hcmd, ?_, fun hst => ?_, rfl⟩
  · rw [cqeStatus_dword]
    exact hstatus.trans (and_congr_right fun _ => (and_iff_right hdelay).symm)
  have heffect : c.effect t cmd = c.execute t cmd := if_pos ((cqeStatus_dword _ _).symm.trans hst)
  have hdb : 0x1000 ≤ dbCqHead adminQid := by decide
  have hdata : ∀ x, n.addr ≤ x → x < n.addr + sizeofNvme → c.moved cmd t.mem x = t.mem x :=
    fun x h₁ h₂ => moved_of_mem t.mem hbeside h₁ h₂
  have hafter : ∀ x, x < n.addr + Qid.admin.cqBuf + k * 16 ∨
      n.addr + Qid.admin.cqBuf + (k + 1) * 16 ≤ x →
      writeBytes (c.effect t cmd).mem (n.addr + Qid.admin.cqBuf + k * 16)
        ((c.entry t cmd hfits.cid).bytes true) x = c.moved cmd t.mem x := by
    intro x hx
    rw [heffect, execute_mem t hbuf]
    refine writeBytes_of_not_mem _ _ _ ?_
    rw [Cqe.length_bytes]
    omega
  exact {
    ready := {
      lt := hroom
      fetched := rfl
      asqTail := (congrArg (fun i => (i + 1) % queueDepth) hs.asqTail).trans (Nat.mod_eq_of_lt hlt)
      acqHead := rfl
      acqPhase := hs.acqPhase
      cc := (regs_w32 _ _ hdb (by decide)).trans (hcc.trans hs.cc)
      asq := (asq_w32 _ _ hdb).trans (hasq.trans hs.asq)
      acq := (acq_w32 _ _ hdb).trans (hacq.trans hs.acq)
      cmdId := Nat.mod_lt _ (by decide)
      blank := fun x h₁ h₂ => by
        have hbounds : n.addr + pageSize ≤ x ∧ x < n.addr + sizeofNvme := by
          simp only [Qid.cqBuf, queueDepth, pageSize, sizeofNvme, bar0Off, prpListOff,
            prpListPages] at *
          omega
        exact (hafter x (Or.inr h₁)).trans ((hdata x (by omega) hbounds.2).trans
          ((hmem x (Or.inr hbounds.1)).trans (hs.blank x (by omega) h₂))) }
    ioCq := (congrArg Setup.ioCq heffect).trans (execute_ioCq (show t.ioCq = s.ioCq from rfl) cmd)
    ioSq := (congrArg Setup.ioSq heffect).trans (execute_ioSq (show t.ioSq = s.ioSq from rfl) cmd)
    mem := fun x hx => by
      refine (hafter x ?_).trans (moved_congr cmd (hmem x ?_))
      · simp only [Qid.cqBuf, queueDepth, pageSize] at *
        omega
      · simp only [pageSize] at *
        omega
    cmdId := rfl
    numLbas := rfl
    present := rfl }

end Command

end RvvmHal.Nvme
