import RvvmHal.Nvme.Command
import RvvmHal.Nvme.Queue

/-!
# Block I/O

`nvme_read`, `nvme_write` and `nvme_flush`, run against a controller that executes every command it
fetches on an array of sectors, and that answers after any number of polls within the bound and
with any status, moving no data when the status is not 0.

One command has one specification (`ioCmd_transfer`), proved from the round trip of its entry and
from the completion queue's invariant. The loop of a request adds the commands up
(`transferLoop_eq`), so that a request moves a run of sectors from or to the start of its buffer,
and returns the length of that run (`blockIo`).
-/

namespace RvvmHal.Nvme

open Bytes

/-! ## Driver and controller -/

/-- What the controller answers a command with: the number of polls it takes, the first dwords of
the completion, and the status. -/
structure Answer where
  delay : ℕ
  head : List UInt8
  status : ℕ
  delay_lt : delay < spinLimit
  length_head : head.length = 12
  status_lt : status < 2 ^ 15

/-- The completion of the command `cid`. -/
def Answer.cqe (a : Answer) (cid : ℕ) (h : cid < 2 ^ 16) : Cqe :=
  ⟨a.head, cid, a.status, a.length_head, h, a.status_lt⟩

/-- A controller: its answer to each command, in the order of their execution. -/
abbrev Controller := ℕ → Answer

/-- A command and the status it was answered with. -/
structure Executed where
  cmd : Cmd
  status : ℕ
  deriving DecidableEq

/-- The I/O queue pair of an `nvme_t`, the memory, and the controller with its disk and the history
of the commands it has executed. The bytes of the completion queue are those of `cq`. -/
structure Io where
  mem : Mem
  cq : Cq
  sqTail : Fin queueDepth
  cmdId : ℕ
  present : Bool
  sqHead : Fin queueDepth
  disk : Disk
  executed : List Executed

/-- The slot after a slot. -/
def nextSlot (i : Fin queueDepth) : Fin queueDepth :=
  ⟨(i + 1) % queueDepth, Nat.mod_lt _ (by decide)⟩

variable (ctl : Controller) (n : NvmeObj)

/-- The controller fetches and executes the command at its head. -/
def Io.perform (a : Answer) (s : Io) : Io :=
  let c := decode s.mem (n.sqe ⟨.io, s.sqHead⟩)
  { s with
    sqHead := nextSlot s.sqHead
    mem := if a.status = 0 ∧ c.opcode = ioRead then
      scatter s.mem c.addrs (sectorBytes s.disk c.slba c.nlb) else s.mem
    disk := if a.status = 0 ∧ c.opcode = ioWrite then
      storeSectors s.disk c.slba c.nlb (gather s.mem c.addrs) else s.disk
    executed := s.executed ++ [⟨c, a.status⟩] }

/-- The controller executes a command, if there is one, and posts its completion. -/
def Io.answer (a : Answer) (s : Io) : Option Io :=
  if s.sqHead = s.sqTail then some s
  else
    (s.cq.post (a.cqe (readLe s.mem (n.sqe ⟨.io, s.sqHead⟩ + sqeCid) 2) (readLe_lt ..))).map
      fun cq => { s.perform n a with cq := cq }

/-- The poll loop of `submit_and_wait`, with the given number of polls left. The controller answers
before the poll at which its delay is over. -/
def pollLoop : ℕ → Io → Option (Io × ℕ)
  | 0, s => s.cq.giveUp.map fun cq => ({ s with cq := cq }, timeoutStatus)
  | fuel + 1, s =>
    let a := ctl s.executed.length
    (if s.cq.pc = .poll a.delay then s.answer n a else some s).bind fun s =>
      s.cq.pollOnce.bind fun cq =>
        match cq.pc with
        | .ring status => cq.ringHead.map fun cq => ({ s with cq := cq }, status)
        | _ => pollLoop fuel { s with cq := cq }

/-- `submit_and_wait` on the I/O queue. -/
def submitAndWait (s : Io) : Option (Io × ℕ) :=
  s.cq.enter.bind fun cq => pollLoop ctl n spinLimit { s with cq := cq, sqTail := nextSlot s.sqTail }

/-- `io_cmd`. -/
def ioCmd (s : Io) (opcode lba buf size nlb : ℕ) : Option (Io × ℕ) :=
  submitAndWait ctl n { s with
    mem := ioSqe n s.mem (n.sqe ⟨.io, s.sqTail⟩) opcode s.cmdId lba buf size nlb
    cmdId := (s.cmdId + 1) % 2 ^ 16 }

/-- `NVME_MAX_LBAS_PER_CMD`. -/
abbrev maxLbasPerCmd : ℕ := maxSingleTransfer / lbaSize

/-- The loop of `nvme_read` and `nvme_write`. The sizes in bytes are at most
`NVME_MAX_SINGLE_TRANSFER`, so the 32-bit products cannot wrap. -/
def transferLoop (opcode lba buf nlb done : ℕ) (s : Io) : Option (Io × ℕ) :=
  if done < nlb then
    let batch := min (nlb - done) maxLbasPerCmd
    (ioCmd ctl n s opcode ((lba + done) % 2 ^ 64) (buf + lbaSize * done) (lbaSize * batch) batch).bind
      fun r => if r.2 ≠ 0 then some (r.1, done)
        else transferLoop opcode lba buf nlb (done + batch) r.1
  else some (s, done)
termination_by nlb - done
decreasing_by
  simp only [maxLbasPerCmd, maxSingleTransfer, pageSize, lbaSize]
  omega

/-- `nvme_read`. -/
def nvmeRead (s : Io) (lba buf nlb : ℕ) : Option (Io × ℕ) :=
  if s.present = false ∨ nlb = 0 then some (s, 0) else transferLoop ctl n ioRead lba buf nlb 0 s

/-- `nvme_write`. -/
def nvmeWrite (s : Io) (lba buf nlb : ℕ) : Option (Io × ℕ) :=
  if s.present = false ∨ nlb = 0 then some (s, 0) else transferLoop ctl n ioWrite lba buf nlb 0 s

/-- `nvme_flush`. -/
def nvmeFlush (s : Io) : Option (Io × Bool) :=
  if s.present = false then some (s, false)
  else (ioCmd ctl n s ioFlush 0 0 0 0).map fun r => (r.1, r.2 = 0)

/-! ## One command -/

/-- The queue pair between two calls: all commands are answered, and all answers consumed. -/
structure IoReady (s : Io) : Prop where
  cq : CqInv s.cq
  idle : s.cq.pc = .idle
  answered : s.cq.posted.length = s.cq.consumed.length
  sqHead_eq : s.sqHead = s.sqTail
  present : s.present = true

theorem nextSlot_ne (i : Fin queueDepth) : i ≠ nextSlot i := by
  intro h
  have hval := congrArg Fin.val h
  simp only [nextSlot, queueDepth] at hval
  omega

/-- A poll of an empty queue. -/
theorem pollOnce_empty {c : Cq} {spin : ℕ} (hpc : c.pc = .poll spin) (hspin : spin < spinLimit)
    (hinv : CqInv c) (hans : c.posted.length = c.consumed.length) :
    c.pollOnce = some { c with pc := .poll (spin + 1) } := by
  have hempty : ¬ c.EntryReady := fun h => by
    have := hinv.entryReady_iff.1 h
    omega
  simp only [Cq.pollOnce, hpc, if_pos hspin, if_neg hempty]

/-- A completion posted to an empty queue, the poll that takes it, and its release. -/
theorem post_pollOnce_ringHead {c : Cq} {spin : ℕ} (hpc : c.pc = .poll spin)
    (hspin : spin < spinLimit) (hinv : CqInv c) (hans : c.posted.length = c.consumed.length)
    (e : Cqe) :
    ∃ c₁ c₂ c₃, c.post e = some c₁ ∧ c₁.pollOnce = some c₂ ∧ c₂.pc = .ring e.status ∧
      c₂.ringHead = some c₃ ∧ CqInv c₃ ∧ c₃.pc = .idle ∧ c₃.posted.length = c₃.consumed.length := by
  have hrel : c.consumed.length = c.released := by
    simpa [hpc, Pc.unreleased] using hinv.released_eq
  obtain ⟨c₁, hpost⟩ : ∃ c₁, c.post e = some c₁ := ⟨_, if_pos (by simp only [queueDepth]; omega)⟩
  obtain ⟨-, hc₁⟩ := Cq.post_eq hpost
  have hinv₁ := hinv.post hpost
  have hlt : c₁.consumed.length < c₁.posted.length := by
    rw [hc₁]
    simp only [List.length_append, List.length_singleton]
    omega
  have hpeek : cqeStatus c₁.peek = e.status := by
    rw [hinv₁.peek_of_lt hlt, cqeStatus_dword]
    simp only [hc₁, ← hans, List.getElem_concat_length]
  have hpoll : c₁.pollOnce = some { c₁ with
      head := (c₁.head + 1) % queueDepth
      phase := if (c₁.head + 1) % queueDepth = 0 then !c₁.phase else c₁.phase
      pc := .ring e.status
      consumed := c₁.consumed ++ [⟨c₁.head, c₁.peek⟩] } := by
    have hpc₁ : c₁.pc = .poll spin := by rw [hc₁, hpc]
    simp only [Cq.pollOnce, hpc₁, if_pos hspin, if_pos (hinv₁.entryReady_iff.2 hlt), hpeek]
  refine ⟨c₁, _, _, hpost, hpoll, rfl, rfl, (hinv₁.pollOnce hpoll).ringHead rfl, rfl, ?_⟩
  simp only [hc₁, List.length_append, List.length_singleton, hans]

/-- **The poll loop returns the status of the answer**, and the command has been executed. -/
theorem pollLoop_eq {k spin : ℕ} {s : Io} (hpc : s.cq.pc = .poll spin) (hinv : CqInv s.cq)
    (hans : s.cq.posted.length = s.cq.consumed.length) (hne : s.sqHead ≠ s.sqTail)
    (hk : spin + k = (ctl s.executed.length).delay) :
    ∃ cq, pollLoop ctl n (spinLimit - spin) s =
        some ({ s.perform n (ctl s.executed.length) with cq := cq },
          (ctl s.executed.length).status) ∧
      CqInv cq ∧ cq.pc = .idle ∧ cq.posted.length = cq.consumed.length := by
  have hdelay := (ctl s.executed.length).delay_lt
  induction k generalizing spin s with
  | zero =>
    rw [Nat.add_zero] at hk
    obtain ⟨c₁, c₂, c₃, hpost, hpoll, hpc₂, hring, hc₃⟩ := post_pollOnce_ringHead hpc (hk ▸ hdelay)
      hinv hans ((ctl s.executed.length).cqe _ (readLe_lt s.mem (n.sqe ⟨.io, s.sqHead⟩ + sqeCid) 2))
    refine ⟨c₃, ?_, hc₃⟩
    rw [show spinLimit - spin = spinLimit - spin - 1 + 1 by omega, pollLoop, if_pos (hk ▸ hpc),
      Io.answer, if_neg hne, hpost]
    simp only [Option.map_some, Option.bind_some, hpoll, hpc₂, hring]
    rfl
  | succ k ih =>
    have hspin : spin < spinLimit := by omega
    have hpoll := pollOnce_empty hpc hspin hinv hans
    have hpc' : ({ s with cq := { s.cq with pc := .poll (spin + 1) } } : Io).cq.pc =
      .poll (spin + 1) := rfl
    obtain ⟨cq, hloop, hcq⟩ := ih hpc' (hinv.pollOnce hpoll) hans hne
      (show spin + 1 + k = (ctl s.executed.length).delay by omega) hdelay
    refine ⟨cq, ?_, hcq⟩
    have hearly : s.cq.pc ≠ .poll (ctl s.executed.length).delay := by
      rw [hpc]
      intro h
      injection h with h
      omega
    rw [show spinLimit - spin = spinLimit - (spin + 1) + 1 by omega, pollLoop, if_neg hearly]
    simp only [Option.bind_some, hpoll]
    exact hloop

/-- **One command**: the call returns the status it was answered with, the controller has executed
the command it decodes from the entry, and the queue pair is ready for the next call. -/
theorem ioCmd_eq {s : Io} (hs : IoReady s) (opcode lba buf size nlb : ℕ) :
    let a := ctl s.executed.length
    let m := ioSqe n s.mem (n.sqe ⟨.io, s.sqTail⟩) opcode s.cmdId lba buf size nlb
    let c := decode m (n.sqe ⟨.io, s.sqTail⟩)
    ∃ s', ioCmd ctl n s opcode lba buf size nlb = some (s', a.status) ∧ IoReady s' ∧
      s'.executed = s.executed ++ [⟨c, a.status⟩] ∧
      s'.mem = (if a.status = 0 ∧ c.opcode = ioRead then
        scatter m c.addrs (sectorBytes s.disk c.slba c.nlb) else m) ∧
      s'.disk = (if a.status = 0 ∧ c.opcode = ioWrite then
        storeSectors s.disk c.slba c.nlb (gather m c.addrs) else s.disk) := by
  intro a m c
  have henter : s.cq.enter = some { s.cq with pc := .poll 0 } := if_pos hs.idle
  let s₀ : Io := { s with
    mem := m
    cmdId := (s.cmdId + 1) % 2 ^ 16
    cq := { s.cq with pc := .poll 0 }
    sqTail := nextSlot s.sqTail }
  have hne : s₀.sqHead ≠ s₀.sqTail := hs.sqHead_eq ▸ nextSlot_ne s.sqHead
  obtain ⟨cq, hloop, hcq, hidle, hans⟩ := pollLoop_eq ctl n (s := s₀) rfl (hs.cq.enter henter)
    hs.answered hne (Nat.zero_add _)
  have hc : decode s₀.mem (n.sqe ⟨.io, s₀.sqHead⟩) = c := by
    rw [show s₀.sqHead = s.sqTail from hs.sqHead_eq]
  refine ⟨{ s₀.perform n a with cq := cq }, ?_, ?_, ?_, ?_, ?_⟩
  · rw [ioCmd, submitAndWait, henter]
    exact hloop
  · exact ⟨hcq, hidle, hans, congrArg nextSlot hs.sqHead_eq, hs.present⟩
  all_goals
    simp only [Io.perform, hc]
    rfl

/-! ## The commands of a request -/

/-- The direction of a request. -/
inductive IoOp
  | read
  | write

/-- The opcode of the commands of a request. -/
def IoOp.opcode : IoOp → ℕ
  | .read => ioRead
  | .write => ioWrite

/-- A buffer for `nlb` sectors: a range of the address space beside the `nvme_t` object, whose pages
fit the PRP list when a command of the request covers it. -/
structure IoBuf (n : NvmeObj) (nlb : ℕ) where
  addr : ℕ
  fits : addr + lbaSize * nlb ≤ 2 ^ 64
  beside : addr + lbaSize * nlb ≤ n.addr ∨ n.addr + sizeofNvme ≤ addr
  prpFits : addr % pageSize + lbaSize * min nlb maxLbasPerCmd ≤ 8178 * pageSize

/-- What a request does when its first `k` sectors have been moved: the memory outside the `nvme_t`
object, and the disk. -/
def Moved (op : IoOp) (s s' : Io) (lba buf k : ℕ) : Prop :=
  match op with
  | .read => SameOutside n s'.mem (writeBytes s.mem buf (sectorBytes s.disk lba k)) ∧
      s'.disk = s.disk
  | .write => SameOutside n s'.mem s.mem ∧
      s'.disk = storeSectors s.disk lba k (readBytes s.mem buf (lbaSize * k))

theorem Moved.zero {op : IoOp} {s s' : Io} {lba buf : ℕ} (hm : SameOutside n s'.mem s.mem)
    (hd : s'.disk = s.disk) : Moved n op s s' lba buf 0 := by
  cases op with
  | read => exact ⟨by rwa [sectorBytes, Nat.mul_zero, List.range_zero, List.map_nil,
      writeBytes_nil], hd⟩
  | write => exact ⟨hm, by rw [storeSectors_zero, hd]⟩

/-- Two moves, one after the other. -/
theorem Moved.trans {op : IoOp} {s s' s'' : Io} {lba buf k k' : ℕ} (h : Moved n op s s' lba buf k)
    (h' : Moved n op s' s'' ((lba + k) % 2 ^ 64) (buf + lbaSize * k) k')
    (hk : buf + lbaSize * (k + k') ≤ 2 ^ 64)
    (hbeside : buf + lbaSize * (k + k') ≤ n.addr ∨ n.addr + sizeofNvme ≤ buf) :
    Moved n op s s'' lba buf (k + k') := by
  cases op with
  | read =>
    obtain ⟨hm, hd⟩ := h
    obtain ⟨hm', hd'⟩ := h'
    refine ⟨hm'.trans ?_, hd'.trans hd⟩
    have hrest := hm.writeBytes (buf + lbaSize * k) (sectorBytes s.disk ((lba + k) % 2 ^ 64) k')
    rw [hd]
    rwa [← length_sectorBytes s.disk lba k, writeBytes_append, ← sectorBytes_add,
      length_sectorBytes] at hrest
  | write =>
    obtain ⟨hm, hd⟩ := h
    obtain ⟨hm', hd'⟩ := h'
    refine ⟨hm'.trans hm, ?_⟩
    have hbuf : readBytes s'.mem (buf + lbaSize * k) (lbaSize * k') =
        readBytes s.mem (buf + lbaSize * k) (lbaSize * k') :=
      hm.readBytes_eq (by simp only [lbaSize] at *; omega)
    rw [hd', hd, hbuf, storeSectors_add _ _ _ _ (length_readBytes ..) (by
      simp only [lbaSize] at hk; omega), ← readBytes_add, ← Nat.mul_add]

/-- **One command of a request** moves its sectors if it succeeds, and nothing if it fails. -/
theorem ioCmd_transfer {s : Io} (hs : IoReady s) (op : IoOp) {lba nlb : ℕ} (hlba : lba < 2 ^ 64)
    (hpos : 1 ≤ nlb) (hnlb : nlb ≤ maxLbasPerCmd) (b : IoBuf n nlb) :
    let a := ctl s.executed.length
    ∃ s', ioCmd ctl n s op.opcode lba b.addr (lbaSize * nlb) nlb = some (s', a.status) ∧
      IoReady s' ∧
      s'.executed = s.executed ++ [⟨⟨op.opcode, nvmeNsid, lba, nlb, 0,
        List.range' b.addr (lbaSize * nlb)⟩, a.status⟩] ∧
      Moved n op s s' lba b.addr (if a.status = 0 then nlb else 0) := by
  intro a
  have hfit := b.prpFits
  rw [min_eq_left hnlb] at hfit
  have hop : op.opcode < 256 := by cases op <;> decide
  have hout := sameOutside_ioSqe n s.mem ⟨.io, s.sqTail⟩ op.opcode s.cmdId lba nlb hfit
  obtain ⟨s', hcmd, hs', hexec, hmem, hdisk⟩ :=
    ioCmd_eq ctl n hs op.opcode lba b.addr (lbaSize * nlb) nlb
  rw [decode_ioSqe n s.mem ⟨.io, s.sqTail⟩ s.cmdId hop hlba hpos
    (hnlb.trans (by decide)) hfit b.fits] at hexec hmem hdisk
  refine ⟨s', hcmd, hs', hexec, ?_⟩
  simp only at hmem hdisk
  by_cases hst : a.status = 0
  swap
  · rw [if_neg fun h => hst h.1] at hmem hdisk
    rw [if_neg hst]
    exact Moved.zero n (hmem ▸ hout) hdisk
  rw [if_pos hst]
  cases op with
  | read =>
    rw [if_pos ⟨hst, rfl⟩, scatter_range' _ _ _ (length_sectorBytes ..)] at hmem
    rw [if_neg fun h => absurd h.2 (by decide)] at hdisk
    exact ⟨hmem ▸ hout.writeBytes _ _, hdisk⟩
  | write =>
    rw [if_neg fun h => absurd h.2 (by decide)] at hmem
    rw [if_pos ⟨hst, rfl⟩, gather_range', hout.readBytes_eq b.beside] at hdisk
    exact ⟨hmem ▸ hout, hdisk⟩

/-! ## Requests -/

/-- The `i`-th command of a request. -/
def batchCmd (op : IoOp) (lba buf nlb i : ℕ) : Cmd where
  opcode := op.opcode
  nsid := nvmeNsid
  slba := (lba + maxLbasPerCmd * i) % 2 ^ 64
  nlb := min (nlb - maxLbasPerCmd * i) maxLbasPerCmd
  flags := 0
  addrs := List.range' (buf + lbaSize * (maxLbasPerCmd * i))
    (lbaSize * min (nlb - maxLbasPerCmd * i) maxLbasPerCmd)

/-- The commands of a request from the `first` one on, and the length the request returns: they are
consecutive, they stop at the first that fails and otherwise cover the request, and the length is
that of the commands that succeeded. -/
structure Issued (op : IoOp) (lba buf nlb first : ℕ) (cmds : List Executed) (r : ℕ) : Prop where
  cmd : ∀ i (hi : i < cmds.length), cmds[i].cmd = batchCmd op lba buf nlb (first + i)
  bounds : ∀ c ∈ cmds, 1 ≤ c.cmd.nlb ∧ c.cmd.nlb ≤ 65424
  stops : ∀ i (hi : i + 1 < cmds.length), cmds[i].status = 0
  total : r = min (maxLbasPerCmd * first) nlb +
    ((cmds.filter (·.status = 0)).map (·.cmd.nlb)).sum
  whole : (∀ c ∈ cmds, c.status = 0) → r = nlb

namespace Issued

variable {op : IoOp} {lba buf nlb first r : ℕ} {cmds : List Executed}

theorem nil (h : nlb ≤ maxLbasPerCmd * first) : Issued op lba buf nlb first [] nlb where
  cmd _ hi := absurd hi (Nat.not_lt_zero _)
  bounds _ hc := absurd hc List.not_mem_nil
  stops _ hi := absurd hi (Nat.not_lt_zero _)
  total := by simp [min_eq_right h]
  whole _ := rfl

theorem batch_bounds (h : maxLbasPerCmd * first < nlb) :
    1 ≤ (batchCmd op lba buf nlb first).nlb ∧ (batchCmd op lba buf nlb first).nlb ≤ 65424 :=
  ⟨le_min (Nat.sub_pos_of_lt h) (by decide), min_le_right _ _⟩

/-- A command that fails is the last one. -/
theorem failed {st : ℕ} (h : maxLbasPerCmd * first < nlb) (hst : st ≠ 0) :
    Issued op lba buf nlb first [⟨batchCmd op lba buf nlb first, st⟩] (maxLbasPerCmd * first) where
  cmd i hi := by
    obtain rfl : i = 0 := by simpa using hi
    rfl
  bounds c hc := by
    obtain rfl := List.mem_singleton.1 hc
    exact batch_bounds h
  stops i hi := absurd hi (by simp)
  total := by simp [hst, min_eq_left h.le]
  whole hall := absurd (hall _ (List.mem_singleton_self _)) hst

/-- A command that succeeds, and the rest of the request. -/
theorem cons (h : maxLbasPerCmd * first < nlb) (hrest : Issued op lba buf nlb (first + 1) cmds r) :
    Issued op lba buf nlb first (⟨batchCmd op lba buf nlb first, 0⟩ :: cmds) r where
  cmd i hi := by
    cases i with
    | zero => rfl
    | succ i =>
      rw [List.getElem_cons_succ, hrest.cmd i (Nat.lt_of_succ_lt_succ hi), Nat.add_right_comm,
        Nat.add_assoc]
  bounds c hc := by
    rcases List.mem_cons.1 hc with rfl | hc
    · exact batch_bounds h
    · exact hrest.bounds c hc
  stops i hi := by
    cases i with
    | zero => rfl
    | succ i => exact hrest.stops i (Nat.lt_of_succ_lt_succ hi)
  total := by
    rw [hrest.total, List.filter_cons_of_pos (by simp), List.map_cons, List.sum_cons]
    simp only [batchCmd, maxLbasPerCmd, maxSingleTransfer, lbaSize, pageSize] at *
    omega
  whole hall := hrest.whole fun c hc => hall c (List.mem_cons_of_mem _ hc)

end Issued

/-- The part of a buffer that the `i`-th command of a request covers. -/
def IoBuf.slice {n : NvmeObj} {nlb : ℕ} (b : IoBuf n nlb) (i : ℕ) (h : maxLbasPerCmd * i < nlb) :
    IoBuf n (min (nlb - maxLbasPerCmd * i) maxLbasPerCmd) where
  addr := b.addr + lbaSize * (maxLbasPerCmd * i)
  fits := by
    have := b.fits
    simp only [maxLbasPerCmd, maxSingleTransfer, lbaSize, pageSize] at *
    omega
  beside := by
    have := b.beside
    simp only [maxLbasPerCmd, maxSingleTransfer, lbaSize, pageSize, sizeofNvme, bar0Off, prpListOff,
      prpListPages] at *
    omega
  prpFits := by
    have := b.prpFits
    simp only [maxLbasPerCmd, maxSingleTransfer, lbaSize, pageSize] at *
    omega

/-- **The loop of a request**, from its `first` command on. -/
theorem transferLoop_eq (op : IoOp) {lba nlb : ℕ} (b : IoBuf n nlb) (first done : ℕ) (s : Io)
    (hs : IoReady s) (hdone : done = min (maxLbasPerCmd * first) nlb) :
    ∃ s' r cmds, transferLoop ctl n op.opcode lba b.addr nlb done s = some (s', r) ∧ IoReady s' ∧
      s'.executed = s.executed ++ cmds ∧ done ≤ r ∧ r ≤ nlb ∧
      Issued op lba b.addr nlb first cmds r ∧
      Moved n op s s' ((lba + done) % 2 ^ 64) (b.addr + lbaSize * done) (r - done) := by
  induction hk : nlb - done using Nat.strong_induction_on generalizing first done s with
  | _ k ih =>
    rw [transferLoop]
    by_cases hlt : done < nlb
    swap
    · rw [if_neg hlt]
      obtain rfl : done = nlb := by omega
      refine ⟨s, done, [], rfl, hs, (List.append_nil _).symm, Nat.le_refl _, Nat.le_refl _,
        Issued.nil (by omega), ?_⟩
      rw [Nat.sub_self]
      exact Moved.zero n (SameOutside.refl n s.mem) rfl
    obtain rfl : done = maxLbasPerCmd * first := by omega
    have hmax : 0 < maxLbasPerCmd := by decide
    obtain ⟨s₁, hcmd, hs₁, hexec, hmoved⟩ := ioCmd_transfer ctl n hs op
      (Nat.mod_lt (lba + maxLbasPerCmd * first) (by decide)) (le_min (by omega) hmax)
      (min_le_right (nlb - maxLbasPerCmd * first) maxLbasPerCmd) (b.slice first hlt)
    rw [if_pos hlt]
    simp only [IoBuf.slice] at hcmd hexec hmoved
    simp only [hcmd, Option.bind_some]
    by_cases hst : (ctl s.executed.length).status = 0
    swap
    · -- the loop stops here
      rw [if_pos hst]
      rw [if_neg hst] at hmoved
      refine ⟨s₁, _, _, rfl, hs₁, hexec, Nat.le_refl _, hlt.le, Issued.failed hlt hst, ?_⟩
      rwa [Nat.sub_self]
    rw [if_neg (not_not.2 hst)]
    rw [if_pos hst] at hmoved
    have hnext : maxLbasPerCmd * first + min (nlb - maxLbasPerCmd * first) maxLbasPerCmd =
        min (maxLbasPerCmd * (first + 1)) nlb := by
      rw [Nat.mul_succ]
      omega
    obtain ⟨s', r, cmds, hloop, hs', hexec', hle, hle', hissued, hmoved'⟩ :=
      ih _ (by omega) (first + 1) _ s₁ hs₁ hnext rfl
    refine ⟨s', r, ⟨batchCmd op lba b.addr nlb first, 0⟩ :: cmds, hloop, hs', ?_, by omega, hle',
      hissued.cons hlt, ?_⟩
    · rw [hexec', hexec, hst, List.append_assoc]
      rfl
    · have hsum : min (nlb - maxLbasPerCmd * first) maxLbasPerCmd +
          (r - (maxLbasPerCmd * first + min (nlb - maxLbasPerCmd * first) maxLbasPerCmd)) =
          r - maxLbasPerCmd * first := by omega
      have hfits := b.fits
      have hbeside := b.beside
      simp only [lbaSize] at hfits hbeside
      rw [← hsum]
      refine hmoved.trans n ?_ ?_ ?_
      · rwa [Nat.mod_add_mod, Nat.add_assoc, Nat.add_assoc, ← Nat.mul_add]
      · simp only [lbaSize]
        omega
      · simp only [lbaSize]
        omega

/-! ## Runs of requests -/

/-- A call of the driver. -/
inductive IoCall (n : NvmeObj)
  | read (lba nlb : ℕ) (b : IoBuf n nlb)
  | write (lba nlb : ℕ) (b : IoBuf n nlb)
  | flush

/-- The I/O queue pair after `nvme_init_nth`, with the memory and the disk as they are then. -/
def ioInit (m : Mem) (cmdId : ℕ) (d : Disk) : Io where
  mem := m
  cq := cqInit
  sqTail := 0
  cmdId := cmdId
  present := true
  sqHead := 0
  disk := d
  executed := []

/-- **The driver and its controller**, call by call. -/
def ioMachine (m : Mem) (cmdId : ℕ) (d : Disk) : Machine Io (IoCall n) where
  init := ioInit m cmdId d
  step
    | .read lba nlb b, s => (nvmeRead ctl n s lba b.addr nlb).map (·.1)
    | .write lba nlb b, s => (nvmeWrite ctl n s lba b.addr nlb).map (·.1)
    | .flush, s => (nvmeFlush ctl n s).map (·.1)

/-- A request is its loop, also when it is empty. -/
theorem nvmeTransfer_eq (op : IoOp) {s : Io} (hs : IoReady s) (lba nlb : ℕ) (b : IoBuf n nlb) :
    ∃ s' r cmds, (if s.present = false ∨ nlb = 0 then some (s, 0)
        else transferLoop ctl n op.opcode lba b.addr nlb 0 s) = some (s', r) ∧ IoReady s' ∧
      s'.executed = s.executed ++ cmds ∧ r ≤ nlb ∧ Issued op lba b.addr nlb 0 cmds r ∧
      Moved n op s s' (lba % 2 ^ 64) b.addr r := by
  obtain ⟨s', r, cmds, hloop, hs', hexec, -, hle, hissued, hmoved⟩ :=
    transferLoop_eq ctl n op b 0 0 s hs (by simp)
  refine ⟨s', r, cmds, ?_, hs', hexec, hle, hissued, hmoved⟩
  rw [hs.present]
  by_cases hnlb : nlb = 0
  · rw [if_pos (Or.inr hnlb), ← hloop, transferLoop, if_neg (by omega)]
  · rwa [if_neg (by simp [hnlb])]

theorem nvmeFlush_eq {s : Io} (hs : IoReady s) :
    ∃ s', nvmeFlush ctl n s = some (s', decide ((ctl s.executed.length).status = 0)) ∧
      IoReady s' ∧ SameOutside n s'.mem s.mem ∧ s'.disk = s.disk := by
  obtain ⟨s', hcmd, hs', -, hmem, hdisk⟩ := ioCmd_eq ctl n hs ioFlush 0 0 0 0
  have hop : (decode (ioSqe n s.mem (n.sqe ⟨.io, s.sqTail⟩) ioFlush s.cmdId 0 0 0 0)
      (n.sqe ⟨.io, s.sqTail⟩)).opcode = ioFlush :=
    ioSqe_opcode _ _ _ _ _ _ _ _ _ (by decide)
  rw [hop, if_neg fun h => absurd h.2 (by decide)] at hmem hdisk
  refine ⟨s', ?_, hs', ?_, hdisk⟩
  · rw [nvmeFlush, if_neg (by simp [hs.present]), hcmd]
    rfl
  · rw [hmem]
    exact sameOutside_ioSqe _ _ _ _ _ _ _ (by decide)

/-- Between calls the queue pair is always ready. -/
theorem ioReady_of_reachable {m : Mem} {cmdId : ℕ} {d : Disk} {s : Io}
    (h : (ioMachine ctl n m cmdId d).Reachable s) : IoReady s := by
  refine h.invariant (I := IoReady) ⟨CqInv.init, rfl, rfl, rfl, rfl⟩ fun {s s' a} hs _ hstep => ?_
  cases a with
  | read lba nlb b =>
    obtain ⟨s₁, r, cmds, hcall, hs₁, -⟩ := nvmeTransfer_eq ctl n .read hs lba nlb b
    obtain ⟨r', hr', rfl⟩ := Option.map_eq_some_iff.1 hstep
    obtain rfl := Option.some.inj (hr'.symm.trans hcall)
    exact hs₁
  | write lba nlb b =>
    obtain ⟨s₁, r, cmds, hcall, hs₁, -⟩ := nvmeTransfer_eq ctl n .write hs lba nlb b
    obtain ⟨r', hr', rfl⟩ := Option.map_eq_some_iff.1 hstep
    obtain rfl := Option.some.inj (hr'.symm.trans hcall)
    exact hs₁
  | flush =>
    obtain ⟨s₁, hcall, hs₁, -⟩ := nvmeFlush_eq ctl n hs
    obtain ⟨r', hr', rfl⟩ := Option.map_eq_some_iff.1 hstep
    obtain rfl := Option.some.inj (hr'.symm.trans hcall)
    exact hs₁

/-- **Block I/O refines a flat array of sectors.** In every state that calls of the driver reach, a
read issues consecutive commands up to the first failure, returns the length of those that
succeeded, and has moved that many sectors to the start of the buffer and nothing else; a write
likewise; and a write of a whole request followed by a read of the same sectors, both successful,
copies the one buffer to the other. -/
theorem blockIo {m : Mem} {cmdId : ℕ} {d : Disk} {s : Io}
    (h : (ioMachine ctl n m cmdId d).Reachable s) (lba nlb : ℕ) (b : IoBuf n nlb) :
    (∃ s' r cmds, nvmeRead ctl n s lba b.addr nlb = some (s', r) ∧
      s'.executed = s.executed ++ cmds ∧ Issued .read lba b.addr nlb 0 cmds r ∧
      SameOutside n s'.mem (writeBytes s.mem b.addr (sectorBytes s.disk (lba % 2 ^ 64) r)) ∧
      s'.disk = s.disk) ∧
    (∃ s' r cmds, nvmeWrite ctl n s lba b.addr nlb = some (s', r) ∧
      s'.executed = s.executed ++ cmds ∧ Issued .write lba b.addr nlb 0 cmds r ∧
      SameOutside n s'.mem s.mem ∧
      s'.disk = storeSectors s.disk (lba % 2 ^ 64) r (readBytes s.mem b.addr (lbaSize * r))) ∧
    (∀ (b' : IoBuf n nlb) (s₁ s₂ : Io), nvmeWrite ctl n s lba b.addr nlb = some (s₁, nlb) →
      nvmeRead ctl n s₁ lba b'.addr nlb = some (s₂, nlb) →
      readBytes s₂.mem b'.addr (lbaSize * nlb) = readBytes s.mem b.addr (lbaSize * nlb)) := by
  have hs := ioReady_of_reachable ctl n h
  obtain ⟨s', r, cmds, hcall, -, hexec, -, hissued, hmoved⟩ :=
    nvmeTransfer_eq ctl n .read hs lba nlb b
  obtain ⟨t', k, cmds', hcall', ht', hexec', -, hissued', hmoved'⟩ :=
    nvmeTransfer_eq ctl n .write hs lba nlb b
  refine ⟨⟨s', r, cmds, hcall, hexec, hissued, hmoved⟩,
    ⟨t', k, cmds', hcall', hexec', hissued', hmoved'⟩, fun b' s₁ s₂ hwrite hread => ?_⟩
  obtain ⟨rfl, rfl⟩ := Prod.mk.inj (Option.some.inj (hcall'.symm.trans hwrite))
  obtain ⟨u, j, cmds'', hcall'', -, -, -, -, hmem, -⟩ :=
    nvmeTransfer_eq ctl n .read ht' lba k b'
  obtain ⟨rfl, rfl⟩ := Prod.mk.inj (Option.some.inj (hcall''.symm.trans hread))
  have hfits := b.fits
  simp only [lbaSize] at hfits
  rw [hmem.readBytes_eq b'.beside, readBytes_writeBytes_self _ _ _ (length_sectorBytes ..).symm,
    hmoved'.2, sectorBytes_storeSectors _ _ _ _ (length_readBytes ..) (by omega)]

/-- A controller whose commands succeed after three polls. -/
def succeedLate : Controller := fun _ =>
  ⟨3, blankHead, 0, by decide, length_blankHead, status_zero_lt⟩

/-- A read of 70000 sectors, which takes two commands, after a flush. -/
theorem blockIo_afterFlush :
    let n : NvmeObj := ⟨0x80000000, by decide, by decide⟩
    ∃ s, (ioMachine succeedLate n (fun _ => 0) 4 fun _ _ => 1).Reachable s ∧
      ∃ s' r cmds, nvmeRead succeedLate n s 7 0x90000000 70000 = some (s', r) ∧
        s'.executed = s.executed ++ cmds ∧ Issued .read 7 0x90000000 70000 0 cmds r ∧
        SameOutside n s'.mem (writeBytes s.mem 0x90000000 (sectorBytes s.disk (7 % 2 ^ 64) r)) ∧
        s'.disk = s.disk := by
  intro n
  let b : IoBuf n 70000 := ⟨0x90000000, by decide, by decide, by decide⟩
  obtain ⟨s, hflush, -⟩ := nvmeFlush_eq succeedLate n
    (ioReady_of_reachable succeedLate n (.init : (ioMachine succeedLate n (fun _ => 0) 4
      fun _ _ => 1).Reachable _))
  have hs : (ioMachine succeedLate n (fun _ => 0) 4 fun _ _ => 1).Reachable s :=
    .step (a := .flush) .init trivial (congrArg (Option.map Prod.fst) hflush)
  exact ⟨s, hs, (blockIo succeedLate n hs 7 70000 b).1⟩

end RvvmHal.Nvme
