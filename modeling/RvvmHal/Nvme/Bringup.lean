import RvvmHal.Nvme.Admin
import RvvmHal.Pci.Scan

/-!
# Bringing a controller up

`nvme_init_nth`: the controller is found on the bus, reset, given the admin queue, enabled, asked for
the size of its namespace, and told of the I/O queues. The controller may be in any state before, and
is free in what it answers and when; but it rejects commands that the specification has it reject.

The call returns true exactly when the controller is there, follows the two waits and answers the
three commands with success in time; then the I/O queues it has made are those of the `nvme_t`, with
a blank completion ring, and the driver knows the size of the namespace (`nvmeInitNth_spec`).
-/

namespace RvvmHal.Nvme

open Bytes Pci

/-! ## The call -/

/-- `ns_id_buf`: a page beside the `nvme_t` object. -/
structure IdBuf (n : NvmeObj) where
  addr : ℕ
  aligned : addr % pageSize = 0
  fits : addr + pageSize ≤ 2 ^ 64
  beside : addr + pageSize ≤ n.addr ∨ n.addr + sizeofNvme ≤ addr

/-- `cqe_r64`. -/
def cqeR64 (m : Mem) (cqe off : ℕ) : ℕ := cqeR32 m cqe off ||| cqeR32 m cqe (off + 4) <<< 32

/-- `wait_csts_rdy`. -/
def waitCstsRdy (c : AdminCtl) (s : Setup) (want : Bool) (spin : ℕ) : Bool :=
  (List.range spin).any fun i => (c.csts (s.regs regCc &&& 1 != 0) i &&& 0x00000001 != 0) == want

/-- A write of `CC`. A controller that is disabled forgets its queues. -/
def Setup.writeCc (s : Setup) (v : ℕ) : Setup :=
  if v &&& 1 = 0 then { s.w32 regCc v with fetched := 0, ioCq := none, ioSq := none }
  else s.w32 regCc v

/-- A 64-bit value in two registers. -/
def Setup.w64 (s : Setup) (lo hi v : ℕ) : Setup :=
  (s.w32 lo (v % 2 ^ 32)).w32 hi ((v >>> 32) % 2 ^ 32)

variable (c : AdminCtl) (n : NvmeObj) (b : IdBuf n)

/-- The `nvme_t` with all its bytes zero. -/
def Setup.zeroed (s : Setup) : Setup :=
  { s with
    mem := writeBytes s.mem n.addr (List.replicate sizeofNvme 0)
    asqTail := 0, acqHead := 0, acqPhase := false, cmdId := 0, numLbas := 0, present := false }

/-- The part of `nvme_init_nth` that needs the controller to answer: Identify, and the I/O queues. -/
def createQueues (s : Setup) : Setup × Bool :=
  let r := adminCmd c n s admIdentify nvmeNsid b.addr pageSize 0x00 0
  if r.2 ≠ 0 then (r.1, false)
  else
    let s := { r.1 with numLbas := cqeR64 r.1.mem b.addr 0 }
    let cdw10 := ioQid ||| (queueDepth - 1) <<< 16
    let r := adminCmd c n s admCreateIoCq 0 (n.addr + Qid.io.cqBuf) 0 cdw10 0x0001
    if r.2 ≠ 0 then (r.1, false)
    else
      let r := adminCmd c n r.1 admCreateIoSq 0 (n.addr + Qid.io.sqBuf) 0 cdw10 (0x0001 ||| ioQid <<< 16)
      if r.2 ≠ 0 then (r.1, false) else ({ r.1 with present := true }, true)

/-- The driver's variables before the first command, and the reset. -/
def Setup.reset (s : Setup) : Setup := { s with acqPhase := true, cmdId := 1 }.writeCc 0

/-- The registers of a disabled controller, up to its enabling. -/
def Setup.program (s : Setup) : Setup :=
  let s := s.w32 regAqa (queueDepth - 1 ||| (queueDepth - 1) <<< 16)
  let s := s.w64 regAsqLo regAsqHi (n.addr + Qid.admin.sqBuf)
  let s := s.w64 regAcqLo regAcqHi (n.addr + Qid.admin.cqBuf)
  s.writeCc ccEnable

/-- `nvme_init_nth` from where it has the registers. -/
def bringUp (s : Setup) : Setup × Bool :=
  let s := s.reset
  if waitCstsRdy c s false 100000 = false then (s, false)
  else
    let s := s.program n
    if waitCstsRdy c s true 100000 = false then (s, false) else createQueues c n b s

/-- `nvme_init_nth`, if the scan of the bus ends; `s` has the controller that is found. -/
def nvmeInitNth (ecam : Ecam) (depth idx : ℕ) (s : Setup) : Option (Setup × Bool) :=
  (pciFindDeviceNth ecam depth 0x45121F31 idx).map fun
    | none => (s.zeroed n, false)
    | some f =>
      if (pciSetupBars ecam f).1.bar 0 = 0 then (s.zeroed n, false)
      else bringUp c n b (s.zeroed n)

/-! ## What it leaves -/

/-- The controller follows `CC.EN` within the reads of `wait_csts_rdy`. -/
def AdminCtl.Follows (c : AdminCtl) (en : Bool) : Prop :=
  ∃ i < 100000, (c.csts en i &&& 1 != 0) = en

/-- The controller can make the queues, and answers the `k`-th command with success in time. -/
def AdminCtl.Succeeds (c : AdminCtl) (k : ℕ) : Prop :=
  (c.answer k).delay < spinLimit ∧ (c.answer k).status = 0

/-- **A controller that has been brought up**: its I/O queues are the driver's, the completion ring is
blank, the size of the namespace is known, and nothing but the object and the page for Identify has
changed. -/
structure BroughtUp (s s' : Setup) : Prop where
  ioSq : s'.ioSq = some ⟨n.addr + Qid.io.sqBuf, queueDepth⟩
  ioCq : s'.ioCq = some ⟨n.addr + Qid.io.cqBuf, queueDepth⟩
  blank : ∀ i < pageSize, s'.mem (n.addr + Qid.io.cqBuf + i) = 0
  numLbas : s'.numLbas = ofLe (c.idData.take 8)
  cmdId : s'.cmdId = 4
  identified : readBytes s'.mem b.addr pageSize = c.idData
  mem : ∀ x, x < n.addr ∨ n.addr + sizeofNvme ≤ x → x < b.addr ∨ b.addr + pageSize ≤ x →
    s'.mem x = s.mem x

/-! ## The registers -/

variable {c n b}

theorem waitCstsRdy_iff {s : Setup} {en : Bool} (h : (s.regs regCc &&& 1 != 0) = en) :
    waitCstsRdy c s en 100000 = true ↔ c.Follows en := by
  simp only [waitCstsRdy, h, List.any_eq_true, List.mem_range, beq_iff_eq, AdminCtl.Follows]

theorem writeCc_regs (s : Setup) (v : ℕ) : (s.writeCc v).regs = Function.update s.regs regCc v := by
  unfold Setup.writeCc
  split <;> rfl

/-- The two halves of an address. -/
theorem halves_eq {v : ℕ} (h : v < 2 ^ 64) : v % 2 ^ 32 + (v >>> 32) % 2 ^ 32 * 2 ^ 32 = v := by
  rw [Word.shiftRight_eq]
  omega

/-- **The registers when the controller is enabled** name the driver's admin queue. -/
theorem program_regs (s : Setup) :
    (s.program n).regs regCc = ccEnable ∧
      (s.program n).asq = ⟨n.addr + Qid.admin.sqBuf, queueDepth⟩ ∧
      (s.program n).acq = ⟨n.addr + Qid.admin.cqBuf, queueDepth⟩ := by
  have hfits := n.fits
  have hsq : n.addr + Qid.admin.sqBuf < 2 ^ 64 := by
    simp only [sizeofNvme, bar0Off, prpListOff, prpListPages, pageSize, Qid.sqBuf] at *
    omega
  have hcq : n.addr + Qid.admin.cqBuf < 2 ^ 64 := by
    simp only [sizeofNvme, bar0Off, prpListOff, prpListPages, pageSize, Qid.cqBuf] at *
    omega
  have hregs : (s.program n).regs = _ := writeCc_regs _ _
  refine ⟨?_, ?_, ?_⟩
  · rw [hregs, Function.update_self]
  · rw [Setup.asq, hregs]
    simp only [Setup.w64, Setup.w32, Function.update, regCc, regAqa, regAsqLo, regAsqHi, regAcqLo,
      regAcqHi]
    simp only [Nat.reduceEqDiff, dite_false, dite_true, halves_eq hsq]
    rfl
  · rw [Setup.acq, hregs]
    simp only [Setup.w64, Setup.w32, Function.update, regCc, regAqa, regAsqLo, regAsqHi, regAcqLo,
      regAcqHi]
    simp only [Nat.reduceEqDiff, dite_false, dite_true, halves_eq hcq]
    rfl

theorem mem_program (s : Setup) : ((s.zeroed n).reset.program n).mem = (s.zeroed n).mem := rfl

/-- The bytes of the object are zero. -/
theorem mem_zeroed (s : Setup) {x : ℕ} (h₁ : n.addr ≤ x) (h₂ : x < n.addr + sizeofNvme) :
    (s.zeroed n).mem x = 0 := by
  have hlen : x - n.addr < (List.replicate sizeofNvme (0 : UInt8)).length := by
    rw [List.length_replicate]
    omega
  refine (writeBytes_of_mem s.mem n.addr _ h₁ (by rwa [List.length_replicate])).trans ?_
  rw [List.getD_eq_getElem _ _ hlen, List.getElem_replicate]

/-- **The admin queue is ready** when the controller has been enabled. -/
theorem adminReady_program (s : Setup) : AdminReady n 0 ((s.zeroed n).reset.program n) := by
  obtain ⟨hcc, hasq, hacq⟩ := program_regs (n := n) (s.zeroed n).reset
  exact {
    lt := by decide
    fetched := rfl
    asqTail := rfl
    acqHead := rfl
    acqPhase := rfl
    cc := hcc
    asq := hasq
    acq := hacq
    cmdId := show 1 < 2 ^ 16 by decide
    blank := fun x h₁ h₂ => by
      rw [mem_program]
      refine mem_zeroed s ?_ ?_
      all_goals
        simp only [Qid.cqBuf, sizeofNvme, bar0Off, prpListOff, prpListPages, pageSize,
          queueDepth] at *
        omega }

/-! ## The three commands -/

theorem cqeR64_eq (m : Mem) (cqe off : ℕ) : cqeR64 m cqe off = readLe m (cqe + off) 8 := by
  have hlow := readLe_lt m (cqe + off) 4
  rw [cqeR64, cqeR32_eq, cqeR32_eq, Word.or_shiftLeft hlow, show 8 = 4 + 4 from rfl, readLe_add,
    Nat.mul_comm]
  rfl

/-- A change of the size of the namespace is none of the queue. -/
theorem AdminReady.setNumLbas {k : ℕ} {s : Setup} (h : AdminReady n k s) (v : ℕ) :
    AdminReady n k { s with numLbas := v } :=
  ⟨h.lt, h.fetched, h.asqTail, h.acqHead, h.acqPhase, h.cc, h.asq, h.acq, h.cmdId, h.blank⟩

/-- The Create commands are accepted when the controller supports queues of that size. -/
theorem creates_iff {s : Setup} (hcc : s.regs regCc = ccEnable) {cmd : AdminCmd}
    (hprp : cmd.prp1 % pageSize = 0) (h₁₀ : cmd.cdw10 = ioQid ||| (queueDepth - 1) <<< 16)
    (h₁₁ : cmd.cdw11 % 2 = 1) : c.Creates s cmd ↔ queueDepth - 1 ≤ c.mqes := by
  rw [AdminCtl.Creates, hcc, h₁₀]
  exact ⟨fun h => h.2.2.2.2, fun h => ⟨by decide, by decide, h₁₁, hprp, h⟩⟩

/-- The Identify command, as the controller sees it. -/
def identifyCmd (b : IdBuf n) : AdminCmd := ⟨admIdentify, 1, nvmeNsid, b.addr, 0, 0x00, 0⟩

/-- The Create I/O Completion Queue command. -/
def createCqCmd (n : NvmeObj) : AdminCmd :=
  ⟨admCreateIoCq, 2, 0, n.addr + Qid.io.cqBuf, 0, ioQid ||| (queueDepth - 1) <<< 16, 0x0001⟩

/-- The Create I/O Submission Queue command. -/
def createSqCmd (n : NvmeObj) : AdminCmd :=
  ⟨admCreateIoSq, 3, 0, n.addr + Qid.io.sqBuf, 0, ioQid ||| (queueDepth - 1) <<< 16,
    0x0001 ||| ioQid <<< 16⟩

theorem AdminCmd.Fits.setPrp {cmd : AdminCmd} (h : cmd.Fits) {prp : ℕ} (hprp : prp < 2 ^ 64) :
    ({ cmd with prp1 := prp } : AdminCmd).Fits :=
  ⟨h.opcode, h.cid, h.nsid, hprp, h.prp2, h.cdw10, h.cdw11⟩

theorem fits_identifyCmd (b : IdBuf n) : (identifyCmd b).Fits := by
  have hfits := b.fits
  have h₀ : (⟨admIdentify, 1, nvmeNsid, 0, 0, 0x00, 0⟩ : AdminCmd).Fits :=
    ⟨by decide, by decide, by decide, by decide, by decide, by decide, by decide⟩
  refine h₀.setPrp ?_
  simp only [pageSize] at hfits
  omega

theorem fits_createCqCmd (n : NvmeObj) : (createCqCmd n).Fits := by
  have hfits := n.fits
  have h₀ : (⟨admCreateIoCq, 2, 0, 0, 0, ioQid ||| (queueDepth - 1) <<< 16, 0x0001⟩ :
      AdminCmd).Fits := ⟨by decide, by decide, by decide, by decide, by decide, by decide, by decide⟩
  refine h₀.setPrp ?_
  simp only [Qid.cqBuf, sizeofNvme, bar0Off, prpListOff, prpListPages, pageSize] at *
  omega

theorem fits_createSqCmd (n : NvmeObj) : (createSqCmd n).Fits := by
  have hfits := n.fits
  have h₀ : (⟨admCreateIoSq, 3, 0, 0, 0, ioQid ||| (queueDepth - 1) <<< 16, 0x0001 ||| ioQid <<< 16⟩ :
      AdminCmd).Fits := ⟨by decide, by decide, by decide, by decide, by decide, by decide, by decide⟩
  refine h₀.setPrp ?_
  simp only [Qid.sqBuf, sizeofNvme, bar0Off, prpListOff, prpListPages, pageSize] at *
  omega

theorem createCqCmd_aligned (n : NvmeObj) : (createCqCmd n).prp1 % pageSize = 0 := by
  have haligned := n.aligned
  simp only [createCqCmd, Qid.cqBuf, pageSize] at *
  omega

theorem createSqCmd_aligned (n : NvmeObj) : (createSqCmd n).prp1 % pageSize = 0 := by
  have haligned := n.aligned
  simp only [createSqCmd, Qid.sqBuf, pageSize] at *
  omega

theorem accepts_identifyCmd (s : Setup) : c.Accepts s (identifyCmd b) :=
  Or.inl ⟨rfl, rfl, rfl⟩

theorem accepts_createCqCmd {s : Setup} (hcc : s.regs regCc = ccEnable) (hcq : s.ioCq = none) :
    c.Accepts s (createCqCmd n) ↔ queueDepth - 1 ≤ c.mqes := by
  rw [← creates_iff (c := c) hcc (createCqCmd_aligned n) rfl rfl]
  refine ⟨fun h => ?_, fun h => Or.inr (Or.inl ⟨rfl, h, hcq⟩)⟩
  rcases h with ⟨hop, -⟩ | ⟨-, h, -⟩ | ⟨hop, -⟩
  · cases hop
  · exact h
  · cases hop

theorem accepts_createSqCmd {s : Setup} (hcc : s.regs regCc = ccEnable) (hsq : s.ioSq = none)
    (hcq : s.ioCq ≠ none) : c.Accepts s (createSqCmd n) ↔ queueDepth - 1 ≤ c.mqes := by
  have hpc : (createSqCmd n).cdw11 % 2 = 1 := by simp only [createSqCmd]; decide
  rw [← creates_iff (c := c) hcc (createSqCmd_aligned n) rfl hpc]
  have hcqid : (createSqCmd n).cdw11 / 2 ^ 16 = ioQid := by simp only [createSqCmd]; decide
  refine ⟨fun h => ?_, fun h => Or.inr (Or.inr ⟨rfl, h, hsq, hcqid, hcq⟩)⟩
  rcases h with ⟨hop, -⟩ | ⟨hop, -⟩ | ⟨-, h, -⟩
  · cases hop
  · cases hop
  · exact h

theorem succeeds_three : (∀ k < 3, c.Succeeds k) ↔ c.Succeeds 0 ∧ c.Succeeds 1 ∧ c.Succeeds 2 := by
  refine ⟨fun h => ⟨h 0 (by decide), h 1 (by decide), h 2 (by decide)⟩, fun ⟨h₀, h₁, h₂⟩ k hk => ?_⟩
  obtain rfl | rfl | rfl : k = 0 ∨ k = 1 ∨ k = 2 := by omega
  · exact h₀
  · exact h₁
  · exact h₂

/-- The ring that a Create command describes has the size of the queue. -/
theorem createSize_eq : (ioQid ||| (queueDepth - 1) <<< 16) / 2 ^ 16 + 1 = queueDepth := by decide

theorem execute_createCqCmd (s : Setup) : (c.execute s (createCqCmd n)).ioCq =
    some ⟨n.addr + Qid.io.cqBuf, queueDepth⟩ := by
  rw [AdminCtl.execute, if_neg (by simp only [createCqCmd]; decide),
    if_pos (show (createCqCmd n).opcode = admCreateIoCq from rfl)]
  simp only [Setup.ring, createCqCmd, createSize_eq]

theorem execute_createSqCmd (s : Setup) : (c.execute s (createSqCmd n)).ioSq =
    some ⟨n.addr + Qid.io.sqBuf, queueDepth⟩ ∧ (c.execute s (createSqCmd n)).ioCq = s.ioCq := by
  rw [AdminCtl.execute, if_neg (by simp only [createSqCmd]; decide),
    if_neg (by simp only [createSqCmd]; decide)]
  simp only [Setup.ring, createSqCmd, createSize_eq, and_self]

theorem AdminDone.next_cmdId {k : ℕ} {s s' : Setup} {cmd : AdminCmd} (h : AdminDone c n k s cmd s')
    {i : ℕ} (hi : s.cmdId = i) (hlt : i + 1 < 2 ^ 16) : s'.cmdId = i + 1 := by
  rw [h.cmdId, hi, Nat.mod_eq_of_lt hlt]

/-- The state after the three commands, if they have succeeded. -/
structure Created (c : AdminCtl) (n : NvmeObj) (b : IdBuf n) (s s' : Setup) : Prop where
  ioSq : s'.ioSq = some ⟨n.addr + Qid.io.sqBuf, queueDepth⟩
  ioCq : s'.ioCq = some ⟨n.addr + Qid.io.cqBuf, queueDepth⟩
  numLbas : s'.numLbas = ofLe (c.idData.take 8)
  cmdId : s'.cmdId = 4
  mem : ∀ x, x < n.addr ∨ n.addr + 2 * pageSize ≤ x →
    s'.mem x = writeBytes s.mem b.addr c.idData x

/-- **The three commands** succeed exactly when the controller supports the queues and answers each
with success in time. -/
theorem createQueues_spec {s : Setup} (hs : AdminReady n 0 s) (hcq : s.ioCq = none)
    (hsq : s.ioSq = none) (hid : s.cmdId = 1) (hp : s.present = false) :
    ∃ s' ok, createQueues c n b s = (s', ok) ∧
      (ok = true ↔ queueDepth - 1 ≤ c.mqes ∧ ∀ k < 3, c.Succeeds k) ∧ s'.present = ok ∧
      (ok = true → Created c n b s s') := by
  rw [succeeds_three]
  -- Identify
  obtain ⟨s₁, st₁, hcmd₁, hzero₁, hdone₁, hp₁⟩ := adminCmd_spec (c := c) hs (by decide) b.aligned
    le_rfl (by rw [hid]; exact fits_identifyCmd b) fun _ => b.beside
  rw [hid] at hzero₁ hdone₁
  replace hzero₁ := hzero₁.trans (and_iff_right (accepts_identifyCmd s))
  simp only [createQueues, hcmd₁]
  by_cases hst₁ : st₁ = 0
  swap
  · rw [if_pos hst₁]
    exact ⟨_, _, rfl, iff_of_false Bool.false_ne_true fun h => hst₁ (hzero₁.2 h.2.1), hp₁.trans hp,
      fun h => absurd h Bool.false_ne_true⟩
  rw [if_neg (not_not.2 hst₁)]
  have h₁ := hdone₁ hst₁
  have hnum : cqeR64 s₁.mem b.addr 0 = ofLe (c.idData.take 8) := by
    have hlen := c.length_idData
    have hread : readBytes s₁.mem b.addr pageSize = c.idData := by
      refine (readBytes_congr _ fun x hx₁ hx₂ => h₁.mem x ?_).trans
        (readBytes_writeBytes_self s.mem b.addr c.idData hlen.symm)
      have := b.beside
      simp only [sizeofNvme, bar0Off, prpListOff, prpListPages, pageSize] at *
      omega
    rw [cqeR64_eq, readLe, Nat.add_zero, ← take_readBytes _ _ _ (show 8 ≤ pageSize by decide), hread]
  rw [hnum]
  -- Create I/O Completion Queue
  have hready₁ := h₁.ready.setNumLbas (ofLe (c.idData.take 8))
  have hid₁ : s₁.cmdId = 2 := h₁.next_cmdId hid (by decide)
  have hcq₁ : s₁.ioCq = none := h₁.ioCq.trans hcq
  have hfits₂ := fits_createCqCmd n
  rw [createCqCmd, ← hid₁] at hfits₂
  obtain ⟨s₂, st₂, hcmd₂, hzero₂, hdone₂, hp₂⟩ := adminCmd_spec (c := c) hready₁ (by decide)
    (createCqCmd_aligned n) (Nat.zero_le _) hfits₂ fun h => absurd h (by decide)
  replace hdone₂ : st₂ = 0 → AdminDone c n 1
      { s₁ with numLbas := ofLe (c.idData.take 8) } (createCqCmd n) s₂ := by
    rw [createCqCmd, ← hid₁]
    exact hdone₂
  simp only [hid₁] at hzero₂
  replace hzero₂ := hzero₂.trans (and_congr_left' (accepts_createCqCmd h₁.ready.cc hcq₁))
  rw [createCqCmd] at hcmd₂
  rw [hcmd₂]
  by_cases hst₂ : st₂ = 0
  swap
  · rw [if_pos hst₂]
    exact ⟨_, _, rfl, iff_of_false Bool.false_ne_true fun h => hst₂ (hzero₂.2 ⟨h.1, h.2.2.1⟩),
      hp₂.trans (hp₁.trans hp), fun h => absurd h Bool.false_ne_true⟩
  rw [if_neg (not_not.2 hst₂)]
  have h₂ := hdone₂ hst₂
  -- Create I/O Submission Queue
  have hid₂ : s₂.cmdId = 3 := h₂.next_cmdId (show _ = 2 from hid₁) (by decide)
  have hcq₂ : s₂.ioCq = some ⟨n.addr + Qid.io.cqBuf, queueDepth⟩ :=
    h₂.ioCq.trans (execute_createCqCmd _)
  have hsq₂ : s₂.ioSq = none := h₂.ioSq.trans (h₁.ioSq.trans hsq)
  have hfits₃ := fits_createSqCmd n
  rw [createSqCmd, ← hid₂] at hfits₃
  obtain ⟨s₃, st₃, hcmd₃, hzero₃, hdone₃, hp₃⟩ := adminCmd_spec (c := c) h₂.ready (by decide)
    (createSqCmd_aligned n) (Nat.zero_le _) hfits₃ fun h => absurd h (by decide)
  replace hdone₃ : st₃ = 0 → AdminDone c n 2 s₂ (createSqCmd n) s₃ := by
    rw [createSqCmd, ← hid₂]
    exact hdone₃
  simp only [hid₂] at hzero₃
  replace hzero₃ := hzero₃.trans (and_congr_left'
    (accepts_createSqCmd h₂.ready.cc hsq₂ (by rw [hcq₂]; exact Option.some_ne_none _)))
  rw [createSqCmd] at hcmd₃
  rw [hcmd₃]
  by_cases hst₃ : st₃ = 0
  swap
  · rw [if_pos hst₃]
    exact ⟨_, _, rfl, iff_of_false Bool.false_ne_true fun h => hst₃ (hzero₃.2 ⟨h.1, h.2.2.2⟩),
      hp₃.trans (hp₂.trans (hp₁.trans hp)), fun h => absurd h Bool.false_ne_true⟩
  rw [if_neg (not_not.2 hst₃)]
  have h₃ := hdone₃ hst₃
  refine ⟨_, _, rfl, iff_of_true rfl
    ⟨(hzero₂.1 hst₂).1, hzero₁.1 hst₁, (hzero₂.1 hst₂).2, (hzero₃.1 hst₃).2⟩, rfl, fun _ => ?_⟩
  exact {
    ioSq := h₃.ioSq.trans (execute_createSqCmd s₂).1
    ioCq := h₃.ioCq.trans ((execute_createSqCmd s₂).2.trans hcq₂)
    numLbas := h₃.numLbas.trans h₂.numLbas
    cmdId := h₃.next_cmdId hid₂ (by decide)
    mem := fun x hx => (h₃.mem x hx).trans ((h₂.mem x hx).trans (h₁.mem x hx)) }

/-! ## The whole call -/

theorem Created.broughtUp {s s' : Setup} (h : Created c n b ((s.zeroed n).reset.program n) s') :
    BroughtUp c n b s s' := by
  have hbeside := b.beside
  have hlen := c.length_idData
  refine ⟨h.ioSq, h.ioCq, fun i hi => ?_, h.numLbas, h.cmdId, ?_, fun x hx hb => ?_⟩
  · have hx : n.addr + 2 * pageSize ≤ n.addr + Qid.io.cqBuf + i ∧
        n.addr + Qid.io.cqBuf + i < n.addr + sizeofNvme := by
      simp only [Qid.cqBuf, sizeofNvme, bar0Off, prpListOff, prpListPages, pageSize] at *
      omega
    rw [h.mem _ (Or.inr hx.1), writeBytes_of_not_mem _ _ _ (by omega), mem_program,
      mem_zeroed s (by omega) hx.2]
  · refine (readBytes_congr _ fun x hx₁ hx₂ => h.mem x ?_).trans
      (readBytes_writeBytes_self _ b.addr c.idData hlen.symm)
    simp only [sizeofNvme, bar0Off, prpListOff, prpListPages, pageSize] at *
    omega
  · rw [h.mem x (by
        simp only [sizeofNvme, bar0Off, prpListOff, prpListPages, pageSize] at *
        omega), writeBytes_of_not_mem _ _ _ (by omega), mem_program]
    exact writeBytes_of_not_mem _ _ _ (by rwa [List.length_replicate])

theorem bringUp_spec (s : Setup) :
    ∃ s' ok, bringUp c n b (s.zeroed n) = (s', ok) ∧
      (ok = true ↔ c.Follows false ∧ c.Follows true ∧ queueDepth - 1 ≤ c.mqes ∧
        ∀ k < 3, c.Succeeds k) ∧ s'.present = ok ∧ (ok = true → BroughtUp c n b s s') := by
  have hoff : ((s.zeroed n).reset.regs regCc &&& 1 != 0) = false := by
    rw [Setup.reset, writeCc_regs, Function.update_self]
    rfl
  have hready := adminReady_program (n := n) s
  have hon : (((s.zeroed n).reset.program n).regs regCc &&& 1 != 0) = true := by
    rw [hready.cc]
    rfl
  have hwait₀ := waitCstsRdy_iff (c := c) hoff
  have hwait₁ := waitCstsRdy_iff (c := c) hon
  rw [bringUp]
  by_cases h₀ : waitCstsRdy c (s.zeroed n).reset false 100000 = false
  · refine ⟨_, _, if_pos h₀, iff_of_false Bool.false_ne_true fun h => ?_, rfl,
      fun h => absurd h Bool.false_ne_true⟩
    exact absurd (hwait₀.2 h.1) (by rw [h₀]; exact Bool.false_ne_true)
  by_cases h₁ : waitCstsRdy c ((s.zeroed n).reset.program n) true 100000 = false
  · refine ⟨_, _, (if_neg h₀).trans (if_pos h₁), iff_of_false Bool.false_ne_true fun h => ?_, rfl,
      fun h => absurd h Bool.false_ne_true⟩
    exact absurd (hwait₁.2 h.2.1) (by rw [h₁]; exact Bool.false_ne_true)
  obtain ⟨s', ok, hcreate, hok, hpresent, hdone⟩ := createQueues_spec (c := c) (b := b) hready rfl rfl
    rfl rfl
  refine ⟨s', ok, (if_neg h₀).trans ((if_neg h₁).trans hcreate), hok.trans ?_, hpresent,
    fun h => (hdone h).broughtUp⟩
  exact ⟨fun h => ⟨hwait₀.1 (Bool.eq_true_of_not_eq_false h₀),
    hwait₁.1 (Bool.eq_true_of_not_eq_false h₁), h⟩, fun h => h.2.2⟩

/-- **`nvme_init_nth` returns true exactly when the controller can be brought up**: it is on the bus
with a base address, its ready bit follows both writes of `CC`, it supports queues of 64 entries, and
it answers the three commands with success before the polls run out. Then the I/O queues it has made
are those of the driver; otherwise the driver takes the controller for absent. -/
theorem nvmeInitNth_spec {ecam : Ecam} {depth idx : ℕ} {s s' : Setup} {ok : Bool}
    (h : nvmeInitNth c n b ecam depth idx s = some (s', ok)) :
    (ok = true ↔ (∃ f, pciFindDeviceNth ecam depth 0x45121F31 idx = some (some f) ∧
        (pciSetupBars ecam f).1.bar 0 ≠ 0) ∧
      c.Follows false ∧ c.Follows true ∧ queueDepth - 1 ≤ c.mqes ∧ ∀ k < 3, c.Succeeds k) ∧
    s'.present = ok ∧ (ok = true → BroughtUp c n b s s') := by
  obtain ⟨found, hfound, hr⟩ := Option.map_eq_some_iff.1 h
  cases found with
  | none =>
    obtain ⟨rfl, rfl⟩ := Prod.mk.inj hr
    refine ⟨iff_of_false Bool.false_ne_true fun ⟨⟨f, hf, _⟩, _⟩ => ?_, rfl,
      fun h => absurd h Bool.false_ne_true⟩
    rw [hfound] at hf
    cases hf
  | some f =>
    dsimp only at hr
    by_cases hbar : (pciSetupBars ecam f).1.bar 0 = 0
    · rw [if_pos hbar] at hr
      obtain ⟨rfl, rfl⟩ := Prod.mk.inj hr
      refine ⟨iff_of_false Bool.false_ne_true fun ⟨⟨f', hf, hne⟩, _⟩ => hne ?_, rfl,
        fun h => absurd h Bool.false_ne_true⟩
      rw [hfound] at hf
      cases hf
      exact hbar
    · rw [if_neg hbar] at hr
      obtain ⟨s₁, ok₁, hup, hok, hpresent, hdone⟩ := bringUp_spec (c := c) (n := n) (b := b) s
      obtain ⟨rfl, rfl⟩ := Prod.mk.inj (hup.symm.trans hr)
      exact ⟨hok.trans (and_iff_right ⟨f, hfound, hbar⟩).symm, hpresent, hdone⟩

/-- A bus with a controller in its first slot, with a 64-bit base address. -/
def oneNvme : Ecam where
  base := 0
  mem x := if x < 0x1000 then
      (leBytes 4 0x45121F31 ++ List.replicate 12 0 ++ leBytes 8 0x40000004).getD x 0
    else 0xFF

theorem zeros_length : (List.replicate pageSize (0 : UInt8)).length = pageSize :=
  List.length_replicate

/-- A controller that follows `CC.EN` at the second read and answers after three polls. -/
def promptCtl : AdminCtl where
  csts en i := if i = 0 then (!en).toNat else en.toNat
  answer _ := ⟨3, blankHead, 0, length_blankHead, status_zero_lt⟩
  mqes := 63
  idData := List.replicate pageSize 0
  length_idData := zeros_length

/-- An `nvme_t` in use, and a controller with queues of an earlier driver. -/
def usedSetup : Setup where
  mem _ := 0xEE
  asqTail := 3
  acqHead := 3
  acqPhase := false
  cmdId := 700
  numLbas := 5
  present := true
  regs _ := 1
  fetched := 3
  ioCq := some ⟨0x1000, 2⟩
  ioSq := none

theorem nvmeInitNth_spec_oneNvme :
    let n : NvmeObj := ⟨0x80000000, by decide, by decide⟩
    let b : IdBuf n := ⟨0x90000000, by decide, by decide, by decide⟩
    ∃ s', nvmeInitNth promptCtl n b oneNvme 1 0 usedSetup = some (s', true) ∧
      BroughtUp promptCtl n b usedSetup s' := by
  intro n b
  have hfind : pciFindDeviceNth oneNvme 1 0x45121F31 0 = some (some (fillFunc 0 0 0 0)) := rfl
  have hbar : (pciSetupBars oneNvme (fillFunc 0 0 0 0)).1.bar 0 ≠ 0 := by decide
  obtain ⟨s', ok, hcall⟩ : ∃ s' ok, nvmeInitNth promptCtl n b oneNvme 1 0 usedSetup =
      some (s', ok) := by
    rw [nvmeInitNth, hfind]
    exact ⟨_, _, congrArg some Prod.mk.eta.symm⟩
  obtain ⟨hok, -, hup⟩ := nvmeInitNth_spec hcall
  obtain rfl : ok = true := hok.2 ⟨⟨_, hfind, hbar⟩, ⟨1, by decide, rfl⟩, ⟨1, by decide, rfl⟩,
    Nat.le_refl _, fun _ _ => ⟨show 3 < spinLimit by decide, rfl⟩⟩
  exact ⟨s', hcall, hup rfl⟩

end RvvmHal.Nvme
