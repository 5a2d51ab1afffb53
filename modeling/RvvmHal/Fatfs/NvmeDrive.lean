import RvvmHal.Fatfs.Reliable
import RvvmHal.Nvme.Block

/-!
# FatFs on the NVMe driver

`disk_read`, `disk_write` and `disk_ioctl` of `fatfs_disk.c` give FatFs the drive that `fs_mount` has
bound. With the NVMe driver and any controller that answers within the bound of the polls, they are
a `Drive` (`nvmeDrive`), one that does not fail if the controller completes its commands with
success. So what holds of the file system on any drive holds of it here, down to the commands that
the controller fetches (`files_on_nvme`).
-/

namespace RvvmHal.Fatfs

open Bytes Nvme

/-! ## The functions of `diskio.h` -/

/-- The results of type `DRESULT`. -/
inductive DResult
  | ok
  | error
  | wrPrt
  | notRdy
  | parErr
  deriving DecidableEq

/-- `FF_VOLUMES`. -/
abbrev ffVolumes : ℕ := 1

/-- `resolve`: the drive that is bound to `pdrv`, of the table `fs_disk`. -/
def resolve (fsDisk : ℕ → Option Io) (pdrv : ℕ) : Option Io :=
  if ffVolumes ≤ pdrv then none else fsDisk pdrv

section

variable (ctl : Controller) (n : NvmeObj) (fsDisk : ℕ → Option Io) (pdrv : ℕ)

/-- `disk_read`, which leaves the sectors in memory. -/
def diskRead (buff sector count : ℕ) : Option ((ℕ → Option Io) × DResult) :=
  match resolve fsDisk pdrv with
  | none => some (fsDisk, .parErr)
  | some d =>
    if d.present = false then some (fsDisk, .notRdy)
    else (nvmeRead ctl n d sector buff count).map fun r =>
      (Function.update fsDisk pdrv (some r.1), if r.2 = count then .ok else .error)

/-- `disk_write`. -/
def diskWrite (buff sector count : ℕ) : Option ((ℕ → Option Io) × DResult) :=
  match resolve fsDisk pdrv with
  | none => some (fsDisk, .parErr)
  | some d =>
    if d.present = false then some (fsDisk, .notRdy)
    else (nvmeWrite ctl n d sector buff count).map fun r =>
      (Function.update fsDisk pdrv (some r.1), if r.2 = count then .ok else .error)

/-- `disk_ioctl`, with the value that it stores; `numLbas` is that of the drive. -/
def diskIoctl (numLbas cmd : ℕ) : Option ((ℕ → Option Io) × DResult × Option ℕ) :=
  match resolve fsDisk pdrv with
  | none => some (fsDisk, .parErr, none)
  | some d =>
    if d.present = false then some (fsDisk, .notRdy, none)
    else match cmd with
      | 0 => (nvmeFlush ctl n d).map fun r =>
        (Function.update fsDisk pdrv (some r.1), if r.2 then .ok else .error, none)
      | 1 => some (fsDisk, .ok, some (numLbas % 2 ^ 32))
      | 2 => some (fsDisk, .ok, some lbaSize)
      | 3 => some (fsDisk, .ok, some 1)
      | 4 => some (fsDisk, .ok, none)
      | _ => some (fsDisk, .parErr, none)

end

/-! ## The drive -/

/-- A smaller request with the same buffer. -/
def shrinkBuf {n : NvmeObj} {cap : ℕ} (b : IoBuf n cap) (k : ℕ) (hk : k ≤ cap) : IoBuf n k where
  addr := b.addr
  fits := by
    have h := b.fits
    have hmul := Nat.mul_le_mul_left lbaSize hk
    omega
  beside := by
    have h := b.beside
    have hmul := Nat.mul_le_mul_left lbaSize hk
    omega
  prpFits := by
    have h := b.prpFits
    have hmul := Nat.mul_le_mul_left lbaSize (min_le_min_right maxLbasPerCmd hk)
    omega

/-- The states in which the calls of the driver find its queues. -/
abbrev ReadyIo := { s : Io // IoReady s }

section

variable (ctl : Controller) (n : NvmeObj)

/-- The table with one drive. -/
def bound (s : Io) : ℕ → Option Io := fun _ => some s

/-- The state after a call, and whether it is `RES_OK`. -/
def callResult (s : Io) (r : Option ((ℕ → Option Io) × DResult)) : Io × Bool :=
  match r with
  | some (fsDisk, res) => ((fsDisk 0).getD s, decide (res = .ok))
  | none => (s, false)

/-- **A request is whole** when the controller completes its commands with success. -/
theorem transferLoop_whole (hctl : ∀ k, (ctl k).status = 0) (op : IoOp) (lba : ℕ) {nlb : ℕ}
    (b : IoBuf n nlb) (first done : ℕ) (s : Io) (hs : IoReady s)
    (hdone : done = min (maxLbasPerCmd * first) nlb) :
    ∃ s', transferLoop ctl n op.opcode lba b.addr nlb done s = some (s', nlb) := by
  induction hk : nlb - done using Nat.strong_induction_on generalizing first done s with
  | _ k ih =>
    rw [transferLoop]
    by_cases hlt : done < nlb
    swap
    · rw [if_neg hlt]
      obtain rfl : done = nlb := by omega
      exact ⟨s, rfl⟩
    obtain rfl : done = maxLbasPerCmd * first := by omega
    have hmax : 0 < maxLbasPerCmd := by decide
    obtain ⟨s₁, hcmd, hs₁, -⟩ := ioCmd_transfer ctl n hs op
      (Nat.mod_lt (lba + maxLbasPerCmd * first) (by decide)) (le_min (by omega) hmax)
      (min_le_right (nlb - maxLbasPerCmd * first) maxLbasPerCmd) (b.slice first hlt)
    simp only [IoBuf.slice, hctl] at hcmd
    rw [if_pos hlt]
    simp only [hcmd, Option.bind_some]
    rw [if_neg (not_not.2 rfl)]
    exact ih _ (by omega) (first + 1) _ s₁ hs₁ (by rw [Nat.mul_succ]; omega) rfl

theorem transfer_whole {op : IoOp} {s : Io} (hctl : ∀ k, (ctl k).status = 0) (hs : IoReady s)
    {lba k : ℕ} (b : IoBuf n k) {s' : Io} {r : ℕ}
    (hcall : (if s.present = false ∨ k = 0 then some (s, 0)
      else transferLoop ctl n op.opcode lba b.addr k 0 s) = some (s', r)) : r = k := by
  obtain ⟨t, ht⟩ := transferLoop_whole ctl n hctl op lba b 0 0 s hs (by simp)
  by_cases hk : k = 0
  · rw [if_pos (.inr hk)] at hcall
    rw [hk]
    exact (Prod.mk.inj (Option.some.inj hcall)).2.symm
  · rw [if_neg (by simp [hs.present, hk]), ht] at hcall
    exact (Prod.mk.inj (Option.some.inj hcall)).2.symm

/-- `disk_read` on the drive that is bound. -/
theorem diskRead_eq {s : Io} (hs : IoReady s) (lba k : ℕ) (b : IoBuf n k) :
    ∃ s' r, callResult s (diskRead ctl n (bound s) 0 b.addr lba k) = (s', decide (r = k)) ∧
      IoReady s' ∧ Moved n .read s s' (lba % 2 ^ 64) b.addr r ∧
      ((∀ j, (ctl j).status = 0) → r = k) := by
  obtain ⟨s', r, cmds, hcall, hs', -, -, -, hmoved⟩ := nvmeTransfer_eq ctl n .read hs lba k b
  refine ⟨s', r, ?_, hs', hmoved, fun hctl => transfer_whole ctl n hctl hs b hcall⟩
  have hread : nvmeRead ctl n s lba b.addr k = some (s', r) := hcall
  rw [diskRead, resolve, if_neg (by decide)]
  simp only [bound, hs.present, hread]
  by_cases hr : r = k <;> simp [callResult, hr]

/-- `disk_write` on the drive that is bound. -/
theorem diskWrite_eq {s : Io} (hs : IoReady s) (lba k : ℕ) (b : IoBuf n k) :
    ∃ s' r, callResult s (diskWrite ctl n (bound s) 0 b.addr lba k) = (s', decide (r = k)) ∧
      IoReady s' ∧ Moved n .write s s' (lba % 2 ^ 64) b.addr r ∧ r ≤ k ∧
      ((∀ j, (ctl j).status = 0) → r = k) := by
  obtain ⟨s', r, cmds, hcall, hs', -, hle, -, hmoved⟩ := nvmeTransfer_eq ctl n .write hs lba k b
  refine ⟨s', r, ?_, hs', hmoved, hle, fun hctl => transfer_whole ctl n hctl hs b hcall⟩
  have hwrite : nvmeWrite ctl n s lba b.addr k = some (s', r) := hcall
  rw [diskWrite, resolve, if_neg (by decide)]
  simp only [bound, hs.present, hwrite]
  by_cases hr : r = k <;> simp [callResult, hr]

/-- The `CTRL_SYNC` of `disk_ioctl` on the drive that is bound. -/
theorem diskSync_eq {s : Io} (hs : IoReady s) (numLbas : ℕ) :
    ∃ s' ok, callResult s ((diskIoctl ctl n (bound s) 0 numLbas 0).map fun r => (r.1, r.2.1)) =
      (s', ok) ∧ IoReady s' ∧ s'.disk = s.disk := by
  obtain ⟨s', hcall, hs', -, hdisk⟩ := nvmeFlush_eq ctl n hs
  refine ⟨s', decide ((ctl s.executed.length).status = 0), ?_, hs', hdisk⟩
  rw [diskIoctl, resolve, if_neg (by decide)]
  simp only [bound, hs.present, hcall]
  by_cases hr : (ctl s.executed.length).status = 0 <;> simp [callResult, hr]

/-- The state with data in the buffer. -/
def filled (s : Io) (addr : ℕ) (l : List UInt8) : Io := { s with mem := writeBytes s.mem addr l }

theorem ioReady_filled {s : Io} (hs : IoReady s) (addr : ℕ) (l : List UInt8) :
    IoReady (filled s addr l) := ⟨hs.cq, hs.idle, hs.answered, hs.sqHead_eq, hs.present⟩

variable {cap : ℕ} (b : IoBuf n cap) (numLbas : ℕ)

/-- A read into the buffer. -/
def readBuf (s : Io) (lba k : ℕ) : Io × Bool :=
  callResult s (diskRead ctl n (bound s) 0 b.addr lba k)

/-- A write from the buffer. -/
def writeBuf (s : Io) (l : List UInt8) (lba k : ℕ) : Io × Bool :=
  callResult (filled s b.addr l) (diskWrite ctl n (bound (filled s b.addr l)) 0 b.addr lba k)

/-- A flush. -/
def syncBuf (s : Io) : Io × Bool :=
  callResult s ((diskIoctl ctl n (bound s) 0 numLbas 0).map fun r => (r.1, r.2.1))

theorem readBuf_spec {s : Io} (hs : IoReady s) (lba : ℕ) {k : ℕ} (hk : k ≤ cap) :
    IoReady (readBuf ctl n b s lba k).1 ∧ (readBuf ctl n b s lba k).1.disk = s.disk ∧
      ((readBuf ctl n b s lba k).2 = true →
        readBytes (readBuf ctl n b s lba k).1.mem b.addr (lbaSize * k) = sectorBytes s.disk lba k) ∧
      ((∀ j, (ctl j).status = 0) → (readBuf ctl n b s lba k).2 = true) := by
  obtain ⟨s', r, hcall, hs', ⟨hm, hd⟩, hwhole⟩ := diskRead_eq ctl n hs lba k (shrinkBuf b k hk)
  have heq : readBuf ctl n b s lba k = (s', decide (r = k)) := hcall
  rw [heq]
  refine ⟨hs', hd, fun hok => ?_, fun hctl => decide_eq_true (hwhole hctl)⟩
  obtain rfl : r = k := of_decide_eq_true hok
  have hmod : sectorBytes s.disk (lba % 2 ^ 64) r = sectorBytes s.disk lba r := by
    unfold sectorBytes
    exact List.map_congr_left fun i _ => by rw [Nat.mod_add_mod]
  rw [← hmod]
  exact (hm.readBytes_eq (shrinkBuf b r hk).beside).trans
    (readBytes_writeBytes_self _ _ _ (length_sectorBytes ..).symm)

theorem storeSectors_mod (d : Disk) (lba k : ℕ) (l : List UInt8) :
    storeSectors d (lba % 2 ^ 64) k l = storeSectors d lba k l := by
  unfold storeSectors sectorIndex
  rw [Nat.mod_mod]

theorem writeBuf_spec {s : Io} (hs : IoReady s) (l : List UInt8) (lba : ℕ) {k : ℕ} (hk : k ≤ cap) :
    IoReady (writeBuf ctl n b s l lba k).1 ∧
      (∃ r ≤ k, (writeBuf ctl n b s l lba k).1.disk =
          storeSectors s.disk lba r (readBytes (writeBytes s.mem b.addr l) b.addr (lbaSize * r)) ∧
        ((writeBuf ctl n b s l lba k).2 = true → r = k)) ∧
      ((∀ j, (ctl j).status = 0) → (writeBuf ctl n b s l lba k).2 = true) := by
  obtain ⟨s', r, hcall, hs', ⟨-, hd⟩, hle, hwhole⟩ :=
    diskWrite_eq ctl n (ioReady_filled hs b.addr l) lba k (shrinkBuf b k hk)
  have heq : writeBuf ctl n b s l lba k = (s', decide (r = k)) := hcall
  rw [storeSectors_mod] at hd
  rw [heq]
  exact ⟨hs', ⟨r, hle, hd, of_decide_eq_true⟩, fun hctl => decide_eq_true (hwhole hctl)⟩

theorem syncBuf_spec {s : Io} (hs : IoReady s) :
    IoReady (syncBuf ctl n numLbas s).1 ∧ (syncBuf ctl n numLbas s).1.disk = s.disk := by
  obtain ⟨s', ok, hcall, hs', hd⟩ := diskSync_eq ctl n hs numLbas
  have heq : syncBuf ctl n numLbas s = (s', ok) := hcall
  rw [heq]
  exact ⟨hs', hd⟩

/-- **The drive of FatFs on the NVMe driver**, with a buffer of `cap` sectors: the calls with a longer
one are not made. -/
def nvmeDrive : Drive ReadyIo where
  disk s := s.1.disk
  read s lba k :=
    if hk : k ≤ cap then
      let r := readBuf ctl n b s.1 lba k
      (⟨r.1, (readBuf_spec ctl n b s.2 lba hk).1⟩, readBytes r.1.mem b.addr (lbaSize * k), r.2)
    else (s, [], false)
  write s l lba k :=
    if hk : k ≤ cap then
      let r := writeBuf ctl n b s.1 l lba k
      (⟨r.1, (writeBuf_spec ctl n b s.2 l lba hk).1⟩, r.2)
    else (s, false)
  sync s :=
    let r := syncBuf ctl n numLbas s.1
    (⟨r.1, (syncBuf_spec ctl n numLbas s.2).1⟩, r.2)
  read_disk s lba k := by
    split
    · rename_i hk
      exact (readBuf_spec ctl n b s.2 lba hk).2.1
    · rfl
  read_ok s lba k h := by
    split at h
    · rename_i hk
      rw [dif_pos hk]
      exact (readBuf_spec ctl n b s.2 lba hk).2.2.1 h
    · simp at h
  write_ok s l lba k hl h := by
    split at h
    · rename_i hk
      obtain ⟨-, ⟨r, -, hd, hok⟩, -⟩ := writeBuf_spec ctl n b s.2 l lba hk
      rw [dif_pos hk]
      refine hd.trans ?_
      rw [hok h, readBytes_writeBytes_self _ _ _ hl.symm]
    · simp at h
  write_frame s l lba k x hl hlba hx := by
    split
    · rename_i hk
      obtain ⟨-, ⟨r, hr, hd, -⟩, -⟩ := writeBuf_spec ctl n b s.2 l lba hk
      refine (congrFun hd x).trans ?_
      rw [storeSectors_apply _ _ (by omega), if_neg (by omega)]
    · rfl
  sync_disk s := (syncBuf_spec ctl n numLbas s.2).2

/-- **The drive does not fail** when the controller completes its commands with success. -/
theorem reliable_nvmeDrive (hctl : ∀ j, (ctl j).status = 0) (hcap : 1 ≤ cap) :
    (nvmeDrive ctl n b numLbas).Reliable where
  read s lba := by
    rw [Drive.readSector, nvmeDrive]
    dsimp only
    rw [dif_pos hcap]
    exact (readBuf_spec ctl n b s.2 lba hcap).2.2.2 hctl
  write s l lba := by
    rw [Drive.writeSector, nvmeDrive]
    dsimp only
    rw [dif_pos hcap]
    exact (writeBuf_spec ctl n b s.2 (bytesOf l) lba hcap).2.2 hctl

/-! ## The file system -/

variable {ι : Type*} [DecidableEq ι] {V : Vol} {s s₀ : FileSys ReadyIo ι}

/-- **FatFs on the NVMe driver.** With any controller that answers within the bound of the polls,
whatever statuses it gives, no cluster gets into two chains, and after a write-back that succeeds
the chains are those of the controller's own disk. If it completes all commands with success, no
call reports an error and the allocation stays exact. -/
theorem files_on_nvme (hcap : 1 ≤ cap)
    (hs : (fileCalls (nvmeDrive ctl n b numLbas) V s₀).Reachable s) :
    (V.fsType ≠ .fat12 → Sound (nvmeDrive ctl n b numLbas) V s₀ →
      Sound (nvmeDrive ctl n b numLbas) V s ∧
      ∀ s', s.call (nvmeDrive ctl n b numLbas) V .sync = some (s', true) →
        LinkTable.Owned (V.table s'.fs.io.1.disk) (V.nFatent ≤ ·) s.files) ∧
    ((∀ j, (ctl j).status = 0) → Exact (nvmeDrive ctl n b numLbas) V s₀ →
      Exact (nvmeDrive ctl n b numLbas) V s ∧
      ∀ a r, s.call (nvmeDrive ctl n b numLbas) V a = some r → r.2 = true) := by
  refine ⟨fun hV h₀ => ?_, fun hctl h₀ => ?_⟩
  · have hsound := h₀.reachable hV hs
    refine ⟨hsound, fun s' hsync => ?_⟩
    obtain ⟨hkept, -, hclean⟩ := syncWindow_spec hsound.coherent
    obtain ⟨rfl, hok⟩ := Prod.mk.inj (Option.some.inj hsync)
    have hT := hkept.table_eq
    rw [FatFs.view_of_clean (hclean (of_decide_eq_true hok))] at hT
    exact hsound.owned.congr fun _ c _ => congrFun hT c
  · have hD := reliable_nvmeDrive ctl n b numLbas hctl hcap
    have hexact := h₀.reachable hD hs
    exact ⟨hexact, fun a r => hexact.succeeds hD⟩

end

/-- A file takes a cluster of an empty volume. -/
theorem files_on_nvme_emptyFiles :
    let n : NvmeObj := ⟨0x80000000, by decide, by decide⟩
    let b : IoBuf n 8 := ⟨0x90000000, by decide, by decide, by decide⟩
    let D := nvmeDrive succeedLate n b 1000
    ∃ s : FileSys ReadyIo Bool, s.files true ≠ [] ∧ Exact D (smallVol .fat16) s ∧
      ∀ a r, s.call D (smallVol .fat16) a = some r → r.2 = true := by
  intro n b D
  let io : ReadyIo := ⟨ioInit (fun _ => 0) 4 fun _ _ => 0, ⟨CqInv.init, rfl, rfl, rfl, rfl⟩⟩
  have h₀ : Exact D (smallVol .fat16) (emptyFilesOn io) := exact_emptyFilesOn rfl
  have hD : D.Reliable := reliable_nvmeDrive succeedLate n b 1000 (fun _ => rfl) (by decide)
  obtain ⟨f', v, hcreate, hmade⟩ := h₀.createChain true
  have hv : (smallVol .fat16).IsCluster v := by
    refine (hD.createChain h₀.coherent (fun c => h₀.entry_ne_one) (h₀.last_getD true)
      hcreate).resolve_left fun hv => ?_
    obtain ⟨i, hi⟩ := h₀.no_lost 2 (by decide) (((hmade.full hv).2 h₀.count).2 2 (by decide))
    exact absurd hi List.not_mem_nil
  have hcall : (emptyFilesOn io).call D (smallVol .fat16) (.stretch true) =
      some (⟨f', Function.update (emptyFilesOn io).files true [v]⟩,
        decide (v ≠ 1 ∧ v ≠ diskError)) := by
    rw [FileSys.call, hcreate, Option.map_some, if_pos hv]
    rfl
  have hreach : (fileCalls D (smallVol .fat16) (emptyFilesOn io)).Reachable _ :=
    .step (a := .stretch true) .init trivial (congrArg (Option.map Prod.fst) hcall)
  have hfile : Function.update (emptyFilesOn io).files true [v] true = [v] :=
    Function.update_self ..
  exact ⟨_, fun hnil => List.cons_ne_nil v [] (hfile.symm.trans hnil),
    (files_on_nvme succeedLate n b 1000 (by decide) hreach).2 (fun _ => rfl) h₀⟩

end RvvmHal.Fatfs
