import RvvmHal.Pci.Capability

/-!
# Message signalled interrupts

`pci.c`: `pci_msi_configure` writes an address and a data word to the MSI capability of a function,
and then enables it. The capability holds an address of 32 or of 64 bits. An address that needs 64
is also written to a capability that holds 32, which is then enabled with the low half of it: the
configuration is that which was asked for if and only if the address fits (`pciMsiConfigure_iff`).
-/

namespace RvvmHal.Pci

open Bytes

variable (ecam : Ecam) (func : PciFunc)

/-! ## The configuration -/

/-- What `pci_msi_configure` returns, writes to configuration space in order, and prints. -/
structure MsiCalls where
  ok : Bool
  writes : List (ℕ × List UInt8)
  printed : List String

/-- `pci_cfg_w16`. -/
def pciCfgW16 (off v : ℕ) : ℕ × List UInt8 := (func.cfg + off, leBytes 2 v)

/-- `pci_cfg_w32`. -/
def pciCfgW32 (off v : ℕ) : ℕ × List UInt8 := (func.cfg + off, leBytes 4 v)

/-- `new_ctl`: one message, enabled. -/
def newCtl (msgCtl : ℕ) : ℕ := (msgCtl &&& (2 ^ 32 - 1 - 0x70) ||| 0x0001) % 2 ^ 16

/-- `pci_msi_configure`. -/
def pciMsiConfigure (msiAddr : UInt64) (msiData : UInt16) : MsiCalls :=
  let cap := pciFindCapability ecam func 0x05
  if cap = 0 then ⟨false, [], []⟩
  else
    let msgCtl := pciCfgR16 ecam func (cap + 2)
    let lo := pciCfgW32 func (cap + 4) (msiAddr.toNat &&& 0xFFFFFFFF)
    let ctl := pciCfgW16 func (cap + 2) (newCtl msgCtl)
    if msgCtl &&& 1 <<< 7 ≠ 0 then
      ⟨true, [lo, pciCfgW32 func (cap + 8) (msiAddr.toNat >>> 32),
        pciCfgW16 func (cap + 12) msiData.toNat, ctl], []⟩
    else
      ⟨true, [lo, pciCfgW16 func (cap + 8) msiData.toNat, ctl],
        if msiAddr.toNat >>> 32 ≠ 0 then
          ["pci_msi_configure: device only supports 32-bit address\n"] else []⟩

/-- Configuration space after writes. -/
def Ecam.after (writes : List (ℕ × List UInt8)) : Ecam :=
  { ecam with mem := writeAll ecam.mem writes }

/-! ## The capability -/

/-- What an MSI capability says. -/
structure MsiCap where
  enable : Bool
  mmc : ℕ
  mme : ℕ
  addr64 : Bool
  maskable : Bool
  address : ℕ
  data : ℕ

/-- The layout of an MSI capability: message control, then the address, then the data. -/
def decodeMsi (cap : ℕ) : MsiCap :=
  let ctl := pciCfgR16 ecam func (cap + 2)
  let lo := pciCfgR32 ecam func (cap + 4)
  { enable := ctl.testBit 0
    mmc := ctl / 2 % 2 ^ 3
    mme := ctl / 2 ^ 4 % 2 ^ 3
    addr64 := ctl.testBit 7
    maskable := ctl.testBit 8
    address := if ctl.testBit 7 then lo + 2 ^ 32 * pciCfgR32 ecam func (cap + 8) else lo
    data := pciCfgR16 ecam func (if ctl.testBit 7 then cap + 12 else cap + 8) }

/-- How many messages are allocated. -/
def MsiCap.messages (msi : MsiCap) : ℕ := 2 ^ msi.mme

/-- The end of the registers that are configured. -/
def MsiCap.size (msi : MsiCap) : ℕ := if msi.addr64 then 14 else 10

/-- An address that the capability can hold. -/
def MsiCap.Holds (msi : MsiCap) (msiAddr : UInt64) : Prop :=
  msi.addr64 = true ∨ msiAddr.toNat < 2 ^ 32

/-! ## Message control -/

/-- **Message control**: bit 0 is set, bits 4 to 6 are cleared, and the others are kept. -/
theorem testBit_newCtl {msgCtl : ℕ} (h : msgCtl < 2 ^ 16) (i : ℕ) : (newCtl msgCtl).testBit i =
    (decide (i = 0) || (msgCtl.testBit i && !decide (4 ≤ i ∧ i < 7))) := by
  have hmask : ∀ j : Fin 16, (2 ^ 32 - 1 - 0x70).testBit j = !decide (4 ≤ j.val ∧ j.val < 7) := by
    decide
  have hone : ∀ j : Fin 16, (0x0001).testBit j = decide (j.val = 0) := by decide
  rw [newCtl, Nat.testBit_mod_two_pow, Nat.testBit_or, Nat.testBit_and]
  by_cases hi : i < 16
  · rw [hmask ⟨i, hi⟩, hone ⟨i, hi⟩, decide_eq_true hi, Bool.true_and, Bool.or_comm]
  · rw [decide_eq_false hi, Nat.testBit_lt_two_pow (h.trans_le (Nat.pow_le_pow_right (by omega)
      (not_lt.1 hi))), decide_eq_false (by omega)]
    rfl

theorem newCtl_lt (msgCtl : ℕ) : newCtl msgCtl < 256 ^ 2 := Nat.mod_lt _ (by decide)

/-- No more than one message is allocated. -/
theorem newCtl_mme {msgCtl : ℕ} (h : msgCtl < 2 ^ 16) : newCtl msgCtl / 2 ^ 4 % 2 ^ 3 = 0 := by
  refine Nat.eq_of_testBit_eq fun i => ?_
  rw [Nat.testBit_mod_two_pow, Nat.testBit_div_two_pow, testBit_newCtl h, Nat.zero_testBit]
  by_cases hi : i < 3
  · simp [show 4 ≤ i + 4 ∧ i + 4 < 7 by omega]
  · simp [hi]

theorem newCtl_mmc {msgCtl : ℕ} (h : msgCtl < 2 ^ 16) :
    newCtl msgCtl / 2 % 2 ^ 3 = msgCtl / 2 % 2 ^ 3 := by
  refine Nat.eq_of_testBit_eq fun i => ?_
  rw [Nat.testBit_mod_two_pow, Nat.testBit_mod_two_pow, ← pow_one 2, Nat.testBit_div_two_pow,
    Nat.testBit_div_two_pow, testBit_newCtl h]
  by_cases hi : i < 3
  · rw [decide_eq_false (show ¬ (4 ≤ i + 1 ∧ i + 1 < 7) by omega)]
    simp
  · simp [hi]

/-! ## What is written -/

variable {ecam func} {msiAddr : UInt64} {msiData : UInt16}

/-- The capability that is configured, with what has been written so far. -/
def msiAfter (ecam : Ecam) (func : PciFunc) (writes : List (ℕ × List UInt8)) : MsiCap :=
  decodeMsi (ecam.after writes) func (pciFindCapability ecam func 0x05)

/-- The capability that is configured, as it is before. -/
def msiBefore (ecam : Ecam) (func : PciFunc) : MsiCap :=
  decodeMsi ecam func (pciFindCapability ecam func 0x05)

/-- A faithful configuration. -/
structure Faithful (ecam : Ecam) (func : PciFunc) (msiAddr : UInt64) (msiData : UInt16)
    (c : MsiCalls) : Prop where
  /-- MSI is enabled, with one message, at the address and with the data. -/
  configured : c.ok = true → (msiAfter ecam func c.writes).enable = true ∧
    (msiAfter ecam func c.writes).messages = 1 ∧
    (msiAfter ecam func c.writes).address = msiAddr.toNat ∧
    (msiAfter ecam func c.writes).data = msiData.toNat
  /-- The last write enables it, and those before have written the address and the data. -/
  ordered : c.ok = true → ∃ ws ctl, c.writes = ws ++ [ctl] ∧
    (∀ w ∈ ws, func.cfg + pciFindCapability ecam func 0x05 + 4 ≤ w.1) ∧
    (msiAfter ecam func ws).address = msiAddr.toNat ∧ (msiAfter ecam func ws).data = msiData.toNat
  /-- No byte outside of the registers is changed, and no other bit of message control. -/
  frame : c.ok = true → (∀ x, x < func.cfg + pciFindCapability ecam func 0x05 + 2 ∨
      func.cfg + pciFindCapability ecam func 0x05 + (msiBefore ecam func).size ≤ x →
      (ecam.after c.writes).mem x = ecam.mem x) ∧
    (msiAfter ecam func c.writes).mmc = (msiBefore ecam func).mmc ∧
    (msiAfter ecam func c.writes).addr64 = (msiBefore ecam func).addr64 ∧
    (msiAfter ecam func c.writes).maskable = (msiBefore ecam func).maskable
  /-- MSI is not enabled with an address that the capability cannot hold. -/
  refused : pciFindCapability ecam func 0x05 ≠ 0 → ¬ (msiBefore ecam func).Holds msiAddr →
    (msiAfter ecam func c.writes).enable = true → (msiBefore ecam func).enable = true

/-- The writes of the address and of the data. -/
def msiRegs (func : PciFunc) (cap msgCtl : ℕ) (msiAddr : UInt64) (msiData : UInt16) :
    List (ℕ × List UInt8) :=
  if msgCtl.testBit 7 then
    [pciCfgW32 func (cap + 4) (msiAddr.toNat % 2 ^ 32),
      pciCfgW32 func (cap + 8) (msiAddr.toNat / 2 ^ 32), pciCfgW16 func (cap + 12) msiData.toNat]
  else
    [pciCfgW32 func (cap + 4) (msiAddr.toNat % 2 ^ 32), pciCfgW16 func (cap + 8) msiData.toNat]

theorem pciMsiConfigure_of_none (h : pciFindCapability ecam func 0x05 = 0) :
    pciMsiConfigure ecam func msiAddr msiData = ⟨false, [], []⟩ := if_pos h

theorem pciMsiConfigure_of_some (msiAddr : UInt64) (msiData : UInt16) {cap msgCtl : ℕ}
    (hcap : pciFindCapability ecam func 0x05 = cap) (hne : cap ≠ 0)
    (hctl : pciCfgR16 ecam func (cap + 2) = msgCtl) :
    (pciMsiConfigure ecam func msiAddr msiData).ok = true ∧
      (pciMsiConfigure ecam func msiAddr msiData).writes =
        msiRegs func cap msgCtl msiAddr msiData ++
          [pciCfgW16 func (cap + 2) (newCtl msgCtl)] := by
  have hbit : msgCtl &&& 1 <<< 7 ≠ 0 ↔ msgCtl.testBit 7 = true := by
    rw [Nat.one_shiftLeft, Nat.and_two_pow]
    cases msgCtl.testBit 7 <;> simp
  have hlo : msiAddr.toNat &&& 0xFFFFFFFF = msiAddr.toNat % 2 ^ 32 := Word.and_low_mask _ 32
  simp only [pciMsiConfigure, hcap, if_neg hne, hctl, hbit, hlo, Word.shiftRight_eq, msiRegs]
  split <;> exact ⟨rfl, rfl⟩

/-- The registers that are written do not overlap. -/
theorem pairwise_msiRegs (cap msgCtl ctl : ℕ) :
    (msiRegs func cap msgCtl msiAddr msiData ++ [pciCfgW16 func (cap + 2) ctl]).Pairwise
      WritesDisjoint := by
  unfold msiRegs
  split
  · simp [pciCfgW16, pciCfgW32, WritesDisjoint]
    omega
  · simp [pciCfgW16, pciCfgW32, WritesDisjoint]
    omega

theorem le_of_mem_msiRegs {cap msgCtl : ℕ} {w : ℕ × List UInt8}
    (h : w ∈ msiRegs func cap msgCtl msiAddr msiData) : func.cfg + cap + 4 ≤ w.1 := by
  unfold msiRegs at h
  split at h
  · simp only [List.mem_cons, List.not_mem_nil, or_false] at h
    rcases h with rfl | rfl | rfl <;> simp only [pciCfgW16, pciCfgW32] <;> omega
  · simp only [List.mem_cons, List.not_mem_nil, or_false] at h
    rcases h with rfl | rfl <;> simp only [pciCfgW16, pciCfgW32] <;> omega

theorem le_size_of_mem_msiRegs {cap msgCtl : ℕ} {w : ℕ × List UInt8}
    (h : w ∈ msiRegs func cap msgCtl msiAddr msiData) :
    w.1 + w.2.length ≤ func.cfg + cap + if msgCtl.testBit 7 then 14 else 10 := by
  unfold msiRegs at h
  split at h
  next hbit =>
    rw [if_pos hbit]
    simp only [List.mem_cons, List.not_mem_nil, or_false] at h
    rcases h with rfl | rfl | rfl <;> simp [pciCfgW16, pciCfgW32] <;> omega
  next hbit =>
    rw [if_neg hbit]
    simp only [List.mem_cons, List.not_mem_nil, or_false] at h
    rcases h with rfl | rfl <;> simp [pciCfgW16, pciCfgW32] <;> omega

/-- Message control, the address and the data as they are written. -/
structure Written (ecam : Ecam) (func : PciFunc) (cap msgCtl : ℕ) (msiAddr : UInt64)
    (msiData : UInt16) : Prop where
  ctl : pciCfgR16 ecam func (cap + 2) = msgCtl
  lo : pciCfgR32 ecam func (cap + 4) = msiAddr.toNat % 2 ^ 32
  hi : msgCtl.testBit 7 = true → pciCfgR32 ecam func (cap + 8) = msiAddr.toNat / 2 ^ 32
  data : pciCfgR16 ecam func (if msgCtl.testBit 7 then cap + 12 else cap + 8) = msiData.toNat

/-- What is read after disjoint writes, among them those of the address and of the data. -/
theorem written_of_subset {cap msgCtl ctl : ℕ} {ws : List (ℕ × List UInt8)}
    (hd : ws.Pairwise WritesDisjoint) (hws : msiRegs func cap msgCtl msiAddr msiData ⊆ ws)
    (hbit : ctl.testBit 7 = msgCtl.testBit 7)
    (hctl : pciCfgR16 (ecam.after ws) func (cap + 2) = ctl) :
    Written (ecam.after ws) func cap ctl msiAddr msiData where
  ctl := hctl
  lo := by
    refine readLe_writeAll hd _ (hws ?_) (Nat.mod_lt _ (by decide))
    unfold msiRegs
    split <;> exact List.mem_cons_self
  hi h := by
    have haddr := msiAddr.toNat_lt
    refine readLe_writeAll hd _ (hws ?_) (by omega)
    rw [msiRegs, if_pos (hbit ▸ h)]
    exact List.mem_cons_of_mem _ List.mem_cons_self
  data := by
    refine readLe_writeAll hd _ (hws ?_) msiData.toNat_lt
    rw [msiRegs, hbit]
    split
    · exact List.mem_cons_of_mem _ (List.mem_cons_of_mem _ List.mem_cons_self)
    · exact List.mem_cons_of_mem _ List.mem_cons_self

/-- What message control says. -/
theorem decodeMsi_ctl {cap ctl : ℕ} (h : pciCfgR16 ecam func (cap + 2) = ctl) :
    (decodeMsi ecam func cap).enable = ctl.testBit 0 ∧
      (decodeMsi ecam func cap).mmc = ctl / 2 % 2 ^ 3 ∧
      (decodeMsi ecam func cap).mme = ctl / 2 ^ 4 % 2 ^ 3 ∧
      (decodeMsi ecam func cap).addr64 = ctl.testBit 7 ∧
      (decodeMsi ecam func cap).maskable = ctl.testBit 8 := by
  subst h
  exact ⟨rfl, rfl, rfl, rfl, rfl⟩

/-- A capability holds the address that is written to it, or the low half of it. -/
theorem Written.address {cap msgCtl : ℕ} (h : Written ecam func cap msgCtl msiAddr msiData) :
    (decodeMsi ecam func cap).address =
      if msgCtl.testBit 7 then msiAddr.toNat else msiAddr.toNat % 2 ^ 32 := by
  simp only [decodeMsi, h.ctl, h.lo]
  split
  next hbit =>
    rw [h.hi hbit]
    omega
  next => rfl

theorem Written.decode_data {cap msgCtl : ℕ} (h : Written ecam func cap msgCtl msiAddr msiData) :
    (decodeMsi ecam func cap).data = msiData.toNat := by
  simp only [decodeMsi, h.ctl, h.data]

theorem pciCfgR16_lt (off : ℕ) : pciCfgR16 ecam func off < 2 ^ 16 := readLe_lt ..

/-- The address and the data are read before message control is written. -/
theorem written_msiRegs (msiAddr : UInt64) (msiData : UInt16) {cap msgCtl : ℕ}
    (hctl : pciCfgR16 ecam func (cap + 2) = msgCtl) :
    Written (ecam.after (msiRegs func cap msgCtl msiAddr msiData)) func cap msgCtl msiAddr
      msiData := by
  refine written_of_subset (List.pairwise_append.1 (pairwise_msiRegs cap msgCtl 0)).1
    (fun _ => id) rfl ((readLe_writeAll_of_disjoint _ _ fun w hw => .inl ?_).trans hctl)
  have hle := le_of_mem_msiRegs hw
  omega

/-- All registers are read after message control is written. -/
theorem written_all (ecam : Ecam) (func : PciFunc) (msiAddr : UInt64) (msiData : UInt16) (cap : ℕ)
    {msgCtl : ℕ} (hlt : msgCtl < 2 ^ 16) :
    Written (ecam.after (msiRegs func cap msgCtl msiAddr msiData ++
      [pciCfgW16 func (cap + 2) (newCtl msgCtl)])) func cap (newCtl msgCtl) msiAddr msiData :=
  written_of_subset (pairwise_msiRegs cap msgCtl _) (List.subset_append_left _ _)
    (by rw [testBit_newCtl hlt]; simp)
    (readLe_writeAll (pairwise_msiRegs cap msgCtl _) _
      (List.mem_append_right _ (List.mem_singleton_self _)) (newCtl_lt msgCtl))

/-- Message control is enabled with one message, and its other fields are those of before. -/
theorem decodeMsi_newCtl {ecam' : Ecam} {cap msgCtl : ℕ}
    (hctl : pciCfgR16 ecam func (cap + 2) = msgCtl)
    (hctl' : pciCfgR16 ecam' func (cap + 2) = newCtl msgCtl) :
    ((decodeMsi ecam' func cap).enable = true ∧ (decodeMsi ecam' func cap).messages = 1) ∧
      (decodeMsi ecam' func cap).mmc = (decodeMsi ecam func cap).mmc ∧
      (decodeMsi ecam' func cap).addr64 = (decodeMsi ecam func cap).addr64 ∧
      (decodeMsi ecam' func cap).maskable = (decodeMsi ecam func cap).maskable := by
  have hlt : msgCtl < 2 ^ 16 := hctl ▸ pciCfgR16_lt _
  obtain ⟨henable, hmmc', hmme, haddr64', hmaskable'⟩ := decodeMsi_ctl hctl'
  obtain ⟨-, hmmc, -, haddr64, hmaskable⟩ := decodeMsi_ctl hctl
  refine ⟨⟨?_, ?_⟩, ?_, ?_, ?_⟩
  · rw [henable, testBit_newCtl hlt]
    rfl
  · rw [MsiCap.messages, hmme, newCtl_mme hlt]
    rfl
  · rw [hmmc', newCtl_mmc hlt, hmmc]
  · rw [haddr64', testBit_newCtl hlt, haddr64]
    simp
  · rw [hmaskable', testBit_newCtl hlt, hmaskable]
    simp

/-- No byte outside of the registers is written. -/
theorem after_of_outside {cap msgCtl ctl x : ℕ} (hx : x < func.cfg + cap + 2 ∨
    func.cfg + cap + (if msgCtl.testBit 7 then 14 else 10) ≤ x) :
    (ecam.after (msiRegs func cap msgCtl msiAddr msiData ++ [pciCfgW16 func (cap + 2) ctl])).mem x =
      ecam.mem x := by
  refine writeAll_of_not_mem _ _ fun w hw => ?_
  rcases List.mem_append.1 hw with hw | hw
  · have hlo := le_of_mem_msiRegs hw
    have hhi := le_size_of_mem_msiRegs hw
    omega
  · obtain rfl := List.mem_singleton.1 hw
    simp only [pciCfgW16, length_leBytes]
    split at hx <;> omega

/-- The address is decoded as it was asked for if and only if the capability can hold it. -/
theorem holds_iff {cap msgCtl : ℕ} (hctl : pciCfgR16 ecam func (cap + 2) = msgCtl) :
    (decodeMsi ecam func cap).Holds msiAddr ↔
      (if msgCtl.testBit 7 then msiAddr.toNat else msiAddr.toNat % 2 ^ 32) = msiAddr.toNat := by
  obtain ⟨-, -, -, haddr64, -⟩ := decodeMsi_ctl hctl
  rw [MsiCap.Holds, haddr64]
  split
  next h => exact iff_of_true (.inl h) rfl
  next h => rw [or_iff_right h, Nat.mod_eq_iff_lt (by decide)]

/-! ## Main results -/

/-- **The configuration is faithful** if and only if there is no MSI capability, or it can hold the
address. -/
theorem pciMsiConfigure_iff (ecam : Ecam) (func : PciFunc) (msiAddr : UInt64) (msiData : UInt16) :
    Faithful ecam func msiAddr msiData (pciMsiConfigure ecam func msiAddr msiData) ↔
      pciFindCapability ecam func 0x05 = 0 ∨ (msiBefore ecam func).Holds msiAddr := by
  by_cases hne : pciFindCapability ecam func 0x05 = 0
  · rw [pciMsiConfigure_of_none hne]
    exact ⟨fun _ => .inl hne, fun _ => ⟨nofun, nofun, nofun, fun h => absurd hne h⟩⟩
  obtain ⟨cap, hcap⟩ : ∃ cap, pciFindCapability ecam func 0x05 = cap := ⟨_, rfl⟩
  obtain ⟨msgCtl, hctl⟩ : ∃ msgCtl, pciCfgR16 ecam func (cap + 2) = msgCtl := ⟨_, rfl⟩
  have hlt : msgCtl < 2 ^ 16 := hctl ▸ pciCfgR16_lt _
  obtain ⟨hok, hwrites⟩ := pciMsiConfigure_of_some msiAddr msiData hcap (hcap ▸ hne) hctl
  have hregs := written_msiRegs msiAddr msiData hctl
  have hall := written_all ecam func msiAddr msiData cap hlt
  obtain ⟨⟨henable, hmessages⟩, hkept⟩ := decodeMsi_newCtl hctl hall.ctl
  have haddress := hall.address
  have hbit : (newCtl msgCtl).testBit 7 = msgCtl.testBit 7 := by
    rw [testBit_newCtl hlt]
    simp
  rw [hbit] at haddress
  rw [or_iff_right hne, msiBefore, hcap, holds_iff hctl]
  constructor
  · -- the address that is decoded is that which was asked for
    intro h
    obtain ⟨-, -, hconf, -⟩ := h.configured hok
    rw [msiAfter, hcap, hwrites, haddress] at hconf
    exact hconf
  · intro heq
    refine ⟨fun _ => ?_, fun _ => ⟨_, _, hwrites, fun w hw => ?_, ?_, ?_⟩,
      fun _ => ⟨fun x hx => ?_, ?_⟩, fun _ hnot => ?_⟩
    · rw [msiAfter, hcap, hwrites]
      exact ⟨henable, hmessages, haddress.trans heq, hall.decode_data⟩
    · rw [hcap]
      exact le_of_mem_msiRegs hw
    · rw [msiAfter, hcap, hregs.address]
      exact heq
    · rw [msiAfter, hcap]
      exact hregs.decode_data
    · rw [msiBefore, hcap, MsiCap.size, (decodeMsi_ctl hctl).2.2.2.1] at hx
      rw [hwrites]
      exact after_of_outside hx
    · rw [msiAfter, msiBefore, hcap, hwrites]
      exact hkept
    · rw [msiBefore, hcap, holds_iff hctl] at hnot
      exact absurd heq hnot

/-- A function whose MSI capability, at 0x40, holds addresses of 32 bits. -/
def msi32 : Ecam where
  base := 0
  mem x := if x = 0x06 then 0x10 else if x = 0x34 then 0x40 else if x = 0x40 then 5 else 0

/-- An address of 33 bits is configured, as 0. -/
theorem pciMsiConfigure_msi32 :
    (pciMsiConfigure msi32 (fillFunc 0 0 0 0) 0x100000000 1).ok = true ∧
      ¬ Faithful msi32 (fillFunc 0 0 0 0) 0x100000000 1
        (pciMsiConfigure msi32 (fillFunc 0 0 0 0) 0x100000000 1) := by
  refine ⟨by decide, fun h => ?_⟩
  obtain ⟨-, -, haddress, -⟩ := h.configured (by decide)
  revert haddress
  decide

end RvvmHal.Pci
