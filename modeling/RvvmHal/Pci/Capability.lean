import RvvmHal.Foundations.Chain
import RvvmHal.Pci.Scan

/-!
# Capabilities

`pci.c`: `pci_find_capability`. The capabilities of a function are a linked list in its configuration
space. An entry has its id and the offset of the next entry; offsets are multiples of 4, and 0 ends
the list. The search follows at most 48 entries. The list may come back to an entry, but not before
the first entry with the id, and there are 48 offsets from 0x40 on: the search finds that entry
whenever there is one (`pciFindCapability_spec`).
-/

namespace RvvmHal.Pci

open Bytes

variable (ecam : Ecam) (func : PciFunc)

/-- `pci_cfg_r8`. -/
def pciCfgR8 (off : ℕ) : UInt8 := ecam.mem (func.cfg + off)

/-- `pci_cfg_r16`. -/
def pciCfgR16 (off : ℕ) : ℕ := readLe ecam.mem (func.cfg + off) 2

/-- `pci_cfg_r32`. -/
def pciCfgR32 (off : ℕ) : ℕ := readLe ecam.mem (func.cfg + off) 4

/-- The capability pointer, without its reserved bits. -/
def capPtr : ℕ := (pciCfgR8 ecam func 0x34).toNat &&& 0xFC

/-- The next pointer of an entry, without its reserved bits. -/
def nextCap (off : ℕ) : ℕ := (pciCfgR8 ecam func (off + 1)).toNat &&& 0xFC

/-- The status register says that there is a capability list. -/
def CapList : Prop := pciCfgR32 ecam func 0x04 >>> 16 &&& 0x0010 ≠ 0

instance : Decidable (CapList ecam func) := inferInstanceAs (Decidable (_ ≠ _))

/-- The walk along the list from an offset, with a budget of hops. -/
def capWalk (capId : UInt8) : ℕ → ℕ → ℕ
  | 0, _ => 0
  | hops + 1, off =>
    if off = 0 then 0
    else
      let id := pciCfgR8 ecam func (off + 0)
      let next := nextCap ecam func off
      if id = capId then off else if next = off then 0 else capWalk capId hops next

/-- `pci_find_capability`. -/
def pciFindCapability (capId : UInt8) : ℕ :=
  if CapList ecam func then capWalk ecam func capId 48 (capPtr ecam func) else 0

/-! ## The list -/

/-- The offset at place `k` of the list, or of what follows its end. -/
def capAt (k : ℕ) : ℕ := (nextCap ecam func)^[k] (capPtr ecam func)

/-- The list has an entry at place `k`: no offset is 0 until there. -/
def Listed (k : ℕ) : Prop := ∀ i ≤ k, capAt ecam func i ≠ 0

/-- All pointers of the list are 0, or behind the standard header. -/
def WellPlaced : Prop := ∀ k, Listed ecam func k → 0x40 ≤ capAt ecam func k

/-- The entry at place `k` is the first with an id. -/
structure FirstCap (capId : UInt8) (k : ℕ) : Prop where
  listed : Listed ecam func k
  id : pciCfgR8 ecam func (capAt ecam func k) = capId
  before : ∀ i < k, pciCfgR8 ecam func (capAt ecam func i) ≠ capId

variable {ecam func} {capId : UInt8} {k : ℕ}

/-- Offsets are those of 32-bit words in 256 bytes. -/
theorem and_0xFC (x : UInt8) : x.toNat &&& 0xFC = x.toNat / 4 * 4 :=
  Word.and_align_mask (w := 8) (k := 2) x.toNat_lt (by omega)

theorem capAt_succ (k : ℕ) : capAt ecam func (k + 1) = nextCap ecam func (capAt ecam func k) :=
  Function.iterate_succ_apply' ..

theorem exists_capAt (k : ℕ) : ∃ x : UInt8, capAt ecam func k = x.toNat / 4 * 4 := by
  cases k with
  | zero => exact ⟨_, and_0xFC _⟩
  | succ k => exact ⟨_, (capAt_succ k).trans (and_0xFC _)⟩

theorem Listed.mono {i : ℕ} (h : Listed ecam func k) (hi : i ≤ k) : Listed ecam func i :=
  fun j hj => h j (hj.trans hi)

/-- The 48 offsets at which an entry may be. -/
def capOffsets : Finset ℕ := (Finset.range 48).image fun i => 0x40 + 4 * i

theorem card_capOffsets : capOffsets.card ≤ 48 := Finset.card_image_le.trans (by simp)

theorem capAt_mem_capOffsets (hplaced : WellPlaced ecam func) (h : Listed ecam func k) :
    capAt ecam func k ∈ capOffsets := by
  obtain ⟨x, hx⟩ : ∃ x : UInt8, capAt ecam func k = x.toNat / 4 * 4 := exists_capAt k
  have h40 := hplaced k h
  have hlt := x.toNat_lt
  exact Finset.mem_image.2 ⟨(capAt ecam func k - 0x40) / 4, Finset.mem_range.2 (by omega), by omega⟩

theorem FirstCap.first (h : FirstCap ecam func capId k) :
    Chain.First (nextCap ecam func) (capPtr ecam func)
      (fun off => pciCfgR8 ecam func off = capId) k :=
  ⟨h.id, h.before⟩

/-- **The budget lasts**: the first entry with the id is among the first 48. -/
theorem FirstCap.lt (h : FirstCap ecam func capId k) (hplaced : WellPlaced ecam func) : k < 48 :=
  (h.first.lt_card fun _ hi => capAt_mem_capOffsets hplaced (h.listed.mono hi)).trans_le
    card_capOffsets

theorem exists_firstCap
    (h : ∃ k, Listed ecam func k ∧ pciCfgR8 ecam func (capAt ecam func k) = capId) :
    ∃ k, FirstCap ecam func capId k := by
  obtain ⟨j, hj, hid⟩ := h
  obtain ⟨k, hk⟩ := Chain.exists_first (f := nextCap ecam func) (a := capPtr ecam func)
    (p := fun off => pciCfgR8 ecam func off = capId) ⟨j, hid⟩
  have hkj : k ≤ j := not_lt.1 fun hlt => hk.before j hlt hid
  exact ⟨k, hj.mono hkj, hk.hit, hk.before⟩

/-- Before the first entry with the id, no entry is its own next one. -/
theorem FirstCap.next_ne (h : FirstCap ecam func capId k) {i : ℕ} (hi : i < k) :
    nextCap ecam func (capAt ecam func i) ≠ capAt ecam func i := by
  intro heq
  have hinj := h.first.injOn (Set.mem_Iic.2 (Nat.succ_le_of_lt hi)) (Set.mem_Iic.2 hi.le)
    ((capAt_succ i).trans heq)
  omega

/-! ## The walk -/

/-- From an entry before the first with the id, the walk goes on to it. -/
theorem capWalk_first (h : FirstCap ecam func capId k) {hops i : ℕ} (hi : i ≤ k)
    (hhops : k < hops + i) : capWalk ecam func capId hops (capAt ecam func i) = capAt ecam func k := by
  induction hops generalizing i with
  | zero => omega
  | succ hops ih =>
    rw [capWalk, if_neg (h.listed i hi)]
    rcases hi.eq_or_lt with rfl | hlt
    · exact if_pos h.id
    · have hid : pciCfgR8 ecam func (capAt ecam func i + 0) ≠ capId := h.before i hlt
      rw [if_neg hid, if_neg (h.next_ne hlt), ← capAt_succ]
      exact ih hlt (by omega)

/-- The walk finds an entry of the list with the id, or nothing. -/
theorem capWalk_cases {hops i : ℕ} (hi : ∀ j < i, capAt ecam func j ≠ 0) :
    capWalk ecam func capId hops (capAt ecam func i) = 0 ∨
      ∃ j, Listed ecam func j ∧ pciCfgR8 ecam func (capAt ecam func j) = capId := by
  induction hops generalizing i with
  | zero => exact .inl rfl
  | succ hops ih =>
    rw [capWalk]
    by_cases hzero : capAt ecam func i = 0
    · exact .inl (if_pos hzero)
    have hlisted : Listed ecam func i := fun j hj => by
      rcases hj.eq_or_lt with rfl | hlt
      · exact hzero
      · exact hi j hlt
    rw [if_neg hzero]
    by_cases hid : pciCfgR8 ecam func (capAt ecam func i + 0) = capId
    · exact .inr ⟨i, hlisted, hid⟩
    rw [if_neg hid]
    split
    · exact .inl rfl
    · rw [← capAt_succ]
      exact ih fun j hj => hlisted j (Nat.lt_succ_iff.1 hj)

/-! ## Main results -/

/-- **The search is exact.** It gives the offset of the first entry of the list with the id, and 0 if
no entry has it, whether the list ends or comes back to an entry. -/
theorem pciFindCapability_spec (capId : UInt8) (hlist : CapList ecam func)
    (hplaced : WellPlaced ecam func) :
    (∃ k, FirstCap ecam func capId k ∧ pciFindCapability ecam func capId = capAt ecam func k) ∨
      (∀ k, Listed ecam func k → pciCfgR8 ecam func (capAt ecam func k) ≠ capId) ∧
        pciFindCapability ecam func capId = 0 := by
  rw [pciFindCapability, if_pos hlist]
  by_cases hex : ∃ k, Listed ecam func k ∧ pciCfgR8 ecam func (capAt ecam func k) = capId
  · obtain ⟨k, hk⟩ := exists_firstCap hex
    exact .inl ⟨k, hk, capWalk_first hk (Nat.zero_le k) (by have := hk.lt hplaced; omega)⟩
  · refine .inr ⟨fun k hk hid => hex ⟨k, hk, hid⟩, ?_⟩
    exact (capWalk_cases fun j hj => absurd hj (Nat.not_lt_zero j)).resolve_right hex

/-- A function whose list goes round: the entry at 0x40 has id 1, that at 0x48 has id 5, and each is
the next of the other. -/
def ringed : Ecam where
  base := 0
  mem x :=
    if x = 0x06 then 0x10 else if x = 0x34 then 0x40 else if x = 0x40 then 1
    else if x = 0x41 then 0x48 else if x = 0x48 then 5 else if x = 0x49 then 0x43 else 0

theorem wellPlaced_ringed : WellPlaced ringed (fillFunc 0 0 0 0) := by
  have hring : ∀ k, capAt ringed (fillFunc 0 0 0 0) k = 0x40 ∨
      capAt ringed (fillFunc 0 0 0 0) k = 0x48 := by
    intro k
    induction k with
    | zero => exact .inl (by decide)
    | succ k ih =>
      rw [capAt_succ]
      rcases ih with h | h
      · rw [h]
        exact .inr (by decide)
      · rw [h]
        exact .inl (by decide)
  intro k _
  rcases hring k with h | h
  · rw [h]
  · rw [h]
    decide

theorem pciFindCapability_spec_ringed :
    ((∃ k, FirstCap ringed (fillFunc 0 0 0 0) 5 k ∧
        pciFindCapability ringed (fillFunc 0 0 0 0) 5 = capAt ringed (fillFunc 0 0 0 0) k) ∨
      (∀ k, Listed ringed (fillFunc 0 0 0 0) k →
        pciCfgR8 ringed (fillFunc 0 0 0 0) (capAt ringed (fillFunc 0 0 0 0) k) ≠ 5) ∧
        pciFindCapability ringed (fillFunc 0 0 0 0) 5 = 0) ∧
      pciFindCapability ringed (fillFunc 0 0 0 0) 5 = 0x48 ∧
      pciFindCapability ringed (fillFunc 0 0 0 0) 9 = 0 :=
  ⟨pciFindCapability_spec 5 (by decide) wellPlaced_ringed, by decide, by decide⟩

end RvvmHal.Pci
