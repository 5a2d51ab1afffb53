import RvvmHal.Flash.Cfi

/-!
# A probe that fails

`cfi_init` and `cfi_init_fdt` fill the handle of the caller, which may hold anything before, and a
read of the flash looks at its `ok` only. So every exit of the two that reports a failure has to
clear it, and the flash that was asked for its table has to become memory again.

`cfi_init` clears the handle first, and the exit without a node clears `ok`. The exit on a node
without an entry in `reg` does neither (`cfi_probe_failsafe_iff`).
-/

namespace RvvmHal.Flash

open CString DeviceTree

/-! ## Reads of the table -/

/-- The access is a read. -/
def Access.IsRead : Access → Prop
  | .read _ _ => True
  | .write _ _ _ => False

/-- Since `bus`, there have been reads only. -/
def OnlyReads (bus bus' : List Access) : Prop :=
  ∃ new, bus' = bus ++ new ∧ ∀ a ∈ new, a.IsRead

section

variable {dev : Device} {f f' out : Cfi} {bus bus₁ bus₂ : List Access}

theorem OnlyReads.refl (bus : List Access) : OnlyReads bus bus :=
  ⟨[], (List.append_nil bus).symm, nofun⟩

theorem OnlyReads.trans (h₁ : OnlyReads bus bus₁) (h₂ : OnlyReads bus₁ bus₂) :
    OnlyReads bus bus₂ := by
  obtain ⟨new₁, rfl, hnew₁⟩ := h₁
  obtain ⟨new₂, rfl, hnew₂⟩ := h₂
  refine ⟨new₁ ++ new₂, List.append_assoc .., fun a ha => ?_⟩
  exact (List.mem_append.1 ha).elim (hnew₁ a) (hnew₂ a)

theorem onlyReads_cfiReadTable (dev : Device) (f : Cfi) (idx : ℕ) (bus : List Access) :
    OnlyReads bus (cfiReadTable dev f idx bus).2 := by
  refine ⟨[.read _ _], rfl, fun a ha => ?_⟩
  rw [List.mem_singleton.1 ha]
  trivial

theorem onlyReads_qrySignature (dev : Device) (f : Cfi) (bus : List Access) :
    OnlyReads bus (qrySignature dev f bus).2 := by
  have h₁ := onlyReads_cfiReadTable dev f CFI_QRY_Q bus
  rw [qrySignature]
  generalize cfiReadTable dev f CFI_QRY_Q bus = p₁ at h₁ ⊢
  obtain ⟨q, bus₁⟩ := p₁
  dsimp only at h₁ ⊢
  by_cases hq : q ≠ 0x51
  · rw [if_pos hq]
    exact h₁
  · have h₂ := h₁.trans (onlyReads_cfiReadTable dev f CFI_QRY_R bus₁)
    rw [if_neg hq]
    generalize cfiReadTable dev f CFI_QRY_R bus₁ = p₂ at h₂ ⊢
    obtain ⟨r, bus₂⟩ := p₂
    dsimp only at h₂ ⊢
    by_cases hr : r ≠ 0x52
    · rw [if_pos hr]
      exact h₂
    · rw [if_neg hr]
      exact h₂.trans (onlyReads_cfiReadTable dev f CFI_QRY_Y bus₂)

theorem onlyReads_qryGeometry (dev : Device) (f : Cfi) (bus : List Access) :
    OnlyReads bus (qryGeometry dev f bus).2 :=
  ((onlyReads_cfiReadTable dev f CFI_QRY_CMDSET_LO bus).trans
    (onlyReads_cfiReadTable dev f CFI_QRY_CMDSET_HI _)).trans
      (onlyReads_cfiReadTable dev f CFI_QRY_DEV_SIZE_N _)

/-! ## The modes of the flash -/

/-- When the query command has been sent since `bus`, the last access is the command that restores
read-array mode, written to the same place. -/
def Restored (bus bus' : List Access) : Prop :=
  ∃ new, bus' = bus ++ new ∧ ∀ addr bytes, .write addr bytes CFI_CMD_QUERY ∈ new →
    ∃ before, new = before ++ [.write addr bytes CFI_CMD_READ_ARRAY]

theorem Restored.refl (bus : List Access) : Restored bus bus :=
  ⟨[], (List.append_nil bus).symm, nofun⟩

/-- A query, reads of the table, and the command that ends it. -/
theorem restored_cfiCmd (h : OnlyReads (cfiCmd f CFI_CMD_QUERY bus) bus₁)
    (hbase : f'.base = f.base) (hwidth : f'.bankWidth = f.bankWidth) :
    Restored bus (cfiCmd f' CFI_CMD_READ_ARRAY bus₁) := by
  obtain ⟨reads, rfl, hreads⟩ := h
  rw [cfiCmd, cfiCmd, hbase, hwidth]
  refine ⟨_, (List.append_assoc ..).trans (List.append_assoc ..), fun addr bytes hmem => ?_⟩
  rw [← List.append_assoc] at hmem ⊢
  rcases List.mem_append.1 hmem with hmem | hmem
  · rcases List.mem_append.1 hmem with hmem | hmem
    · obtain ⟨rfl, rfl, -⟩ := Access.write.inj (List.mem_singleton.1 hmem)
      exact ⟨_, rfl⟩
    · exact (hreads _ hmem).elim
  · cases List.mem_singleton.1 hmem

/-! ## What a probe leaves -/

/-- What a probe leaves behind: after a failure the handle is not usable, so that a read copies
nothing, and the flash is in read-array mode after a query. -/
structure Failsafe (bus : List Access) (r : Bool × Cfi × List Access) : Prop where
  unusable : r.1 = false → r.2.1.ok = false
  unread : r.1 = false → ∀ dev offset dst len bus',
    cfiRead dev r.2.1 offset dst len bus' = (0, dst, bus')
  restored : Restored bus r.2.2

theorem failsafe_of_unusable {found : Bool} (hok : found = false → out.ok = false)
    (hbus : Restored bus bus₁) : Failsafe bus (found, out, bus₁) :=
  ⟨hok, fun h _ _ _ _ _ => cfiRead_nothing (.inl (hok h)), hbus⟩

/-- **The probe at an address** leaves a handle that is not usable when it fails. -/
theorem failsafe_cfiInit (dev : Device) (out : Cfi) (base : BitVec 64) (bankWidth : BitVec 32)
    (bus : List Access) : Failsafe bus (cfiInit dev out base bankWidth bus) := by
  rw [cfiInit]
  dsimp only
  generalize hf : (⟨base, if bankWidth ≠ 0 then bankWidth else 4, 0, 0, false⟩ : Cfi) = f
  have hclear : f.ok = false := by rw [← hf]
  by_cases hbase : base = 0
  · rw [if_pos hbase]
    exact failsafe_of_unusable (fun _ => hclear) (.refl bus)
  · have hreads := onlyReads_qrySignature dev f (cfiCmd f CFI_CMD_QUERY bus)
    rw [if_neg hbase]
    generalize qrySignature dev f (cfiCmd f CFI_CMD_QUERY bus) = p at hreads ⊢
    obtain ⟨qry, bus₁⟩ := p
    dsimp only at hreads ⊢
    cases qry with
    | true =>
      rw [if_pos rfl]
      have htable := hreads.trans (onlyReads_qryGeometry dev f bus₁)
      exact failsafe_of_unusable nofun (restored_cfiCmd htable rfl rfl)
    | false =>
      rw [if_neg nofun]
      exact failsafe_of_unusable (fun _ => hclear) (restored_cfiCmd hreads rfl rfl)

/-! ## Main result -/

/-- The tree has a node of a flash, and the first one has no entry in `reg`. -/
def FlashWithoutReg (fdt : Fdt) : Prop :=
  ∃ off, fdtFindCompatible fdt (cstr "cfi-flash") = some off ∧ off ≠ uint32Max ∧
    fdtNodeReg64 fdt off 0 = some none

/-- The exit on a node without an entry leaves the handle as it was. -/
theorem cfiInitFdt_withoutReg {fdt : Fdt} (h : FlashWithoutReg fdt) :
    cfiInitFdt dev fdt out bus = some (false, out, bus) := by
  obtain ⟨off, hfind, hne, hreg⟩ := h
  rw [cfiInitFdt, hfind, Option.bind_some, if_neg hne, hreg]
  rfl

/-- Every other exit leaves a handle that is not usable when the probe fails. -/
theorem failsafe_cfiInitFdt {fdt : Fdt} (h : ¬FlashWithoutReg fdt)
    {r : Bool × Cfi × List Access} (hr : cfiInitFdt dev fdt out bus = some r) :
    Failsafe bus r := by
  rw [cfiInitFdt, Option.bind_eq_some_iff] at hr
  obtain ⟨off, hfind, hr⟩ := hr
  by_cases hmax : off = uint32Max
  · rw [if_pos hmax] at hr
    cases hr
    exact failsafe_of_unusable (fun _ => rfl) (.refl bus)
  · rw [if_neg hmax, Option.bind_eq_some_iff] at hr
    obtain ⟨reg, hreg, hr⟩ := hr
    cases reg with
    | none => exact absurd ⟨off, hfind, hmax, hreg⟩ h
    | some reg =>
      obtain ⟨bw, -, rfl⟩ := Option.map_eq_some_iff.1 hr
      have hinit := failsafe_cfiInit dev out (BitVec.ofNat 64 reg.1) (BitVec.ofNat 32 bw.2) bus
      dsimp only
      generalize cfiInit dev out (BitVec.ofNat 64 reg.1) (BitVec.ofNat 32 bw.2) bus = p at hinit ⊢
      obtain ⟨found, out', bus'⟩ := p
      cases found with
      | true => exact failsafe_of_unusable nofun hinit.restored
      | false => exact hinit

/-- **A probe that fails leaves a handle that is not usable**, and a flash that was asked for its
table is in read-array mode again: at an address always, and in a device tree unless the handle was
usable before and the node of the flash has no entry in `reg`. -/
theorem cfi_probe_failsafe_iff (dev : Device) (out : Cfi) (bus : List Access) :
    (∀ base bankWidth, Failsafe bus (cfiInit dev out base bankWidth bus)) ∧
    ∀ fdt, (∀ r, cfiInitFdt dev fdt out bus = some r → Failsafe bus r) ↔
      ¬(FlashWithoutReg fdt ∧ out.ok = true) := by
  refine ⟨fun base bankWidth => failsafe_cfiInit dev out base bankWidth bus, fun fdt => ?_⟩
  constructor
  · rintro h ⟨hreg, hok⟩
    have hclear := (h _ (cfiInitFdt_withoutReg hreg)).unusable rfl
    rw [hok] at hclear
    cases hclear
  · intro h r hr
    by_cases hreg : FlashWithoutReg fdt
    · rw [cfiInitFdt_withoutReg hreg] at hr
      cases hr
      have hok : out.ok = false := Bool.eq_false_iff.2 fun hok => h ⟨hreg, hok⟩
      exact failsafe_of_unusable (fun _ => hok) (.refl bus)
    · exact failsafe_cfiInitFdt hreg hr

end

/-- A root with the node of a flash that has no `reg`. -/
def norFlashTree : Forest :=
  .cons [] [] (.cons (cstr "flash") [⟨cstr "compatible", 0, cstr "cfi-flash" ++ [0]⟩] .nil .nil)
    .nil

def norFlashStream : List Tok := norFlashTree.tokens ++ [.fin]

def norFlashBlob : Fdt := blobOf norFlashStream (cstr "compatible" ++ [0]) (by decide)

theorem encodesTree_norFlashBlob : EncodesTree norFlashBlob norFlashTree norFlashStream where
  toEncodes := encodes_blobOf _ (by decide)
  tokens := by decide
  lists := by
    intro node hnode p hp _
    refine ⟨[cstr "cfi-flash"], by decide, ?_⟩
    revert node p
    decide

theorem flashWithoutReg_norFlashBlob : FlashWithoutReg norFlashBlob := by
  have hs := encodesTree_norFlashBlob.streamAt
  refine ⟨8, ?_, by decide, ?_⟩
  · rw [fdtFindCompatible_eq hs (fun l hl => encodesTree_norFlashBlob.lists l.node ?_) (by decide)]
    · decide
    · revert l
      decide
  · have hnode := nodeAt_of_mem hs (l := ⟨8, cstr "flash",
      [(32, ⟨cstr "compatible", 0, cstr "cfi-flash" ++ [0]⟩)]⟩) (by decide)
    rw [fdtNodeReg64, hnode.fdtNodeProp (show 0 ∉ cstr "reg" by decide)]
    rfl

/-- **A handle that stays usable**: the probe of this tree fails, and what the handle held before is
left in it. -/
theorem cfi_probe_leaves_ok :
    (∀ dev bus, cfiInitFdt dev norFlashBlob flashBank bus = some (false, flashBank, bus)) ∧
    ¬ ∀ (dev : Device) (fdt : Fdt) (out : Cfi) (bus : List Access) r,
      cfiInitFdt dev fdt out bus = some r → r.1 = false → r.2.1.ok = false := by
  refine ⟨fun dev bus => cfiInitFdt_withoutReg flashWithoutReg_norFlashBlob, fun h => ?_⟩
  have hok := h (fun _ _ => 0xFF) norFlashBlob flashBank [] _
    (cfiInitFdt_withoutReg flashWithoutReg_norFlashBlob) rfl
  cases hok

end RvvmHal.Flash
