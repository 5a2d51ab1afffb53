import RvvmHal.Foundations.Bytes

/-!
# The PCI bus

`pci.c`: the scan for a function with a given id, which follows bridges to the buses behind them,
and the reading of a function's base addresses. Configuration space is a memory, in which every
function has the 4 KiB at `ecam_addr`. The scan of a bus calls itself for the bus behind a bridge,
so it gets a bound on the depth of these calls, and gives `none` when the bound is reached.
-/

namespace RvvmHal.Pci

open Bytes

/-- Configuration space: what `ecam_base` is, and the memory there. -/
structure Ecam where
  base : ℕ
  mem : Mem

/-- `pci_func_t`; the sizes of the base address registers are always 0. -/
structure PciFunc where
  bus : ℕ
  dev : ℕ
  func : ℕ
  cfg : ℕ
  bar : ℕ → ℕ

variable (ecam : Ecam)

/-- `ecam_addr`. -/
def ecamAddr (bus dev func : ℕ) : ℕ := ecam.base ||| bus <<< 20 ||| dev <<< 15 ||| func <<< 12

/-- `fill_func`. -/
def fillFunc (bus dev func cfg : ℕ) : PciFunc := ⟨bus, dev, func, cfg, fun _ => 0⟩

/-! ## The scan -/

section

variable (sub : ℕ → ℕ → Option (PciFunc ⊕ ℕ)) (bus vendorDevice target dev : ℕ)

/-- The scan of the functions of a slot from `func` on, `n` of them: a function that was looked for,
or how many matches have been seen. `sub` is the scan of a bus. -/
def scanFuncs : ℕ → ℕ → Bool → ℕ → Option (PciFunc ⊕ ℕ)
  | 0, _, _, seen => some (.inr seen)
  | n + 1, func, multifunc, seen =>
    let cfg := ecamAddr ecam bus dev func
    let id := readLe ecam.mem (cfg + 0x00) 4
    if id = 0xFFFFFFFF then
      if func = 0 then some (.inr seen) else scanFuncs n (func + 1) multifunc seen
    else if id = vendorDevice ∧ seen = target then some (.inl (fillFunc bus dev func cfg))
    else
      let seen := if id = vendorDevice then (seen + 1) % 2 ^ 32 else seen
      let hdr := (ecam.mem (cfg + 0x0E)).toNat
      let multifunc : Bool := if func = 0 then hdr &&& 0x80 != 0 else multifunc
      let rest := fun seen =>
        if func = 0 ∧ multifunc = false then some (.inr seen)
        else scanFuncs n (func + 1) multifunc seen
      let sec := (ecam.mem (cfg + 0x19)).toNat
      if hdr &&& 0x7F = 0x01 ∧ sec ≠ 0 ∧ sec ≠ bus then
        (sub sec seen).bind fun
          | .inl f => some (.inl f)
          | .inr seen => rest seen
      else rest seen

/-- The scan of the slots of a bus from `dev` on, `n` of them. -/
def scanDevs : ℕ → ℕ → ℕ → Option (PciFunc ⊕ ℕ)
  | 0, _, seen => some (.inr seen)
  | n + 1, dev, seen =>
    (scanFuncs ecam sub bus vendorDevice target dev 8 0 false seen).bind fun
      | .inl f => some (.inl f)
      | .inr seen => scanDevs n (dev + 1) seen

end

/-- `scan_bus`, with calls of itself to a depth. -/
def scanBus (vendorDevice target : ℕ) : ℕ → ℕ → ℕ → Option (PciFunc ⊕ ℕ)
  | 0, _, _ => none
  | depth + 1, bus, seen =>
    scanDevs ecam (scanBus vendorDevice target depth) bus vendorDevice target 32 0 seen

/-- `pci_find_device_nth`. -/
def pciFindDeviceNth (depth vendorDevice n : ℕ) : Option (Option PciFunc) :=
  (scanBus ecam vendorDevice n depth 0 0).map Sum.getLeft?

/-- `pci_find_device`. -/
def pciFindDevice (depth vendorDevice : ℕ) : Option (Option PciFunc) :=
  pciFindDeviceNth ecam depth vendorDevice 0

/-! ## The base addresses -/

/-- The loop of `pci_setup_bars` from register `i` on, `n` rounds of it at most. -/
def readBars (cfg : ℕ) : ℕ → ℕ → (ℕ → ℕ) → ℕ → ℕ
  | 0, _, bar => bar
  | n + 1, i, bar =>
    if i < 6 then
      let off := 0x10 + i * 4
      let lo := readLe ecam.mem (cfg + off) 4
      if lo = 0 then readBars cfg n (i + 1) bar
      else
        let isIo : Bool := lo &&& 0x1 != 0
        let is64 : Bool := !isIo && lo &&& 0x6 == 0x4
        let mask := if isIo then 0x3 else 0xF
        let addr := lo &&& (2 ^ 32 - 1 - mask)
        let addr := if is64 then addr ||| readLe ecam.mem (cfg + (off + 4)) 4 <<< 32 else addr
        readBars cfg n (if is64 then i + 2 else i + 1) (Function.update bar i addr)
    else bar

/-- `pci_setup_bars`: the function with its base addresses, and configuration space after the write
to the command register. -/
def pciSetupBars (f : PciFunc) : PciFunc × Ecam :=
  let bar := readBars ecam f.cfg 6 0 f.bar
  let cmd := readLe ecam.mem (f.cfg + 0x04) 2
  ({ f with bar := bar },
    { ecam with mem := writeBytes ecam.mem (f.cfg + 0x04) (leBytes 2 (cmd ||| 0x0002 ||| 0x0004)) })

/-! ## What is found -/

/-- A function of configuration space with the given id, at its place. -/
structure IsFunc (vendorDevice : ℕ) (f : PciFunc) : Prop where
  id : readLe ecam.mem f.cfg 4 = vendorDevice
  present : vendorDevice ≠ 0xFFFFFFFF
  cfg : f.cfg = ecamAddr ecam f.bus f.dev f.func
  dev_lt : f.dev < 32
  func_lt : f.func < 8

variable {ecam} {vendorDevice target : ℕ} {f : PciFunc}

theorem isFunc_of_scanFuncs {sub : ℕ → ℕ → Option (PciFunc ⊕ ℕ)} {bus dev n func seen : ℕ}
    {multifunc : Bool}
    (hsub : ∀ {b s : ℕ}, sub b s = some (.inl f) → IsFunc ecam vendorDevice f) (hdev : dev < 32)
    (hfunc : func + n ≤ 8)
    (h : scanFuncs ecam sub bus vendorDevice target dev n func multifunc seen = some (.inl f)) :
    IsFunc ecam vendorDevice f := by
  induction n generalizing func multifunc seen with
  | zero => cases h
  | succ n ih =>
    rw [scanFuncs] at h
    dsimp only at h
    split at h
    · split at h
      · cases h
      · exact ih (by omega) h
    next hpresent =>
      split at h
      next hmatch =>
        cases h
        exact ⟨hmatch.1, fun heq => hpresent (hmatch.1.trans heq), rfl, hdev, by
          simp only [fillFunc]
          omega⟩
      next =>
        -- whatever the function is, the scan goes on, or stops with a count
        have hrest : ∀ {m : Bool} {s : ℕ}, (if func = 0 ∧ m = false then some (.inr s)
            else scanFuncs ecam sub bus vendorDevice target dev n (func + 1) m s) = some (.inl f) →
            IsFunc ecam vendorDevice f := by
          intro m s hs
          split at hs
          · cases hs
          · exact ih (by omega) hs
        split at h
        · obtain ⟨r, hr, h⟩ := Option.bind_eq_some_iff.1 h
          cases r with
          | inl g =>
            cases h
            exact hsub hr
          | inr s => exact hrest h
        · exact hrest h

theorem isFunc_of_scanDevs {sub : ℕ → ℕ → Option (PciFunc ⊕ ℕ)} {bus n dev seen : ℕ}
    (hsub : ∀ {b s : ℕ}, sub b s = some (.inl f) → IsFunc ecam vendorDevice f)
    (hdev : dev + n ≤ 32)
    (h : scanDevs ecam sub bus vendorDevice target n dev seen = some (.inl f)) :
    IsFunc ecam vendorDevice f := by
  induction n generalizing dev seen with
  | zero => cases h
  | succ n ih =>
    obtain ⟨r, hr, h⟩ := Option.bind_eq_some_iff.1 h
    cases r with
    | inl g =>
      cases h
      exact isFunc_of_scanFuncs hsub (by omega) (by omega) hr
    | inr s => exact ih (by omega) h

/-- **What the scan finds** is a function of configuration space with the id it was asked for. -/
theorem isFunc_of_pciFindDevice {depth : ℕ}
    (h : pciFindDevice ecam depth vendorDevice = some (some f)) : IsFunc ecam vendorDevice f := by
  have hscan : ∀ {depth bus seen : ℕ},
      scanBus ecam vendorDevice 0 depth bus seen = some (.inl f) → IsFunc ecam vendorDevice f := by
    intro depth
    induction depth with
    | zero =>
      intro _ _ h
      cases h
    | succ depth ih => exact fun h => isFunc_of_scanDevs ih (by omega) h
  obtain ⟨r, hr, hleft⟩ := Option.map_eq_some_iff.1 h
  cases r with
  | inl g =>
    cases hleft
    exact hscan hr
  | inr s => cases hleft

end RvvmHal.Pci
