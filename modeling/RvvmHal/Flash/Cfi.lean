import RvvmHal.DeviceTree.Reg

/-!
# The flash

`cfi.c`: a parallel flash is found by its query table and is then read like memory. The flash may
answer in any way: what a read of a byte gives is a function of all accesses before it.

A read is clipped to the size of the device. The code adds the offset and the length in 32 bits
before it compares them with the size: a sum that wraps around is below every size, and the read is
not clipped at all. So reads are exact when the sum fits, or when nothing is read anyway
(`cfi_read_exact_iff`).
-/

namespace RvvmHal.Flash

open CString DeviceTree

/-! ## The bus -/

abbrev CFI_CMD_READ_ARRAY : UInt8 := 0xFF
abbrev CFI_CMD_QUERY : UInt8 := 0x98

abbrev CFI_QRY_Q : ℕ := 0x10
abbrev CFI_QRY_R : ℕ := 0x11
abbrev CFI_QRY_Y : ℕ := 0x12
abbrev CFI_QRY_CMDSET_LO : ℕ := 0x13
abbrev CFI_QRY_CMDSET_HI : ℕ := 0x14
abbrev CFI_QRY_DEV_SIZE_N : ℕ := 0x27

/-- An access on the bus: a command, written with so many bytes, or the read of a byte. -/
inductive Access
  | write (addr : BitVec 64) (bytes : ℕ) (cmd : UInt8)
  | read (addr : BitVec 64) (v : UInt8)
  deriving DecidableEq

/-- What a read of a byte gives, after all the accesses so far. -/
abbrev Device := List Access → BitVec 64 → UInt8

/-- `cfi_t`. -/
structure Cfi where
  base : BitVec 64
  bankWidth : BitVec 32
  sizeBytes : BitVec 32
  cmdset : BitVec 16
  ok : Bool
  deriving DecidableEq

variable (dev : Device)

/-- `mmio_r8`. -/
def mmioR8 (addr : BitVec 64) (bus : List Access) : UInt8 × List Access :=
  (dev bus addr, bus ++ [.read addr (dev bus addr)])

/-- `cfi_read_table`. -/
def cfiReadTable (f : Cfi) (idx : ℕ) (bus : List Access) : UInt8 × List Access :=
  mmioR8 dev (f.base + BitVec.ofNat 64 idx * f.bankWidth.setWidth 64) bus

/-- `cfi_cmd`. -/
def cfiCmd (f : Cfi) (cmd : UInt8) (bus : List Access) : List Access :=
  bus ++ [.write f.base (if f.bankWidth = 4 then 4 else if f.bankWidth = 2 then 2 else 1) cmd]

/-! ## Finding the flash -/

/-- The signature of the query table, of which a byte is read when those before it are right. -/
def qrySignature (f : Cfi) (bus : List Access) : Bool × List Access :=
  let (q, bus) := cfiReadTable dev f CFI_QRY_Q bus
  if q ≠ 0x51 then (false, bus)
  else
    let (r, bus) := cfiReadTable dev f CFI_QRY_R bus
    if r ≠ 0x52 then (false, bus)
    else
      let (y, bus) := cfiReadTable dev f CFI_QRY_Y bus
      (y == 0x59, bus)

/-- The command set and the size, read from the query table. -/
def qryGeometry (f : Cfi) (bus : List Access) : Cfi × List Access :=
  let (lo, bus) := cfiReadTable dev f CFI_QRY_CMDSET_LO bus
  let (hi, bus) := cfiReadTable dev f CFI_QRY_CMDSET_HI bus
  let (sizeN, bus) := cfiReadTable dev f CFI_QRY_DEV_SIZE_N bus
  ({ f with
      cmdset := BitVec.ofNat 16 lo.toNat ||| BitVec.ofNat 16 hi.toNat <<< 8
      sizeBytes := if sizeN < 32 then 1 <<< sizeN.toNat else 0
      ok := true }, bus)

/-- `cfi_init`: the result, `*out` after the call and the accesses. -/
def cfiInit (out : Cfi) (base : BitVec 64) (bankWidth : BitVec 32) (bus : List Access) :
    Bool × Cfi × List Access :=
  let out := { out with
    base := base
    bankWidth := if bankWidth ≠ 0 then bankWidth else 4
    sizeBytes := 0
    cmdset := 0
    ok := false }
  if base = 0 then (false, out, bus)
  else
    let (qry, bus) := qrySignature dev out (cfiCmd out CFI_CMD_QUERY bus)
    if qry then
      let (out, bus) := qryGeometry dev out bus
      (true, out, cfiCmd out CFI_CMD_READ_ARRAY bus)
    else (false, out, cfiCmd out CFI_CMD_READ_ARRAY bus)

/-- `cfi_init_fdt`; `none` when a walk over the tree does not return. -/
def cfiInitFdt (fdt : Fdt) (out : Cfi) (bus : List Access) :
    Option (Bool × Cfi × List Access) :=
  (fdtFindCompatible fdt (cstr "cfi-flash")).bind fun off =>
    if off = uint32Max then some (false, { out with ok := false }, bus)
    else
      (fdtNodeReg64 fdt off 0).bind fun
        | none => some (false, out, bus)
        | some (at', sz) =>
          (fdtNodePropU32 fdt off (cstr "bank-width") 4).map fun (_, bw) =>
            let (found, out, bus) := cfiInit dev out (BitVec.ofNat 64 at') (BitVec.ofNat 32 bw) bus
            if found then
              (true, if out.sizeBytes.toNat < sz then { out with sizeBytes := BitVec.ofNat 32 sz }
                else out, bus)
            else (false, out, bus)

/-! ## Reading the flash -/

/-- The loop that copies the bytes at `src`, from byte `i` on; so many are left. -/
def copyLoop (src : BitVec 64) :
    (left i : ℕ) → (ℕ → UInt8) → List Access → (ℕ → UInt8) × List Access
  | 0, _, dst, bus => (dst, bus)
  | left + 1, i, dst, bus =>
    let (v, bus) := mmioR8 dev (src + BitVec.ofNat 64 i) bus
    copyLoop src left (i + 1) (Function.update dst i v) bus

/-- `cfi_read`: the count, the array `dst` and the accesses. -/
def cfiRead (flash : Cfi) (offset : BitVec 32) (dst : ℕ → UInt8) (len : BitVec 32)
    (bus : List Access) : BitVec 32 × (ℕ → UInt8) × List Access :=
  if flash.ok = false ∨ flash.sizeBytes ≤ offset then (0, dst, bus)
  else
    let len := if flash.sizeBytes < offset + len then flash.sizeBytes - offset else len
    (len, copyLoop dev (flash.base + offset.setWidth 64) len.toNat 0 dst bus)

/-! ## The copy -/

section

variable {dev} {src : BitVec 64} {dst : ℕ → UInt8} {bus : List Access}

/-- The reads of the bytes `i`, …, `i + n - 1` at `src`, which give `data`. -/
def copyReads (src : BitVec 64) (data : ℕ → UInt8) (i n : ℕ) : List Access :=
  (List.range' i n).map fun k => .read (src + BitVec.ofNat 64 k) (data k)

theorem copyReads_succ (data : ℕ → UInt8) (i n : ℕ) :
    copyReads src data i (n + 1) =
      .read (src + BitVec.ofNat 64 i) (data i) :: copyReads src data (i + 1) n := by
  rw [copyReads, List.range'_succ, List.map_cons]
  rfl

theorem copyLoop_succ (left i : ℕ) (dst : ℕ → UInt8) (bus : List Access) :
    copyLoop dev src (left + 1) i dst bus =
      copyLoop dev src left (i + 1) (Function.update dst i (dev bus (src + BitVec.ofNat 64 i)))
        (bus ++ [.read (src + BitVec.ofNat 64 i) (dev bus (src + BitVec.ofNat 64 i))]) := rfl

/-- **The copy**: the bytes are read one after the other, each once, they are what the device gives
there, and the rest of the array stays as it was. -/
theorem copyLoop_spec (dev : Device) (src : BitVec 64) (dst : ℕ → UInt8) (bus : List Access)
    (left i : ℕ) :
    (copyLoop dev src left i dst bus).2 =
        bus ++ copyReads src (copyLoop dev src left i dst bus).1 i left ∧
      (∀ k, k < i ∨ i + left ≤ k → (copyLoop dev src left i dst bus).1 k = dst k) ∧
      ∀ k, i ≤ k → k < i + left → (copyLoop dev src left i dst bus).1 k =
        dev (bus ++ copyReads src (copyLoop dev src left i dst bus).1 i (k - i))
          (src + BitVec.ofNat 64 k) := by
  induction left generalizing dst bus i with
  | zero => exact ⟨(List.append_nil _).symm, fun _ _ => rfl, fun k h₁ h₂ => absurd h₁ (by omega)⟩
  | succ left ih =>
    rw [copyLoop_succ]
    obtain ⟨hbus, hframe, hdata⟩ := ih
      (Function.update dst i (dev bus (src + BitVec.ofNat 64 i)))
      (bus ++ [.read (src + BitVec.ofNat 64 i) (dev bus (src + BitVec.ofNat 64 i))]) (i + 1)
    have hfirst := hframe i (.inl (Nat.lt_succ_self i))
    rw [Function.update_self] at hfirst
    refine ⟨?_, fun k hk => ?_, fun k h₁ h₂ => ?_⟩
    · rw [hbus, copyReads_succ, hfirst, List.append_assoc, List.singleton_append]
    · rw [hframe k (by omega), Function.update_of_ne (by omega)]
    · by_cases hk : k = i
      · subst hk
        rw [hfirst, Nat.sub_self]
        exact congrArg (fun b => dev b _) (List.append_nil _).symm
      · obtain ⟨j, rfl⟩ := Nat.exists_eq_add_of_le (show i + 1 ≤ k by omega)
        have hsub : i + 1 + j - i = j + 1 := by omega
        rw [hdata _ (by omega) (by omega), Nat.add_sub_cancel_left, hsub, copyReads_succ, hfirst,
          List.append_assoc, List.singleton_append]

end

/-! ## Main result -/

/-- How many bytes a read copies: those from `offset` on up to the end of the read and of the
device, in exact arithmetic. -/
def clipped (size offset len : ℕ) : ℕ := min (offset + len) size - offset

section

variable {dev} {flash : Cfi} {offset len : BitVec 32} {dst : ℕ → UInt8} {bus : List Access}

/-- A call of `cfi_read` is exact: it returns the number of bytes that it is to copy, reads these
bytes one after the other and no others, stores what the device gives, and changes nothing behind
them; none of them is outside the device or outside the array. -/
structure ReadExact (dev : Device) (flash : Cfi) (offset : BitVec 32) (dst : ℕ → UInt8)
    (len : BitVec 32) (bus : List Access) (r : BitVec 32 × (ℕ → UInt8) × List Access) : Prop where
  count : r.1.toNat = clipped flash.sizeBytes.toNat offset.toNat len.toNat
  reads : r.2.2 = bus ++ copyReads (flash.base + offset.setWidth 64) r.2.1 0 r.1.toNat
  data : ∀ k < r.1.toNat, r.2.1 k =
    dev (bus ++ copyReads (flash.base + offset.setWidth 64) r.2.1 0 k)
      (flash.base + offset.setWidth 64 + BitVec.ofNat 64 k)
  frame : ∀ k, r.1.toNat ≤ k → r.2.1 k = dst k
  within : ∀ k < r.1.toNat, k < len.toNat ∧ offset.toNat + k < flash.sizeBytes.toNat

/-- A handle that is not usable, or an offset behind the device: nothing is read. -/
theorem cfiRead_nothing (h : flash.ok = false ∨ flash.sizeBytes ≤ offset) :
    cfiRead dev flash offset dst len bus = (0, dst, bus) := if_pos h

theorem cfiRead_copy (hok : flash.ok = true) (hlt : offset < flash.sizeBytes) {n : BitVec 32}
    (hn : n = if flash.sizeBytes < offset + len then flash.sizeBytes - offset else len) :
    cfiRead dev flash offset dst len bus =
      (n, copyLoop dev (flash.base + offset.setWidth 64) n.toNat 0 dst bus) := by
  have hcond : ¬(flash.ok = false ∨ flash.sizeBytes ≤ offset) := by
    rw [hok]
    exact fun h => h.elim nofun (BitVec.not_le.2 hlt)
  rw [hn, cfiRead, if_neg hcond]

/-- What is copied is exact when its length is. -/
theorem readExact_copy {n : BitVec 32}
    (hn : n.toNat = clipped flash.sizeBytes.toNat offset.toNat len.toNat) :
    ReadExact dev flash offset dst len bus
      (n, copyLoop dev (flash.base + offset.setWidth 64) n.toNat 0 dst bus) := by
  obtain ⟨hbus, hframe, hdata⟩ := copyLoop_spec dev (flash.base + offset.setWidth 64) dst
    bus n.toNat 0
  rw [Nat.zero_add] at hframe hdata
  refine ⟨hn, hbus, fun k hk => hdata k (Nat.zero_le k) hk, fun k hk => hframe k (.inr hk),
    fun k hk => ?_⟩
  rw [hn, clipped] at hk
  omega

/-- **Reads are clipped exactly** when they begin behind the device, or when the end of the read
fits into 32 bits. -/
theorem cfi_read_exact_iff (dev : Device) {flash : Cfi} (hok : flash.ok = true)
    (offset len : BitVec 32) (dst : ℕ → UInt8) (bus : List Access) :
    ReadExact dev flash offset dst len bus (cfiRead dev flash offset dst len bus) ↔
      flash.sizeBytes.toNat ≤ offset.toNat ∨ offset.toNat + len.toNat < 2 ^ 32 := by
  have hsize := flash.sizeBytes.isLt
  have hlen := len.isLt
  by_cases hle : flash.sizeBytes ≤ offset
  · rw [cfiRead_nothing (.inr hle)]
    have hle' : flash.sizeBytes.toNat ≤ offset.toNat := hle
    refine iff_of_true ⟨?_, (List.append_nil _).symm, nofun, fun _ _ => rfl, nofun⟩ (.inl hle')
    rw [clipped]
    exact (Nat.sub_eq_zero_of_le (by omega)).symm
  · have hlt : offset.toNat < flash.sizeBytes.toNat := by simpa [BitVec.le_def] using hle
    rw [cfiRead_copy hok hlt rfl]
    have hsum : (offset + len).toNat = (offset.toNat + len.toNat) % 2 ^ 32 := BitVec.toNat_add ..
    by_cases hfits : offset.toNat + len.toNat < 2 ^ 32
    · refine iff_of_true (readExact_copy ?_) (.inr hfits)
      rw [Nat.mod_eq_of_lt hfits] at hsum
      by_cases hclip : flash.sizeBytes < offset + len
      · rw [if_pos hclip, BitVec.toNat_sub_of_le (Nat.le_of_lt hlt), clipped]
        rw [BitVec.lt_def, hsum] at hclip
        omega
      · rw [if_neg hclip, clipped]
        rw [BitVec.lt_def, hsum] at hclip
        omega
    · -- the sum that wraps around is below the offset, and the length stays as it is
      refine iff_of_false (fun h => ?_) (by omega)
      have hnot : ¬flash.sizeBytes < offset + len := by
        rw [BitVec.lt_def, hsum]
        omega
      rw [if_neg hnot] at h
      have hcount : len.toNat = clipped flash.sizeBytes.toNat offset.toNat len.toNat := h.count
      rw [clipped] at hcount
      omega

end

/-- A bank of 32 MiB. -/
def flashBank : Cfi := ⟨0x20000000, 4, 0x2000000, 1, true⟩

/-- Four bytes of it are read exactly. -/
theorem cfi_read_exact_flashBank :
    ReadExact (fun _ _ => 0xFF) flashBank 0x10 (fun _ => 0) 4 []
      (cfiRead (fun _ _ => 0xFF) flashBank 0x10 (fun _ => 0) 4 []) :=
  (cfi_read_exact_iff _ rfl _ _ _ _).2 (.inr (by decide))

/-- **A read that is not clipped**: the sum of the offset `0x10` and the length `0xFFFFFFF0` is
zero, and the read copies all of the length. -/
theorem cfi_read_not_clipped :
    (∀ dev dst bus, (cfiRead dev flashBank 0x10 dst 0xFFFFFFF0 bus).1 = 0xFFFFFFF0) ∧
    ¬ ∀ (dev : Device) (flash : Cfi), flash.ok = true → ∀ (offset len : BitVec 32) dst bus,
      ReadExact dev flash offset dst len bus (cfiRead dev flash offset dst len bus) := by
  have hread : ∀ dev dst bus, (cfiRead dev flashBank 0x10 dst 0xFFFFFFF0 bus).1 = 0xFFFFFFF0 := by
    intro dev dst bus
    rw [cfiRead_copy (n := 0xFFFFFFF0) rfl (by decide) (by decide)]
  refine ⟨hread, fun h => ?_⟩
  have hcount := (h (fun _ _ => 0xFF) flashBank rfl 0x10 0xFFFFFFF0 (fun _ => 0) []).count
  rw [hread] at hcount
  exact absurd hcount (by decide)

end RvvmHal.Flash
