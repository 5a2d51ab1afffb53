import RvvmHal.DeviceTree.Lookup

/-!
# The entries of `reg`

`fdt_node_reg64` with its outputs: two variables of the caller, of which either may be left out, and
the bytes of the property that the call reads.

The entry at `idx` ends at byte `16 * (idx + 1)` of the property. The code forms this product in 32
bits, so that for large indices it wraps around and may come out small enough for any property; the
call then reads outside it. The main result (`reg64_exact_iff`) says for which indices and
properties the call is right.
-/

namespace RvvmHal.DeviceTree

open Bytes CString Loop

/-! ## The values of properties -/

/-- The value of the first property of the node with this name. -/
def DNode.value (node : DNode) (name : List UInt8) : Option (List UInt8) :=
  (node.props.find? fun p => p.name = name).map DProp.value

/-- **The lookup of a property** finds its value, or nothing when there is none. -/
theorem NodeAt.lookup {fdt : Fdt} {l : Located} {name : List UInt8} (h : NodeAt fdt l)
    (hname : 0 ∉ name) :
    (l.node.value name = none ∧ DeviceTree.fdtNodeProp fdt l.off name = some none) ∨
      ∃ a v, l.node.value name = some v ∧
        DeviceTree.fdtNodeProp fdt l.off name = some (some (a, v.length)) ∧
        readBytes fdt.structBlob a v.length = v ∧ v.length < 2 ^ 32 := by
  rw [h.fdtNodeProp hname, propResult, DNode.value, find_node_props]
  cases hfind : l.props.find? fun q => q.2.name = name with
  | none => exact .inl ⟨rfl, rfl⟩
  | some q =>
    obtain ⟨hvalue, hlt⟩ := h.value (List.mem_of_find?_eq_some hfind)
    exact .inr ⟨q.1, q.2.value, rfl, rfl, hvalue, hlt⟩

/-- `fdt_node_prop_u32`: whether the property has a cell, and what `*out` holds after the call. -/
def fdtNodePropU32 (fdt : Fdt) (nodeOff : ℕ) (name : List UInt8) (out : ℕ) : Option (Bool × ℕ) :=
  (fdtNodeProp fdt nodeOff name).map fun
    | none => (false, out)
    | some (p, len) =>
      if len < 4 then (false, out) else (true, fdtReadBe32 (fun i => fdt.structBlob (p + i)) 0)

/-- `fdt_node_interrupt`. -/
def fdtNodeInterrupt (fdt : Fdt) (nodeOff : ℕ) : Option ℕ :=
  (fdtNodeProp fdt nodeOff (cstr "interrupts")).map fun
    | none => 0
    | some (p, len) => if len < 4 then 0 else fdtReadBe32 (fun i => fdt.structBlob (p + i)) 0

/-! ## The call -/

/-- What a call of `fdt_node_reg64` does: its result, what the outputs hold after it, where `none`
is a pointer that is NULL, and the bytes of the property that it reads. -/
structure RegCall where
  found : Bool
  addr : Option ℕ
  size : Option ℕ
  reads : List ℕ
  deriving DecidableEq

/-- The bytes that `fdt_read_be64` reads. -/
def be64Reads (off : ℕ) : List ℕ := List.range' off 4 ++ List.range' ((off + 4) % 2 ^ 32) 4

/-- The end of `fdt_node_reg64`, for the property of `len` bytes at `data`. -/
def readReg (data : Mem) (len idx : ℕ) (addr size : Option ℕ) : RegCall :=
  if len < (idx + 1) % 2 ^ 32 * 16 % 2 ^ 32 then ⟨false, addr, size, []⟩
  else
    let off := idx * 16 % 2 ^ 32
    { found := true
      addr := addr.map fun _ => fdtReadBe64 data off
      size := size.map fun _ => fdtReadBe64 data ((off + 8) % 2 ^ 32)
      reads := (addr.elim [] fun _ => be64Reads off) ++
        size.elim [] fun _ => be64Reads ((off + 8) % 2 ^ 32) }

/-- `fdt_node_reg64`, with its outputs. -/
def fdtNodeReg64Out (fdt : Fdt) (nodeOff idx : ℕ) (addr size : Option ℕ) : Option RegCall :=
  (fdtNodeProp fdt nodeOff (cstr "reg")).map fun
    | none => ⟨false, addr, size, []⟩
    | some (reg, len) => readReg (fun i => fdt.structBlob (reg + i)) len idx addr size

/-- The address and the size are those that the search for devices uses. -/
theorem fdtNodeReg64_eq (fdt : Fdt) (nodeOff idx addr size : ℕ) :
    fdtNodeReg64 fdt nodeOff idx =
      (fdtNodeReg64Out fdt nodeOff idx (some addr) (some size)).map fun r =>
        if r.found then r.addr.bind fun a => r.size.map fun s => (a, s) else none := by
  rw [fdtNodeReg64, fdtNodeReg64Out, Option.map_map]
  congr 1
  funext prop
  cases prop with
  | none => rfl
  | some prop =>
    have hprod : (idx + 1) % 2 ^ 32 * 16 % 2 ^ 32 = (idx + 1) * 16 % 2 ^ 32 := by omega
    simp only [Function.comp, readReg, hprod]
    by_cases hlen : prop.2 < (idx + 1) * 16 % 2 ^ 32
    · rw [if_pos hlen, if_pos hlen]
      rfl
    · rw [if_neg hlen, if_neg hlen]
      rfl

/-! ## The exact bounds -/

/-- The call does what the exact bounds say, for the value of the property `reg`: it finds the entry
when the property has all its bytes, gives the two numbers in it, changes nothing otherwise, and
reads the property only. -/
structure RegExact (value : Option (List UInt8)) (idx : ℕ) (addr size : Option ℕ) (r : RegCall) :
    Prop where
  found : r.found = true ↔ ∃ v, value = some v ∧ 16 * (idx + 1) ≤ v.length
  entry : ∀ v, value = some v → r.found = true →
    r.addr = addr.map (fun _ => ofBe ((v.drop (16 * idx)).take 8)) ∧
      r.size = size.map fun _ => ofBe ((v.drop (16 * idx + 8)).take 8)
  unchanged : r.found = false → r.addr = addr ∧ r.size = size
  inside : ∀ x ∈ r.reads, ∃ v, value = some v ∧ x < v.length

section

variable {idx : ℕ} {addr size : Option ℕ}

theorem regExact_notFound {value : Option (List UInt8)}
    (h : ∀ v, value = some v → v.length < 16 * (idx + 1)) :
    RegExact value idx addr size ⟨false, addr, size, []⟩ where
  found := iff_of_false nofun fun ⟨v, hv, hle⟩ => by
    have hlt := h v hv
    omega
  entry _ _ hfound := nomatch hfound
  unchanged _ := ⟨rfl, rfl⟩
  inside _ hx := nomatch hx

theorem mem_be64Reads {off x : ℕ} (hoff : off + 8 < 2 ^ 32) (hx : x ∈ be64Reads off) :
    x < off + 8 := by
  rw [be64Reads, Nat.mod_eq_of_lt (by omega), List.mem_append, List.mem_range'_1,
    List.mem_range'_1] at hx
  omega

variable {data : Mem} {v : List UInt8}

/-- A number of eight bytes in the property. -/
theorem fdtReadBe64_value (hdata : readBytes data 0 v.length = v) (off : ℕ)
    (hoff : off + 8 ≤ v.length) (hv : v.length < 2 ^ 32) :
    fdtReadBe64 data off = ofBe ((v.drop off).take 8) := by
  have hbytes := take_drop_readBytes data 0 v.length hoff
  rw [hdata, Nat.zero_add] at hbytes
  rw [fdtReadBe64_eq data (by omega), hbytes]

/-- The entry that the property has is found. -/
theorem regExact_found (hdata : readBytes data 0 v.length = v) (hv : v.length < 2 ^ 32)
    (hle : 16 * (idx + 1) ≤ v.length) :
    RegExact (some v) idx addr size (readReg data v.length idx addr size) := by
  have hprod : (idx + 1) % 2 ^ 32 * 16 % 2 ^ 32 = 16 * (idx + 1) := by omega
  have hoff : idx * 16 % 2 ^ 32 = 16 * idx := by omega
  have hoff' : (16 * idx + 8) % 2 ^ 32 = 16 * idx + 8 := by omega
  rw [readReg, hprod, if_neg (by omega), hoff]
  dsimp only
  rw [hoff', fdtReadBe64_value hdata (16 * idx) (by omega) hv,
    fdtReadBe64_value hdata (16 * idx + 8) (by omega) hv]
  refine ⟨iff_of_true rfl ⟨v, rfl, hle⟩, fun w hw _ => ?_, nofun, fun x hx => ⟨v, rfl, ?_⟩⟩
  · cases hw
    exact ⟨rfl, rfl⟩
  · rcases List.mem_append.1 hx with hx | hx
    · cases addr with
      | none => cases hx
      | some a =>
        have hlt := mem_be64Reads (by omega) hx
        omega
    · cases size with
      | none => cases hx
      | some s =>
        have hlt := mem_be64Reads (by omega) hx
        omega

/-- **The bound of the code**, for a property of the node: it is exact when the product does not
wrap around, or is too large for the property nevertheless. -/
theorem regExact_readReg (hdata : readBytes data 0 v.length = v) (hv : v.length < 2 ^ 32) :
    RegExact (some v) idx addr size (readReg data v.length idx addr size) ↔
      16 * (idx + 1) < 2 ^ 32 ∨ v.length < 16 * (idx + 1) % 2 ^ 32 := by
  have hprod : (idx + 1) % 2 ^ 32 * 16 % 2 ^ 32 = 16 * (idx + 1) % 2 ^ 32 := by omega
  by_cases hle : 16 * (idx + 1) ≤ v.length
  · exact iff_of_true (regExact_found hdata hv hle) (.inl (by omega))
  · by_cases hlt : v.length < 16 * (idx + 1) % 2 ^ 32
    · refine iff_of_true ?_ (.inr hlt)
      rw [readReg, hprod, if_pos hlt]
      apply regExact_notFound
      intro w hw
      cases hw
      omega
    · refine iff_of_false (fun h => ?_) (by omega)
      -- the call finds an entry that the property does not have
      have hfound : (readReg data v.length idx addr size).found = true := by
        rw [readReg, hprod, if_neg hlt]
      obtain ⟨w, hw, hle'⟩ := h.found.1 hfound
      cases hw
      exact hle hle'

end

/-! ## Main result -/

/-- **The entries of `reg`**: for a node of an encoded tree, the call returns, and it is right
exactly when the node has no property `reg`, or the product `16 * (idx + 1)` fits into 32 bits, or
what is left of it is still larger than the property. -/
theorem reg64_exact_iff {fdt : Fdt} {t : Forest} {ts : List Tok} (h : EncodesTree fdt t ts)
    {l : Located} (hl : l ∈ nodesFrom 0 ts) (idx : ℕ) (addr size : Option ℕ) :
    ∃ r, fdtNodeReg64Out fdt l.off idx addr size = some r ∧
      (RegExact (l.node.value (cstr "reg")) idx addr size r ↔
        ∀ v, l.node.value (cstr "reg") = some v →
          16 * (idx + 1) < 2 ^ 32 ∨ v.length < 16 * (idx + 1) % 2 ^ 32) := by
  have hnode := nodeAt_of_mem h.streamAt hl
  rcases hnode.lookup (show 0 ∉ cstr "reg" by decide) with
    ⟨hvalue, hprop⟩ | ⟨a, v, hvalue, hprop, hbytes, hlt⟩
  · refine ⟨⟨false, addr, size, []⟩, by rw [fdtNodeReg64Out, hprop]; rfl, ?_⟩
    rw [hvalue]
    exact iff_of_true (regExact_notFound nofun) nofun
  · refine ⟨_, by rw [fdtNodeReg64Out, hprop]; rfl, ?_⟩
    have hdata := (readBytes_shift fdt.structBlob a v.length).trans hbytes
    rw [hvalue]
    refine (regExact_readReg hdata hlt).trans ⟨fun h w hw => ?_, fun h => h v rfl⟩
    cases hw
    exact h

/-- A root with one entry in its property `reg`. -/
def regRoot : DNode := ⟨[], [⟨cstr "reg", 0, beBytes 8 0x20000000 ++ beBytes 8 0x2000000⟩]⟩

def regTree : Forest := .cons regRoot.name regRoot.props .nil .nil

def regStream : List Tok := regTree.tokens ++ [.fin]

def regBlob : Fdt := blobOf regStream (cstr "reg" ++ [0]) (by decide)

theorem encodesTree_regBlob : EncodesTree regBlob regTree regStream where
  toEncodes := encodes_blobOf _ (by decide)
  tokens := by decide
  lists := by
    intro node hnode p hp hname
    rw [List.mem_singleton.1 hnode] at hp
    rw [List.mem_singleton.1 hp] at hname
    exact absurd hname (by decide)

/-- The root of this tree in its place. -/
def regLocated : Located := ⟨0, regRoot.name, regRoot.props.map (Prod.mk 20)⟩

theorem regLocated_mem : regLocated ∈ nodesFrom 0 regStream := by decide

/-- The entry is read at index 0. -/
theorem reg64_exact_regBlob :
    ∃ r, fdtNodeReg64Out regBlob 0 0 (some 0) (some 0) = some r ∧
      RegExact (regRoot.value (cstr "reg")) 0 (some 0) (some 0) r := by
  obtain ⟨r, hr, hiff⟩ := reg64_exact_iff encodesTree_regBlob regLocated_mem 0 (some 0) (some 0)
  exact ⟨r, hr, hiff.2 fun _ _ => .inl (by omega)⟩

/-- **An entry that is not there**: at the index `0x0FFFFFFF` the product is zero, and the call
finds an entry in a property of 16 bytes. -/
theorem reg64_not_exact : ¬ ∀ (fdt : Fdt) (t : Forest) (ts : List Tok), EncodesTree fdt t ts →
    ∀ l ∈ nodesFrom 0 ts, ∀ idx < 2 ^ 32, ∀ addr size : Option ℕ,
      ∃ r, fdtNodeReg64Out fdt l.off idx addr size = some r ∧
        RegExact (l.node.value (cstr "reg")) idx addr size r := by
  intro h
  obtain ⟨r, hr, hexact⟩ := h _ _ _ encodesTree_regBlob _ regLocated_mem 0x0FFFFFFF (by omega)
    (some 0) (some 0)
  have hnode := nodeAt_of_mem encodesTree_regBlob.streamAt regLocated_mem
  rcases hnode.lookup (show 0 ∉ cstr "reg" by decide) with
    ⟨hvalue, -⟩ | ⟨a, v, hvalue, hprop, hbytes, hlt⟩
  · exact absurd hvalue (by decide)
  · rw [fdtNodeReg64Out, hprop] at hr
    cases hr
    rw [hvalue] at hexact
    have hdata := (readBytes_shift regBlob.structBlob a v.length).trans hbytes
    have hcond := (regExact_readReg hdata hlt).1 hexact
    omega

end RvvmHal.DeviceTree
