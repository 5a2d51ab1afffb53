import RvvmHal.DeviceTree.Blob

/-!
# The token walks

The functions that search the structure block share one loop: it reads the token at the offset,
steps over everything but nodes, and differs from function to function in what it does at the
beginning of a node and in what it returns at the end. `walkBody` is this loop with the two as
parameters. The state is the 32-bit offset and what else the function carries along: nothing, a
count, or the surroundings of the hardware. `fdt_node_prop` has a loop of its own
(`nodePropBody`), since it stops where the others go on.

A call that does not return is `none`, and a round whose call does not return is `hang`.
-/

namespace RvvmHal.DeviceTree

open Bytes CString Loop

variable (fdt : Fdt)

/-! ## The properties of one node -/

/-- A round of the loop in `fdt_node_prop`. -/
def nodePropBody (name : List UInt8) (off : ℕ) : Iter ℕ (Option (ℕ × ℕ)) :=
  if off < fdt.structSize then
    let tok := fdtReadBe32 fdt.structBlob off
    if tok = FDT_BEGIN_NODE ∨ tok = FDT_END_NODE ∨ tok = FDT_END then .stop none
    else if tok = FDT_NOP then .next ((off + 4) % 2 ^ 32)
    else if tok = FDT_PROP then
      let len := fdtReadBe32 fdt.structBlob ((off + 4) % 2 ^ 32)
      let nameoff := fdtReadBe32 fdt.structBlob ((off + 8) % 2 ^ 32)
      if strEq fdt.strings nameoff name then .stop (some (off + 12, len))
      else .next ((off + (12 + padded len)) % 2 ^ 32)
    else .stop none
  else .stop none

/-- `fdt_node_prop`: the offset of the value and its length. -/
def fdtNodeProp (nodeOff : ℕ) (name : List UInt8) : Option (Option (ℕ × ℕ)) :=
  (skipName fdt nodeOff).bind (loop32 (nodePropBody fdt name))

/-- `fdt_node_reg64`: the address and the size at index `idx`. -/
def fdtNodeReg64 (nodeOff idx : ℕ) : Option (Option (ℕ × ℕ)) :=
  (fdtNodeProp fdt nodeOff (cstr "reg")).map fun
    | none => none
    | some (reg, len) =>
      if len < (idx + 1) * 16 % 2 ^ 32 then none
      else
        let off := idx * 16 % 2 ^ 32
        let data : Mem := fun i => fdt.structBlob (reg + i)
        some (fdtReadBe64 data off, fdtReadBe64 data ((off + 8) % 2 ^ 32))

/-- The position `p` of the list at `list` holds a byte of a string. -/
def inString (list len p : ℕ) : Bool := p < len ∧ fdt.structBlob (list + p) ≠ 0

/-- A round of the loops that look for a string in a list of strings of length `len` at `list`;
`hit` is the comparison with the string at a position of the list. -/
def listBody (hit : ℕ → Bool) (list len pos : ℕ) : Iter ℕ Bool :=
  if pos < len then
    if hit pos then .stop true
    else
      match scan (inString fdt list len) pos with
      | some p => .next ((p + 1) % 2 ^ 32)
      | none => .hang
  else .stop false

/-- Whether some string of the list is hit. -/
def listHas (hit : ℕ → Bool) (list len : ℕ) : Option Bool :=
  loop32 (listBody fdt hit list len) 0

/-! ## The loop over the tokens -/

variable {α ρ : Type*}

/-- A round of the loop over the tokens: `onBegin` at the beginning of a node, `done` at the end of
the block, at `FDT_END` and at anything that is no token. -/
def walkBody (onBegin : ℕ → α → Iter (ℕ × α) ρ) (done : α → ρ) : ℕ × α → Iter (ℕ × α) ρ
  | (off, a) =>
    if off < fdt.structSize then
      let tok := fdtReadBe32 fdt.structBlob off
      if tok = FDT_BEGIN_NODE then onBegin off a
      else if tok = FDT_END_NODE ∨ tok = FDT_NOP then .next ((off + 4) % 2 ^ 32, a)
      else if tok = FDT_PROP then .next (skipProp fdt off, a)
      else .stop (done a)
    else .stop (done a)

/-- Going on after the name of a node, which ends where `skip` says. -/
def goOn (skip : Option ℕ) (a : α) : Iter (ℕ × α) ρ :=
  match skip with
  | some next => .next (next, a)
  | none => .hang

/-! ## Searches in `fdt.c` -/

/-- The beginning of a node in `fdt_next_node`, which stops there. -/
def nextNodeBegin (off : ℕ) (_ : Unit) : Iter (ℕ × Unit) ℕ := .stop off

/-- A round of `fdt_next_node`. -/
def nextNodeBody : ℕ × Unit → Iter (ℕ × Unit) ℕ :=
  walkBody fdt nextNodeBegin fun _ => uint32Max

/-- `fdt_next_node`. -/
def fdtNextNode (off : ℕ) : Option ℕ := loop32 (nextNodeBody fdt) (off, ())

/-- A node whose first property `compatible` lists the string. -/
def hasCompatible (compat : List UInt8) (off : ℕ) : Option Bool :=
  (fdtNodeProp fdt off (cstr "compatible")).bind fun
    | none => some false
    | some (list, len) =>
      listHas fdt (fun pos => strEq fdt.structBlob (list + pos) compat) list len

/-- The beginning of a node in `fdt_find_compatible`. -/
def findCompatibleBegin (compat : List UInt8) (off : ℕ) (a : Unit) : Iter (ℕ × Unit) ℕ :=
  match hasCompatible fdt compat off with
  | some true => .stop off
  | some false => goOn (skipName fdt off) a
  | none => .hang

/-- A round of `fdt_find_compatible`. -/
def findCompatibleBody (compat : List UInt8) : ℕ × Unit → Iter (ℕ × Unit) ℕ :=
  walkBody fdt (findCompatibleBegin fdt compat) fun _ => uint32Max

/-- `fdt_find_compatible`. -/
def fdtFindCompatible (compat : List UInt8) : Option ℕ :=
  loop32 (findCompatibleBody fdt compat) (0, ())

/-- The beginning of a node in `fdt_find_node_named`. -/
def findNodeNamedBegin (name : List UInt8) (off : ℕ) (a : Unit) : Iter (ℕ × Unit) ℕ :=
  if nodeNameEq fdt.structBlob name (fdtNodeName off) then .stop off
  else goOn (skipName fdt off) a

/-- A round of `fdt_find_node_named`. -/
def findNodeNamedBody (name : List UInt8) : ℕ × Unit → Iter (ℕ × Unit) ℕ :=
  walkBody fdt (findNodeNamedBegin fdt name) fun _ => uint32Max

/-- `fdt_find_node_named`. -/
def fdtFindNodeNamed (name : List UInt8) : Option ℕ :=
  loop32 (findNodeNamedBody fdt name) (0, ())

/-! ## Counting the harts, in `smp.c` -/

/-- `name_end`, the copy of `skip_name` in `smp.c`. -/
def nameEnd (off : ℕ) : Option ℕ := skipName fdt off

/-- The beginning of a node in `count_cpu_nodes`; the state carries the count. -/
def countCpuNodesBegin (off count : ℕ) : Iter (ℕ × ℕ) ℕ :=
  match fdtNodeProp fdt off (cstr "device_type") with
  | some (some (dt, _)) =>
    if strEq fdt.structBlob dt (cstr "cpu") then goOn (nameEnd fdt off) ((count + 1) % 2 ^ 32)
    else goOn (nameEnd fdt off) count
  | some none => goOn (nameEnd fdt off) count
  | none => .hang

/-- A round of `count_cpu_nodes`. -/
def countCpuNodesBody : ℕ × ℕ → Iter (ℕ × ℕ) ℕ := walkBody fdt (countCpuNodesBegin fdt) id

/-- `count_cpu_nodes`. -/
def countCpuNodes : Option ℕ := loop32 (countCpuNodesBody fdt) (0, 0)

/-! ## Finding a device, in `virtio.c` -/

section

variable {ω : Type*} (mmioR32 : ℕ → ω → ℕ × ω) (cb : ℕ → ℕ → ω → Bool × ω)

/-- `virtio_probe`: the device id, or 0. Reads of registers may change the surroundings. -/
def virtioProbe (base : ℕ) (w : ω) : ℕ × ω :=
  let (magic, w) := mmioR32 ((base + 0x000) % 2 ^ 64) w
  if magic ≠ 0x74726976 then (0, w)
  else
    let (version, w) := mmioR32 ((base + 0x004) % 2 ^ 64) w
    if version ≠ 2 then (0, w) else mmioR32 ((base + 0x008) % 2 ^ 64) w

/-- The comparison with the constant in `virtio_find_fdt`, at position `p` of the list at `cp`. -/
def needleEq (cp p : ℕ) : Bool :=
  let needle := cstr "virtio,mmio"
  (needle.zipIdx.all fun ck => fdt.structBlob (cp + (p + ck.2) % 2 ^ 32) == ck.1) &&
    fdt.structBlob (cp + (p + 11) % 2 ^ 32) == 0

/-- Whether the node at `walk` is a `virtio,mmio` node. -/
def isVirtio (walk : ℕ) : Option Bool :=
  (fdtNodeProp fdt walk (cstr "compatible")).bind fun
    | none => some false
    | some (cp, clen) => listHas fdt (needleEq fdt cp) cp clen

/-- The block holds a byte of a name at `p`. -/
def inName (p : ℕ) : Bool := p < fdt.structSize ∧ fdt.structBlob p ≠ 0

/-- The end of the name of the node at `walk`, as the loop in `virtio_find_fdt` finds it. -/
def virtioNul (walk : ℕ) : Option ℕ := scan (inName fdt) ((walk + 4) % 2 ^ 32)

/-- The step over the name in `virtio_find_fdt`. -/
def virtioSkip (walk : ℕ) : Option ℕ :=
  (virtioNul fdt walk).map fun p => ((p + 4) % 2 ^ 32) &&& (2 ^ 32 - 4)

/-- The beginning of a node in `virtio_find_fdt`; the state carries the surroundings. -/
def virtioFindFdtBegin (walk : ℕ) (w : ω) : Iter (ℕ × ω) (ℕ × ω) :=
  match isVirtio fdt walk with
  | none => .hang
  | some false => goOn (virtioSkip fdt walk) w
  | some true =>
    match fdtNodeReg64 fdt walk 0 with
    | none => .hang
    | some none => goOn (virtioSkip fdt walk) w
    | some (some (at', _)) =>
      let (id, w) := virtioProbe mmioR32 at' w
      if id ≠ 0 then
        let (found, w) := cb at' id w
        if found then .stop (at', w) else goOn (virtioSkip fdt walk) w
      else goOn (virtioSkip fdt walk) w

/-- A round of `virtio_find_fdt`. -/
def virtioFindFdtBody : ℕ × ω → Iter (ℕ × ω) (ℕ × ω) :=
  walkBody fdt (virtioFindFdtBegin fdt mmioR32 cb) fun w => (0, w)

/-- `virtio_find_fdt`: the address, or 0, and the surroundings after the call. -/
def virtioFindFdt (w : ω) : Option (ℕ × ω) :=
  loop32 (virtioFindFdtBody fdt mmioR32 cb) (0, w)

end

end RvvmHal.DeviceTree
