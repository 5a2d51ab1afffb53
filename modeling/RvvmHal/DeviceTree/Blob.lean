import RvvmHal.Foundations.CString
import RvvmHal.Foundations.Loop

/-!
# The device tree blob

A parsed blob points at the structure block and at the strings block. All offsets into the
structure block are 32-bit words, so every sum that the code forms on an offset is reduced. This
file has the reads: big-endian cells, the comparison of strings, and the two functions that step
over a node's name (`skipName`) and over a property (`skipProp`).
-/

namespace RvvmHal.DeviceTree

open Bytes CString Loop

abbrev FDT_BEGIN_NODE : ℕ := 0x00000001

abbrev FDT_END_NODE : ℕ := 0x00000002

abbrev FDT_PROP : ℕ := 0x00000003

abbrev FDT_NOP : ℕ := 0x00000004

abbrev FDT_END : ℕ := 0x00000009

/-- `UINT32_MAX`, the offset of no node. -/
abbrev uint32Max : ℕ := 0xFFFFFFFF

/-- A parsed blob. The memory behind each pointer begins at the pointer. -/
structure Fdt where
  structBlob : Mem
  strings : Mem
  structSize : ℕ
  structSize_lt : structSize < 2 ^ 32

/-! ## Cells -/

/-- `fdt_read_be32`. -/
def fdtReadBe32 (data : Mem) (off : ℕ) : ℕ :=
  (data off).toNat <<< 24 ||| (data (off + 1)).toNat <<< 16 ||| (data (off + 2)).toNat <<< 8 |||
    (data (off + 3)).toNat

/-- `fdt_read_be64`. -/
def fdtReadBe64 (data : Mem) (off : ℕ) : ℕ :=
  fdtReadBe32 data off <<< 32 ||| fdtReadBe32 data ((off + 4) % 2 ^ 32)

theorem fdtReadBe32_eq (data : Mem) (off : ℕ) :
    fdtReadBe32 data off = ofBe (readBytes data off 4) := by
  simp only [readBytes_succ, readBytes_zero, fdtReadBe32, ofBe_four]

theorem fdtReadBe32_lt (data : Mem) (off : ℕ) : fdtReadBe32 data off < 2 ^ 32 := by
  have h := ofBe_lt (readBytes data off 4)
  rw [length_readBytes] at h
  rw [fdtReadBe32_eq]
  omega

/-- Two cells are a number of eight bytes. -/
theorem fdtReadBe64_eq (data : Mem) {off : ℕ} (h : off + 4 < 2 ^ 32) :
    fdtReadBe64 data off = ofBe (readBytes data off 8) := by
  have hlt := fdtReadBe32_lt data (off + 4)
  rw [fdtReadBe64, Nat.mod_eq_of_lt h, Nat.or_comm, Word.or_shiftLeft hlt, fdtReadBe32_eq,
    fdtReadBe32_eq, readBytes_add data off 4 4, ofBe_append, length_readBytes]
  omega

/-- A cell of the blob. -/
theorem fdtReadBe32_of_readBytes {data : Mem} {off v : ℕ} (hv : v < 2 ^ 32)
    (h : readBytes data off 4 = beBytes 4 v) : fdtReadBe32 data off = v := by
  rw [fdtReadBe32_eq, h, ofBe_beBytes (by omega)]

/-! ## Strings -/

/-- `str_eq`: the string at `a` against the string `b`. -/
def strEq (m : Mem) (a : ℕ) : List UInt8 → Bool
  | [] => m a == 0
  | c :: b => if m a ≠ 0 ∧ m a = c then strEq m (a + 1) b else m a == 0 && c == 0

/-- The comparison in `fdt_find_node_named`: the string `p` against the node name at `n`, which
may go on with an `@`. -/
def nodeNameEq (m : Mem) : List UInt8 → ℕ → Bool
  | [], n => m n == 0 || m n == 64
  | c :: p, n =>
    if c ≠ 0 ∧ c = m n then nodeNameEq m p (n + 1) else c == 0 && (m n == 0 || m n == 64)

/-- The string comparison decides equality. -/
theorem strEq_eq {m : Mem} {a : ℕ} {s q : List UInt8} (hs : StringAt m a s) (hq : 0 ∉ q) :
    strEq m a q = decide (s = q) := by
  induction q generalizing a s with
  | nil =>
    cases s with
    | nil => simp [strEq, hs.nil]
    | cons b s => simp [strEq, hs.cons.1, hs.cons.2.1]
  | cons c q ih =>
    rw [List.mem_cons, not_or] at hq
    have hc : (c == 0) = false := by simpa using Ne.symm hq.1
    cases s with
    | nil => simp [strEq, hs.nil, hc]
    | cons b s =>
      obtain ⟨hhead, hb, htail⟩ := hs.cons
      rw [strEq, hhead]
      by_cases hbc : b = c
      · rw [if_pos ⟨hb, hbc⟩, ih htail hq.2]
        simp [hbc]
      · rw [if_neg fun h => hbc h.2, hc, Bool.and_false]
        simp [hbc]

/-- A node name that a lookup by name accepts: the name itself, or the name and a unit address. -/
def NodeNameMatches (q s : List UInt8) : Prop := s = q ∨ q ++ [64] <+: s

instance (q s : List UInt8) : Decidable (NodeNameMatches q s) :=
  inferInstanceAs (Decidable (_ ∨ _))

@[simp] theorem nodeNameMatches_nil_nil : NodeNameMatches [] [] := .inl rfl

@[simp] theorem nodeNameMatches_nil_cons {b : UInt8} {s : List UInt8} :
    NodeNameMatches [] (b :: s) ↔ b = 64 := by
  rw [NodeNameMatches, List.nil_append, List.cons_prefix_cons]
  simp [eq_comm]

@[simp] theorem not_nodeNameMatches_cons_nil {c : UInt8} {q : List UInt8} :
    ¬NodeNameMatches (c :: q) [] := by
  simp [NodeNameMatches]

@[simp] theorem nodeNameMatches_cons_cons {b c : UInt8} {q s : List UInt8} :
    NodeNameMatches (c :: q) (b :: s) ↔ b = c ∧ NodeNameMatches q s := by
  rw [NodeNameMatches, NodeNameMatches, List.cons.injEq, List.cons_append, List.cons_prefix_cons,
    @eq_comm _ c b, and_or_left]

/-- The comparison of node names decides whether the lookup accepts the name. -/
theorem nodeNameEq_eq {m : Mem} {a : ℕ} {s q : List UInt8} (hs : StringAt m a s) (hq : 0 ∉ q) :
    nodeNameEq m q a = decide (NodeNameMatches q s) := by
  induction q generalizing a s with
  | nil =>
    cases s with
    | nil => simp [nodeNameEq, hs.nil]
    | cons b s =>
      obtain ⟨hhead, hb, -⟩ := hs.cons
      simp only [nodeNameEq, hhead, nodeNameMatches_nil_cons, beq_eq_false_iff_ne.2 hb,
        Bool.false_or]
      rfl
  | cons c q ih =>
    rw [List.mem_cons, not_or] at hq
    have hc : (c == 0) = false := beq_eq_false_iff_ne.2 (Ne.symm hq.1)
    cases s with
    | nil => simp [nodeNameEq, hs.nil, hc, Ne.symm hq.1]
    | cons b s =>
      obtain ⟨hhead, -, htail⟩ := hs.cons
      simp only [nodeNameEq, hhead, nodeNameMatches_cons_cons]
      by_cases hbc : b = c
      · rw [if_pos ⟨Ne.symm hq.1, hbc.symm⟩, ih htail hq.2]
        simp only [hbc, true_and]
      · rw [if_neg fun h => hbc h.2.symm, hc, Bool.false_and]
        simp only [hbc, false_and, decide_false]

/-- A name without an `@` is matched by the node names that equal it up to their first `@`. -/
theorem nodeNameMatches_iff {q s : List UInt8} (hq : 64 ∉ q) :
    NodeNameMatches q s ↔ s.takeWhile (· ≠ 64) = q := by
  induction q generalizing s with
  | nil =>
    cases s with
    | nil => simp
    | cons b s =>
      rw [nodeNameMatches_nil_cons, List.takeWhile_cons]
      by_cases hb : b = 64
      · simp [hb]
      · simp [hb]
  | cons c q ih =>
    rw [List.mem_cons, not_or] at hq
    cases s with
    | nil => simp
    | cons b s =>
      rw [nodeNameMatches_cons_cons, ih hq.2, List.takeWhile_cons]
      by_cases hb : b = 64
      · simp [hb, hq.1]
      · simp [hb]

/-! ## Names and properties -/

/-- The length of a payload, padded to a multiple of four. -/
def padded (len : ℕ) : ℕ := ((len + 3) % 2 ^ 32) &&& (2 ^ 32 - 4)

theorem padded_eq (len : ℕ) : padded len = (len + 3) % 2 ^ 32 / 4 * 4 :=
  Word.and_not3 (Nat.mod_lt _ (by omega))

/-- The offset of a node's name, for `fdt_node_name`. -/
def fdtNodeName (nodeOff : ℕ) : ℕ := nodeOff + 4

/-- The NUL that ends the name of the node at `off`, as the loop in `skip_name` finds it. -/
def nameNul (fdt : Fdt) (off : ℕ) : Option ℕ :=
  scan (fun p => fdt.structBlob p ≠ 0) ((off + 4) % 2 ^ 32)

/-- `skip_name`. -/
def skipName (fdt : Fdt) (off : ℕ) : Option ℕ :=
  (nameNul fdt off).map fun p => (((p + 1) % 2 ^ 32 + 3) % 2 ^ 32) &&& (2 ^ 32 - 4)

/-- `skip_prop`. -/
def skipProp (fdt : Fdt) (off : ℕ) : ℕ :=
  (off + 12 + padded (fdtReadBe32 fdt.structBlob ((off + 4) % 2 ^ 32))) % 2 ^ 32

end RvvmHal.DeviceTree
