import RvvmHal.DeviceTree.Lookup

/-!
# Iterating over the nodes

To iterate over the nodes, the comment of `fdt_next_node` says, pass the offset of the last node
plus 4, so as to step past the token already consumed. Behind this token is the name of the node,
which the walk takes for a token: the first byte of a name is not zero, so that its first cell is
larger than any token, and the padding of an empty name is the token 0, which there is not either.

So the iteration stops after the first node, and is complete only in a tree of one node
(`nextNodes_iff`).
-/

namespace RvvmHal.DeviceTree

open Bytes CString Loop

/-- The iteration from `off` on returns these offsets, one after the other, and then
`UINT32_MAX`. -/
def NextNodes (fdt : Fdt) : ℕ → List ℕ → Prop
  | off, [] => fdtNextNode fdt off = some uint32Max
  | off, node :: nodes =>
    fdtNextNode fdt off = some node ∧ NextNodes fdt ((node + 4) % 2 ^ 32) nodes

section

variable {fdt : Fdt} {off : ℕ} {name : List UInt8} {ts : List Tok}

/-- **From a token on** the next node of the stream is found. -/
theorem fdtNextNode_stream (hs : StreamAt fdt off ts) :
    fdtNextNode fdt off = some (offOf (nodesFrom off ts).head?) := by
  have hlt := fdt.structSize_lt
  have hfind : (nodesFrom off ts).find? (fun _ => true) = (nodesFrom off ts).head? := by
    cases nodesFrom off ts with
    | nil => rfl
    | cons l ls => rfl
  rw [← hfind]
  apply walk_search hs
  · intro l _
    rfl
  · omega

/-- The first cell of a name is no token. -/
theorem TokAt.name_cell (h : TokAt fdt off (.beginNode name)) :
    fdtReadBe32 fdt.structBlob (off + 4) = 0 ∨ 2 ^ 24 ≤ fdtReadBe32 fdt.structBlob (off + 4) := by
  cases name with
  | nil =>
    refine .inl (fdtReadBe32_of_readBytes (by omega) ?_)
    exact h.payload
  | cons c name =>
    refine .inr ?_
    have hne : fdt.structBlob (off + 4 + 0) ≠ 0 := h.stringAt.ne_zero (by simp)
    rw [Nat.add_zero] at hne
    have hpos : 0 < (fdt.structBlob (off + 4)).toNat := by
      apply Nat.pos_of_ne_zero
      intro hzero
      exact hne (UInt8.toNat_inj.1 hzero)
    have hle : (fdt.structBlob (off + 4)).toNat <<< 24 ≤ fdtReadBe32 fdt.structBlob (off + 4) :=
      Nat.le_trans Nat.left_le_or (Nat.le_trans Nat.left_le_or Nat.left_le_or)
    rw [Nat.shiftLeft_eq] at hle
    omega

/-- **From the name of a node on** nothing is found. -/
theorem TokAt.fdtNextNode_name (h : TokAt fdt off (.beginNode name)) :
    fdtNextNode fdt ((off + 4) % 2 ^ 32) = some uint32Max := by
  have hle := h.le
  have hlt := fdt.structSize_lt
  rw [Tok.length_beginNode] at hle
  have hcell := h.name_cell
  rw [Nat.mod_eq_of_lt (by omega)]
  apply iterate_stop
  rw [nextNodeBody, walkBody, if_pos (by omega)]
  dsimp only [FDT_BEGIN_NODE, FDT_END_NODE, FDT_NOP, FDT_PROP]
  rw [if_neg (by omega), if_neg (by omega), if_neg (by omega)]

end

/-! ## Main result -/

/-- **The iteration is complete** exactly in a tree of at most one node. -/
theorem nextNodes_iff {fdt : Fdt} {t : Forest} {ts : List Tok} (h : Encodes fdt ts)
    (ht : ts.filter (· ≠ .nop) = t.tokens ++ [.fin]) :
    NextNodes fdt 0 ((nodesFrom 0 ts).map Located.off) ↔ t.nodes.length ≤ 1 := by
  have hs := h.streamAt
  have hfirst := fdtNextNode_stream hs
  have htok : ∀ l ∈ nodesFrom 0 ts, TokAt fdt l.off (.beginNode l.name) := fun l hl =>
    (nodeAt_of_mem hs hl).begins
  rw [← map_node_nodesFrom 0 ht, List.length_map]
  cases hnodes : nodesFrom 0 ts with
  | nil =>
    rw [hnodes] at hfirst
    exact iff_of_true hfirst (Nat.zero_le 1)
  | cons l ls =>
    rw [hnodes] at hfirst htok
    have hname := (htok l List.mem_cons_self).fdtNextNode_name
    cases ls with
    | nil => exact iff_of_true ⟨hfirst, hname⟩ (Nat.le_refl 1)
    | cons l' ls =>
      refine iff_of_false ?_ (by simp)
      rintro ⟨-, hnext, -⟩
      -- the offset of a node is a multiple of four, unlike `UINT32_MAX`
      have halign := (htok l' (by simp)).aligned
      have heq : l'.off = uint32Max := Option.some.inj (hnext.symm.trans hname)
      rw [heq] at halign
      exact absurd halign (by decide)

/-- A tree of one node. -/
def rootStream : List Tok := [.beginNode [], .endNode, .fin]

/-- It is iterated over. -/
theorem nextNodes_iff_root : NextNodes (blobOf rootStream [] (by decide)) 0 [0] :=
  (nextNodes_iff (t := .cons [] [] .nil .nil) (encodes_blobOf (by decide) (by decide)) rfl).2
    (Nat.le_refl 1)

/-- **A node that is missed**: the tree of a root and a memory node has nodes at the offsets 0 and
28, and the iteration ends after the first. -/
theorem nextNodes_memoryBlob : (nodesFrom 0 memoryStream).map Located.off = [0, 28] ∧
    NextNodes memoryBlob 0 [0] ∧ ¬ NextNodes memoryBlob 0 [0, 28] := by
  have hs := encodesTree_memoryBlob.streamAt
  have hfirst : fdtNextNode memoryBlob 0 = some 0 := fdtNextNode_stream hs
  have hname : fdtNextNode memoryBlob 4 = some uint32Max :=
    (nodeAt_of_mem hs (l := ⟨0, [], [(20, ⟨cstr "compatible", 0, cstr "virt" ++ [0]⟩)]⟩)
      (by decide)).begins.fdtNextNode_name
  refine ⟨by decide, ⟨hfirst, hname⟩, ?_⟩
  rintro ⟨-, hnext, -⟩
  exact absurd (hname.symm.trans hnext) (by decide)

end RvvmHal.DeviceTree
