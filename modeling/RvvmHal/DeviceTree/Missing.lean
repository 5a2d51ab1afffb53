import RvvmHal.DeviceTree.Iteration
import RvvmHal.DeviceTree.Reg

/-!
# Readers at a node that was not found

The searches return `UINT32_MAX` when there is no such node, and the examples pass the offset on to
the readers of properties without a look. `skip_name` adds 4 to it, which gives 3: the last byte of
the first cell. From there on the name is scanned for.

* When the first token is the root's, this byte is 1 and the scan goes on through the root's name.
  It ends where that of the root ends, so that the readers give the properties of the root
  (`fdtNodeProp_max_beginNode`).
* When it is an `FDT_NOP`, the scan ends at once, in the next cell. The reader goes on behind that
  cell: at the beginning of the root or of a token before it, or in the root's name, and finds
  nothing (`fdtNodeProp_max_nop`).
-/

namespace RvvmHal.DeviceTree

open Bytes CString Loop

section

variable {fdt : Fdt} {off : ℕ} {t : Tok} {name q : List UInt8} {ts rest : List Tok}

/-! ## The root first -/

/-- The scan from the end of the first cell goes through the root's name. -/
theorem nameNul_max_beginNode (h : TokAt fdt 0 (.beginNode name)) :
    nameNul fdt uint32Max = nameNul fdt 0 := by
  have hle := h.le
  have hlt := fdt.structSize_lt
  rw [Tok.length_beginNode] at hle
  have hstart : (uint32Max + 4) % 2 ^ 32 = 3 := by decide
  rw [h.nameNul, nameNul, hstart]
  refine scan_eq_some (by omega) (by omega) (fun i h₁ h₂ => decide_eq_true ?_) ?_
  · by_cases hi : i = 3
    · have hbyte := h.code_bytes.2
      rw [hi, ← Nat.zero_add 3, hbyte, Tok.code]
      decide
    · obtain ⟨j, rfl⟩ := Nat.exists_eq_add_of_le (show 0 + 4 ≤ i by omega)
      exact h.stringAt.ne_zero (by omega)
  · simp only [h.stringAt.eq_zero, ne_eq, not_true, decide_false]

/-- **With the root first**, the readers read the root. -/
theorem fdtNodeProp_max_beginNode (h : TokAt fdt 0 (.beginNode name)) (q : List UInt8) :
    fdtNodeProp fdt uint32Max q = fdtNodeProp fdt 0 q := by
  rw [fdtNodeProp, fdtNodeProp, skipName, skipName, nameNul_max_beginNode h]

/-! ## A token before the root -/

/-- The scan from the end of an `FDT_NOP` ends in the next cell. -/
theorem skipName_max_nop (h : TokAt fdt 0 .nop) (ht : TokAt fdt 4 t) :
    skipName fdt uint32Max = some 8 := by
  have hnul : nameNul fdt uint32Max = some 4 := by
    have hstart : (uint32Max + 4) % 2 ^ 32 = 3 := by decide
    rw [nameNul, hstart]
    refine scan_eq_some (by omega) (by omega) (fun i h₁ h₂ => decide_eq_true ?_) ?_
    · have hi : i = 0 + 3 := by omega
      rw [hi, h.code_bytes.2]
      decide
    · simp only [ht.code_bytes.1, ne_eq, not_true, decide_false]
  rw [skipName, hnul]
  rfl

/-- No property comes before the first node. -/
theorem ownProps_eq_nil (h : ts.filter (· ≠ .nop) = .beginNode name :: rest) :
    ownProps off ts = [] := by
  induction ts generalizing off with
  | nil => rfl
  | cons t ts ih =>
    cases t with
    | nop => exact ih h
    | prop p => cases h
    | beginNode _ => rfl
    | endNode => rfl
    | fin => rfl

/-- In the name of a node the walk over properties stops. -/
theorem TokAt.nodePropBody_name (h : TokAt fdt off (.beginNode name)) :
    nodePropBody fdt q (off + 4) = .stop none := by
  have hcell := h.name_cell
  rw [nodePropBody]
  by_cases hlt : off + 4 < fdt.structSize
  · rw [if_pos hlt]
    dsimp only [FDT_BEGIN_NODE, FDT_END_NODE, FDT_NOP, FDT_PROP, FDT_END]
    rw [if_neg (by omega), if_neg (by omega), if_neg (by omega)]
  · rw [if_neg hlt]

/-- **With an `FDT_NOP` first**, the readers find nothing. -/
theorem fdtNodeProp_max_nop (hs : StreamAt fdt 0 (.nop :: ts))
    (hts : ts.filter (· ≠ .nop) = .beginNode name :: rest) (hq : 0 ∉ q) :
    fdtNodeProp fdt uint32Max q = some none := by
  have hlt := fdt.structSize_lt
  obtain ⟨hnop, hs⟩ := hs
  cases ts with
  | nil => cases hts
  | cons t ts =>
    obtain ⟨ht, hs⟩ := hs
    rw [fdtNodeProp, skipName_max_nop hnop ht, Option.bind_some]
    cases t with
    | nop =>
      have hprops : ownProps 8 ts = [] := ownProps_eq_nil hts
      have hwalk := iterate_nodePropBody (n := 2 ^ 32 + 1) hs hq (by omega)
      exact hwalk.trans (congrArg (fun props => some (propResult q props)) hprops)
    | beginNode _ => exact iterate_stop ht.nodePropBody_name
    | prop p => cases hts
    | endNode => cases hts
    | fin => cases hts

end

/-! ## Main result -/

/-- A search for a string that no node lists fails. -/
theorem EncodesTree.fdtFindCompatible_missing {fdt : Fdt} {t : Forest} {ts : List Tok}
    (h : EncodesTree fdt t ts) {s : List UInt8} (hs : 0 ∉ s)
    (hmissing : ∀ node ∈ t.nodes, s ∉ node.compatible) :
    fdtFindCompatible fdt s = some uint32Max := by
  have hmem : ∀ l ∈ nodesFrom 0 ts, l.node ∈ t.nodes := by
    intro l hl
    rw [← map_node_nodesFrom 0 h.tokens]
    exact List.mem_map_of_mem hl
  have hnone : (nodesFrom 0 ts).find? (fun l => s ∈ l.node.compatible) = none := by
    rw [List.find?_eq_none]
    intro l hl
    simpa using hmissing l.node (hmem l hl)
  rw [fdtFindCompatible_eq h.streamAt (fun l hl => h.lists l.node (hmem l hl)) hs, hnone]
  rfl

section

variable {fdt : Fdt} {name : List UInt8} {props : List DProp} {children siblings : Forest}
  {ts : List Tok}

/-- The stream begins with an `FDT_NOP`, or with the root. -/
theorem EncodesTree.head (h : EncodesTree fdt (.cons name props children siblings) ts) :
    (∃ ts' rest, ts = .nop :: ts' ∧ ts'.filter (· ≠ .nop) = .beginNode name :: rest) ∨
      ∃ ts', ts = .beginNode name :: ts' := by
  have htokens := h.tokens
  cases ts with
  | nil => cases htokens
  | cons t ts =>
    cases t with
    | nop => exact .inl ⟨ts, _, rfl, htokens⟩
    | beginNode _ =>
      injection htokens with hname
      injection hname with hname
      exact .inr ⟨ts, by rw [hname]⟩
    | prop p => cases htokens
    | endNode => cases htokens
    | fin => cases htokens

/-- **What the readers find at `UINT32_MAX`**: nothing behind an `FDT_NOP`, and otherwise the value
of the root's property. -/
theorem EncodesTree.fdtNodeProp_max (h : EncodesTree fdt (.cons name props children siblings) ts)
    {q : List UInt8} (hq : 0 ∉ q) :
    (fdtNodeProp fdt uint32Max q = some none ∧
        (ts.head? = some .nop ∨ (⟨name, props⟩ : DNode).value q = none)) ∨
      ∃ a v, ts.head? ≠ some .nop ∧ (⟨name, props⟩ : DNode).value q = some v ∧
        fdtNodeProp fdt uint32Max q = some (some (a, v.length)) ∧
        readBytes fdt.structBlob a v.length = v ∧ v.length < 2 ^ 32 := by
  have hs := h.streamAt
  rcases h.head with ⟨ts', rest, rfl, hrest⟩ | ⟨ts', rfl⟩
  · exact .inl ⟨fdtNodeProp_max_nop hs hrest hq, .inl rfl⟩
  · have hnodes := map_node_nodesFrom 0 h.tokens
    rw [nodesFrom_beginNode, List.map_cons, Forest.nodes] at hnodes
    have hroot := (List.cons.inj hnodes).1
    have hnode := nodeAt_of_mem hs (l := ⟨0, name, _⟩) List.mem_cons_self
    rw [← hroot, fdtNodeProp_max_beginNode hs.1]
    rcases hnode.lookup hq with ⟨hvalue, hprop⟩ | ⟨a, v, hvalue, hprop, hbytes⟩
    · exact .inl ⟨hprop, .inr hvalue⟩
    · exact .inr ⟨a, v, by simp, hvalue, hprop, hbytes⟩

/-- **A reader at `UINT32_MAX`**, which gives `d` without the property: it gives `d` exactly behind an
`FDT_NOP`, or when it does for the value of the root's property. -/
theorem EncodesTree.map_fdtNodeProp_max_iff {ρ : Type*}
    (h : EncodesTree fdt (.cons name props children siblings) ts) {q : List UInt8} (hq : 0 ∉ q)
    {g : Option (ℕ × ℕ) → ρ} {d : ρ} (hnone : g none = d) {P : List UInt8 → Prop}
    (hsome : ∀ a v, readBytes fdt.structBlob a v.length = v → (g (some (a, v.length)) = d ↔ P v)) :
    (fdtNodeProp fdt uint32Max q).map g = some d ↔
      ts.head? = some .nop ∨ ∀ v, (⟨name, props⟩ : DNode).value q = some v → P v := by
  rcases h.fdtNodeProp_max hq with ⟨hprop, hcond⟩ | ⟨a, v, hnop, hvalue, hprop, hbytes, -⟩
  · rw [hprop, Option.map_some, hnone]
    refine iff_of_true rfl (hcond.imp_right fun hvalue v hv => ?_)
    rw [hvalue] at hv
    cases hv
  · rw [hprop, Option.map_some, hvalue, or_iff_right hnop, Option.some_inj, hsome a v hbytes]
    exact ⟨fun hP w hw => Option.some.inj hw ▸ hP, fun hP => hP v rfl⟩

/-- **A search that fails** gives an offset at which the readers report nothing exactly when the
block begins with an `FDT_NOP`, or when they find nothing at the root either: no such property, no
entry that passes the check of the bounds, and no interrupt but 0. -/
theorem missing_node_iff (h : EncodesTree fdt (.cons name props children siblings) ts)
    {s : List UInt8} (hs : 0 ∉ s)
    (hmissing : ∀ node ∈ (Forest.cons name props children siblings).nodes, s ∉ node.compatible) :
    fdtFindCompatible fdt s = some uint32Max ∧
    (∀ q, 0 ∉ q → (fdtNodeProp fdt uint32Max q = some none ↔
      ts.head? = some .nop ∨ (⟨name, props⟩ : DNode).value q = none)) ∧
    (∀ idx addr size,
      (fdtNodeReg64Out fdt uint32Max idx addr size = some ⟨false, addr, size, []⟩ ↔
        ts.head? = some .nop ∨ ∀ v, (⟨name, props⟩ : DNode).value (cstr "reg") = some v →
          v.length < 16 * (idx + 1) % 2 ^ 32)) ∧
    (fdtNodeInterrupt fdt uint32Max = some 0 ↔
      ts.head? = some .nop ∨ ∀ v, (⟨name, props⟩ : DNode).value (cstr "interrupts") = some v →
        v.length < 4 ∨ ofBe (v.take 4) = 0) := by
  refine ⟨h.fdtFindCompatible_missing hs hmissing, fun q hq => ?_, fun idx addr size => ?_, ?_⟩
  · have hiff := h.map_fdtNodeProp_max_iff hq (g := id) (d := none) rfl (P := fun _ => False)
      fun a v _ => iff_of_false (Option.some_ne_none _) not_false
    rw [Option.map_id_fun, id] at hiff
    rw [hiff, Option.eq_none_iff_forall_ne_some]
  · refine h.map_fdtNodeProp_max_iff (by decide) rfl fun a v _ => ?_
    have hprod : (idx + 1) % 2 ^ 32 * 16 % 2 ^ 32 = 16 * (idx + 1) % 2 ^ 32 := by omega
    dsimp only
    rw [readReg, hprod]
    by_cases hlen : v.length < 16 * (idx + 1) % 2 ^ 32
    · rw [if_pos hlen]
      exact iff_of_true rfl hlen
    · rw [if_neg hlen]
      exact iff_of_false (by simp) hlen
  · refine h.map_fdtNodeProp_max_iff (by decide) rfl fun a v hbytes => ?_
    dsimp only
    by_cases hlen : v.length < 4
    · rw [if_pos hlen]
      exact iff_of_true rfl (.inl hlen)
    · have hcell : fdtReadBe32 (fun i => fdt.structBlob (a + i)) 0 = ofBe (v.take 4) := by
        rw [fdtReadBe32_eq, readBytes_shift,
          ← take_readBytes fdt.structBlob a v.length (by omega), hbytes]
      rw [if_neg hlen, hcell, or_iff_right hlen]

end

/-- A tree with an `FDT_NOP` before its root. -/
def nopStream : List Tok := .nop :: memoryStream

def nopBlob : Fdt := blobOf nopStream (cstr "compatible" ++ [0]) (by decide)

theorem encodesTree_nopBlob : EncodesTree nopBlob memoryTree nopStream where
  toEncodes := encodes_blobOf _ (by decide)
  tokens := by decide
  lists := encodesTree_memoryBlob.lists

/-- Its root is not read in place of a node that is missing. -/
theorem missing_node_nopBlob :
    fdtNodeProp nopBlob uint32Max (cstr "compatible") = some none ∧
      fdtNodeInterrupt nopBlob uint32Max = some 0 := by
  obtain ⟨-, hprop, -, hirq⟩ := missing_node_iff encodesTree_nopBlob (s := cstr "ns16550a")
    (by decide) (by decide)
  exact ⟨(hprop _ (by decide)).2 (.inl rfl), hirq.2 (.inl rfl)⟩

/-- **The root's property, in place of a missing node's**: no node of this tree is compatible with
`ns16550a`, and the property `compatible` of the node not found is the root's. -/
theorem missing_node_found :
    fdtNodeProp memoryBlob uint32Max (cstr "compatible") = some (some (20, 5)) ∧
    ¬ ∀ (fdt : Fdt) (t : Forest) (ts : List Tok), EncodesTree fdt t ts → t ≠ .nil →
      ∀ s, 0 ∉ s → (∀ node ∈ t.nodes, s ∉ node.compatible) →
        ∃ off, fdtFindCompatible fdt s = some off ∧
          (∀ q, 0 ∉ q → fdtNodeProp fdt off q = some none) ∧
          (∀ idx < 2 ^ 32, fdtNodeReg64 fdt off idx = some none) ∧
          fdtNodeInterrupt fdt off = some 0 := by
  have hs := encodesTree_memoryBlob.streamAt
  have hprop : fdtNodeProp memoryBlob uint32Max (cstr "compatible") = some (some (20, 5)) := by
    have hnode := nodeAt_of_mem hs
      (l := ⟨0, [], [(20, ⟨cstr "compatible", 0, cstr "virt" ++ [0]⟩)]⟩) (by decide)
    rw [fdtNodeProp_max_beginNode hnode.begins]
    exact (hnode.fdtNodeProp (by decide)).trans (by decide)
  refine ⟨hprop, fun h => ?_⟩
  obtain ⟨off, hoff, hnone, -, -⟩ := h _ _ _ encodesTree_memoryBlob nofun (cstr "ns16550a")
    (by decide) (by decide)
  rw [encodesTree_memoryBlob.fdtFindCompatible_missing (by decide) (by decide)] at hoff
  cases hoff
  exact absurd (hprop.symm.trans (hnone _ (by decide))) nofun

end RvvmHal.DeviceTree
