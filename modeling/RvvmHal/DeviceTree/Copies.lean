import RvvmHal.DeviceTree.Lookup

/-!
# The copies of the token walk

`virtio_find_fdt` and `count_cpu_nodes` walk the structure block with loops of their own: their own
step over a name, and their own comparison with a string. On a blob that encodes a device tree each
of them is a fold over the tree's nodes in document order, and so is `fdt_find_compatible`. `Serves`
says what the search for a device does with the nodes, one after the other; `nodeRounds` are the
offsets at which a walk is at the beginning of a node. The main result is `copies_agree`.
-/

namespace RvvmHal.DeviceTree

open Bytes CString Loop

variable {fdt : Fdt} {off : ℕ} {name : List UInt8}

/-! ## What the tree says about a node -/

/-- The address in the first property `reg` of a node, with two cells for the address and two for
the size. -/
def DNode.regAddr (node : DNode) : Option ℕ :=
  match node.props.find? fun p => p.name = cstr "reg" with
  | some p => if 16 ≤ p.value.length then some (ofBe (p.value.take 8)) else none
  | none => none

/-- The address of a `virtio,mmio` node. -/
def DNode.virtioBase (node : DNode) : Option ℕ :=
  if cstr "virtio,mmio" ∈ node.compatible then node.regAddr else none

/-- The first property `device_type` of the node is `cpu`. -/
def DNode.isCpu (node : DNode) : Bool :=
  match node.props.find? fun p => p.name = cstr "device_type" with
  | some p => p.value.takeWhile (· ≠ 0) = cstr "cpu"
  | none => false

/-! ## The step over a name in `virtio_find_fdt` -/

theorem TokAt.virtioNul (h : TokAt fdt off (.beginNode name)) :
    virtioNul fdt off = some (off + 4 + name.length) := by
  have hle := h.le
  have hlt := fdt.structSize_lt
  rw [Tok.length_beginNode] at hle
  have hs := h.stringAt
  rw [DeviceTree.virtioNul, Nat.mod_eq_of_lt (by omega)]
  refine scan_eq_some (by omega) (by omega) (fun i h₁ h₂ => ?_) ?_
  · obtain ⟨j, rfl⟩ := Nat.exists_eq_add_of_le h₁
    exact decide_eq_true ⟨by omega, hs.ne_zero (by omega)⟩
  · exact decide_eq_false fun h => h.2 hs.eq_zero

/-- The step of `virtio_find_fdt` leads where `skip_name` leads. -/
theorem TokAt.virtioSkip (h : TokAt fdt off (.beginNode name)) :
    virtioSkip fdt off = some (off + (Tok.beginNode name).enc.length) := by
  have hle := h.le
  have hlt := fdt.structSize_lt
  have halign := h.aligned
  rw [Tok.length_beginNode] at hle ⊢
  rw [DeviceTree.virtioSkip, h.virtioNul, Option.map_some, Word.and_not3 (Nat.mod_lt _ (by omega))]
  congr 1
  omega

/-! ## The comparison in `virtio_find_fdt` -/

/-- The comparison of a string with a constant, byte by byte and then with the NUL, decides
equality. -/
theorem zipIdx_all_eq {m : Mem} {cp p : ℕ} {s q : List UInt8} (hs : StringAt m (cp + p) s)
    (hq : 0 ∉ q) (hlt : p + s.length < 2 ^ 32) :
    ((q.zipIdx.all fun ck => m (cp + (p + ck.2) % 2 ^ 32) == ck.1) &&
      m (cp + (p + q.length) % 2 ^ 32) == 0) = decide (s = q) := by
  have hread : ∀ i, i ≤ s.length → m (cp + (p + i) % 2 ^ 32) = m (cp + p + i) := fun i hi => by
    rw [Nat.mod_eq_of_lt (by omega), Nat.add_assoc]
  rw [Bool.eq_iff_iff, Bool.and_eq_true, List.all_eq_true, decide_eq_true_iff, beq_iff_eq]
  constructor
  · rintro ⟨hall, hnul⟩
    have heq : ∀ i (hi : i < q.length), m (cp + (p + i) % 2 ^ 32) = q[i] := fun i hi => by
      have hmem := hall (q[i], i) (List.mem_zipIdx_iff_getElem?.2 (List.getElem?_eq_getElem hi))
      exact beq_iff_eq.1 hmem
    have hle : q.length ≤ s.length := by
      by_contra hlen
      have hzero := heq s.length (by omega)
      rw [hread _ (Nat.le_refl _), hs.eq_zero] at hzero
      exact hq (hzero ▸ List.getElem_mem _)
    have hge : s.length ≤ q.length := by
      by_contra hlen
      rw [hread _ hle] at hnul
      exact hs.ne_zero (by omega) hnul
    refine List.ext_getElem (Nat.le_antisymm hge hle) fun i h₁ h₂ => ?_
    rw [← hs.getElem h₁, ← heq i h₂, hread i h₁.le]
  · rintro rfl
    refine ⟨fun ck hck => ?_, ?_⟩
    · obtain ⟨hi, hget⟩ := List.getElem?_eq_some_iff.1 (List.mem_zipIdx_iff_getElem?.1 hck)
      rw [hread _ hi.le, hs.getElem hi, hget]
      exact beq_self_eq_true _
    · rw [hread _ (Nat.le_refl _), hs.eq_zero]

theorem needleEq_eq {cp p : ℕ} {s : List UInt8} (hs : StringAt fdt.structBlob (cp + p) s)
    (hlt : p + s.length < 2 ^ 32) :
    needleEq fdt cp p = decide (s = cstr "virtio,mmio") :=
  zipIdx_all_eq hs (by decide) hlt

/-- The search for a device recognises the nodes that `fdt_find_compatible` does. -/
theorem NodeAt.isVirtio {l : Located} (h : NodeAt fdt l)
    (hlist : ∀ p ∈ l.node.props, p.name = cstr "compatible" → IsStringList p.value) :
    isVirtio fdt l.off = some (decide (cstr "virtio,mmio" ∈ l.node.compatible)) :=
  h.listHas hlist fun _ _ _ hpos hs => needleEq_eq hs hpos

/-! ## The properties that the copies read -/

/-- The lookup of a register range gives the address in the tree. -/
theorem NodeAt.regAddr {l : Located} (h : NodeAt fdt l) :
    ∃ r, fdtNodeReg64 fdt l.off 0 = some r ∧ r.map Prod.fst = l.node.regAddr := by
  rw [fdtNodeReg64, h.fdtNodeProp (by decide), Option.map_some, DNode.regAddr, find_node_props,
    propResult]
  cases hfind : l.props.find? fun q => q.2.name = cstr "reg" with
  | none => exact ⟨none, rfl, rfl⟩
  | some q =>
    obtain ⟨hvalue, -⟩ := h.value (List.mem_of_find?_eq_some hfind)
    refine ⟨_, rfl, ?_⟩
    simp only [Option.map_some, Nat.zero_mul, Nat.zero_mod]
    by_cases hlen : 16 ≤ q.2.value.length
    · rw [if_neg (by omega), if_pos hlen, Option.map_some, fdtReadBe64_eq _ (by omega),
        ← hvalue, take_readBytes _ _ _ (by omega), readBytes_shift]
    · rw [if_pos (by omega), if_neg hlen, Option.map_none]

/-! ## The string at a property's value -/

/-- A property's value, when the byte after its padding is zero. -/
theorem TokAt.stringAt_value {p : DProp} (h : TokAt fdt off (.prop p))
    (hnext : fdt.structBlob (off + (Tok.prop p).enc.length) = 0) :
    StringAt fdt.structBlob (off + 12) (p.value.takeWhile (· ≠ 0)) := by
  have hbytes := h.propPayload.2.2
  have hoff : off + 12 + (padTo4 p.value).length = off + (Tok.prop p).enc.length := by
    rw [length_padTo4, Tok.length_prop, Nat.add_assoc]
  have hpad : padTo4 p.value ++ [0] =
      p.value ++ List.replicate ((4 - p.value.length % 4) % 4 + 1) 0 := by
    rw [padTo4, List.append_assoc, List.replicate_succ']
  have hzero : (0 : UInt8) ∈ padTo4 p.value ++ [0] := by simp
  have hstring := stringAt_takeWhile (m := fdt.structBlob) (a := off + 12) hzero (by
    rw [List.length_append, readBytes_add, hbytes, hoff, List.length_singleton, readBytes_succ,
      hnext]
    rfl)
  rwa [hpad, takeWhile_append_zeros] at hstring

/-- A property's value is a string up to its first NUL, which is at the latest the byte after its
padding. -/
theorem stringAt_of_mem_ownProps {ts : List Tok} (hs : StreamAt fdt off ts) (hfin : .fin ∈ ts)
    {q : ℕ × DProp} (hq : q ∈ ownProps off ts) :
    StringAt fdt.structBlob q.1 (q.2.value.takeWhile (· ≠ 0)) := by
  induction ts generalizing off with
  | nil => cases hq
  | cons t ts ih =>
    obtain ⟨ht, hs⟩ := hs
    cases t with
    | nop => exact ih hs (by simpa using hfin) hq
    | prop p =>
      have hfin' : .fin ∈ ts := by simpa using hfin
      rw [ownProps] at hq
      rcases List.mem_cons.1 hq with rfl | hq
      · cases ts with
        | nil => cases hfin'
        | cons t' ts => exact ht.stringAt_value hs.1.code_bytes.1
      · exact ih hs hfin' hq
    | beginNode _ => cases hq
    | endNode => cases hq
    | fin => cases hq

theorem stringAt_of_mem_nodesFrom {ts : List Tok} (hs : StreamAt fdt off ts) (hfin : .fin ∈ ts)
    {l : Located} (hl : l ∈ nodesFrom off ts) {q : ℕ × DProp} (hq : q ∈ l.props) :
    StringAt fdt.structBlob q.1 (q.2.value.takeWhile (· ≠ 0)) := by
  induction ts generalizing off with
  | nil => cases hl
  | cons t ts ih =>
    obtain ⟨ht, hs⟩ := hs
    cases t with
    | beginNode name =>
      have hfin' : .fin ∈ ts := by simpa using hfin
      rw [nodesFrom_beginNode] at hl
      rcases List.mem_cons.1 hl with rfl | hl
      · exact stringAt_of_mem_ownProps hs hfin' hq
      · exact ih hs hfin' hl
    | prop p => exact ih hs (by simpa using hfin) hl
    | endNode => exact ih hs (by simpa using hfin) hl
    | nop => exact ih hs (by simpa using hfin) hl
    | fin => cases hl

/-! ## Counting the harts -/

/-- What `count_cpu_nodes` does at a node. -/
def countCpu (l : Located) (count : ℕ) : ℕ ⊕ ℕ :=
  .inl (if l.node.isCpu then (count + 1) % 2 ^ 32 else count)

theorem NodeAt.countCpuNodesBegin {l : Located} (h : NodeAt fdt l)
    (hstring : ∀ q ∈ l.props, StringAt fdt.structBlob q.1 (q.2.value.takeWhile (· ≠ 0)))
    (count : ℕ) : countCpuNodesBegin fdt l.off count = atNode l (countCpu l count) := by
  have hgo : ∀ c, (goOn (nameEnd fdt l.off) c : Iter (ℕ × ℕ) ℕ) = atNode l (.inl c) := goOn_skipName h
  rw [DeviceTree.countCpuNodesBegin, h.fdtNodeProp (by decide), countCpu, DNode.isCpu,
    find_node_props, propResult]
  cases hfind : l.props.find? fun q => q.2.name = cstr "device_type" with
  | none => exact hgo count
  | some q =>
    have heq := strEq_eq (q := cstr "cpu") (hstring q (List.mem_of_find?_eq_some hfind)) (by decide)
    simp only [Option.map_some, heq, hgo]
    split <;> rfl

theorem foldNodes_countCpu (ls : List Located) (count : ℕ) (h : count + ls.length < 2 ^ 32) :
    foldNodes countCpu id ls count = count + (ls.map Located.node).countP DNode.isCpu ∧
      seenNodes countCpu ls count = ls.map Located.off := by
  induction ls generalizing count with
  | nil => exact ⟨rfl, rfl⟩
  | cons l ls ih =>
    rw [List.length_cons] at h
    rw [foldNodes, seenNodes, countCpu, List.map_cons, List.map_cons, List.countP_cons]
    cases hcpu : l.node.isCpu with
    | true =>
      obtain ⟨hfold, hseen⟩ := ih (count + 1) (by omega)
      simp only [if_true, Nat.mod_eq_of_lt (show count + 1 < 2 ^ 32 by omega)]
      exact ⟨by rw [hfold]; omega, by rw [hseen]⟩
    | false =>
      obtain ⟨hfold, hseen⟩ := ih count (by omega)
      exact ⟨hfold, by rw [← hseen]; rfl⟩

/-- A block of less than `2 ^ 32` bytes has fewer nodes. -/
theorem length_nodesFrom_le {ts : List Tok} (hs : StreamAt fdt off ts) :
    off + 4 * (nodesFrom off ts).length ≤ fdt.structSize := by
  induction ts generalizing off with
  | nil =>
    have hoff : off = fdt.structSize := hs
    exact hoff.le
  | cons t ts ih =>
    have hlt := hs.1.off_lt
    have hlen := t.length_enc
    have hrest := ih hs.2
    cases t with
    | beginNode name =>
      rw [nodesFrom_beginNode, List.length_cons]
      omega
    | prop p => exact (Nat.add_le_add_right (Nat.le_add_right ..) _).trans hrest
    | endNode => exact (Nat.add_le_add_right (Nat.le_add_right ..) _).trans hrest
    | nop => exact (Nat.add_le_add_right (Nat.le_add_right ..) _).trans hrest
    | fin => exact hlt.le

theorem countCpuNodes_eq {ts : List Tok} (hs : StreamAt fdt 0 ts) (hfin : .fin ∈ ts) :
    countCpuNodes fdt = some (((nodesFrom 0 ts).map Located.node).countP DNode.isCpu) ∧
      nodeRounds fdt (countCpuNodesBody fdt) (2 ^ 32 + 1) (0, 0) =
        (nodesFrom 0 ts).map Located.off := by
  have hlt := fdt.structSize_lt
  have hlen := length_nodesFrom_le hs
  obtain ⟨hfold, hseen⟩ := walk_fold id countCpu 0 hs
    (fun l hl => (nodeAt_of_mem hs hl).countCpuNodesBegin
      fun q hq => stringAt_of_mem_nodesFrom hs hfin hl hq)
    (show fdt.structSize - 0 < 2 ^ 32 + 1 by omega)
  obtain ⟨hcount, hoffs⟩ := foldNodes_countCpu (nodesFrom 0 ts) 0 (by omega)
  rw [hcount, Nat.zero_add] at hfold
  exact ⟨hfold, hseen.trans hoffs⟩

/-! ## The search by a string -/

/-- A list up to its first element with the property, and with this element. -/
def upTo {α : Type*} (P : α → Bool) : List α → List α
  | [] => []
  | x :: xs => x :: if P x then [] else upTo P xs

theorem upTo_prefix_self {α : Type*} (P : α → Bool) (xs : List α) : upTo P xs <+: xs := by
  induction xs with
  | nil => exact List.prefix_refl []
  | cons x xs ih =>
    rw [upTo, List.prefix_cons_inj]
    split
    · exact List.nil_prefix
    · exact ih

theorem upTo_eq_self {α : Type*} {P : α → Bool} {xs : List α} (h : ∀ x ∈ xs, P x = false) :
    upTo P xs = xs := by
  induction xs with
  | nil => rfl
  | cons x xs ih =>
    rw [List.forall_mem_cons] at h
    rw [upTo, if_neg (by rw [h.1]; nofun), ih h.2]

theorem seenNodes_findNode (P : Located → Bool) (ls : List Located) :
    seenNodes (findNode P) ls () = (upTo P ls).map Located.off := by
  induction ls with
  | nil => rfl
  | cons l ls ih =>
    rw [seenNodes, upTo, List.map_cons, findNode]
    cases P l with
    | true => rfl
    | false => exact congrArg (l.off :: ·) ih

theorem nodeRounds_findCompatible {ts : List Tok} {s : List UInt8} (hs : StreamAt fdt 0 ts)
    (hlist : ∀ l ∈ nodesFrom 0 ts, ∀ p ∈ l.node.props, p.name = cstr "compatible" →
      IsStringList p.value) (hnul : 0 ∉ s) :
    nodeRounds fdt (findCompatibleBody fdt s) (2 ^ 32 + 1) (0, ()) =
      (upTo (fun l => s ∈ l.node.compatible) (nodesFrom 0 ts)).map Located.off := by
  have hlt := fdt.structSize_lt
  rw [← seenNodes_findNode]
  exact (walk_fold _ _ _ hs
    (fun l hl _ => (nodeAt_of_mem hs hl).findCompatibleBegin (hlist l hl) hnul) (by omega)).2

/-! ## The search for a device -/

section

variable {ω : Type*} (mmioR32 : ℕ → ω → ℕ × ω) (cb : ℕ → ℕ → ω → Bool × ω)

/-- What the search does with nodes, one after the other: which offsets it comes to, which pairs of
an address and a device id the callback gets, what the search returns, and what becomes of the
surroundings. -/
inductive Serves : List Located → ω → List ℕ → List (ℕ × ℕ) → ℕ → ω → Prop
  /-- No node is left: the search returns 0. -/
  | none (w : ω) : Serves [] w [] [] 0 w
  /-- The node is no `virtio,mmio` node, or has no address. -/
  | skip {l ls w seen calls r w'} : l.node.virtioBase = Option.none →
      Serves ls w seen calls r w' → Serves (l :: ls) w (l.off :: seen) calls r w'
  /-- The probe finds no device. -/
  | absent {l ls w base w₁ seen calls r w'} : l.node.virtioBase = some base →
      virtioProbe mmioR32 base w = (0, w₁) → Serves ls w₁ seen calls r w' →
      Serves (l :: ls) w (l.off :: seen) calls r w'
  /-- The callback refuses the device. -/
  | refused {l ls w base id w₁ w₂ seen calls r w'} : l.node.virtioBase = some base →
      virtioProbe mmioR32 base w = (id, w₁) → id ≠ 0 → cb base id w₁ = (false, w₂) →
      Serves ls w₂ seen calls r w' →
      Serves (l :: ls) w (l.off :: seen) ((base, id) :: calls) r w'
  /-- The callback accepts the device: the search returns its address. -/
  | accepted {l ls w base id w₁ w'} : l.node.virtioBase = some base →
      virtioProbe mmioR32 base w = (id, w₁) → id ≠ 0 → cb base id w₁ = (true, w') →
      Serves (l :: ls) w [l.off] [(base, id)] base w'

/-- What `virtio_find_fdt` does at a node. -/
def serve (l : Located) (w : ω) : ω ⊕ (ℕ × ω) :=
  match l.node.virtioBase with
  | none => .inl w
  | some base =>
    let (id, w) := virtioProbe mmioR32 base w
    if id ≠ 0 then
      let (found, w) := cb base id w
      if found then .inr (base, w) else .inl w
    else .inl w

/-- The register reads, with a log of the callback's calls beside the surroundings. -/
def loggedRead (a : ℕ) (s : ω × List (ℕ × ℕ)) : ℕ × (ω × List (ℕ × ℕ)) :=
  ((mmioR32 a s.1).1, (mmioR32 a s.1).2, s.2)

/-- The callback, with a log of its calls. -/
def loggedCb (base id : ℕ) (s : ω × List (ℕ × ℕ)) : Bool × (ω × List (ℕ × ℕ)) :=
  ((cb base id s.1).1, (cb base id s.1).2, s.2 ++ [(base, id)])

variable {mmioR32} {cb}

/-- The search comes to the nodes from the first on, and to all of them unless the callback accepts
one. -/
theorem Serves.seen_prefix {ls : List Located} {w w' : ω} {seen : List ℕ} {calls : List (ℕ × ℕ)}
    {r : ℕ} (h : Serves mmioR32 cb ls w seen calls r w') : seen <+: ls.map Located.off := by
  induction h with
  | none _ => exact List.nil_prefix
  | skip _ _ ih => exact List.prefix_cons_inj _ |>.2 ih
  | absent _ _ _ ih => exact List.prefix_cons_inj _ |>.2 ih
  | refused _ _ _ _ _ ih => exact List.prefix_cons_inj _ |>.2 ih
  | accepted _ _ _ _ => exact List.prefix_cons_inj _ |>.2 List.nil_prefix

theorem NodeAt.virtioFindFdtBegin {l : Located} (h : NodeAt fdt l)
    (hlist : ∀ p ∈ l.node.props, p.name = cstr "compatible" → IsStringList p.value) (w : ω) :
    virtioFindFdtBegin fdt mmioR32 cb l.off w = atNode l (serve mmioR32 cb l w) := by
  have hgo : ∀ w, (goOn (virtioSkip fdt l.off) w : Iter (ℕ × ω) (ℕ × ω)) = atNode l (.inl w) :=
    fun w => by
      rw [h.begins.virtioSkip]
      rfl
  obtain ⟨r, hreg, haddr⟩ := h.regAddr
  rw [DeviceTree.virtioFindFdtBegin, h.isVirtio hlist, serve, DNode.virtioBase, hreg, ← haddr]
  by_cases hmem : cstr "virtio,mmio" ∈ l.node.compatible
  · rw [if_pos hmem, decide_eq_true hmem]
    cases r with
    | none => exact hgo w
    | some at' =>
      simp only [Option.map_some, hgo]
      split
      · split
        · rfl
        · rfl
      · rfl
  · rw [if_neg hmem, decide_eq_false hmem]
    exact hgo w

theorem virtioProbe_logged (base : ℕ) (w : ω) (log : List (ℕ × ℕ)) :
    virtioProbe (loggedRead mmioR32) base (w, log) =
      ((virtioProbe mmioR32 base w).1, (virtioProbe mmioR32 base w).2, log) := by
  by_cases h₁ : (mmioR32 ((base + 0x000) % 2 ^ 64) w).1 = 0x74726976
  · by_cases h₂ : (mmioR32 ((base + 0x004) % 2 ^ 64)
        (mmioR32 ((base + 0x000) % 2 ^ 64) w).2).1 = 2
    · simp only [virtioProbe, loggedRead, ne_eq, h₁, h₂, not_true, if_false]
    · simp only [virtioProbe, loggedRead, ne_eq, h₁, h₂, not_true, not_false_eq_true, if_false,
        if_true]
  · simp only [virtioProbe, loggedRead, ne_eq, h₁, not_false_eq_true, if_true]

theorem serve_of_none {l : Located} (h : l.node.virtioBase = none) (w : ω) :
    serve mmioR32 cb l w = .inl w := by rw [serve, h]

theorem serve_of_some {l : Located} {base id : ℕ} {w w₁ : ω} (h : l.node.virtioBase = some base)
    (hprobe : virtioProbe mmioR32 base w = (id, w₁)) :
    serve mmioR32 cb l w =
      if id ≠ 0 then
        if (cb base id w₁).1 then .inr (base, (cb base id w₁).2) else .inl (cb base id w₁).2
      else .inl w₁ := by
  rw [serve, h]
  simp only [hprobe]

/-- **The search for a device serves the nodes**, with the calls in the log. -/
theorem exists_serves (mmioR32 : ℕ → ω → ℕ × ω) (cb : ℕ → ℕ → ω → Bool × ω) (ls : List Located)
    (w : ω) (log : List (ℕ × ℕ)) :
    ∃ seen calls r w', Serves mmioR32 cb ls w seen calls r w' ∧
      foldNodes (serve (loggedRead mmioR32) (loggedCb cb)) (fun s => (0, s)) ls (w, log) =
        (r, w', log ++ calls) ∧
      foldNodes (serve mmioR32 cb) (fun w => (0, w)) ls w = (r, w') ∧
      seenNodes (serve mmioR32 cb) ls w = seen := by
  induction ls generalizing w log with
  | nil => exact ⟨_, _, _, _, .none w, by rw [foldNodes, List.append_nil], rfl, rfl⟩
  | cons l ls ih =>
    simp only [foldNodes, seenNodes]
    cases hbase : l.node.virtioBase with
    | none =>
      obtain ⟨seen, calls, r, w', hserves, hlog, hfold, hseen⟩ := ih w log
      refine ⟨_, _, _, _, .skip hbase hserves, ?_⟩
      rw [serve_of_none hbase, serve_of_none hbase]
      exact ⟨hlog, hfold, congrArg (l.off :: ·) hseen⟩
    | some base =>
      obtain ⟨id, w₁, hprobe⟩ : ∃ id w₁, virtioProbe mmioR32 base w = (id, w₁) := ⟨_, _, rfl⟩
      have hprobe' : virtioProbe (loggedRead mmioR32) base (w, log) = (id, w₁, log) := by
        rw [virtioProbe_logged, hprobe]
      rw [serve_of_some hbase hprobe, serve_of_some hbase hprobe']
      by_cases hid : id = 0
      · subst hid
        obtain ⟨seen, calls, r, w', hserves, hlog, hfold, hseen⟩ := ih w₁ log
        exact ⟨_, _, _, _, .absent hbase hprobe hserves, hlog, hfold,
          congrArg (l.off :: ·) hseen⟩
      · rw [if_pos hid, if_pos hid, loggedCb]
        obtain ⟨found, w₂, hcb⟩ : ∃ found w₂, cb base id w₁ = (found, w₂) := ⟨_, _, rfl⟩
        rw [hcb]
        cases found with
        | true => exact ⟨_, _, _, _, .accepted hbase hprobe hid hcb, rfl, rfl, rfl⟩
        | false =>
          obtain ⟨seen, calls, r, w', hserves, hlog, hfold, hseen⟩ := ih w₂ (log ++ [(base, id)])
          rw [List.append_assoc, List.singleton_append] at hlog
          exact ⟨_, _, _, _, .refused hbase hprobe hid hcb hserves, hlog, hfold,
            congrArg (l.off :: ·) hseen⟩

end

/-! ## Main result -/

/-- **The copies of the walk agree** with `fdt_find_compatible`. In a blob that encodes a device
tree, whose nodes in document order are those of `nodesFrom`:

* `virtio_find_fdt` serves the nodes in this order, with the calls of the callback that the log
  records, and returns what `Serves` says;
* `count_cpu_nodes` returns the number of nodes whose own `device_type` is `cpu`;
* the walk of `count_cpu_nodes` is at all the nodes, the two others at the nodes up to the one at
  which they stop. -/
theorem copies_agree {ω : Type*} {t : Forest} {ts : List Tok} (h : EncodesTree fdt t ts)
    (mmioR32 : ℕ → ω → ℕ × ω) (cb : ℕ → ℕ → ω → Bool × ω) (w : ω) :
    (nodesFrom 0 ts).map Located.node = t.nodes ∧
    (∃ seen calls r w', Serves mmioR32 cb (nodesFrom 0 ts) w seen calls r w' ∧
      virtioFindFdt fdt (loggedRead mmioR32) (loggedCb cb) (w, []) = some (r, w', calls) ∧
      virtioFindFdt fdt mmioR32 cb w = some (r, w') ∧
      nodeRounds fdt (virtioFindFdtBody fdt mmioR32 cb) (2 ^ 32 + 1) (0, w) = seen ∧
      seen <+: (nodesFrom 0 ts).map Located.off) ∧
    countCpuNodes fdt = some (t.nodes.countP DNode.isCpu) ∧
    nodeRounds fdt (countCpuNodesBody fdt) (2 ^ 32 + 1) (0, 0) =
      (nodesFrom 0 ts).map Located.off ∧
    ∀ s, 0 ∉ s →
      nodeRounds fdt (findCompatibleBody fdt s) (2 ^ 32 + 1) (0, ()) =
        (upTo (fun l => s ∈ l.node.compatible) (nodesFrom 0 ts)).map Located.off ∧
      (upTo (fun l => s ∈ l.node.compatible) (nodesFrom 0 ts)).map Located.off <+:
        (nodesFrom 0 ts).map Located.off ∧
      ((∀ node ∈ t.nodes, s ∉ node.compatible) →
        nodeRounds fdt (findCompatibleBody fdt s) (2 ^ 32 + 1) (0, ()) =
          (nodesFrom 0 ts).map Located.off) := by
  have hs := h.streamAt
  have hlt := fdt.structSize_lt
  have hnodes := map_node_nodesFrom 0 h.tokens
  have hlists : ∀ l ∈ nodesFrom 0 ts, ∀ p ∈ l.node.props, p.name = cstr "compatible" →
      IsStringList p.value := fun l hl => h.lists _ (hnodes ▸ List.mem_map_of_mem hl)
  have hfin : .fin ∈ ts := by
    have hmem : Tok.fin ∈ ts.filter (· ≠ .nop) := by
      rw [h.tokens]
      exact List.mem_append_right _ (List.mem_singleton_self _)
    exact (List.mem_filter.1 hmem).1
  obtain ⟨hcount, hrounds⟩ := countCpuNodes_eq hs hfin
  refine ⟨hnodes, ?_, hnodes ▸ hcount, hrounds, fun s hnul => ?_⟩
  · obtain ⟨seen, calls, r, w', hserves, hlog, hfold, hseen⟩ :=
      exists_serves mmioR32 cb (nodesFrom 0 ts) w []
    have hlogged := walk_fold (fun s => (0, s)) (serve (loggedRead mmioR32) (loggedCb cb))
      (w, ([] : List (ℕ × ℕ))) hs
      (fun l hl a => (nodeAt_of_mem hs hl).virtioFindFdtBegin (hlists l hl) a)
      (show fdt.structSize - 0 < 2 ^ 32 + 1 by omega)
    have hplain := walk_fold (fun w => (0, w)) (serve mmioR32 cb) w hs
      (fun l hl a => (nodeAt_of_mem hs hl).virtioFindFdtBegin (hlists l hl) a)
      (show fdt.structSize - 0 < 2 ^ 32 + 1 by omega)
    rw [hlog] at hlogged
    rw [hfold, hseen] at hplain
    exact ⟨seen, calls, r, w', hserves, hlogged.1, hplain.1, hplain.2, hserves.seen_prefix⟩
  · refine ⟨nodeRounds_findCompatible hs hlists hnul, (upTo_prefix_self _ _).map _, fun hnone => ?_⟩
    rw [nodeRounds_findCompatible hs hlists hnul, upTo_eq_self fun l hl => decide_eq_false ?_]
    exact hnone _ (hnodes ▸ List.mem_map_of_mem hl)

/-- A root with a hart and a device. -/
def virtioTree : Forest :=
  .cons [] []
    (.cons (cstr "cpu@0") [⟨cstr "device_type", 0, cstr "cpu" ++ [0]⟩] .nil
      (.cons (cstr "virtio@10001000")
        [⟨cstr "compatible", 12, cstr "virtio,mmio" ++ [0]⟩,
          ⟨cstr "reg", 23, beBytes 8 0x10001000 ++ beBytes 8 0x1000⟩] .nil .nil)) .nil

def virtioStream : List Tok := virtioTree.tokens ++ [.fin]

set_option maxRecDepth 4000 in
def virtioBlob : Fdt :=
  blobOf virtioStream (joinStrings [cstr "device_type", cstr "compatible", cstr "reg"]) (by decide)

set_option maxRecDepth 4000 in
theorem encodesTree_virtioBlob : EncodesTree virtioBlob virtioTree virtioStream where
  toEncodes := encodes_blobOf _ (by decide)
  tokens := by decide
  lists := by
    intro node hnode p hp hname
    refine ⟨[cstr "virtio,mmio"], by decide, ?_⟩
    revert node p
    decide

/-- The hart is counted, and a device whose registers all read zero is not found. -/
theorem copies_agree_virtioBlob :
    countCpuNodes virtioBlob = some 1 ∧
      nodeRounds virtioBlob (countCpuNodesBody virtioBlob) (2 ^ 32 + 1) (0, 0) = [0, 8, 40] ∧
      ∃ seen calls r, Serves (fun _ w => (0, w)) (fun _ _ w => (true, w)) (nodesFrom 0 virtioStream)
        () seen calls r () ∧
        virtioFindFdt virtioBlob (fun _ w => (0, w)) (fun _ _ w => (true, w)) () = some (r, ()) := by
  obtain ⟨-, ⟨seen, calls, r, w', hserves, -, hfind, -⟩, hcount, hrounds, -⟩ :=
    copies_agree encodesTree_virtioBlob (fun _ w => (0, w)) (fun _ _ w => (true, w)) ()
  refine ⟨hcount.trans ?_, hrounds.trans ?_, seen, calls, r, hserves, hfind⟩
  · decide
  · decide

end RvvmHal.DeviceTree
