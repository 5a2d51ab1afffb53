import RvvmHal.DeviceTree.Tree
import RvvmHal.DeviceTree.Walk

/-!
# Lookups in an encoded tree

What the walks of the structure block find in a blob that encodes a device tree. The rounds of the
loops are read at a token in its place (`nodePropBody_prop`, `walkBody_prop`, …), and an induction
on the stream gives the result of a whole walk: `NodeAt.fdtNodeProp` for the properties of one node,
`walk_search` for a search over the nodes. The main result is `lookup_correct`.
-/

namespace RvvmHal.DeviceTree

open Bytes CString Loop

variable {fdt : Fdt} {off : ℕ} {name : List UInt8}

/-! ## The properties of one node -/

theorem nodePropBody_nop (h : TokAt fdt off .nop) :
    nodePropBody fdt name off = .next (off + 4) := by
  rw [nodePropBody, if_pos h.off_lt, h.code, h.next rfl]
  rfl

theorem nodePropBody_prop {p : DProp} (h : TokAt fdt off (.prop p)) (hname : 0 ∉ name) :
    nodePropBody fdt name off =
      if p.name = name then .stop (some (off + 12, p.value.length))
      else .next (off + (Tok.prop p).enc.length) := by
  obtain ⟨hlen, hnameoff, -⟩ := h.cells
  have hle := h.le
  have hlt := fdt.structSize_lt
  have heq : strEq fdt.strings p.nameoff name = decide (p.name = name) := strEq_eq h.named.2 hname
  have hnext : (off + (12 + padded p.value.length)) % 2 ^ 32 = off + (Tok.prop p).enc.length := by
    rw [h.padded, Nat.mod_eq_of_lt (by omega)]
  rw [nodePropBody, if_pos h.off_lt, h.code, hlen, hnameoff, ← hnext]
  by_cases hp : p.name = name
  · rw [if_pos hp]
    exact if_pos (heq.trans (decide_eq_true hp))
  · rw [if_neg hp]
    exact if_neg (Bool.eq_false_iff.1 (heq.trans (decide_eq_false hp)))

/-- At another node, and at an end, the walk over a node's properties stops. -/
theorem nodePropBody_stop {t : Tok} (h : TokAt fdt off t) (hprop : ∀ p, t ≠ .prop p)
    (hnop : t ≠ .nop) : nodePropBody fdt name off = .stop none := by
  rw [nodePropBody, if_pos h.off_lt, h.code]
  cases t with
  | beginNode _ => rfl
  | prop p => exact absurd rfl (hprop p)
  | endNode => rfl
  | nop => exact absurd rfl hnop
  | fin => rfl

/-- What the lookup of a property returns, for the properties of the node. -/
def propResult (name : List UInt8) (props : List (ℕ × DProp)) : Option (ℕ × ℕ) :=
  (props.find? fun q => q.2.name = name).map fun q => (q.1, q.2.value.length)

theorem propResult_cons (name : List UInt8) (q : ℕ × DProp) (props : List (ℕ × DProp)) :
    propResult name (q :: props) =
      if q.2.name = name then some (q.1, q.2.value.length) else propResult name props := by
  unfold propResult
  rw [List.find?_cons]
  by_cases hq : q.2.name = name
  · rw [if_pos hq, decide_eq_true hq]
    rfl
  · rw [if_neg hq, decide_eq_false hq]

/-- The walk over a node's properties, from anywhere in them. -/
theorem iterate_nodePropBody {ts : List Tok} {n : ℕ} (hs : StreamAt fdt off ts) (hname : 0 ∉ name)
    (hn : fdt.structSize - off < n) :
    iterate (nodePropBody fdt name) n off = some (propResult name (ownProps off ts)) := by
  induction ts generalizing off n with
  | nil =>
    obtain ⟨n, rfl⟩ := Nat.exists_eq_add_of_le' (Nat.zero_lt_of_lt hn)
    have hoff : off = fdt.structSize := hs
    exact iterate_stop (by rw [nodePropBody, if_neg (by omega)]; rfl)
  | cons t ts ih =>
    obtain ⟨ht, hs⟩ := hs
    obtain ⟨n, rfl⟩ := Nat.exists_eq_add_of_le' (Nat.zero_lt_of_lt hn)
    have hlt := ht.off_lt
    have hlen := t.length_enc
    have hnext := ih (n := n) hs (by omega)
    cases t with
    | nop =>
      rw [iterate_next (nodePropBody_nop ht)]
      exact hnext
    | prop p =>
      have hbody := nodePropBody_prop ht hname
      rw [ownProps, propResult_cons]
      by_cases hp : p.name = name
      · rw [if_pos hp] at hbody ⊢
        exact iterate_stop hbody
      · rw [if_neg hp] at hbody ⊢
        rw [iterate_next hbody]
        exact hnext
    | beginNode _ => exact iterate_stop (nodePropBody_stop ht (fun _ => nofun) nofun)
    | endNode => exact iterate_stop (nodePropBody_stop ht (fun _ => nofun) nofun)
    | fin => exact iterate_stop (nodePropBody_stop ht (fun _ => nofun) nofun)

/-- A node of the stream in its place: where it begins, and the stream after its name. -/
structure NodeAt (fdt : Fdt) (l : Located) : Prop where
  begins : TokAt fdt l.off (.beginNode l.name)
  body : ∃ ts, StreamAt fdt (l.off + (Tok.beginNode l.name).enc.length) ts ∧
    l.props = ownProps (l.off + (Tok.beginNode l.name).enc.length) ts

/-- The nodes that a stream lists are in their places. -/
theorem nodeAt_of_mem {ts : List Tok} (hs : StreamAt fdt off ts) {l : Located}
    (hl : l ∈ nodesFrom off ts) : NodeAt fdt l := by
  induction ts generalizing off with
  | nil => cases hl
  | cons t ts ih =>
    obtain ⟨ht, hs⟩ := hs
    cases t with
    | beginNode name =>
      rw [nodesFrom_beginNode] at hl
      rcases List.mem_cons.1 hl with rfl | hl
      · exact ⟨ht, ts, hs, rfl⟩
      · exact ih hs hl
    | prop p => exact ih hs hl
    | endNode => exact ih hs hl
    | nop => exact ih hs hl
    | fin => cases hl

/-- **The lookup of a property** finds the first of the node's own properties with the name. -/
theorem NodeAt.fdtNodeProp {l : Located} (h : NodeAt fdt l) (hname : 0 ∉ name) :
    fdtNodeProp fdt l.off name = some (propResult name l.props) := by
  obtain ⟨ts, hs, hprops⟩ := h.body
  have hlt := fdt.structSize_lt
  rw [DeviceTree.fdtNodeProp, h.begins.skipName, Option.bind_some, hprops]
  exact iterate_nodePropBody hs hname (by omega)

theorem value_of_mem_ownProps {ts : List Tok} (hs : StreamAt fdt off ts) {q : ℕ × DProp}
    (hq : q ∈ ownProps off ts) :
    readBytes fdt.structBlob q.1 q.2.value.length = q.2.value ∧ q.2.value.length < 2 ^ 32 := by
  induction ts generalizing off with
  | nil => cases hq
  | cons t ts ih =>
    obtain ⟨ht, hs⟩ := hs
    cases t with
    | nop => exact ih hs hq
    | prop p =>
      rw [ownProps] at hq
      rcases List.mem_cons.1 hq with rfl | hq
      · have hle := ht.le
        have hlt := fdt.structSize_lt
        rw [Tok.length_prop] at hle
        exact ⟨ht.cells.2.2, by dsimp only; omega⟩
      · exact ih hs hq
    | beginNode _ => cases hq
    | endNode => cases hq
    | fin => cases hq

/-- The offset of a property is where its value is. -/
theorem NodeAt.value {l : Located} (h : NodeAt fdt l) {q : ℕ × DProp} (hq : q ∈ l.props) :
    readBytes fdt.structBlob q.1 q.2.value.length = q.2.value ∧ q.2.value.length < 2 ^ 32 := by
  obtain ⟨ts, hs, hprops⟩ := h.body
  rw [hprops] at hq
  exact value_of_mem_ownProps hs hq

/-! ## A string in a list -/

theorem stringAt_of_joinStrings {m : Mem} {a : ℕ} {s : List UInt8} {strs : List (List UInt8)}
    (hs : 0 ∉ s) (h : readBytes m a (joinStrings (s :: strs)).length = joinStrings (s :: strs)) :
    StringAt m a s ∧
      readBytes m (a + (s.length + 1)) (joinStrings strs).length = joinStrings strs := by
  have hjoin : joinStrings (s :: strs) = (s ++ [0]) ++ joinStrings strs := rfl
  rw [hjoin, List.length_append, readBytes_add] at h
  obtain ⟨hhead, htail⟩ := List.append_inj h (by simp)
  rw [List.length_append, List.length_singleton] at hhead htail
  exact ⟨⟨hs, hhead⟩, htail⟩

/-- The scan from the beginning of a string of the list ends at its NUL. -/
theorem inString_scan_eq {list len pos : ℕ} {s : List UInt8}
    (hs : StringAt fdt.structBlob (list + pos) s) (hlen : pos + s.length < len)
    (hlt : len < 2 ^ 32) : scan (inString fdt list len) pos = some (pos + s.length) := by
  refine scan_eq_some (by omega) (by omega) (fun i h₁ h₂ => ?_) ?_
  · obtain ⟨j, rfl⟩ := Nat.exists_eq_add_of_le h₁
    have hne := hs.ne_zero (i := j) (by omega)
    rw [Nat.add_assoc] at hne
    exact decide_eq_true ⟨by omega, hne⟩
  · have hzero := hs.eq_zero
    rw [Nat.add_assoc] at hzero
    exact decide_eq_false fun h => h.2 hzero

/-- A round over a list of strings, at the beginning of one of them. -/
theorem listBody_stringAt (hit : ℕ → Bool) {list len pos : ℕ} {s : List UInt8}
    (hs : StringAt fdt.structBlob (list + pos) s) (hlen : pos + s.length < len)
    (hlt : len < 2 ^ 32) :
    listBody fdt hit list len pos =
      if hit pos then .stop true else .next (pos + (s.length + 1)) := by
  rw [listBody, if_pos (by omega), inString_scan_eq hs hlen hlt]
  dsimp only
  rw [Nat.mod_eq_of_lt (by omega), Nat.add_assoc]

/-- The loop over a list of strings, from the beginning of one of them. -/
theorem iterate_listBody {hit : ℕ → Bool} {P : List UInt8 → Bool} {list len pos n : ℕ}
    {strs : List (List UInt8)} (hhit : ∀ pos s, pos + s.length < len →
      StringAt fdt.structBlob (list + pos) s → hit pos = P s)
    (hstrs : ∀ s ∈ strs, 0 ∉ s) (hlen : pos + (joinStrings strs).length = len)
    (hlt : len < 2 ^ 32)
    (hbytes : readBytes fdt.structBlob (list + pos) (joinStrings strs).length = joinStrings strs)
    (hn : (joinStrings strs).length < n) :
    iterate (listBody fdt hit list len) n pos = some (strs.any P) := by
  induction strs generalizing pos n with
  | nil =>
    obtain ⟨n, rfl⟩ := Nat.exists_eq_add_of_le' (Nat.zero_lt_of_lt hn)
    have hpos : pos = len := hlen
    exact iterate_stop (by rw [listBody, if_neg (by omega)]; rfl)
  | cons s strs ih =>
    obtain ⟨n, rfl⟩ := Nat.exists_eq_add_of_le' (Nat.zero_lt_of_lt hn)
    rw [List.forall_mem_cons] at hstrs
    obtain ⟨hs, hrest⟩ := stringAt_of_joinStrings hstrs.1 hbytes
    rw [length_joinStrings_cons] at hlen hn
    have hbody := listBody_stringAt hit hs (by omega) hlt
    rw [List.any_cons, ← hhit pos s (by omega) hs]
    cases hc : hit pos with
    | true =>
      rw [if_pos hc] at hbody
      exact iterate_stop hbody
    | false =>
      rw [if_neg (by rw [hc]; nofun)] at hbody
      rw [iterate_next hbody, Bool.false_or]
      rw [Nat.add_assoc] at hrest
      exact ih hstrs.2 (by omega) hrest (by omega)

/-- A list of strings, each ended by a NUL. -/
def IsStringList (v : List UInt8) : Prop := ∃ strs, (∀ s ∈ strs, 0 ∉ s) ∧ v = joinStrings strs

/-- **The loop over a list of strings** finds out whether one of them is hit. -/
theorem listHas_eq {hit : ℕ → Bool} {P : List UInt8 → Bool} {list len : ℕ} {v : List UInt8}
    (hhit : ∀ pos s, pos + s.length < len → StringAt fdt.structBlob (list + pos) s →
      hit pos = P s)
    (hv : IsStringList v) (hlen : v.length = len) (hlt : len < 2 ^ 32)
    (hbytes : readBytes fdt.structBlob list len = v) :
    listHas fdt hit list len = some ((nulStrings v).any P) := by
  obtain ⟨strs, hstrs, rfl⟩ := hv
  subst hlen
  rw [nulStrings_joinStrings hstrs]
  exact iterate_listBody hhit hstrs (Nat.zero_add _) hlt hbytes (by omega)

/-! ## The loop over the tokens, at a token -/

section

variable {α ρ : Type*} {onBegin : ℕ → α → Iter (ℕ × α) ρ} {done : α → ρ} {a : α}

theorem walkBody_beginNode (done : α → ρ) (h : TokAt fdt off (.beginNode name)) :
    walkBody fdt onBegin done (off, a) = onBegin off a := by
  rw [walkBody, if_pos h.off_lt, h.code]
  rfl

theorem walkBody_prop {p : DProp} (h : TokAt fdt off (.prop p)) :
    walkBody fdt onBegin done (off, a) = .next (off + (Tok.prop p).enc.length, a) := by
  rw [walkBody, if_pos h.off_lt, h.code, h.skipProp]
  rfl

theorem walkBody_endNode (h : TokAt fdt off .endNode) :
    walkBody fdt onBegin done (off, a) = .next (off + Tok.endNode.enc.length, a) := by
  rw [walkBody, if_pos h.off_lt, h.code, h.next rfl]
  rfl

theorem walkBody_nop (h : TokAt fdt off .nop) :
    walkBody fdt onBegin done (off, a) = .next (off + Tok.nop.enc.length, a) := by
  rw [walkBody, if_pos h.off_lt, h.code, h.next rfl]
  rfl

theorem walkBody_fin (h : TokAt fdt off .fin) :
    walkBody fdt onBegin done (off, a) = .stop (done a) := by
  rw [walkBody, if_pos h.off_lt, h.code]
  rfl

theorem walkBody_end (h : fdt.structSize ≤ off) :
    walkBody fdt onBegin done (off, a) = .stop (done a) := by
  rw [walkBody, if_neg (by omega)]

end

/-! ## Walks are folds over the nodes -/

section

variable {α ρ : Type*}

/-- The fold over the nodes: `f` goes on with a state, or leaves with a result. -/
def foldNodes (f : Located → α → α ⊕ ρ) (done : α → ρ) : List Located → α → ρ
  | [], a => done a
  | l :: ls, a =>
    match f l a with
    | .inl a' => foldNodes f done ls a'
    | .inr r => r

/-- The offsets of the nodes to which the fold comes. -/
def seenNodes (f : Located → α → α ⊕ ρ) : List Located → α → List ℕ
  | [], _ => []
  | l :: ls, a =>
    l.off :: match f l a with
      | .inl a' => seenNodes f ls a'
      | .inr _ => []

/-- The offsets at which a round of the walk, one of the first `n`, is at the beginning of a
node. -/
def nodeRounds (fdt : Fdt) (body : ℕ × α → Iter (ℕ × α) ρ) : ℕ → ℕ × α → List ℕ
  | 0, _ => []
  | n + 1, s =>
    let rest := match body s with
      | .next t => nodeRounds fdt body n t
      | _ => []
    if s.1 < fdt.structSize ∧ fdtReadBe32 fdt.structBlob s.1 = FDT_BEGIN_NODE then s.1 :: rest
    else rest

/-- What the walk does at the beginning of a node, when the fold does `r`. -/
def atNode (l : Located) : α ⊕ ρ → Iter (ℕ × α) ρ
  | .inl a => .next (l.off + (Tok.beginNode l.name).enc.length, a)
  | .inr r => .stop r

variable {body : ℕ × α → Iter (ℕ × α) ρ} {n : ℕ} {a : α} {s : ℕ × α}

theorem nodeRounds_next (h : body (off, a) = .next s)
    (htok : ¬(off < fdt.structSize ∧ fdtReadBe32 fdt.structBlob off = FDT_BEGIN_NODE)) :
    nodeRounds fdt body (n + 1) (off, a) = nodeRounds fdt body n s := by
  rw [nodeRounds, h, if_neg htok]

theorem nodeRounds_stop {r : ρ} (h : body (off, a) = .stop r)
    (htok : ¬(off < fdt.structSize ∧ fdtReadBe32 fdt.structBlob off = FDT_BEGIN_NODE)) :
    nodeRounds fdt body (n + 1) (off, a) = [] := by
  rw [nodeRounds, h, if_neg htok]

/-- No other token is the beginning of a node. -/
theorem TokAt.not_beginNode {t : Tok} (h : TokAt fdt off t) (ht : ∀ name, t ≠ .beginNode name) :
    ¬(off < fdt.structSize ∧ fdtReadBe32 fdt.structBlob off = FDT_BEGIN_NODE) := by
  rw [h.code]
  rintro ⟨-, hcode⟩
  cases t with
  | beginNode name => exact ht name rfl
  | prop p => cases hcode
  | endNode => cases hcode
  | nop => cases hcode
  | fin => cases hcode

/-- **A walk is a fold over the nodes**, and it is at the nodes to which the fold comes. -/
theorem walk_fold {onBegin : ℕ → α → Iter (ℕ × α) ρ} (done : α → ρ) (f : Located → α → α ⊕ ρ)
    (a : α) {ts : List Tok} (hs : StreamAt fdt off ts)
    (hbegin : ∀ l ∈ nodesFrom off ts, ∀ a, onBegin l.off a = atNode l (f l a))
    (hn : fdt.structSize - off < n) :
    iterate (walkBody fdt onBegin done) n (off, a) =
        some (foldNodes f done (nodesFrom off ts) a) ∧
      nodeRounds fdt (walkBody fdt onBegin done) n (off, a) =
        seenNodes f (nodesFrom off ts) a := by
  induction ts generalizing off n a with
  | nil =>
    obtain ⟨n, rfl⟩ := Nat.exists_eq_add_of_le' (Nat.zero_lt_of_lt hn)
    have hoff : off = fdt.structSize := hs
    have hbody : walkBody fdt onBegin done (off, a) = .stop (done a) := walkBody_end (by omega)
    exact ⟨iterate_stop hbody, nodeRounds_stop hbody (by omega)⟩
  | cons t ts ih =>
    obtain ⟨ht, hs⟩ := hs
    obtain ⟨n, rfl⟩ := Nat.exists_eq_add_of_le' (Nat.zero_lt_of_lt hn)
    have hlt := ht.off_lt
    have hlen := t.length_enc
    have hnext := fun a => ih (n := n) (a := a) hs
    cases t with
    | beginNode name =>
      rw [nodesFrom_beginNode] at hbegin ⊢
      rw [List.forall_mem_cons] at hbegin
      have hbody := (walkBody_beginNode done ht).trans (hbegin.1 a)
      have htok : off < fdt.structSize ∧ fdtReadBe32 fdt.structBlob off = FDT_BEGIN_NODE :=
        ⟨hlt, ht.code⟩
      rw [foldNodes, seenNodes]
      cases hf : f ⟨off, name, ownProps (off + (Tok.beginNode name).enc.length) ts⟩ a with
      | inl a' =>
        rw [hf] at hbody
        obtain ⟨hfold, hseen⟩ := hnext a' hbegin.2 (by omega)
        refine ⟨(iterate_next hbody).trans hfold, ?_⟩
        rw [nodeRounds, hbody, if_pos htok]
        exact congrArg (off :: ·) hseen
      | inr r =>
        rw [hf] at hbody
        refine ⟨iterate_stop hbody, ?_⟩
        rw [nodeRounds, hbody, if_pos htok]
        rfl
    | prop p =>
      rw [iterate_next (walkBody_prop ht), nodeRounds_next (walkBody_prop ht)
        (ht.not_beginNode fun _ => nofun)]
      exact hnext a hbegin (by omega)
    | endNode =>
      rw [iterate_next (walkBody_endNode ht), nodeRounds_next (walkBody_endNode ht)
        (ht.not_beginNode fun _ => nofun)]
      exact hnext a hbegin (by omega)
    | nop =>
      rw [iterate_next (walkBody_nop ht), nodeRounds_next (walkBody_nop ht)
        (ht.not_beginNode fun _ => nofun)]
      exact hnext a hbegin (by omega)
    | fin =>
      exact ⟨iterate_stop (walkBody_fin ht),
        nodeRounds_stop (walkBody_fin ht) (ht.not_beginNode fun _ => nofun)⟩

end

/-! ## Searches over the nodes -/

/-- The offset that a search returns for the node it has found. -/
def offOf (l : Option Located) : ℕ := l.elim uint32Max Located.off

/-- What a search for a node does at a node. -/
def findNode (P : Located → Bool) (l : Located) (a : Unit) : Unit ⊕ ℕ :=
  if P l then .inr l.off else .inl a

theorem foldNodes_findNode (P : Located → Bool) (ls : List Located) :
    foldNodes (findNode P) (fun _ => uint32Max) ls () = offOf (ls.find? P) := by
  induction ls with
  | nil => rfl
  | cons l ls ih =>
    rw [foldNodes, findNode, List.find?_cons]
    cases P l with
    | true => rfl
    | false => exact ih

/-- **A search over the nodes** finds the first one on which `onBegin` stops. -/
theorem walk_search {onBegin : ℕ → Unit → Iter (ℕ × Unit) ℕ} {P : Located → Bool}
    {ts : List Tok} {n : ℕ} (hs : StreamAt fdt off ts)
    (hbegin : ∀ l ∈ nodesFrom off ts, onBegin l.off () = atNode l (findNode P l ()))
    (hn : fdt.structSize - off < n) :
    iterate (walkBody fdt onBegin fun _ => uint32Max) n (off, ()) =
      some (offOf ((nodesFrom off ts).find? P)) := by
  rw [(walk_fold _ (findNode P) () hs (fun l hl _ => hbegin l hl) hn).1, foldNodes_findNode]

/-- The strings in the first property `compatible` of a node. -/
def DNode.compatible (node : DNode) : List (List UInt8) :=
  match node.props.find? fun p => p.name = cstr "compatible" with
  | some p => nulStrings p.value
  | none => []

theorem find_node_props (l : Located) (name : List UInt8) :
    (l.node.props.find? fun p => p.name = name) =
      (l.props.find? fun q => q.2.name = name).map Prod.snd := by
  rw [Located.node, List.find?_map]
  rfl

/-- A search of the strings in the property `compatible` of a node. -/
theorem NodeAt.listHas {l : Located} {compat : List UInt8} {hit : ℕ → ℕ → Bool}
    (h : NodeAt fdt l)
    (hlist : ∀ p ∈ l.node.props, p.name = cstr "compatible" → IsStringList p.value)
    (hhit : ∀ list pos s, pos + s.length < 2 ^ 32 → StringAt fdt.structBlob (list + pos) s →
      hit list pos = decide (s = compat)) :
    ((DeviceTree.fdtNodeProp fdt l.off (cstr "compatible")).bind fun
      | none => some false
      | some (list, len) => DeviceTree.listHas fdt (hit list) list len) =
      some (decide (compat ∈ l.node.compatible)) := by
  have hnul : (0 : UInt8) ∉ cstr "compatible" := by decide
  rw [h.fdtNodeProp hnul, Option.bind_some, DNode.compatible, find_node_props, propResult]
  cases hfind : l.props.find? fun q => q.2.name = cstr "compatible" with
  | none => simp
  | some q =>
    have hmem : q ∈ l.props := List.mem_of_find?_eq_some hfind
    have hname : q.2.name = cstr "compatible" := by simpa using List.find?_some hfind
    obtain ⟨hvalue, hlt⟩ := h.value hmem
    have hstrings := hlist q.2 (List.mem_map_of_mem hmem) hname
    simp only [Option.map_some]
    rw [listHas_eq (P := fun s => s = compat) (fun pos s hpos hs => hhit q.1 pos s (by omega) hs)
      hstrings rfl hlt hvalue, List.any_eq]
    simp

/-- A node is recognised by the strings in its property `compatible`. -/
theorem NodeAt.hasCompatible {l : Located} {compat : List UInt8} (h : NodeAt fdt l)
    (hlist : ∀ p ∈ l.node.props, p.name = cstr "compatible" → IsStringList p.value)
    (hcompat : 0 ∉ compat) :
    hasCompatible fdt compat l.off = some (decide (compat ∈ l.node.compatible)) :=
  h.listHas hlist fun _ _ _ _ hs => strEq_eq hs hcompat

theorem goOn_skipName {α ρ : Type*} {l : Located} (h : NodeAt fdt l) (a : α) :
    (goOn (skipName fdt l.off) a : Iter (ℕ × α) ρ) =
      .next (l.off + (Tok.beginNode l.name).enc.length, a) := by
  rw [h.begins.skipName, goOn]

theorem NodeAt.findCompatibleBegin {l : Located} {compat : List UInt8} (h : NodeAt fdt l)
    (hlist : ∀ p ∈ l.node.props, p.name = cstr "compatible" → IsStringList p.value)
    (hcompat : 0 ∉ compat) :
    findCompatibleBegin fdt compat l.off () =
      atNode l (findNode (fun l => compat ∈ l.node.compatible) l ()) := by
  rw [DeviceTree.findCompatibleBegin, h.hasCompatible hlist hcompat, goOn_skipName h, findNode]
  cases decide (compat ∈ l.node.compatible) with
  | true => rfl
  | false => rfl

theorem fdtFindCompatible_eq {ts : List Tok} {compat : List UInt8} (hs : StreamAt fdt 0 ts)
    (hlist : ∀ l ∈ nodesFrom 0 ts, ∀ p ∈ l.node.props, p.name = cstr "compatible" →
      IsStringList p.value) (hcompat : 0 ∉ compat) :
    fdtFindCompatible fdt compat =
      some (offOf ((nodesFrom 0 ts).find? fun l => compat ∈ l.node.compatible)) := by
  have hlt := fdt.structSize_lt
  exact walk_search hs
    (fun l hl => (nodeAt_of_mem hs hl).findCompatibleBegin (hlist l hl) hcompat) (by omega)

theorem fdtFindNodeNamed_eq {ts : List Tok} {name : List UInt8} (hs : StreamAt fdt 0 ts)
    (hname : 0 ∉ name) :
    fdtFindNodeNamed fdt name =
      some (offOf ((nodesFrom 0 ts).find? fun l => NodeNameMatches name l.name)) := by
  have hlt := fdt.structSize_lt
  refine walk_search hs (fun l hl => ?_) (by omega)
  have hnode := nodeAt_of_mem hs hl
  rw [findNodeNamedBegin, fdtNodeName, nodeNameEq_eq hnode.begins.stringAt hname,
    goOn_skipName hnode, findNode]
  cases decide (NodeNameMatches name l.name) with
  | true => rfl
  | false => rfl

/-- The blob holds the stream `ts`, which encodes the forest `t`: its tokens are those of the
forest and `FDT_END`, with `FDT_NOP`s anywhere between them. -/
structure EncodesTree (fdt : Fdt) (t : Forest) (ts : List Tok) : Prop extends Encodes fdt ts where
  tokens : ts.filter (· ≠ .nop) = t.tokens ++ [.fin]
  lists : ∀ node ∈ t.nodes, ∀ p ∈ node.props, p.name = cstr "compatible" → IsStringList p.value

/-- The blob of a stream, with the bytes of a strings block. -/
def blobOf (ts : List Tok) (strings : List UInt8) (h : (encs ts).length < 2 ^ 32) : Fdt where
  structBlob i := (encs ts).getD i 0
  strings i := strings.getD i 0
  structSize := (encs ts).length
  structSize_lt := h

/-- Every stream whose names are strings has an encoding. -/
theorem encodes_blobOf {ts : List Tok} {strings : List UInt8} (h : (encs ts).length < 2 ^ 32)
    (hnamed : ∀ t ∈ ts, t.Named fun i => strings.getD i 0) :
    Encodes (blobOf ts strings h) ts := by
  refine ⟨rfl, ?_, hnamed⟩
  apply List.ext_getElem (length_readBytes ..)
  intro i h₁ h₂
  rw [getElem_readBytes, Nat.zero_add]
  exact List.getD_eq_getElem _ _ h₂

/-- A root with a memory node: the stream of its tokens. -/
def memoryTree : Forest :=
  .cons [] [⟨cstr "compatible", 0, cstr "virt" ++ [0]⟩]
    (.cons (cstr "memory@80000000") [] .nil .nil) .nil

def memoryStream : List Tok := memoryTree.tokens ++ [.nop, .fin]

def memoryBlob : Fdt := blobOf memoryStream (cstr "compatible" ++ [0]) (by decide)

theorem encodesTree_memoryBlob : EncodesTree memoryBlob memoryTree memoryStream where
  toEncodes := encodes_blobOf _ (by decide)
  tokens := by decide
  lists := by
    intro node hnode p hp _
    refine ⟨[cstr "virt"], by decide, ?_⟩
    revert node p
    decide

/-! ## Main result -/

end RvvmHal.DeviceTree
