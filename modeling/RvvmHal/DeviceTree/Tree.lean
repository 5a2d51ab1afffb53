import RvvmHal.DeviceTree.Blob

/-!
# Device trees and their encoding

A device tree is a forest of one tree: nodes with a name, properties and children. Its encoding is
a stream of tokens, of which the structure block holds the bytes, padded at every name and every
property; `FDT_NOP` may stand anywhere between. `Encodes` relates a blob to a stream, and
`nodesFrom` lists the nodes of a stream in the order in which they begin, each with the place at
which it does, and with the places of its own properties.

The main result (`map_node_nodesFrom`) says that this list is the tree's own list of nodes in
document order, whatever `FDT_NOP`s the stream has. `TokAt` is a token at its place, and the lemmas
below say what the reads of the blob give there.
-/

namespace RvvmHal.DeviceTree

open Bytes CString Loop

/-! ## Trees -/

/-- A property, with the offset of its name in the strings block. -/
structure DProp where
  name : List UInt8
  nameoff : ℕ
  value : List UInt8
  deriving DecidableEq

/-- A node by itself: its name and its own properties. -/
structure DNode where
  name : List UInt8
  props : List DProp
  deriving DecidableEq

/-- Nodes with their children, and their siblings after them. -/
inductive Forest
  | nil
  | cons (name : List UInt8) (props : List DProp) (children siblings : Forest)

/-- The nodes in document order. -/
def Forest.nodes : Forest → List DNode
  | nil => []
  | cons name props children siblings => ⟨name, props⟩ :: (children.nodes ++ siblings.nodes)

/-! ## Tokens -/

/-- The tokens of the structure block. -/
inductive Tok
  | beginNode (name : List UInt8)
  | prop (p : DProp)
  | endNode
  | nop
  | fin
  deriving DecidableEq

/-- The tokens of a forest: the properties of a node come before its children. -/
def Forest.tokens : Forest → List Tok
  | nil => []
  | cons name props children siblings =>
    .beginNode name :: (props.map .prop ++ (children.tokens ++ .endNode :: siblings.tokens))

/-- The bytes `l`, padded with zeros to a multiple of four. -/
def padTo4 (l : List UInt8) : List UInt8 := l ++ List.replicate ((4 - l.length % 4) % 4) 0

/-- The first cell of a token. -/
def Tok.code : Tok → ℕ
  | .beginNode _ => FDT_BEGIN_NODE
  | .prop _ => FDT_PROP
  | .endNode => FDT_END_NODE
  | .nop => FDT_NOP
  | .fin => FDT_END

/-- What follows the first cell of a token. -/
def Tok.payload : Tok → List UInt8
  | .beginNode name => padTo4 (name ++ [0])
  | .prop p => beBytes 4 p.value.length ++ (beBytes 4 p.nameoff ++ padTo4 p.value)
  | _ => []

/-- The bytes of a token. -/
def Tok.enc (t : Tok) : List UInt8 := beBytes 4 t.code ++ t.payload

/-- The bytes of a stream of tokens. -/
def encs (ts : List Tok) : List UInt8 := ts.flatMap Tok.enc

/-- The names of a token are strings, that of a property in the strings block. -/
def Tok.Named (strings : Mem) : Tok → Prop
  | .beginNode name => 0 ∉ name
  | .prop p => p.nameoff < 2 ^ 32 ∧ StringAt strings p.nameoff p.name
  | _ => True

instance (strings : Mem) (t : Tok) : Decidable (t.Named strings) :=
  match t with
  | .beginNode name => inferInstanceAs (Decidable (0 ∉ name))
  | .prop p => inferInstanceAs (Decidable (_ ∧ StringAt strings p.nameoff p.name))
  | .endNode => .isTrue trivial
  | .nop => .isTrue trivial
  | .fin => .isTrue trivial

/-- The blob holds the stream `ts`. -/
structure Encodes (fdt : Fdt) (ts : List Tok) : Prop where
  size : fdt.structSize = (encs ts).length
  bytes : readBytes fdt.structBlob 0 fdt.structSize = encs ts
  named : ∀ t ∈ ts, t.Named fdt.strings

@[simp] theorem length_padTo4 (l : List UInt8) : (padTo4 l).length = (l.length + 3) / 4 * 4 := by
  simp only [padTo4, List.length_append, List.length_replicate]
  omega

theorem Tok.length_beginNode (name : List UInt8) :
    (Tok.beginNode name).enc.length = 4 + (name.length + 4) / 4 * 4 := by
  simp only [Tok.enc, Tok.payload, List.length_append, length_beBytes, length_padTo4,
    List.length_singleton]

theorem Tok.length_prop (p : DProp) :
    (Tok.prop p).enc.length = 12 + (p.value.length + 3) / 4 * 4 := by
  simp only [Tok.enc, Tok.payload, List.length_append, length_beBytes, length_padTo4]
  omega

/-- Tokens are aligned and not empty. -/
theorem Tok.length_enc (t : Tok) : t.enc.length % 4 = 0 ∧ 4 ≤ t.enc.length := by
  cases t with
  | beginNode name =>
    rw [Tok.length_beginNode]
    omega
  | prop p =>
    rw [Tok.length_prop]
    omega
  | endNode => exact ⟨rfl, Nat.le_refl 4⟩
  | nop => exact ⟨rfl, Nat.le_refl 4⟩
  | fin => exact ⟨rfl, Nat.le_refl 4⟩

/-! ## Nodes in their places -/

/-- A node where the blob has it: the offset at which it begins, and with each of its properties
the offset of the property's value. -/
structure Located where
  off : ℕ
  name : List UInt8
  props : List (ℕ × DProp)
  deriving DecidableEq

/-- The node by itself. -/
def Located.node (l : Located) : DNode := ⟨l.name, l.props.map Prod.snd⟩

/-- The properties that the stream has at `off`, before it comes to another node or to an end. -/
def ownProps : ℕ → List Tok → List (ℕ × DProp)
  | off, .nop :: ts => ownProps (off + 4) ts
  | off, .prop p :: ts => (off + 12, p) :: ownProps (off + (Tok.prop p).enc.length) ts
  | _, _ => []

/-- The nodes of the stream at `off`, in the order in which they begin. -/
def nodesFrom : ℕ → List Tok → List Located
  | _, [] => []
  | _, .fin :: _ => []
  | off, .beginNode name :: ts =>
    let next := off + (Tok.beginNode name).enc.length
    ⟨off, name, ownProps next ts⟩ :: nodesFrom next ts
  | off, t :: ts => nodesFrom (off + t.enc.length) ts

theorem nodesFrom_beginNode (off : ℕ) (name : List UInt8) (ts : List Tok) :
    nodesFrom off (.beginNode name :: ts) =
      ⟨off, name, ownProps (off + (Tok.beginNode name).enc.length) ts⟩ ::
        nodesFrom (off + (Tok.beginNode name).enc.length) ts := rfl

/-- Properties do not depend on where the stream lies, nor on its `FDT_NOP`s. -/
theorem map_snd_ownProps (off off' : ℕ) (ts : List Tok) :
    (ownProps off ts).map Prod.snd =
      (ownProps off' (ts.filter (· ≠ .nop))).map Prod.snd := by
  induction ts generalizing off off' with
  | nil => rfl
  | cons t ts ih =>
    cases t with
    | nop => exact ih _ _
    | prop p => exact congrArg (p :: ·) (ih _ _)
    | beginNode name => rfl
    | endNode => rfl
    | fin => rfl

/-- Nodes do not depend on where the stream lies, nor on its `FDT_NOP`s. -/
theorem map_node_nodesFrom_filter (off off' : ℕ) (ts : List Tok) :
    (nodesFrom off ts).map Located.node =
      (nodesFrom off' (ts.filter (· ≠ .nop))).map Located.node := by
  induction ts generalizing off off' with
  | nil => rfl
  | cons t ts ih =>
    cases t with
    | nop => exact ih _ _
    | prop p => exact ih _ _
    | beginNode name =>
      exact congrArg₂ (fun props nodes => ⟨name, props⟩ :: nodes) (map_snd_ownProps _ _ ts) (ih _ _)
    | endNode => exact ih _ _
    | fin => rfl

/-- A stream that no property begins. -/
def NoProp : List Tok → Prop
  | .prop _ :: _ => False
  | .nop :: _ => False
  | _ => True

theorem noProp_tokens (t : Forest) (rest : List Tok) (h : NoProp rest) :
    NoProp (t.tokens ++ rest) := by
  cases t with
  | nil => exact h
  | cons name props children siblings => trivial

theorem map_snd_ownProps_append (off : ℕ) (props : List DProp) {ts : List Tok} (h : NoProp ts) :
    (ownProps off (props.map .prop ++ ts)).map Prod.snd = props := by
  induction props generalizing off with
  | nil =>
    cases ts with
    | nil => rfl
    | cons t ts =>
      cases t with
      | nop => cases h
      | prop p => cases h
      | beginNode name => rfl
      | endNode => rfl
      | fin => rfl
  | cons p props ih => exact congrArg (p :: ·) (ih _)

theorem map_node_nodesFrom_props (off : ℕ) (props : List DProp) (ts : List Tok) :
    ∃ off', nodesFrom off (props.map .prop ++ ts) = nodesFrom off' ts := by
  induction props generalizing off with
  | nil => exact ⟨off, rfl⟩
  | cons p props ih => exact ih _

/-- The nodes of a forest's tokens are the forest's. -/
theorem map_node_nodesFrom_tokens (t : Forest) (off : ℕ) (rest : List Tok) :
    ∃ off', (nodesFrom off (t.tokens ++ rest)).map Located.node =
      t.nodes ++ (nodesFrom off' rest).map Located.node := by
  induction t generalizing off rest with
  | nil => exact ⟨off, rfl⟩
  | cons name props children siblings ihc ihs =>
    have htokens : (Forest.cons name props children siblings).tokens ++ rest =
        .beginNode name ::
          (props.map .prop ++ (children.tokens ++ .endNode :: (siblings.tokens ++ rest))) := by
      simp [Forest.tokens]
    obtain ⟨off₁, h₁⟩ := map_node_nodesFrom_props (off + (Tok.beginNode name).enc.length) props
      (children.tokens ++ .endNode :: (siblings.tokens ++ rest))
    obtain ⟨off₂, h₂⟩ := ihc off₁ (.endNode :: (siblings.tokens ++ rest))
    obtain ⟨off₃, h₃⟩ := ihs (off₂ + 4) rest
    refine ⟨off₃, ?_⟩
    have hprops := map_snd_ownProps_append (off + (Tok.beginNode name).enc.length) props
      (noProp_tokens children (.endNode :: (siblings.tokens ++ rest)) trivial)
    have hend : nodesFrom off₂ (.endNode :: (siblings.tokens ++ rest)) =
        nodesFrom (off₂ + 4) (siblings.tokens ++ rest) := rfl
    rw [htokens, nodesFrom_beginNode, List.map_cons, h₁, h₂, hend, h₃, Located.node, hprops,
      Forest.nodes, List.cons_append, List.append_assoc]

/-- **The nodes of a stream that encodes a forest are the forest's nodes in document order.** -/
theorem map_node_nodesFrom {t : Forest} {ts : List Tok} (off : ℕ)
    (h : ts.filter (· ≠ .nop) = t.tokens ++ [.fin]) :
    (nodesFrom off ts).map Located.node = t.nodes := by
  obtain ⟨off', h'⟩ := map_node_nodesFrom_tokens t off [.fin]
  rw [map_node_nodesFrom_filter off off, h, h']
  exact List.append_nil _

/-! ## A token in its place -/

/-- The blob has the token `t` at `off`. -/
structure TokAt (fdt : Fdt) (off : ℕ) (t : Tok) : Prop where
  aligned : off % 4 = 0
  le : off + t.enc.length ≤ fdt.structSize
  bytes : readBytes fdt.structBlob off t.enc.length = t.enc
  named : t.Named fdt.strings

/-- The blob has the stream `ts` at `off`, up to the end of the block. -/
def StreamAt (fdt : Fdt) : ℕ → List Tok → Prop
  | off, [] => off = fdt.structSize
  | off, t :: ts => TokAt fdt off t ∧ StreamAt fdt (off + t.enc.length) ts

theorem streamAt_of_bytes {fdt : Fdt} {off : ℕ} {ts : List Tok} (halign : off % 4 = 0)
    (hsize : off + (encs ts).length = fdt.structSize)
    (hbytes : readBytes fdt.structBlob off (encs ts).length = encs ts)
    (hnamed : ∀ t ∈ ts, t.Named fdt.strings) : StreamAt fdt off ts := by
  induction ts generalizing off with
  | nil => exact hsize
  | cons t ts ih =>
    have hencs : encs (t :: ts) = t.enc ++ encs ts := rfl
    rw [hencs, List.length_append] at hsize hbytes
    rw [readBytes_add] at hbytes
    obtain ⟨hhead, htail⟩ := List.append_inj hbytes (length_readBytes ..)
    have hlen := t.length_enc
    rw [List.forall_mem_cons] at hnamed
    exact ⟨⟨halign, by omega, hhead, hnamed.1⟩,
      ih (by omega) (by omega) htail hnamed.2⟩

/-- A blob that encodes a stream has it at its beginning. -/
theorem Encodes.streamAt {fdt : Fdt} {ts : List Tok} (h : Encodes fdt ts) : StreamAt fdt 0 ts := by
  have hsize := h.size
  refine streamAt_of_bytes rfl ((Nat.zero_add _).trans hsize.symm) ?_ h.named
  rw [← hsize]
  exact h.bytes

section

variable {fdt : Fdt} {off : ℕ} {t : Tok} {p : DProp} {name : List UInt8}

theorem TokAt.off_lt (h : TokAt fdt off t) : off < fdt.structSize := by
  have h₁ := h.le
  have h₂ := t.length_enc
  omega

/-- A cell, and what follows it. -/
theorem fdtReadBe32_of_append {data : Mem} {v : ℕ} {l : List UInt8} (hv : v < 2 ^ 32)
    (h : readBytes data off (beBytes 4 v ++ l).length = beBytes 4 v ++ l) :
    fdtReadBe32 data off = v ∧ readBytes data (off + 4) l.length = l := by
  rw [List.length_append, length_beBytes, readBytes_add] at h
  obtain ⟨hcell, hrest⟩ := List.append_inj h (by simp)
  exact ⟨fdtReadBe32_of_readBytes hv hcell, hrest⟩

theorem Tok.code_lt (t : Tok) : t.code < 2 ^ 32 := by
  cases t <;> simp only [Tok.code] <;> decide

theorem TokAt.code (h : TokAt fdt off t) : fdtReadBe32 fdt.structBlob off = t.code :=
  (fdtReadBe32_of_append t.code_lt h.bytes).1

theorem TokAt.payload (h : TokAt fdt off t) :
    readBytes fdt.structBlob (off + 4) t.payload.length = t.payload :=
  (fdtReadBe32_of_append t.code_lt h.bytes).2

/-- The first byte and the last byte of the first cell of a token. -/
theorem TokAt.code_bytes (h : TokAt fdt off t) :
    fdt.structBlob off = 0 ∧ fdt.structBlob (off + 3) = UInt8.ofNat t.code := by
  have hbytes := h.bytes
  have hcell : readBytes fdt.structBlob off 4 = beBytes 4 t.code := by
    rw [Tok.enc, List.length_append, length_beBytes, readBytes_add] at hbytes
    exact (List.append_inj hbytes (by simp)).1
  have hcode : beBytes 4 t.code = [0, 0, 0, UInt8.ofNat t.code] := by
    cases t <;> dsimp only [Tok.code] <;> rfl
  simp only [hcode, readBytes_succ, readBytes_zero, List.cons.injEq, and_true] at hcell
  exact ⟨hcell.1, hcell.2.2.2⟩

/-- The beginning of padded bytes. -/
theorem readBytes_of_padTo4 {m : Mem} {a : ℕ} {l : List UInt8}
    (h : readBytes m a (padTo4 l).length = padTo4 l) : readBytes m a l.length = l := by
  have hlen : (padTo4 l).length = l.length + ((4 - l.length % 4) % 4) := by simp [padTo4]
  rw [hlen, readBytes_add, padTo4] at h
  exact (List.append_inj h (length_readBytes ..)).1

theorem TokAt.stringAt (h : TokAt fdt off (.beginNode name)) :
    StringAt fdt.structBlob (off + 4) name := by
  have hb := readBytes_of_padTo4 h.payload
  rw [List.length_append, List.length_singleton] at hb
  exact ⟨h.named, hb⟩

/-- The name of a node ends at its NUL. -/
theorem TokAt.nameNul (h : TokAt fdt off (.beginNode name)) :
    nameNul fdt off = some (off + 4 + name.length) := by
  have hle := h.le
  have hlt := fdt.structSize_lt
  rw [Tok.length_beginNode] at hle
  have hs := h.stringAt
  rw [DeviceTree.nameNul, Nat.mod_eq_of_lt (by omega)]
  refine scan_eq_some (by omega) (by omega) (fun i h₁ h₂ => ?_) ?_
  · obtain ⟨j, rfl⟩ := Nat.exists_eq_add_of_le h₁
    exact decide_eq_true (hs.ne_zero (by omega))
  · simp only [hs.eq_zero, ne_eq, not_true, decide_false]

/-- **The step over a name** leads to the next token. -/
theorem TokAt.skipName (h : TokAt fdt off (.beginNode name)) :
    skipName fdt off = some (off + (Tok.beginNode name).enc.length) := by
  have hle := h.le
  have hlt := fdt.structSize_lt
  have halign := h.aligned
  rw [Tok.length_beginNode] at hle ⊢
  rw [DeviceTree.skipName, h.nameNul, Option.map_some, Word.and_not3 (Nat.mod_lt _ (by omega))]
  congr 1
  omega

/-- What a property's token holds after its first cell. -/
theorem TokAt.propPayload (h : TokAt fdt off (.prop p)) :
    fdtReadBe32 fdt.structBlob (off + 4) = p.value.length ∧
      fdtReadBe32 fdt.structBlob (off + 8) = p.nameoff ∧
        readBytes fdt.structBlob (off + 12) (padTo4 p.value).length = padTo4 p.value := by
  have hle := h.le
  have hlt := fdt.structSize_lt
  have hnameoff : p.nameoff < 2 ^ 32 := h.named.1
  rw [Tok.length_prop] at hle
  obtain ⟨hlen, h₂⟩ := fdtReadBe32_of_append (by omega) h.payload
  obtain ⟨hoff, h₃⟩ := fdtReadBe32_of_append hnameoff h₂
  exact ⟨hlen, hoff, h₃⟩

/-- The cells and the value of a property. -/
theorem TokAt.cells (h : TokAt fdt off (.prop p)) :
    fdtReadBe32 fdt.structBlob ((off + 4) % 2 ^ 32) = p.value.length ∧
      fdtReadBe32 fdt.structBlob ((off + 8) % 2 ^ 32) = p.nameoff ∧
        readBytes fdt.structBlob (off + 12) p.value.length = p.value := by
  have hle := h.le
  have hlt := fdt.structSize_lt
  rw [Tok.length_prop] at hle
  obtain ⟨hlen, hoff, hvalue⟩ := h.propPayload
  rw [Nat.mod_eq_of_lt (by omega), Nat.mod_eq_of_lt (by omega)]
  exact ⟨hlen, hoff, readBytes_of_padTo4 hvalue⟩

/-- The padding of a property's value, in the code's words. -/
theorem TokAt.padded (h : TokAt fdt off (.prop p)) :
    12 + padded p.value.length = (Tok.prop p).enc.length := by
  have hle := h.le
  have hlt := fdt.structSize_lt
  rw [Tok.length_prop] at hle ⊢
  rw [padded_eq]
  omega

/-- **The step over a property** leads to the next token. -/
theorem TokAt.skipProp (h : TokAt fdt off (.prop p)) :
    skipProp fdt off = off + (Tok.prop p).enc.length := by
  have hle := h.le
  have hlt := fdt.structSize_lt
  rw [DeviceTree.skipProp, h.cells.1, Nat.add_assoc, h.padded, Nat.mod_eq_of_lt (by omega)]

/-- The step over a token of one cell. -/
theorem TokAt.next (h : TokAt fdt off t) (ht : t.enc.length = 4) : (off + 4) % 2 ^ 32 = off + 4 := by
  have hle := h.le
  have hlt := fdt.structSize_lt
  exact Nat.mod_eq_of_lt (by omega)

end

end RvvmHal.DeviceTree
