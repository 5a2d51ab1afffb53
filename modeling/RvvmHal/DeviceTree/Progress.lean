import RvvmHal.DeviceTree.Walk

/-!
# Progress of the token walks

Does every walk come to an end, whatever the blob holds? A round goes on from the offset of a token
to that of the next, and every sum on the way is reduced to 32 bits. `NoWrap` says of a token that
the step over it does not wrap around: the walks move forward exactly as long as the tokens they
step over are such, and a walk that moves forward returns (`walk_ends`, and for the properties of
one node `nodeProp_increases_iff` and `fdtNodeProp_returns`).
-/

namespace RvvmHal.DeviceTree

open Bytes CString Loop

variable (fdt : Fdt)

/-! ## Steps that do not wrap around -/

/-- The token at `off`. -/
abbrev tokenAt (off : ℕ) : ℕ := fdtReadBe32 fdt.structBlob off

/-- The length of the step over the property at `off`. -/
def propStride (off : ℕ) : ℕ :=
  (12 + padded (fdtReadBe32 fdt.structBlob ((off + 4) % 2 ^ 32))) % 2 ^ 32

/-- The step over the token at `off` does not wrap around. The name of a node ends at `nul off`. -/
structure NoWrap (nul : ℕ → Option ℕ) (off : ℕ) : Prop where
  prop : tokenAt fdt off = FDT_PROP → 0 < propStride fdt off ∧ off + propStride fdt off < 2 ^ 32
  cell : tokenAt fdt off = FDT_END_NODE ∨ tokenAt fdt off = FDT_NOP → off + 4 < 2 ^ 32
  name : tokenAt fdt off = FDT_BEGIN_NODE → ∀ q, nul off = some q → off ≤ q ∧ q + 4 < 2 ^ 32

/-- The tokens over which the loop steps are such that the step does not wrap around. -/
def StepsNoWrap {σ ρ : Type*} (nul : ℕ → Option ℕ) (offset : σ → ℕ) (body : σ → Iter σ ρ) (s : σ) :
    Prop :=
  ∀ t t', Visits body s t → body t = .next t' → NoWrap fdt nul (offset t)

variable {fdt}

/-- A sum reduced to 32 bits is larger than its first term if it is not reduced at all. -/
theorem lt_add_mod_iff {off stride : ℕ} (hoff : off < 2 ^ 32) (hstride : stride < 2 ^ 32) :
    off < (off + stride) % 2 ^ 32 ↔ 0 < stride ∧ off + stride < 2 ^ 32 := by
  omega

theorem add_propStride (off : ℕ) :
    (off + (12 + padded (fdtReadBe32 fdt.structBlob ((off + 4) % 2 ^ 32)))) % 2 ^ 32 =
      (off + propStride fdt off) % 2 ^ 32 := by
  rw [propStride, Nat.add_mod_mod]

theorem propStride_lt (off : ℕ) : propStride fdt off < 2 ^ 32 := Nat.mod_lt _ (by omega)

theorem noWrap_of_prop {nul : ℕ → Option ℕ} {off : ℕ} (h : tokenAt fdt off = FDT_PROP) :
    NoWrap fdt nul off ↔ 0 < propStride fdt off ∧ off + propStride fdt off < 2 ^ 32 := by
  refine ⟨fun hn => hn.prop h, fun hp => ⟨fun _ => hp, fun hc => ?_, fun hb => ?_⟩⟩
  · rw [h] at hc
    rcases hc with hc | hc <;> cases hc
  · rw [h] at hb
    cases hb

theorem noWrap_of_cell {nul : ℕ → Option ℕ} {off : ℕ}
    (h : tokenAt fdt off = FDT_END_NODE ∨ tokenAt fdt off = FDT_NOP) :
    NoWrap fdt nul off ↔ off + 4 < 2 ^ 32 := by
  refine ⟨fun hn => hn.cell h, fun hc => ⟨fun hp => ?_, fun _ => hc, fun hb => ?_⟩⟩
  · rw [hp] at h
    rcases h with h | h <;> cases h
  · rw [hb] at h
    rcases h with h | h <;> cases h

theorem noWrap_of_beginNode {nul : ℕ → Option ℕ} {off : ℕ}
    (h : tokenAt fdt off = FDT_BEGIN_NODE) :
    NoWrap fdt nul off ↔ ∀ q, nul off = some q → off ≤ q ∧ q + 4 < 2 ^ 32 := by
  refine ⟨fun hn => hn.name h, fun hq => ⟨fun hp => ?_, fun hc => ?_, fun _ => hq⟩⟩
  · rw [h] at hp
    cases hp
  · rw [h] at hc
    rcases hc with hc | hc <;> cases hc

/-! ## The properties of one node -/

/-- The rounds of `fdt_node_prop` that go on. -/
theorem nodePropBody_eq_next {name : List UInt8} {off off' : ℕ}
    (h : nodePropBody fdt name off = .next off') :
    off < fdt.structSize ∧ (tokenAt fdt off = FDT_NOP ∧ off' = (off + 4) % 2 ^ 32 ∨
      tokenAt fdt off = FDT_PROP ∧ off' = (off + propStride fdt off) % 2 ^ 32) := by
  unfold nodePropBody at h
  dsimp only at h
  split at h
  · next hlt =>
    refine ⟨hlt, ?_⟩
    split at h
    · cases h
    · split at h
      · next hnop =>
        cases h
        exact .inl ⟨hnop, rfl⟩
      · split at h
        · next hprop =>
          split at h
          · cases h
          · cases h
            exact .inr ⟨hprop, add_propStride off⟩
        · cases h
  · cases h

theorem nodePropBody_ne_hang {name : List UInt8} {off : ℕ} : nodePropBody fdt name off ≠ .hang := by
  unfold nodePropBody
  dsimp only
  repeat' split
  all_goals nofun

theorem nodePropBody_lt_iff {name : List UInt8} {nul : ℕ → Option ℕ} {off off' : ℕ}
    (h : nodePropBody fdt name off = .next off') : off < off' ↔ NoWrap fdt nul off := by
  have hsize := fdt.structSize_lt
  obtain ⟨hlt, ⟨htok, rfl⟩ | ⟨htok, rfl⟩⟩ := nodePropBody_eq_next h
  · rw [noWrap_of_cell (.inr htok), lt_add_mod_iff (by omega) (by omega)]
    omega
  · rw [noWrap_of_prop htok, lt_add_mod_iff (by omega) (propStride_lt off)]

/-- **The walk over a node's properties** moves forward exactly if no step wraps around. -/
theorem nodeProp_increases_iff {name : List UInt8} {nul : ℕ → Option ℕ} {start : ℕ} :
    Increases id (nodePropBody fdt name) start ↔
      StepsNoWrap fdt nul id (nodePropBody fdt name) start :=
  ⟨fun h t t' hv hb => (nodePropBody_lt_iff hb).1 (h t t' hv hb),
    fun h t t' hv hb => (nodePropBody_lt_iff hb).2 (h t t' hv hb)⟩

/-- The walk over the properties of the node at `nodeOff` does not wrap around. -/
def PropNoWrap (fdt : Fdt) (nodeOff : ℕ) (name : List UInt8) : Prop :=
  ∀ start, skipName fdt nodeOff = some start →
    StepsNoWrap fdt (nameNul fdt) id (nodePropBody fdt name) start

/-- Every name that is read ends at some NUL. -/
def HasNul (fdt : Fdt) : Prop := ∃ q < 2 ^ 32, fdt.structBlob q = 0

theorem HasNul.nameNul (h : HasNul fdt) (off : ℕ) : ∃ q, nameNul fdt off = some q := by
  obtain ⟨q, hq, hnul⟩ := h
  exact scan_returns (Nat.mod_lt _ (by omega)) hq (decide_eq_false (not_not.2 hnul))

theorem HasNul.skipName (h : HasNul fdt) (off : ℕ) : ∃ next, skipName fdt off = some next := by
  obtain ⟨q, hq⟩ := h.nameNul off
  exact ⟨_, by rw [DeviceTree.skipName, hq, Option.map_some]⟩

theorem fdtNodeProp_returns {nodeOff : ℕ} {name : List UInt8} (hnul : HasNul fdt)
    (h : PropNoWrap fdt nodeOff name) : ∃ r, fdtNodeProp fdt nodeOff name = some r := by
  obtain ⟨start, hstart⟩ := hnul.skipName nodeOff
  rw [fdtNodeProp, hstart, Option.bind_some]
  refine loop32_of_increases (nodeProp_increases_iff.2 (h start hstart)) (fun t t' hb => ?_)
    fun _ _ => nodePropBody_ne_hang
  obtain ⟨-, ⟨-, rfl⟩ | ⟨-, rfl⟩⟩ := nodePropBody_eq_next hb
  · exact Nat.mod_lt _ (by omega)
  · exact Nat.mod_lt _ (by omega)

/-! ## A list of strings -/

/-- The loop over a list of strings does not wrap around: the list is not as long as a list can be,
or ends with a NUL. -/
def ListNoWrap (fdt : Fdt) (list len : ℕ) : Prop :=
  len < 2 ^ 32 - 1 ∨ fdt.structBlob (list + (len - 1)) = 0

theorem inString_scan {list len pos : ℕ} (hlen : len < 2 ^ 32) (hpos : pos < len)
    (h : ListNoWrap fdt list len) :
    ∃ q, scan (inString fdt list len) pos = some q ∧ pos ≤ q ∧ q + 1 < 2 ^ 32 := by
  rcases h with h | h
  · have hend : inString fdt list len len = false :=
      decide_eq_false fun h => Nat.lt_irrefl len h.1
    obtain ⟨q, hq, h₁, h₂, -⟩ := scan_first (Nat.le_of_lt hpos) hlen hend
    exact ⟨q, hq, h₁, by omega⟩
  · have hend : inString fdt list len (len - 1) = false := decide_eq_false fun h' => h'.2 h
    obtain ⟨q, hq, h₁, h₂, -⟩ := scan_first (Nat.le_sub_one_of_lt hpos) (by omega) hend
    exact ⟨q, hq, h₁, by omega⟩

theorem listHas_returns {hit : ℕ → Bool} {list len : ℕ} (hlen : len < 2 ^ 32)
    (h : ListNoWrap fdt list len) : ∃ r, listHas fdt hit list len = some r := by
  refine loop32_returns id fun pos _ => ?_
  by_cases hpos : pos < len
  · cases hc : hit pos with
    | true => exact .inl ⟨true, by rw [listBody, if_pos hpos, hc]; rfl⟩
    | false =>
      obtain ⟨q, hq, h₁, h₂⟩ := inString_scan hlen hpos h
      refine .inr ⟨q + 1, ?_, Nat.lt_succ_of_le h₁, h₂⟩
      rw [listBody, if_pos hpos, hc, hq]
      exact congrArg Iter.next (Nat.mod_eq_of_lt h₂)
  · exact .inl ⟨false, by rw [listBody, if_neg hpos]⟩

/-! ## The loop over the tokens -/

section

variable {α ρ : Type*} {onBegin : ℕ → α → Iter (ℕ × α) ρ} {done : α → ρ} {off : ℕ} {a : α}
  {t : ℕ × α} {nul : ℕ → Option ℕ}

/-- The rounds that go on. -/
theorem walkBody_eq_next (h : walkBody fdt onBegin done (off, a) = .next t) :
    off < fdt.structSize ∧ (tokenAt fdt off = FDT_BEGIN_NODE ∧ onBegin off a = .next t ∨
      (tokenAt fdt off = FDT_END_NODE ∨ tokenAt fdt off = FDT_NOP) ∧ t.1 = (off + 4) % 2 ^ 32 ∨
      tokenAt fdt off = FDT_PROP ∧ t.1 = (off + propStride fdt off) % 2 ^ 32) := by
  unfold walkBody at h
  dsimp only at h
  split at h
  · next hlt =>
    refine ⟨hlt, ?_⟩
    split at h
    · next hbegin => exact .inl ⟨hbegin, h⟩
    · split at h
      · next hcell =>
        cases h
        exact .inr (.inl ⟨hcell, rfl⟩)
      · split at h
        · next hprop =>
          cases h
          refine .inr (.inr ⟨hprop, ?_⟩)
          rw [← add_propStride, ← Nat.add_assoc]
          rfl
        · cases h
  · cases h

/-- The rounds whose call does not return. -/
theorem walkBody_eq_hang (h : walkBody fdt onBegin done (off, a) = .hang) :
    tokenAt fdt off = FDT_BEGIN_NODE ∧ onBegin off a = .hang := by
  unfold walkBody at h
  dsimp only at h
  split at h
  · split at h
    · next hbegin => exact ⟨hbegin, h⟩
    · split at h
      · cases h
      · split at h <;> cases h
  · cases h

/-- At the beginning of a node, the walk goes on after the name that ends at `nul off`, if it goes
on at all. -/
def Skips (nul : ℕ → Option ℕ) (onBegin : ℕ → α → Iter (ℕ × α) ρ) : Prop :=
  ∀ ⦃off a t⦄, onBegin off a = .next t →
    ∃ q, nul off = some q ∧ q < 2 ^ 32 ∧ t.1 = (q + 4) % 2 ^ 32 / 4 * 4

theorem lt_of_walkBody (hskips : Skips nul onBegin)
    (h : walkBody fdt onBegin done (off, a) = .next t) : t.1 < 2 ^ 32 := by
  obtain ⟨-, ⟨-, hb⟩ | ⟨-, ht⟩ | ⟨-, ht⟩⟩ := walkBody_eq_next h
  · obtain ⟨q, -, -, ht⟩ := hskips hb
    omega
  · exact ht ▸ Nat.mod_lt _ (by omega)
  · exact ht ▸ Nat.mod_lt _ (by omega)

/-- The offsets of a walk that starts at an aligned offset are aligned. -/
theorem aligned_of_visits (hskips : Skips nul onBegin) {s : ℕ × α} (hs : s.1 % 4 = 0)
    (hv : Visits (walkBody fdt onBegin done) s t) : t.1 % 4 = 0 := by
  refine hv.invariant (I := fun t => t.1 % 4 = 0) hs fun {t t'} ht hb => ?_
  obtain ⟨-, ⟨-, hb⟩ | ⟨-, ht'⟩ | ⟨-, ht'⟩⟩ := walkBody_eq_next hb
  · obtain ⟨q, -, -, ht'⟩ := hskips hb
    omega
  · omega
  · rw [ht', propStride, padded_eq]
    omega

theorem walkBody_lt_iff (hskips : Skips nul onBegin)
    (halign : ∀ t, onBegin off a = .next t → off % 4 = 0)
    (h : walkBody fdt onBegin done (off, a) = .next t) : off < t.1 ↔ NoWrap fdt nul off := by
  have hsize := fdt.structSize_lt
  obtain ⟨hlt, ⟨htok, hb⟩ | ⟨htok, ht⟩ | ⟨htok, ht⟩⟩ := walkBody_eq_next h
  · obtain ⟨q, hq, hq32, ht⟩ := hskips hb
    have hoff := halign t hb
    rw [noWrap_of_beginNode htok, hq, ht]
    simp only [Option.some.injEq, forall_eq']
    omega
  · rw [noWrap_of_cell htok, ht, lt_add_mod_iff (by omega) (by omega)]
    omega
  · rw [noWrap_of_prop htok, ht, lt_add_mod_iff (by omega) (propStride_lt off)]

/-- **A walk moves forward exactly if no step wraps around, and then it returns**, if the calls at
the nodes it visits do. -/
theorem walk_ends (fdt : Fdt) (hskips : Skips nul onBegin) (done : α → ρ) (s : ℕ × α)
    (halign : s.1 % 4 = 0 ∨ ∀ off a t, onBegin off a ≠ .next t) :
    (Increases Prod.fst (walkBody fdt onBegin done) s ↔
      StepsNoWrap fdt nul Prod.fst (walkBody fdt onBegin done) s) ∧
    (StepsNoWrap fdt nul Prod.fst (walkBody fdt onBegin done) s →
      (∀ off a, Visits (walkBody fdt onBegin done) s (off, a) →
        tokenAt fdt off = FDT_BEGIN_NODE → onBegin off a ≠ .hang) →
      ∃ r, loop32 (walkBody fdt onBegin done) s = some r) := by
  have hiff : ∀ t t', Visits (walkBody fdt onBegin done) s t →
      walkBody fdt onBegin done t = .next t' → (t.1 < t'.1 ↔ NoWrap fdt nul t.1) := by
    intro t t' hv hb
    refine walkBody_lt_iff hskips (fun u hu => ?_) hb
    rcases halign with hs | hstop
    · exact aligned_of_visits hskips hs hv
    · exact absurd hu (hstop _ _ _)
  refine ⟨⟨fun h t t' hv hb => (hiff t t' hv hb).1 (h t t' hv hb),
    fun h t t' hv hb => (hiff t t' hv hb).2 (h t t' hv hb)⟩, fun h hlive => ?_⟩
  refine loop32_of_increases (fun t t' hv hb => (hiff t t' hv hb).2 (h t t' hv hb))
    (fun t t' hb => lt_of_walkBody hskips hb) fun t hv hb => ?_
  obtain ⟨htok, hb⟩ := walkBody_eq_hang hb
  exact hlive _ _ hv htok hb

end

end RvvmHal.DeviceTree
