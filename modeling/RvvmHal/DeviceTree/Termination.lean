import RvvmHal.DeviceTree.Progress

/-!
# The walks end

Each walk, with what it does at the beginning of a node, is brought under the rules for walks: it
goes on after the name (`Skips`), and its calls return if they do not wrap around either. The main
result is `walks_end`; `walk_stuck` is a blob on which a walk does not end.
-/

namespace RvvmHal.DeviceTree

open Bytes CString Loop

variable {fdt : Fdt}

/-! ## The beginning of a node -/

/-- Where `skip_name` goes. -/
theorem skipName_eq_some {off next : ℕ} (h : skipName fdt off = some next) :
    ∃ q, nameNul fdt off = some q ∧ q < 2 ^ 32 ∧ next = (q + 4) % 2 ^ 32 / 4 * 4 := by
  obtain ⟨q, hq, rfl⟩ := Option.map_eq_some_iff.1 h
  refine ⟨q, hq, lt_of_scan (Nat.mod_lt _ (by omega)) hq, ?_⟩
  rw [Word.and_not3 (Nat.mod_lt _ (by omega)), Nat.mod_add_mod]

/-- Where the step over a name in `virtio_find_fdt` goes. -/
theorem virtioSkip_eq_some {off next : ℕ} (h : virtioSkip fdt off = some next) :
    ∃ q, virtioNul fdt off = some q ∧ q < 2 ^ 32 ∧ next = (q + 4) % 2 ^ 32 / 4 * 4 := by
  obtain ⟨q, hq, rfl⟩ := Option.map_eq_some_iff.1 h
  refine ⟨q, hq, lt_of_scan (Nat.mod_lt _ (by omega)) hq, ?_⟩
  rw [Word.and_not3 (Nat.mod_lt _ (by omega))]

/-- The step over a name in `virtio_find_fdt` always ends, at the end of the block if not before. -/
theorem virtioSkip_returns (off : ℕ) : ∃ next, virtioSkip fdt off = some next := by
  have hend : inName fdt fdt.structSize = false := decide_eq_false fun h => Nat.lt_irrefl _ h.1
  obtain ⟨q, hq⟩ := scan_returns (Nat.mod_lt (off + 4) (by omega)) fdt.structSize_lt hend
  exact ⟨_, by rw [virtioSkip, virtioNul, hq, Option.map_some]⟩

section

variable {α ρ : Type*} {a : α} {t : ℕ × α}

theorem goOn_eq_next {skip : Option ℕ} (h : (goOn skip a : Iter (ℕ × α) ρ) = .next t) :
    skip = some t.1 := by
  cases skip with
  | none => cases h
  | some next =>
    cases h
    rfl

theorem goOn_ne_hang {skip : Option ℕ} (h : ∃ next, skip = some next) :
    (goOn skip a : Iter (ℕ × α) ρ) ≠ .hang := by
  obtain ⟨next, rfl⟩ := h
  nofun

end

theorem skips_nextNodeBegin (nul : ℕ → Option ℕ) : Skips nul nextNodeBegin := by
  intro off a t h
  cases h

variable (fdt) in
theorem skips_findCompatibleBegin (compat : List UInt8) :
    Skips (nameNul fdt) (findCompatibleBegin fdt compat) := by
  intro off a t h
  unfold findCompatibleBegin at h
  split at h
  · cases h
  · exact skipName_eq_some (goOn_eq_next h)
  · cases h

variable (fdt) in
theorem skips_findNodeNamedBegin (name : List UInt8) :
    Skips (nameNul fdt) (findNodeNamedBegin fdt name) := by
  intro off a t h
  unfold findNodeNamedBegin at h
  split at h
  · cases h
  · exact skipName_eq_some (goOn_eq_next h)

variable (fdt) in
theorem skips_countCpuNodesBegin : Skips (nameNul fdt) (countCpuNodesBegin fdt) := by
  intro off count t h
  unfold countCpuNodesBegin at h
  split at h
  · split at h
    · exact skipName_eq_some (goOn_eq_next h)
    · exact skipName_eq_some (goOn_eq_next h)
  · exact skipName_eq_some (goOn_eq_next h)
  · cases h

variable (fdt) in
theorem skips_virtioFindFdtBegin {ω : Type*} (mmioR32 : ℕ → ω → ℕ × ω)
    (cb : ℕ → ℕ → ω → Bool × ω) :
    Skips (virtioNul fdt) (virtioFindFdtBegin fdt mmioR32 cb) := by
  intro walk w t h
  unfold virtioFindFdtBegin at h
  dsimp only at h
  split at h
  · cases h
  · exact virtioSkip_eq_some (goOn_eq_next h)
  · split at h
    · cases h
    · exact virtioSkip_eq_some (goOn_eq_next h)
    · split at h
      · split at h
        · cases h
        · exact virtioSkip_eq_some (goOn_eq_next h)
      · exact virtioSkip_eq_some (goOn_eq_next h)

/-! ## Calls at a node -/

/-- A property that is found has a length of 32 bits. -/
theorem len_lt_of_fdtNodeProp {nodeOff list len : ℕ} {name : List UInt8}
    (h : fdtNodeProp fdt nodeOff name = some (some (list, len))) : len < 2 ^ 32 := by
  obtain ⟨start, -, hloop⟩ := Option.bind_eq_some_iff.1 h
  obtain ⟨off, -, hstop⟩ := exists_stop_of_iterate hloop
  unfold nodePropBody at hstop
  dsimp only at hstop
  repeat' split at hstop
  all_goals cases hstop
  exact fdtReadBe32_lt _ _

/-- The string list in the property `compatible` of the node at `off`, if it has one, can be
walked. -/
def CompatNoWrap (fdt : Fdt) (off : ℕ) : Prop :=
  ∀ list len, fdtNodeProp fdt off (cstr "compatible") = some (some (list, len)) →
    ListNoWrap fdt list len

/-- The search for a string in the property `compatible`, for any comparison. -/
theorem compatible_returns {off : ℕ} (hit : ℕ → ℕ → Bool) (hnul : HasNul fdt)
    (hprop : PropNoWrap fdt off (cstr "compatible")) (hlist : CompatNoWrap fdt off) :
    ∃ r, ((fdtNodeProp fdt off (cstr "compatible")).bind fun
      | none => some false
      | some (list, len) => listHas fdt (hit list) list len) = some r := by
  obtain ⟨r, hr⟩ := fdtNodeProp_returns hnul hprop
  rw [hr, Option.bind_some]
  cases r with
  | none => exact ⟨false, rfl⟩
  | some p => exact listHas_returns (len_lt_of_fdtNodeProp hr) (hlist _ _ hr)

theorem hasCompatible_returns {off : ℕ} (compat : List UInt8) (hnul : HasNul fdt)
    (hprop : PropNoWrap fdt off (cstr "compatible")) (hlist : CompatNoWrap fdt off) :
    ∃ r, hasCompatible fdt compat off = some r :=
  compatible_returns (fun list pos => strEq fdt.structBlob (list + pos) compat) hnul hprop hlist

theorem isVirtio_returns {off : ℕ} (hnul : HasNul fdt)
    (hprop : PropNoWrap fdt off (cstr "compatible")) (hlist : CompatNoWrap fdt off) :
    ∃ r, isVirtio fdt off = some r :=
  compatible_returns (needleEq fdt) hnul hprop hlist

theorem fdtNodeReg64_returns {off : ℕ} (idx : ℕ) (hnul : HasNul fdt)
    (hprop : PropNoWrap fdt off (cstr "reg")) : ∃ r, fdtNodeReg64 fdt off idx = some r := by
  obtain ⟨r, hr⟩ := fdtNodeProp_returns hnul hprop
  exact ⟨_, by rw [fdtNodeReg64, hr, Option.map_some]⟩

theorem findCompatibleBegin_ne_hang {off : ℕ} {a : Unit} (compat : List UInt8) (hnul : HasNul fdt)
    (hprop : PropNoWrap fdt off (cstr "compatible")) (hlist : CompatNoWrap fdt off) :
    findCompatibleBegin fdt compat off a ≠ .hang := by
  obtain ⟨r, hr⟩ := hasCompatible_returns compat hnul hprop hlist
  rw [findCompatibleBegin, hr]
  cases r with
  | true => nofun
  | false => exact goOn_ne_hang (hnul.skipName off)

theorem findNodeNamedBegin_ne_hang {off : ℕ} {a : Unit} (name : List UInt8) (hnul : HasNul fdt) :
    findNodeNamedBegin fdt name off a ≠ .hang := by
  unfold findNodeNamedBegin
  split
  · nofun
  · exact goOn_ne_hang (hnul.skipName off)

theorem countCpuNodesBegin_ne_hang {off count : ℕ} (hnul : HasNul fdt)
    (hprop : PropNoWrap fdt off (cstr "device_type")) : countCpuNodesBegin fdt off count ≠ .hang := by
  obtain ⟨r, hr⟩ := fdtNodeProp_returns hnul hprop
  unfold countCpuNodesBegin
  rw [hr]
  cases r with
  | none => exact goOn_ne_hang (hnul.skipName off)
  | some p =>
    dsimp only
    split
    · exact goOn_ne_hang (hnul.skipName off)
    · exact goOn_ne_hang (hnul.skipName off)

theorem virtioFindFdtBegin_ne_hang {ω : Type*} {mmioR32 : ℕ → ω → ℕ × ω}
    {cb : ℕ → ℕ → ω → Bool × ω} {off : ℕ} {w : ω} (hnul : HasNul fdt)
    (hprop : PropNoWrap fdt off (cstr "compatible")) (hlist : CompatNoWrap fdt off)
    (hreg : PropNoWrap fdt off (cstr "reg")) :
    virtioFindFdtBegin fdt mmioR32 cb off w ≠ .hang := by
  obtain ⟨r, hr⟩ := isVirtio_returns hnul hprop hlist
  obtain ⟨reg, hreg⟩ := fdtNodeReg64_returns 0 hnul hreg
  have hgo : ∀ w : ω, (goOn (virtioSkip fdt off) w : Iter (ℕ × ω) (ℕ × ω)) ≠ .hang :=
    fun w => goOn_ne_hang (virtioSkip_returns off)
  unfold virtioFindFdtBegin
  rw [hr, hreg]
  cases r with
  | false => exact hgo w
  | true =>
    cases reg with
    | none => exact hgo w
    | some p =>
      dsimp only
      split
      · split
        · nofun
        · exact hgo _
      · exact hgo _

/-! ## Main result -/

/-- The calls of `fdt_node_prop` for `name`, at the nodes that the walk visits, do not wrap
around. -/
def CallsNoWrap {α ρ : Type*} (fdt : Fdt) (name : List UInt8) (body : ℕ × α → Iter (ℕ × α) ρ)
    (s : ℕ × α) : Prop :=
  ∀ off a, Visits body s (off, a) → tokenAt fdt off = FDT_BEGIN_NODE → PropNoWrap fdt off name

/-- The string lists in `compatible`, at the nodes that the walk visits, can be walked. -/
def ListsNoWrap {α ρ : Type*} (fdt : Fdt) (body : ℕ × α → Iter (ℕ × α) ρ) (s : ℕ × α) : Prop :=
  ∀ off a, Visits body s (off, a) → tokenAt fdt off = FDT_BEGIN_NODE → CompatNoWrap fdt off

/-- **The walks end if no step wraps around.** For every blob in which the names end, and for each
of the walks `fdt_next_node`, `fdt_node_prop`, `fdt_find_compatible`, `fdt_find_node_named`,
`count_cpu_nodes` and `virtio_find_fdt`: the offset grows with every step exactly if no step wraps
around, and if none does, neither here nor in the calls at the nodes, the walk returns. -/
theorem walks_end (hnul : HasNul fdt) {ω : Type*} (mmioR32 : ℕ → ω → ℕ × ω)
    (cb : ℕ → ℕ → ω → Bool × ω) (w : ω) :
    (∀ off,
      (Increases Prod.fst (nextNodeBody fdt) (off, ()) ↔
        StepsNoWrap fdt (nameNul fdt) Prod.fst (nextNodeBody fdt) (off, ())) ∧
      (StepsNoWrap fdt (nameNul fdt) Prod.fst (nextNodeBody fdt) (off, ()) →
        ∃ r, fdtNextNode fdt off = some r)) ∧
    (∀ nodeOff name,
      ((∀ start, skipName fdt nodeOff = some start →
        Increases id (nodePropBody fdt name) start) ↔ PropNoWrap fdt nodeOff name) ∧
      (PropNoWrap fdt nodeOff name → ∃ r, fdtNodeProp fdt nodeOff name = some r)) ∧
    (∀ compat,
      (Increases Prod.fst (findCompatibleBody fdt compat) (0, ()) ↔
        StepsNoWrap fdt (nameNul fdt) Prod.fst (findCompatibleBody fdt compat) (0, ())) ∧
      (StepsNoWrap fdt (nameNul fdt) Prod.fst (findCompatibleBody fdt compat) (0, ()) →
        CallsNoWrap fdt (cstr "compatible") (findCompatibleBody fdt compat) (0, ()) →
        ListsNoWrap fdt (findCompatibleBody fdt compat) (0, ()) →
        ∃ r, fdtFindCompatible fdt compat = some r)) ∧
    (∀ name,
      (Increases Prod.fst (findNodeNamedBody fdt name) (0, ()) ↔
        StepsNoWrap fdt (nameNul fdt) Prod.fst (findNodeNamedBody fdt name) (0, ())) ∧
      (StepsNoWrap fdt (nameNul fdt) Prod.fst (findNodeNamedBody fdt name) (0, ()) →
        ∃ r, fdtFindNodeNamed fdt name = some r)) ∧
    ((Increases Prod.fst (countCpuNodesBody fdt) (0, 0) ↔
        StepsNoWrap fdt (nameNul fdt) Prod.fst (countCpuNodesBody fdt) (0, 0)) ∧
      (StepsNoWrap fdt (nameNul fdt) Prod.fst (countCpuNodesBody fdt) (0, 0) →
        CallsNoWrap fdt (cstr "device_type") (countCpuNodesBody fdt) (0, 0) →
        ∃ r, countCpuNodes fdt = some r)) ∧
    (Increases Prod.fst (virtioFindFdtBody fdt mmioR32 cb) (0, w) ↔
        StepsNoWrap fdt (virtioNul fdt) Prod.fst (virtioFindFdtBody fdt mmioR32 cb) (0, w)) ∧
      (StepsNoWrap fdt (virtioNul fdt) Prod.fst (virtioFindFdtBody fdt mmioR32 cb) (0, w) →
        CallsNoWrap fdt (cstr "compatible") (virtioFindFdtBody fdt mmioR32 cb) (0, w) →
        CallsNoWrap fdt (cstr "reg") (virtioFindFdtBody fdt mmioR32 cb) (0, w) →
        ListsNoWrap fdt (virtioFindFdtBody fdt mmioR32 cb) (0, w) →
        ∃ r, virtioFindFdt fdt mmioR32 cb w = some r) := by
  refine ⟨fun off => ?_, fun nodeOff name => ?_, fun compat => ?_, fun name => ?_, ?_, ?_⟩
  · obtain ⟨hiff, hret⟩ := walk_ends fdt (skips_nextNodeBegin (nameNul fdt)) (fun _ => uint32Max)
      (off, ()) (.inr fun _ _ _ => nofun)
    exact ⟨hiff, fun h => hret h fun _ _ _ _ => nofun⟩
  · exact ⟨forall₂_congr fun _ _ => nodeProp_increases_iff, fdtNodeProp_returns hnul⟩
  · obtain ⟨hiff, hret⟩ := walk_ends fdt (skips_findCompatibleBegin fdt compat)
      (fun _ => uint32Max) (0, ()) (.inl rfl)
    exact ⟨hiff, fun h hcalls hlists => hret h fun off a hv htok =>
      findCompatibleBegin_ne_hang compat hnul (hcalls off a hv htok) (hlists off a hv htok)⟩
  · obtain ⟨hiff, hret⟩ := walk_ends fdt (skips_findNodeNamedBegin fdt name)
      (fun _ => uint32Max) (0, ()) (.inl rfl)
    exact ⟨hiff, fun h => hret h fun _ _ _ _ => findNodeNamedBegin_ne_hang name hnul⟩
  · obtain ⟨hiff, hret⟩ := walk_ends fdt (skips_countCpuNodesBegin fdt) id (0, 0) (.inl rfl)
    exact ⟨hiff, fun h hcalls => hret h fun off a hv htok =>
      countCpuNodesBegin_ne_hang hnul (hcalls off a hv htok)⟩
  · obtain ⟨hiff, hret⟩ := walk_ends fdt (skips_virtioFindFdtBegin fdt mmioR32 cb)
      (fun w => (0, w)) (0, w) (.inl rfl)
    exact ⟨hiff, fun h hcompat hreg hlists => hret h fun off a hv htok =>
      virtioFindFdtBegin_ne_hang hnul (hcompat off a hv htok) (hlists off a hv htok)
        (hreg off a hv htok)⟩

/-- A blob with a root that has nothing in it. -/
def leafBlob : Fdt where
  structBlob i := [0, 0, 0, 1, 0, 0, 0, 0, 0, 0, 0, 2, 0, 0, 0, 9].getD i 0
  strings _ := 0
  structSize := 16
  structSize_lt := by decide

/-- The walk over the leaf goes from the root to its end, and to the end of the block. -/
theorem visits_leafBlob {t : ℕ × Unit}
    (h : Visits (findNodeNamedBody leafBlob (cstr "cpus")) (0, ()) t) :
    t = (0, ()) ∨ t = (8, ()) ∨ t = (12, ()) := by
  have h₀ : findNodeNamedBody leafBlob (cstr "cpus") (0, ()) = .next (8, ()) := rfl
  have h₈ : findNodeNamedBody leafBlob (cstr "cpus") (8, ()) = .next (12, ()) := rfl
  have h₁₂ : findNodeNamedBody leafBlob (cstr "cpus") (12, ()) = .stop uint32Max := rfl
  refine h.invariant (I := fun t => t = (0, ()) ∨ t = (8, ()) ∨ t = (12, ())) (.inl rfl) ?_
  rintro t t' (rfl | rfl | rfl) hb
  · rw [h₀] at hb
    cases hb
    exact .inr (.inl rfl)
  · rw [h₈] at hb
    cases hb
    exact .inr (.inr rfl)
  · rw [h₁₂] at hb
    cases hb

theorem increases_leafBlob :
    Increases Prod.fst (findNodeNamedBody leafBlob (cstr "cpus")) (0, ()) := by
  intro t t' hv hb
  rcases visits_leafBlob hv with rfl | rfl | rfl
  · cases hb
    decide
  · cases hb
    decide
  · cases hb

/-- The walk over the leaf ends. -/
theorem walks_end_leafBlob : ∃ r, fdtFindNodeNamed leafBlob (cstr "cpus") = some r := by
  have hnul : HasNul leafBlob := ⟨0, by decide, rfl⟩
  obtain ⟨-, -, -, hnamed, -⟩ :=
    walks_end hnul (fun _ w => (0, w)) (fun _ _ w => (false, w)) ()
  obtain ⟨hiff, hret⟩ := hnamed (cstr "cpus")
  exact hret (hiff.1 increases_leafBlob)

/-- A blob whose root has a property of length `0xFFFFFFF4`. -/
def stuckBlob : Fdt where
  structBlob i :=
    [0, 0, 0, 1, 0, 0, 0, 0, 0, 0, 0, 3, 0xFF, 0xFF, 0xFF, 0xF4, 0, 0, 0, 0].getD i 0
  strings _ := 0
  structSize := 20
  structSize_lt := by decide

/-- **A walk that does not end**: the step over the property has length 0, and the walk stays at
its offset for any number of rounds. -/
theorem walk_stuck :
    HasNul stuckBlob ∧
      ¬Increases Prod.fst (findNodeNamedBody stuckBlob (cstr "cpus")) (0, ()) ∧
        ∀ n, iterate (findNodeNamedBody stuckBlob (cstr "cpus")) n (0, ()) = none := by
  have h₀ : findNodeNamedBody stuckBlob (cstr "cpus") (0, ()) = .next (8, ()) := rfl
  have h₈ : findNodeNamedBody stuckBlob (cstr "cpus") (8, ()) = .next (8, ()) := rfl
  have hv : Visits (findNodeNamedBody stuckBlob (cstr "cpus")) (0, ()) (8, ()) := .next .start h₀
  exact ⟨⟨0, by decide, rfl⟩, fun hinc => Nat.lt_irrefl 8 (hinc _ _ hv h₈),
    iterate_eq_none_of_visits hv h₈⟩

end RvvmHal.DeviceTree
