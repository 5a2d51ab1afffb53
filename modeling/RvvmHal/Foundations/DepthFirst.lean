import Mathlib.Data.Fintype.Card
import Mathlib.Data.List.Nodup

/-!
# Depth-first listings

Nodes hold lists of items, and an item may lead to a node below it. A depth-first listing of a node
has each of its items in order, each followed by the listing of the node below it.

If no two items lead to the same node and none leads to the root, the route from the root to a node
is unique (`Route.unique`). What can be reached from the root is then a tree. Its depth is less than
the number of nodes, so that a recursion along it needs no more depth (`Route.depth_induction`), and
a listing of the root has every item that can be reached, once (`DepthFirst.mem_iff`,
`DepthFirst.nodup`).
-/

namespace RvvmHal

/-- Nodes `α` with items `ι`. -/
structure Branching (α ι : Type*) where
  items : α → List ι
  below : ι → Option α

namespace Branching

variable {α ι : Type*} (T : Branching α ι) (root : α)

/-- The nodes on the way from the root to a node, the last first. -/
inductive Route : α → List α → Prop
  | root : Route root []
  | step {a b : α} {i : ι} {p : List α} : Route a p → i ∈ T.items a → T.below i = some b →
      Route b (a :: p)

/-- An item that can be reached. -/
def Reaches (i : ι) : Prop := ∃ a p, T.Route root a p ∧ i ∈ T.items a

/-- The listing of a node. -/
inductive DepthFirst : α → List ι → Prop
  | node {a : α} (behind : ι → List ι)
      (some_below : ∀ i ∈ T.items a, ∀ b, T.below i = some b → DepthFirst b (behind i))
      (none_below : ∀ i ∈ T.items a, T.below i = none → behind i = []) :
      DepthFirst a ((T.items a).flatMap fun i => i :: behind i)

/-- Every item is in one place, and leads to a node of its own that is not the root. -/
structure IsTree : Prop where
  nodup : ∀ a, (T.items a).Nodup
  owner : ∀ {a b i}, i ∈ T.items a → i ∈ T.items b → a = b
  below_inj : ∀ {a b c i j}, i ∈ T.items a → j ∈ T.items b → T.below i = some c →
    T.below j = some c → i = j
  below_ne_root : ∀ {a i}, i ∈ T.items a → T.below i ≠ some root

variable {T root}

/-! ## Routes -/

namespace Route

theorem unique (hT : T.IsTree root) {a : α} {p q : List α} (hp : T.Route root a p)
    (hq : T.Route root a q) : p = q := by
  induction hp generalizing q with
  | root =>
    cases hq with
    | root => rfl
    | step _ hi hb => exact absurd hb (hT.below_ne_root hi)
  | step _ hi hb ih =>
    cases hq with
    | root => exact absurd hb (hT.below_ne_root hi)
    | step hq hj hc =>
      obtain rfl := hT.below_inj hi hj hb hc
      obtain rfl := hT.owner hi hj
      rw [ih hq]

/-- The nodes on a route have shorter routes. -/
theorem of_mem {a b : α} {p : List α} (hp : T.Route root a p) (hb : b ∈ p) :
    ∃ q, T.Route root b q ∧ q.length < p.length := by
  induction hp with
  | root => cases hb
  | @step a _ _ p hp _ _ ih =>
    rcases List.mem_cons.1 hb with rfl | hb
    · exact ⟨p, hp, Nat.lt_succ_self _⟩
    · obtain ⟨q, hq, hlt⟩ := ih hb
      exact ⟨q, hq, Nat.lt_succ_of_lt hlt⟩

theorem nodup (hT : T.IsTree root) {a : α} {p : List α} (hp : T.Route root a p) :
    (a :: p).Nodup := by
  induction hp with
  | root => exact List.nodup_singleton _
  | step hp hi hb ih =>
    refine List.nodup_cons.2 ⟨fun hmem => ?_, ih⟩
    have hp' := hp.step hi hb
    obtain ⟨q, hq, hlt⟩ := hp'.of_mem hmem
    rw [hq.unique hT hp'] at hlt
    exact Nat.lt_irrefl _ hlt

/-- **Depth.** A route is shorter than the number of nodes. -/
theorem length_lt [Fintype α] (hT : T.IsTree root) {a : α} {p : List α}
    (hp : T.Route root a p) : p.length < Fintype.card α :=
  (hp.nodup hT).length_le_card

/-- **Induction along the tree**, as a recursion to a depth goes: the depth lasts to the leaves. -/
theorem depth_induction [Fintype α] (hT : T.IsTree root) {P : ℕ → α → Prop}
    (hstep : ∀ {n a p}, T.Route root a p →
      (∀ i ∈ T.items a, ∀ b, T.below i = some b → P n b) → P (n + 1) a)
    {n : ℕ} {a : α} {p : List α} (hp : T.Route root a p) (hn : Fintype.card α ≤ n + p.length) :
    P n a := by
  induction n generalizing a p with
  | zero =>
    have := hp.length_lt hT
    omega
  | succ n ih =>
    refine hstep hp fun i hi b hb => ih (hp.step hi hb) ?_
    rw [List.length_cons]
    omega

/-- The node below an item is another one. -/
theorem below_ne (hT : T.IsTree root) {a : α} {p : List α} {i : ι} (hp : T.Route root a p)
    (hi : i ∈ T.items a) : T.below i ≠ some a :=
  fun hb => (List.nodup_cons.1 ((hp.step hi hb).nodup hT)).1 List.mem_cons_self

end Route

/-! ## Listings -/

/-- Listings of the nodes below make a listing of the node. -/
theorem exists_behind {a : α} {Q : α → List ι → Prop}
    (h : ∀ i ∈ T.items a, ∀ b, T.below i = some b → ∃ l, T.DepthFirst b l ∧ Q b l) :
    ∃ behind : ι → List ι, (∀ i ∈ T.items a, T.below i = none → behind i = []) ∧
      ∀ i ∈ T.items a, ∀ b, T.below i = some b →
        T.DepthFirst b (behind i) ∧ Q b (behind i) := by
  have hex : ∀ i, ∃ l, i ∈ T.items a → (T.below i = none → l = []) ∧
      ∀ b, T.below i = some b → T.DepthFirst b l ∧ Q b l := by
    intro i
    cases hb : T.below i with
    | none => exact ⟨[], fun _ => ⟨fun _ => rfl, fun b hb => by cases hb⟩⟩
    | some b =>
      by_cases hi : i ∈ T.items a
      · obtain ⟨l, hl⟩ := h i hi b hb
        refine ⟨l, fun _ => ⟨fun hb => (by cases hb), fun c hc => ?_⟩⟩
        rwa [← Option.some.inj hc]
      · exact ⟨[], fun hi' => absurd hi' hi⟩
  choose behind hbehind using hex
  exact ⟨behind, fun i hi => (hbehind i hi).1, fun i hi => (hbehind i hi).2⟩

namespace DepthFirst

variable {a : α} {l : List ι} {p : List α}

/-- A node has one listing. -/
theorem unique (h : T.DepthFirst a l) {l' : List ι} (h' : T.DepthFirst a l') : l = l' := by
  induction h generalizing l' with
  | @node a behind hsome hnone ih =>
    cases h' with
    | node behind' hsome' hnone' =>
      refine List.flatMap_congr fun i hi => congrArg (i :: ·) ?_
      cases hb : T.below i with
      | none => rw [hnone i hi hb, hnone' i hi hb]
      | some b => exact ih i hi b hb (hsome' i hi b hb)

/-- What a listing has is in nodes whose route goes through the node that is listed. -/
theorem exists_route (h : T.DepthFirst a l) (hp : T.Route root a p) {j : ι} (hj : j ∈ l) :
    ∃ b q, T.Route root b q ∧ (a :: p) <:+ (b :: q) ∧ j ∈ T.items b := by
  induction h generalizing p with
  | @node a behind _ hnone ih =>
    obtain ⟨i, hi, hj⟩ := List.mem_flatMap.1 hj
    rcases List.mem_cons.1 hj with rfl | hj
    · exact ⟨a, p, hp, List.suffix_refl _, hi⟩
    · cases hb : T.below i with
      | none =>
        rw [hnone i hi hb] at hj
        cases hj
      | some b =>
        obtain ⟨c, q, hq, hsuff, hj⟩ := ih i hi b hb (hp.step hi hb) hj
        exact ⟨c, q, hq, (List.suffix_cons _ _).trans hsuff, hj⟩

/-- The listing of a node that can be reached is part of that of the root. -/
theorem subset_of_route (h : T.DepthFirst root l) (hp : T.Route root a p) :
    ∃ l', T.DepthFirst a l' ∧ l' ⊆ l := by
  induction hp with
  | root => exact ⟨l, h, fun _ => id⟩
  | step _ hi hb ih =>
    obtain ⟨_, ⟨behind, hsome, _⟩, hsub⟩ := ih
    refine ⟨_, hsome _ hi _ hb, fun j hj => hsub ?_⟩
    exact List.mem_flatMap.2 ⟨_, hi, List.mem_cons_of_mem _ hj⟩

/-- **What is listed** is what can be reached. -/
theorem mem_iff (h : T.DepthFirst root l) {j : ι} : j ∈ l ↔ T.Reaches root j := by
  constructor
  · intro hj
    obtain ⟨b, q, hq, _, hj⟩ := h.exists_route .root hj
    exact ⟨b, q, hq, hj⟩
  · rintro ⟨a, p, hp, hj⟩
    obtain ⟨_, ⟨behind, _, _⟩, hsub⟩ := h.subset_of_route hp
    exact hsub (List.mem_flatMap.2 ⟨j, hj, List.mem_cons_self⟩)

/-- The items behind two items of a node are different. -/
theorem disjoint_behind (hT : T.IsTree root) (hp : T.Route root a p) {i j : ι}
    (hi : i ∈ T.items a) (hj : j ∈ T.items a) {b c : α} (hb : T.below i = some b)
    (hc : T.below j = some c) {l' : List ι} (hl : T.DepthFirst b l) (hl' : T.DepthFirst c l')
    {k : ι} (hk : k ∈ l) (hk' : k ∈ l') : i = j := by
  obtain ⟨d, q, hq, hs, hkd⟩ := hl.exists_route (hp.step hi hb) hk
  obtain ⟨d', q', hq', hs', hkd'⟩ := hl'.exists_route (hp.step hj hc) hk'
  obtain rfl := hT.owner hkd hkd'
  obtain rfl := hq.unique hT hq'
  have heq : b :: a :: p = c :: a :: p :=
    (List.suffix_of_suffix_length_le hs hs' (Nat.le_refl _)).eq_of_length rfl
  obtain rfl : b = c := (List.cons.inj heq).1
  exact hT.below_inj hi hj hb hc

/-- An item of a node is not behind one of its items. -/
theorem notMem_behind (hT : T.IsTree root) (hp : T.Route root a p) {i j : ι}
    (hi : i ∈ T.items a) (hj : j ∈ T.items a) {b : α} (hb : T.below i = some b)
    (hl : T.DepthFirst b l) : j ∉ l := by
  intro hjl
  obtain ⟨d, q, hq, hs, hjd⟩ := hl.exists_route (hp.step hi hb) hjl
  obtain rfl := hT.owner hj hjd
  obtain rfl := hp.unique hT hq
  have hle := hs.length_le
  rw [List.length_cons] at hle
  omega

/-- **Nothing is listed twice.** -/
theorem nodup (hT : T.IsTree root) (h : T.DepthFirst a l) (hp : T.Route root a p) : l.Nodup := by
  induction h generalizing p with
  | @node a behind hsome hnone ih =>
    -- the items behind an item are those of the node below it
    have hbehind : ∀ i ∈ T.items a, ∀ k ∈ behind i,
        ∃ b, T.below i = some b ∧ T.DepthFirst b (behind i) := by
      intro i hi k hk
      cases hb : T.below i with
      | none =>
        rw [hnone i hi hb] at hk
        cases hk
      | some b => exact ⟨b, rfl, hsome i hi b hb⟩
    refine List.nodup_flatMap.2 ⟨fun i hi => List.nodup_cons.2 ⟨fun hmem => ?_, ?_⟩, ?_⟩
    · obtain ⟨b, hb, hl⟩ := hbehind i hi i hmem
      exact hl.notMem_behind hT hp hi hi hb hmem
    · cases hb : T.below i with
      | none =>
        rw [hnone i hi hb]
        exact List.nodup_nil
      | some b => exact ih i hi b hb (hp.step hi hb)
    · refine (hT.nodup a).pairwise_of_forall_ne fun i hi j hj hij => ?_
      intro k hki hkj
      rcases List.mem_cons.1 hki with rfl | hki <;> rcases List.mem_cons.1 hkj with rfl | hkj
      · exact hij rfl
      · obtain ⟨b, hb, hl⟩ := hbehind j hj k hkj
        exact hl.notMem_behind hT hp hj hi hb hkj
      · obtain ⟨b, hb, hl⟩ := hbehind i hi k hki
        exact hl.notMem_behind hT hp hi hj hb hki
      · obtain ⟨b, hb, hl⟩ := hbehind i hi k hki
        obtain ⟨c, hc, hl'⟩ := hbehind j hj k hkj
        exact hij (disjoint_behind hT hp hi hj hb hc hl hl' hki hkj)

end DepthFirst

end Branching

end RvvmHal
