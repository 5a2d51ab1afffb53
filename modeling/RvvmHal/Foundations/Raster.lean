import Mathlib.Data.Set.Lattice
import Mathlib.Order.Interval.Set.Basic
import RvvmHal.Foundations.Bytes

/-!
# Pictures in memory

A picture is an array of cells of `k` bytes each, row after row. `pos` is the position of a cell in
this order and `rect` the positions of a rectangle. `paint` is what drawing does to a memory: the
cells at a set of positions take the values that a target picture `F` has there. Drawing in steps,
each true to the same target, is drawing the union (`paint_paint`, `foldl_paint`), a cell that was
drawn has the value of the target (`cell_paint_of_mem`), and everything else keeps its value
(`cell_paint_of_not_mem`, `paint_of_lt`, `paint_of_le`).
-/

namespace RvvmHal.Raster

open Bytes

/-! ## Positions -/

/-- The position of the cell in column `x` of row `y`. -/
def pos (stride x y : ℕ) : ℕ := y * stride + x

section

variable {stride x y w h X Y : ℕ}

theorem pos_mod (hx : x < stride) : pos stride x y % stride = x := by
  rw [pos, Nat.mul_add_mod_self_right, Nat.mod_eq_of_lt hx]

theorem pos_div (hx : x < stride) : pos stride x y / stride = y := by
  rw [pos, Nat.mul_comm, Nat.mul_add_div (by omega), Nat.div_eq_of_lt hx, Nat.add_zero]

/-- The position of a cell determines its column and row. -/
theorem pos_inj {x' y' : ℕ} (hx : x < stride) (hx' : x' < stride)
    (h : pos stride x y = pos stride x' y') : x = x' ∧ y = y' := by
  constructor
  · rw [← pos_mod hx, h, pos_mod hx']
  · have hdiv : pos stride x y / stride = pos stride x' y' / stride := by rw [h]
    rwa [pos_div hx, pos_div hx'] at hdiv

theorem pos_lt {height : ℕ} (hx : x < stride) (hy : y < height) :
    pos stride x y < stride * height := by
  have hle : (y + 1) * stride ≤ height * stride := Nat.mul_le_mul_right _ hy
  rw [Nat.mul_comm stride, pos]
  rw [Nat.add_mul, Nat.one_mul] at hle
  omega

/-- A picture that is not empty has at least as many cells as columns, and as rows. -/
theorem sides_le {width height : ℕ} (hwidth : width ≤ stride) (hx : x < width) (hy : y < height) :
    width ≤ stride * height ∧ height ≤ stride * height := by
  constructor
  · exact Nat.le_trans hwidth (Nat.le_mul_of_pos_right _ (Nat.zero_lt_of_lt hy))
  · exact Nat.le_mul_of_pos_left _ (Nat.lt_of_lt_of_le (Nat.zero_lt_of_lt hx) hwidth)

theorem pos_add (d : ℕ) : pos stride x (y + d) = pos stride x y + d * stride := by
  rw [pos, pos, Nat.add_mul]
  omega

/-- The positions of the rectangle with its first corner at column `x` of row `y`. -/
def rect (stride x y w h : ℕ) : Set ℕ :=
  {i | (x ≤ i % stride ∧ i % stride < x + w) ∧ y ≤ i / stride ∧ i / stride < y + h}

theorem pos_mem_rect (hX : X < stride) :
    pos stride X Y ∈ rect stride x y w h ↔ (x ≤ X ∧ X < x + w) ∧ y ≤ Y ∧ Y < y + h := by
  rw [rect, Set.mem_ofPred_eq, pos_mod hX, pos_div hX]

/-- A run of positions within a row is a rectangle one row high. -/
theorem row_eq_rect (hw : x + w ≤ stride) :
    Set.Ico (pos stride x y) (pos stride x y + w) = rect stride x y w 1 := by
  ext i
  rw [rect, Set.mem_Ico, Set.mem_ofPred_eq]
  constructor
  · rintro ⟨hle, hlt⟩
    obtain ⟨d, rfl⟩ := Nat.exists_eq_add_of_le hle
    have hd : x + d < stride := by omega
    rw [pos, Nat.add_assoc, ← pos, pos_mod hd, pos_div hd]
    omega
  · rintro ⟨⟨hx, hxw⟩, hy, hyh⟩
    have hi := Nat.div_add_mod i stride
    have hdiv : i / stride = y := by omega
    rw [hdiv, Nat.mul_comm] at hi
    rw [pos]
    omega

theorem rect_zero : rect stride x y w 0 = ∅ := by
  ext i
  simp only [rect, Set.mem_ofPred_eq, Set.mem_empty_iff_false, iff_false]
  omega

/-- A rectangle is its first row and the rest. -/
theorem rect_succ : rect stride x y w (h + 1) = rect stride x y w 1 ∪ rect stride x (y + 1) w h := by
  ext i
  simp only [rect, Set.mem_union, Set.mem_ofPred_eq]
  omega

/-- The positions of `h` rows of `w` cells, from column `x` of row `y` on. The rows may be longer than
those of the picture. -/
def rows (stride x y w h : ℕ) : Set ℕ :=
  {i | ∃ r < h, pos stride x (y + r) ≤ i ∧ i < pos stride x (y + r) + w}

theorem rows_zero : rows stride x y w 0 = ∅ := by
  ext i
  simp [rows]

theorem rows_succ : rows stride x y w (h + 1) =
    Set.Ico (pos stride x y) (pos stride x y + w) ∪ rows stride x (y + 1) w h := by
  ext i
  simp only [rows, Set.mem_union, Set.mem_Ico, Set.mem_ofPred_eq]
  constructor
  · rintro ⟨r, hr, hi⟩
    cases r with
    | zero => exact .inl hi
    | succ r => exact .inr ⟨r, by omega, by rwa [Nat.add_assoc, Nat.add_comm 1 r]⟩
  · rintro (hi | ⟨r, hr, hi⟩)
    · exact ⟨0, by omega, hi⟩
    · exact ⟨r + 1, by omega, by rwa [Nat.add_comm r 1, ← Nat.add_assoc]⟩

/-- Rows within the picture are a rectangle. -/
theorem rows_eq_rect (hw : x + w ≤ stride) : rows stride x y w h = rect stride x y w h := by
  induction h generalizing y with
  | zero => rw [rows_zero, rect_zero]
  | succ h ih => rw [rows_succ, rect_succ, row_eq_rect hw, ih]

theorem rect_subset_Iio {height : ℕ} (hx : x + w ≤ stride) (hy : y + h ≤ height) :
    rect stride x y w h ⊆ Set.Iio (stride * height) := by
  rintro i ⟨⟨hx₁, hx₂⟩, hy₁, hy₂⟩
  have hX : i % stride < stride := by omega
  have hlt := pos_lt hX (Nat.lt_of_lt_of_le hy₂ hy)
  rwa [pos, Nat.div_add_mod'] at hlt

end

/-! ## Drawing -/

/-- The cell at position `i` of the array at `base`. -/
def cell (k : ℕ) (m : Mem) (base i : ℕ) : List UInt8 := readBytes m (base + k * i) k

open Classical in
/-- The memory with the cells at the positions `S` as in the picture `F`. -/
noncomputable def paint (k base : ℕ) (S : Set ℕ) (F : ℕ → List UInt8) (m : Mem) : Mem := fun a =>
  if base ≤ a ∧ (a - base) / k ∈ S then (F ((a - base) / k)).getD ((a - base) % k) 0 else m a

variable {k base n i : ℕ} {S T : Set ℕ} {F G : ℕ → List UInt8} {m : Mem}

@[simp] theorem length_cell : (cell k m base i).length = k := length_readBytes ..

theorem paint_of_mem {a : ℕ} (ha : base ≤ a) (hS : (a - base) / k ∈ S) :
    paint k base S F m a = (F ((a - base) / k)).getD ((a - base) % k) 0 := if_pos ⟨ha, hS⟩

theorem paint_of_not_mem {a : ℕ} (h : a < base ∨ (a - base) / k ∉ S) :
    paint k base S F m a = m a := by
  refine if_neg fun hc => ?_
  rcases h with h | h
  · exact Nat.not_lt.2 hc.1 h
  · exact h hc.2

@[simp] theorem paint_empty : paint k base ∅ F m = m := by
  funext a
  exact paint_of_not_mem (.inr (Set.notMem_empty _))

/-- **Drawing in two steps**, both true to one target, is drawing the union. -/
theorem paint_paint : paint k base T F (paint k base S F m) = paint k base (S ∪ T) F m := by
  funext a
  by_cases ha : base ≤ a
  · by_cases hT : (a - base) / k ∈ T
    · rw [paint_of_mem ha hT, paint_of_mem ha (.inr hT)]
    · rw [paint_of_not_mem (.inr hT)]
      by_cases hS : (a - base) / k ∈ S
      · rw [paint_of_mem ha hS, paint_of_mem ha (.inl hS)]
      · rw [paint_of_not_mem (.inr hS), paint_of_not_mem (.inr fun h => h.elim hS hT)]
  · have hlt := Nat.lt_of_not_le ha
    rw [paint_of_not_mem (.inl hlt), paint_of_not_mem (.inl hlt), paint_of_not_mem (.inl hlt)]

/-- Only the values of the target on the positions that are drawn matter. -/
theorem paint_congr (h : ∀ i ∈ S, F i = G i) : paint k base S F m = paint k base S G m := by
  funext a
  by_cases ha : base ≤ a ∧ (a - base) / k ∈ S
  · rw [paint_of_mem ha.1 ha.2, paint_of_mem ha.1 ha.2, h _ ha.2]
  · have hout : a < base ∨ (a - base) / k ∉ S := by
      rw [← Nat.not_le]
      exact not_and_or.1 ha
    rw [paint_of_not_mem hout, paint_of_not_mem hout]

/-- **Loop rule**: a loop whose rounds draw, all true to one target, draws the union. -/
theorem foldl_paint {α : Type*} {step : Mem → α → Mem} {S : α → Set ℕ} (l : List α)
    (h : ∀ b ∈ l, ∀ m, step m b = paint k base (S b) F m) (m : Mem) :
    l.foldl step m = paint k base {i | ∃ b ∈ l, i ∈ S b} F m := by
  induction l generalizing m with
  | nil =>
    simp only [List.foldl_nil, List.not_mem_nil, false_and, exists_false, Set.ofPred_false,
      paint_empty]
  | cons b l ih =>
    rw [List.foldl_cons, h b List.mem_cons_self, ih fun c hc => h c (List.mem_cons_of_mem b hc),
      paint_paint]
    congr 1
    ext i
    simp only [Set.mem_union, Set.mem_ofPred_eq, List.mem_cons, exists_eq_or_imp]

/-- A picture at an offset of `d` cells. -/
theorem paint_shift (hk : 0 < k) (d : ℕ) :
    paint k (base + k * d) S F m =
      paint k base {i | d ≤ i ∧ i - d ∈ S} (fun i => F (i - d)) m := by
  funext a
  by_cases ha : base + k * d ≤ a
  · obtain ⟨e, rfl⟩ := Nat.exists_eq_add_of_le ha
    have hdiv : (base + k * d + e - base) / k = d + e / k := by
      rw [Nat.add_assoc, Nat.add_sub_cancel_left, Nat.mul_add_div hk]
    have hmod : (base + k * d + e - base) % k = e % k := by
      rw [Nat.add_assoc, Nat.add_sub_cancel_left, Nat.mul_add_mod_self_left]
    have hsub : base + k * d + e - (base + k * d) = e := Nat.add_sub_cancel_left ..
    by_cases hS : e / k ∈ S
    · have hmem : (base + k * d + e - base) / k ∈ {i | d ≤ i ∧ i - d ∈ S} := by
        rw [Set.mem_ofPred_eq, hdiv, Nat.add_sub_cancel_left]
        exact ⟨Nat.le_add_right .., hS⟩
      rw [paint_of_mem ha (by rwa [hsub]), paint_of_mem (by omega) hmem, hsub, hdiv, hmod,
        Nat.add_sub_cancel_left]
    · rw [paint_of_not_mem (.inr (by rwa [hsub])), paint_of_not_mem (.inr fun h => ?_)]
      rw [Set.mem_ofPred_eq, hdiv, Nat.add_sub_cancel_left] at h
      exact hS h.2
  · rw [paint_of_not_mem (.inl (Nat.lt_of_not_le ha))]
    by_cases hb : base ≤ a
    · refine (paint_of_not_mem (.inr fun h => ?_)).symm
      have hlt : (a - base) / k < d := Nat.div_lt_of_lt_mul (by omega)
      exact Nat.not_le.2 hlt h.1
    · exact (paint_of_not_mem (.inl (Nat.lt_of_not_le hb))).symm

/-- A store of a cell is drawing at one position. -/
theorem writeBytes_eq_paint {v : List UInt8} (hk : 0 < k) (hv : v.length = k) (i : ℕ) :
    writeBytes m (base + k * i) v = paint k base {i} (fun _ => v) m := by
  funext a
  by_cases ha : base + k * i ≤ a ∧ a < base + k * i + k
  · obtain ⟨e, rfl⟩ := Nat.exists_eq_add_of_le ha.1
    have he : e < k := by omega
    have hdiv : (base + k * i + e - base) / k = i := by
      rw [Nat.add_assoc, Nat.add_sub_cancel_left, Nat.mul_add_div hk, Nat.div_eq_of_lt he,
        Nat.add_zero]
    have hmod : (base + k * i + e - base) % k = e := by
      rw [Nat.add_assoc, Nat.add_sub_cancel_left, Nat.mul_add_mod_self_left, Nat.mod_eq_of_lt he]
    rw [writeBytes_of_mem _ _ _ ha.1 (by omega), paint_of_mem (by omega) hdiv, hmod,
      Nat.add_sub_cancel_left]
  · rw [writeBytes_of_not_mem _ _ _ (by omega)]
    refine (paint_of_not_mem ?_).symm
    by_cases hb : base ≤ a
    · refine .inr fun h => ha ?_
      obtain ⟨e, rfl⟩ := Nat.exists_eq_add_of_le hb
      rw [Nat.add_sub_cancel_left, Set.mem_singleton_iff] at h
      have hdm := Nat.div_add_mod e k
      have hmod := Nat.mod_lt e hk
      rw [h] at hdm
      omega
    · exact .inl (Nat.lt_of_not_le hb)

/-- Stores of one cell after the other. -/
theorem writeBytes_replicate {v : List UInt8} (hk : 0 < k) (hv : v.length = k) (n : ℕ) :
    writeBytes m base (List.replicate n v).flatten = paint k base (Set.Iio n) (fun _ => v) m := by
  induction n with
  | zero =>
    rw [List.replicate_zero, List.flatten_nil, writeBytes_nil,
      show Set.Iio 0 = (∅ : Set ℕ) from Set.Iio_bot, paint_empty]
  | succ n ih =>
    have hlen : base + k * n = base + (List.replicate n v).flatten.length := by
      rw [List.length_flatten, List.map_replicate, List.sum_replicate_nat, hv, Nat.mul_comm]
    rw [List.replicate_succ', List.flatten_append, List.flatten_singleton, ← writeBytes_append,
      ih, ← hlen, writeBytes_eq_paint hk hv, paint_paint]
    congr 1
    ext i
    simp only [Set.mem_union, Set.mem_Iio, Set.mem_singleton_iff]
    omega

/-! ## What is seen -/

theorem getElem_cell {j : ℕ} (hj : j < k) :
    (cell k m base i).getD j 0 = m (base + k * i + j) := by
  rw [cell, List.getD_eq_getElem _ _ (by rwa [length_readBytes]), getElem_readBytes]

/-- A cell that was drawn has the value of the target. -/
theorem cell_paint_of_mem (hi : i ∈ S) (hF : (F i).length = k) :
    cell k (paint k base S F m) base i = F i := by
  apply List.ext_getElem (by rw [length_cell, hF])
  intro j h₁ h₂
  have hj : j < k := by omega
  have hdiv : (base + k * i + j - base) / k = i := by
    rw [Nat.add_assoc, Nat.add_sub_cancel_left, Nat.mul_add_div (by omega), Nat.div_eq_of_lt hj,
      Nat.add_zero]
  have hmod : (base + k * i + j - base) % k = j := by
    rw [Nat.add_assoc, Nat.add_sub_cancel_left, Nat.mul_add_mod_self_left, Nat.mod_eq_of_lt hj]
  rw [← List.getD_eq_getElem _ 0 h₁, ← List.getD_eq_getElem _ 0 h₂, getElem_cell hj,
    paint_of_mem (by omega) (by rwa [hdiv]), hdiv, hmod]

/-- **Frame rule** for the cells of the picture. -/
theorem cell_paint_of_not_mem (hi : i ∉ S) :
    cell k (paint k base S F m) base i = cell k m base i := by
  refine readBytes_congr m fun a h₁ h₂ => paint_of_not_mem (.inr ?_)
  obtain ⟨e, rfl⟩ := Nat.exists_eq_add_of_le h₁
  rwa [Nat.add_assoc, Nat.add_sub_cancel_left, Nat.mul_add_div (by omega),
    Nat.div_eq_of_lt (by omega), Nat.add_zero]

/-- **Frame rule** for the bytes. -/
theorem paint_of_apart {a : ℕ} (hk : 0 < k)
    (h : ∀ i ∈ S, a < base + k * i ∨ base + k * i + k ≤ a) : paint k base S F m a = m a := by
  refine paint_of_not_mem ?_
  by_cases ha : a < base
  · exact .inl ha
  · refine .inr fun hmem => ?_
    have hdm := Nat.div_add_mod (a - base) k
    have hmod := Nat.mod_lt (a - base) hk
    have := h _ hmem
    omega

/-- **Frame rule** below the picture. -/
theorem paint_of_lt {a : ℕ} (ha : a < base) : paint k base S F m a = m a :=
  paint_of_not_mem (.inl ha)

/-- **Frame rule** above the picture. -/
theorem paint_of_le {a : ℕ} (hk : 0 < k) (hS : S ⊆ Set.Iio n) (ha : base + k * n ≤ a) :
    paint k base S F m a = m a := by
  refine paint_of_not_mem (.inr fun h => ?_)
  have hlt : (a - base) / k < n := hS h
  have hle : n ≤ (a - base) / k := (Nat.le_div_iff_mul_le hk).2 (by rw [Nat.mul_comm]; omega)
  omega

end RvvmHal.Raster
