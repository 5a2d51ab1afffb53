import RvvmHal.Foundations.InPlace
import RvvmHal.Graphics.Text

/-!
# A grid of text as a matrix

The calls of `gfx_text.c` that change the cells of a grid: `gfx_text_clear`, `gfx_text_puts` and
`gfx_text_scroll_up`. Each of them makes the same accesses to the array of the characters and to that
of the attributes, if there is one; none lies outside the cells (`within_accesses`). On the rows and
the columns they are operations on matrices (`toMatrix_accesses`), so the two arrays move together
(`text_grid`).
-/

namespace RvvmHal.Graphics

open InPlace Raster

/-! ## The accesses -/

/-- The loop of `gfx_text_clear` over an array. -/
def clearCells (cols rows : ℕ) (v : UInt8) : List (Access UInt8) := sets 0 (cols * rows % 2 ^ 32) v

/-- The stores of `gfx_text_puts` to an array; `value` is what is stored for a character. -/
def putsCells (cols : ℕ) (value : UInt8 → UInt8) : List UInt8 → (col off : ℕ) → List (Access UInt8)
  | [], _, _ => []
  | c :: s, col, off =>
    if col < cols then
      .set off (value c) :: putsCells cols value s ((col + 1) % 2 ^ 32) ((off + 1) % 2 ^ 32)
    else []

/-- The two loops of `gfx_text_scroll_up` over an array. -/
def scrollCells (cols rows lines : ℕ) (v : UInt8) : List (Access UInt8) :=
  let cellsKept := (rows - lines) * cols % 2 ^ 32
  let shift := lines * cols % 2 ^ 32
  copies cellsKept (fun i => (i + shift) % 2 ^ 32) ++
    sets cellsKept (rows * cols % 2 ^ 32 - cellsKept) v

/-- `gfx_text_scroll_up`. -/
def gfxTextScrollUp (t : GfxText) (lines : ℕ) (attrDefault : UInt8) : GfxText :=
  if lines = 0 then t
  else if lines ≥ t.rows then gfxTextClear t attrDefault
  else
    { t with
      chars := runAll (scrollCells t.cols t.rows lines 0x20) t.chars
      attrs := t.attrs.map (runAll (scrollCells t.cols t.rows lines attrDefault)) }

/-- The calls that change the cells. -/
inductive TextOp
  | clear (attrDefault : UInt8)
  | puts (col row : ℕ) (s : List UInt8) (attr : UInt8)
  | scrollUp (lines : ℕ) (attrDefault : UInt8)

namespace TextOp

/-- What a call does. -/
def call : TextOp → GfxText → GfxText
  | clear attrDefault, t => gfxTextClear t attrDefault
  | puts col row s attr, t => gfxTextPuts t col row s attr
  | scrollUp lines attrDefault, t => gfxTextScrollUp t lines attrDefault

/-- The attribute that a call is given. -/
def attr : TextOp → UInt8
  | clear attr | puts _ _ _ attr | scrollUp _ attr => attr

/-- The accesses of a call to one of the arrays of a grid. -/
def accesses (cols rows : ℕ) (blank : UInt8) (value : UInt8 → UInt8) : TextOp → List (Access UInt8)
  | clear _ => clearCells cols rows blank
  | puts col row s _ =>
    if row ≥ rows then [] else putsCells cols value s col ((row * cols + col) % 2 ^ 32)
  | scrollUp lines _ =>
    if lines = 0 then []
    else if lines ≥ rows then clearCells cols rows blank
    else scrollCells cols rows lines blank

/-- The accesses to the characters. -/
def charAccesses (op : TextOp) (t : GfxText) : List (Access UInt8) :=
  op.accesses t.cols t.rows 0x20 id

/-- The accesses to the attributes. -/
def attrAccesses (op : TextOp) (t : GfxText) : List (Access UInt8) :=
  op.accesses t.cols t.rows op.attr fun _ => op.attr

end TextOp

/-- A sequence of calls. -/
def runOps (t : GfxText) (ops : List TextOp) : GfxText := ops.foldl (fun t op => op.call t) t

/-- The character that a string puts on element `x` of the array, its place computed in 32 bits. -/
def reach (cols rows : ℕ) (p : Placed) (x : ℕ) : Option UInt8 :=
  let j := (x + 2 ^ 32 - (p.row * cols + p.col) % 2 ^ 32) % 2 ^ 32
  if p.row < rows ∧ x < 2 ^ 32 ∧ p.col + j < cols then p.str[j]? else none

section

variable {t : GfxText} {cols rows : ℕ} {blank attr : UInt8} {value : UInt8 → UInt8}
  {a : ℕ → UInt8}

theorem runAll_clearCells (v : UInt8) (a : ℕ → UInt8) (i : ℕ) :
    runAll (clearCells cols rows v) a i = if i < cols * rows % 2 ^ 32 then v else a i := by
  rw [clearCells, runAll_sets, Nat.zero_add]
  exact if_congr (by omega) rfl rfl

theorem gfxTextClear_eq (t : GfxText) (attrDefault : UInt8) :
    gfxTextClear t attrDefault =
      { t with
        chars := runAll (clearCells t.cols t.rows 0x20) t.chars
        attrs := t.attrs.map (runAll (clearCells t.cols t.rows attrDefault)) } := by
  have hrun (v : UInt8) : runAll (clearCells t.cols t.rows v) =
      fun a i => if i < t.cols * t.rows % 2 ^ 32 then v else a i :=
    funext fun a => funext fun i => runAll_clearCells v a i
  rw [hrun, hrun]
  rfl

/-- A grid without an access. -/
theorem unchanged_eq (t : GfxText) :
    { t with
      chars := runAll [] t.chars
      attrs := t.attrs.map (runAll []) } = t := by
  have hid : (runAll [] : (ℕ → UInt8) → ℕ → UInt8) = id := rfl
  rw [hid, Option.map_id]
  rfl

theorem putsFrom_eq (attr : UInt8) (s : List UInt8) (t : GfxText) (col off : ℕ) :
    putsFrom attr s t col off =
      { t with
        chars := runAll (putsCells t.cols id s col off) t.chars
        attrs := t.attrs.map (runAll (putsCells t.cols (fun _ => attr) s col off)) } := by
  induction s generalizing t col off with
  | nil => exact (unchanged_eq t).symm
  | cons c s ih =>
    rw [putsFrom]
    by_cases hcol : col < t.cols
    · rw [if_pos hcol, ih, putsCells, if_pos hcol, putsCells, if_pos hcol, Option.map_map]
      rfl
    · rw [if_neg hcol, putsCells, if_neg hcol, putsCells, if_neg hcol]
      exact (unchanged_eq t).symm

/-- **A call makes its accesses.** -/
theorem call_eq (op : TextOp) (t : GfxText) :
    op.call t =
      { t with
        chars := runAll (op.charAccesses t) t.chars
        attrs := t.attrs.map (runAll (op.attrAccesses t)) } := by
  cases op with
  | clear attrDefault => exact gfxTextClear_eq t attrDefault
  | puts col row s attr =>
    rw [TextOp.call, gfxTextPuts, TextOp.charAccesses, TextOp.attrAccesses, TextOp.accesses,
      TextOp.accesses]
    split_ifs
    · exact (unchanged_eq t).symm
    · exact putsFrom_eq ..
  | scrollUp lines attrDefault =>
    rw [TextOp.call, gfxTextScrollUp, TextOp.charAccesses, TextOp.attrAccesses, TextOp.accesses,
      TextOp.accesses]
    split_ifs
    · exact (unchanged_eq t).symm
    · exact gfxTextClear_eq t attrDefault
    · rfl

/-! ## Where the accesses are -/

/-- An element counted in 32 bits is one of the cells. -/
theorem mod_lt_cells {i : ℕ} (h : i < cols * rows) : i % 2 ^ 32 < cols * rows :=
  (Nat.mod_le i _).trans_lt h

theorem within_sets {k n m : ℕ} (v : UInt8) (h : k + n ≤ m ∨ n = 0) : Within m (sets k n v) := by
  intro x hx i hi
  obtain ⟨j, hj, rfl⟩ := List.mem_map.1 hx
  rw [List.mem_range'_1] at hj
  obtain rfl := List.mem_singleton.1 hi
  omega

theorem within_putsCells {row : ℕ} (hcols : cols < 2 ^ 32) (hrow : row < rows) (s : List UInt8)
    (col : ℕ) :
    Within (cols * rows) (putsCells cols value s col ((row * cols + col) % 2 ^ 32)) := by
  induction s generalizing col with
  | nil => exact fun x hx => absurd hx List.not_mem_nil
  | cons c s ih =>
    rw [putsCells]
    split_ifs with hcol
    · intro x hx
      rcases List.mem_cons.1 hx with rfl | hx
      · intro i hi
        rw [List.mem_singleton.1 hi]
        exact mod_lt_cells (pos_lt hcol hrow)
      · rw [Nat.mod_add_mod, Nat.add_assoc, Nat.mod_eq_of_lt (by omega : col + 1 < 2 ^ 32)] at hx
        exact ih (col + 1) x hx
    · exact fun x hx => absurd hx List.not_mem_nil

theorem within_scrollCells {lines : ℕ} (hlines : lines < rows) :
    Within (cols * rows) (scrollCells cols rows lines blank) := by
  have hsplit : (rows - lines) * cols + lines * cols = cols * rows := by
    rw [← Nat.add_mul, Nat.sub_add_cancel hlines.le, Nat.mul_comm]
  have hrows : rows * cols = cols * rows := Nat.mul_comm ..
  have hkept := Nat.mod_le ((rows - lines) * cols) (2 ^ 32)
  have hshift := Nat.mod_le (lines * cols) (2 ^ 32)
  have hall := Nat.mod_le (rows * cols) (2 ^ 32)
  refine Within.append (fun x hx i hi => ?_) (within_sets _ (by omega))
  obtain ⟨j, hj, rfl⟩ := List.mem_map.1 hx
  have hj := List.mem_range.1 hj
  rcases List.mem_cons.1 hi with rfl | hi
  · omega
  · rw [List.mem_singleton.1 hi]
    exact mod_lt_cells (by omega)

/-- **No access falls outside the cells.** -/
theorem within_accesses (hcols : 0 < rows → cols < 2 ^ 32) (op : TextOp) :
    Within (cols * rows) (op.accesses cols rows blank value) := by
  have hclear : Within (cols * rows) (clearCells cols rows blank) :=
    within_sets _ (.inl ((Nat.zero_add _).le.trans (Nat.mod_le ..)))
  have hnil : Within (cols * rows) ([] : List (Access UInt8)) :=
    fun x hx => absurd hx List.not_mem_nil
  cases op with
  | clear attrDefault => exact hclear
  | puts col row s attr =>
    rw [TextOp.accesses]
    split_ifs with hrow
    · exact hnil
    · exact within_putsCells (hcols (Nat.zero_lt_of_lt (Nat.lt_of_not_le hrow)))
        (Nat.lt_of_not_le hrow) s col
  | scrollUp lines attrDefault =>
    rw [TextOp.accesses]
    split_ifs with hzero hlines
    · exact hnil
    · exact hclear
    · exact within_scrollCells (Nat.lt_of_not_le hlines)

/-! ## What the cells hold -/

/-- A matrix of values of cells. -/
abbrev Cells (cols rows : ℕ) := Fin rows → Fin cols → UInt8

/-- An array of the cells of a grid as a matrix. -/
def toMatrix (cols rows : ℕ) (a : ℕ → UInt8) : Cells cols rows :=
  fun r c => a (pos cols c r)

/-- A string beyond the last column reaches nothing. -/
theorem reach_of_le {p : Placed} {x : ℕ} (h : cols ≤ p.col) : reach cols rows p x = none :=
  if_neg fun hin => by omega

/-- The first character of a string, and the others. -/
theorem reach_cons {col row x : ℕ} (hrow : row < rows) (hcol : col < cols)
    (c : UInt8) (s : List UInt8) :
    reach cols rows ⟨col, row, c :: s⟩ x =
      if x = (row * cols + col) % 2 ^ 32 then some c
      else reach cols rows ⟨col + 1, row, s⟩ x := by
  have hmod := Nat.mod_lt (row * cols + col) (Nat.two_pow_pos 32)
  unfold reach
  dsimp only
  by_cases hx : x = (row * cols + col) % 2 ^ 32
  · have hzero : (x + 2 ^ 32 - (row * cols + col) % 2 ^ 32) % 2 ^ 32 = 0 := by omega
    rw [if_pos hx, hzero, if_pos (by omega)]
    rfl
  · rw [if_neg hx]
    by_cases hlt : x < 2 ^ 32
    · obtain ⟨j, hj⟩ : ∃ j, (x + 2 ^ 32 - (row * cols + col) % 2 ^ 32) % 2 ^ 32 = j + 1 :=
        Nat.exists_eq_succ_of_ne_zero (by omega)
      have hj' : (x + 2 ^ 32 - (row * cols + (col + 1)) % 2 ^ 32) % 2 ^ 32 = j := by omega
      rw [hj, hj', List.getElem?_cons_succ]
      exact if_congr (by omega) rfl rfl
    · rw [if_neg (by omega), if_neg (by omega)]

/-- **The stores of `gfx_text_puts`** are the characters that the string puts on the elements. -/
theorem runAll_putsCells {row : ℕ} (hcols : cols < 2 ^ 32) (hrow : row < rows) (s : List UInt8)
    (col : ℕ) (a : ℕ → UInt8) (x : ℕ) :
    runAll (putsCells cols value s col ((row * cols + col) % 2 ^ 32)) a x =
      ((reach cols rows ⟨col, row, s⟩ x).map value).getD (a x) := by
  induction s generalizing col a with
  | nil =>
    rw [putsCells, reach]
    dsimp only
    rw [List.getElem?_nil, ite_self]
    rfl
  | cons c s ih =>
    rw [putsCells]
    split_ifs with hcol
    · have hrest := ih (col + 1) (Function.update a ((row * cols + col) % 2 ^ 32) (value c))
      have hfirst (l : List (Access UInt8)) (off : ℕ) :
          runAll (.set off (value c) :: l) a = runAll l (Function.update a off (value c)) := rfl
      rw [Nat.mod_add_mod, Nat.add_assoc, Nat.mod_eq_of_lt (by omega : col + 1 < 2 ^ 32), hfirst,
        hrest, reach_cons hrow hcol]
      split_ifs with hx
      · have hnone : reach cols rows ⟨col + 1, row, s⟩ x = none := by
          have hmod := Nat.mod_lt (row * cols + col) (Nat.two_pow_pos 32)
          refine if_neg ?_
          dsimp only
          omega
        rw [hnone, hx, Function.update_self]
        rfl
      · rw [Function.update_of_ne hx]
    · rw [reach_of_le (Nat.le_of_not_lt hcol)]
      rfl

/-- Without a wrap a string reaches the cells from its place to the end of its row. -/
theorem reach_pos {r c : ℕ} (hcells : cols * rows < 2 ^ 32) (hr : r < rows) (hc : c < cols)
    (p : Placed) :
    reach cols rows p (pos cols c r) =
      if r = p.row ∧ p.col ≤ c then p.str[c - p.col]? else none := by
  have hx := pos_lt hc hr
  unfold reach
  dsimp only
  by_cases hin : r = p.row ∧ p.col ≤ c
  · obtain ⟨rfl, hle⟩ := hin
    have hlt : p.row * cols + p.col < 2 ^ 32 := by
      rw [pos] at hx
      omega
    have hj : (pos cols c p.row + 2 ^ 32 - (p.row * cols + p.col) % 2 ^ 32) % 2 ^ 32 =
        c - p.col := by
      rw [pos, Nat.mod_eq_of_lt hlt]
      rw [pos] at hx
      omega
    rw [hj, if_pos ⟨hr, hx.trans hcells, by omega⟩, if_pos ⟨rfl, hle⟩]
  · rw [if_neg hin]
    refine if_neg fun hout => hin ?_
    obtain ⟨hrow, -, hcol⟩ := hout
    obtain ⟨j, hj⟩ : ∃ j, (pos cols c r + 2 ^ 32 - (p.row * cols + p.col) % 2 ^ 32) % 2 ^ 32 = j :=
      ⟨_, rfl⟩
    rw [hj] at hcol
    have hy := pos_lt hcol hrow
    have heq : pos cols c r = pos cols (p.col + j) p.row := by
      rw [pos] at hx hy hj ⊢
      rw [pos]
      have hlt : p.row * cols + p.col < 2 ^ 32 := by omega
      rw [Nat.mod_eq_of_lt hlt] at hj
      omega
    have hinj := pos_inj hc hcol heq
    exact ⟨hinj.2, by omega⟩

/-- **The cells move up**, and the rows at the bottom become blank. -/
theorem runAll_scrollCells {lines i : ℕ} (hcells : cols * rows < 2 ^ 32) (hlines : lines < rows)
    (hi : i < cols * rows) (v : UInt8) (a : ℕ → UInt8) :
    runAll (scrollCells cols rows lines v) a i =
      if i < (rows - lines) * cols then a (i + lines * cols) else v := by
  have hsplit : (rows - lines) * cols + lines * cols = cols * rows := by
    rw [← Nat.add_mul, Nat.sub_add_cancel hlines.le, Nat.mul_comm]
  have hrows : rows * cols = cols * rows := Nat.mul_comm ..
  rw [scrollCells, Nat.mod_eq_of_lt (by omega : (rows - lines) * cols < 2 ^ 32),
    Nat.mod_eq_of_lt (by omega : lines * cols < 2 ^ 32),
    Nat.mod_eq_of_lt (by omega : rows * cols < 2 ^ 32), runAll_append, runAll_sets, runAll_copies fun j hj => by omega]
  by_cases hkept : i < (rows - lines) * cols
  · rw [if_neg (by omega), if_pos hkept, if_pos hkept, Nat.mod_eq_of_lt (by omega)]
  · rw [if_pos (by omega), if_neg hkept]

end

/-! ## Matrices -/

namespace TextOp

variable {cols rows : ℕ}

/-- What a call does to a matrix: `puts` overwrites the cells from `col` on to the end of its row with
as much of the string as fits, and `scrollUp` moves the rows. -/
def onMatrix (blank : UInt8) (value : UInt8 → UInt8) :
    TextOp → Cells cols rows → Cells cols rows
  | clear _, _ => fun _ _ => blank
  | puts col row s _, m => fun r c =>
    if (r : ℕ) = row ∧ col ≤ c then (s[(c : ℕ) - col]?.map value).getD (m r c) else m r c
  | scrollUp lines _, m => fun r c => if h : r + lines < rows then m ⟨r + lines, h⟩ c else blank

/-- Scrolling twice. -/
theorem onMatrix_scrollUp_scrollUp (blank : UInt8) (value : UInt8 → UInt8) (lines lines' : ℕ)
    (d d' d'' : UInt8) (m : Cells cols rows) :
    onMatrix blank value (scrollUp lines' d') (onMatrix blank value (scrollUp lines d) m) =
      onMatrix blank value (scrollUp (lines + lines') d'') m := by
  funext r c
  have hsum : (r : ℕ) + lines' + lines = r + (lines + lines') := by omega
  simp only [onMatrix, hsum]
  by_cases hfar : (r : ℕ) + (lines + lines') < rows
  · rw [dif_pos (by omega), dif_pos hfar]
  · rw [dif_neg hfar]
    split_ifs <;> rfl

end TextOp

/-- The cells of a grid: the characters, and the attributes if it has them. -/
@[ext]
structure TextMatrix (cols rows : ℕ) where
  chars : Cells cols rows
  attrs : Option (Cells cols rows)

/-- What a call does to the cells: the same with the characters and with the attributes. -/
def TextMatrix.apply {cols rows : ℕ} (m : TextMatrix cols rows) (op : TextOp) :
    TextMatrix cols rows where
  chars := op.onMatrix 0x20 id m.chars
  attrs := m.attrs.map (op.onMatrix op.attr fun _ => op.attr)

/-- The cells of a grid. -/
def textMatrix (cols rows : ℕ) (t : GfxText) : TextMatrix cols rows where
  chars := toMatrix cols rows t.chars
  attrs := t.attrs.map (toMatrix cols rows)

section

variable {t : GfxText} {cols rows : ℕ} {blank : UInt8} {value : UInt8 → UInt8}

theorem toMatrix_putsCells {col row : ℕ} (hcells : cols * rows < 2 ^ 32) (s : List UInt8)
    (attr : UInt8) (a : ℕ → UInt8) (r : Fin rows) (c : Fin cols) :
    runAll ((TextOp.puts col row s attr).accesses cols rows blank value) a (pos cols c r) =
      if (r : ℕ) = row ∧ col ≤ c then (s[(c : ℕ) - col]?.map value).getD (a (pos cols c r))
      else a (pos cols c r) := by
  have hx := pos_lt c.isLt r.isLt
  have hsides := sides_le (Nat.le_refl cols) c.isLt r.isLt
  rw [TextOp.accesses]
  by_cases hrow : row ≥ rows
  · rw [if_pos hrow, if_neg fun hin => absurd r.isLt (by omega)]
    rfl
  · rw [if_neg hrow, runAll_putsCells (by omega) (Nat.lt_of_not_le hrow),
      reach_pos hcells r.isLt c.isLt]
    split_ifs <;> rfl

theorem toMatrix_scrollCells {lines : ℕ} (hcells : cols * rows < 2 ^ 32) (hlines : lines < rows)
    (a : ℕ → UInt8) (r : Fin rows) (c : Fin cols) :
    runAll (scrollCells cols rows lines blank) a (pos cols c r) =
      if (r : ℕ) + lines < rows then a (pos cols c (r + lines)) else blank := by
  have hx := pos_lt c.isLt r.isLt
  rw [runAll_scrollCells hcells hlines hx, pos_add]
  by_cases hfar : (r : ℕ) + lines < rows
  · have hlt : pos cols c r < cols * (rows - lines) := pos_lt c.isLt (by omega)
    rw [Nat.mul_comm] at hlt
    rw [if_pos hlt, if_pos hfar]
  · have hle : (rows - lines) * cols ≤ r * cols := Nat.mul_le_mul_right _ (by omega)
    rw [if_neg (by rw [pos]; omega), if_neg hfar]

/-- **The accesses of a call are its operation on the matrix.** -/
theorem toMatrix_accesses (hcells : cols * rows < 2 ^ 32) (op : TextOp) (a : ℕ → UInt8) :
    toMatrix cols rows (runAll (op.accesses cols rows blank value) a) =
      op.onMatrix blank value (toMatrix cols rows a) := by
  funext r c
  have hx := pos_lt c.isLt r.isLt
  have hclear : runAll (clearCells cols rows blank) a (pos cols c r) = blank := by
    rw [runAll_clearCells, Nat.mod_eq_of_lt hcells, if_pos hx]
  cases op with
  | clear attrDefault => exact hclear
  | puts col row s attr => exact toMatrix_putsCells hcells s attr a r c
  | scrollUp lines attrDefault =>
    simp only [toMatrix, TextOp.onMatrix, TextOp.accesses]
    by_cases hzero : lines = 0
    · subst hzero
      simp only [Nat.add_zero, if_true]
      rw [dif_pos r.isLt]
      rfl
    · rw [if_neg hzero]
      by_cases hlines : lines ≥ rows
      · rw [if_pos hlines, hclear, dif_neg (by omega)]
      · rw [if_neg hlines, toMatrix_scrollCells hcells (Nat.lt_of_not_le hlines)]
        split_ifs <;> rfl

/-- A call is its operation on the cells. -/
theorem textMatrix_call (hcells : t.cols * t.rows < 2 ^ 32) (op : TextOp) :
    textMatrix t.cols t.rows (op.call t) = (textMatrix t.cols t.rows t).apply op := by
  rw [call_eq, TextMatrix.ext_iff]
  refine ⟨toMatrix_accesses hcells op t.chars, ?_⟩
  simp only [textMatrix, TextMatrix.apply, Option.map_map]
  exact congrArg (Option.map · t.attrs) (funext fun attrs => toMatrix_accesses hcells op attrs)

theorem runOps_cons (t : GfxText) (op : TextOp) (ops : List TextOp) :
    runOps t (op :: ops) = runOps (op.call t) ops := rfl

theorem call_cols (op : TextOp) (t : GfxText) : (op.call t).cols = t.cols := by rw [call_eq]

theorem call_rows (op : TextOp) (t : GfxText) : (op.call t).rows = t.rows := by rw [call_eq]

theorem runOps_size (ops : List TextOp) (t : GfxText) :
    (runOps t ops).cols = t.cols ∧ (runOps t ops).rows = t.rows := by
  induction ops generalizing t with
  | nil => exact ⟨rfl, rfl⟩
  | cons op ops ih =>
    rw [runOps_cons, ← call_cols op t, ← call_rows op t]
    exact ih (op.call t)

/-- **A run is the sequence of its operations on the cells.** -/
theorem textMatrix_runOps (hcells : t.cols * t.rows < 2 ^ 32) (ops : List TextOp) :
    textMatrix t.cols t.rows (runOps t ops) = ops.foldl TextMatrix.apply (textMatrix t.cols t.rows t) := by
  induction ops generalizing t with
  | nil => rfl
  | cons op ops ih =>
    have hrest := ih (t := op.call t) (by rwa [call_cols, call_rows])
    rw [call_cols, call_rows, textMatrix_call hcells] at hrest
    exact hrest

/-- Arrays that agree on the cells and beyond them. -/
theorem eq_of_toMatrix (cols rows : ℕ) {a b : ℕ → UInt8} (h : toMatrix cols rows a = toMatrix cols rows b)
    (hout : ∀ i, cols * rows ≤ i → a i = b i) : a = b := by
  funext i
  rcases Nat.lt_or_ge i (cols * rows) with hi | hi
  · have hcols : 0 < cols := Nat.pos_of_mul_pos_right (Nat.zero_lt_of_lt hi)
    have hrow : i / cols < rows := Nat.div_lt_of_lt_mul hi
    have hcell := congrFun (congrFun h ⟨i / cols, hrow⟩) ⟨i % cols, Nat.mod_lt _ hcols⟩
    rwa [toMatrix, toMatrix, pos, Nat.div_add_mod'] at hcell
  · exact hout i hi

theorem cols_lt_of_cells (hcells : cols * rows < 2 ^ 32) (hrows : 0 < rows) : cols < 2 ^ 32 :=
  (Nat.le_mul_of_pos_right cols hrows).trans_lt hcells

/-- Scrolling an array twice. -/
theorem runAll_scrollUp_scrollUp (hcells : cols * rows < 2 ^ 32) (lines lines' : ℕ) (d : UInt8)
    (a : ℕ → UInt8) :
    runAll ((TextOp.scrollUp lines' d).accesses cols rows blank value)
        (runAll ((TextOp.scrollUp lines d).accesses cols rows blank value) a) =
      runAll ((TextOp.scrollUp (lines + lines') d).accesses cols rows blank value) a := by
  have hcols := cols_lt_of_cells hcells
  refine eq_of_toMatrix cols rows ?_ fun i hi => ?_
  · rw [toMatrix_accesses hcells, toMatrix_accesses hcells, toMatrix_accesses hcells,
      TextOp.onMatrix_scrollUp_scrollUp]
  · rw [runAll_of_within (within_accesses hcols _) hi, runAll_of_within (within_accesses hcols _) hi,
      runAll_of_within (within_accesses hcols _) hi]

/-- **A grid of text is a matrix.** After any sequence of calls its cells are those of the matrix on
which the calls operate, nothing beyond the cells has changed, and a further call touches no other
elements. Scrolling by `lines` and then by `lines'` is scrolling by the sum. -/
theorem text_grid (hcells : t.cols * t.rows < 2 ^ 32) :
    (∀ ops, textMatrix t.cols t.rows (runOps t ops) =
        ops.foldl TextMatrix.apply (textMatrix t.cols t.rows t)) ∧
    (∀ (ops : List TextOp) (op : TextOp), op.call (runOps t ops) =
          { runOps t ops with
            chars := runAll (op.charAccesses (runOps t ops)) (runOps t ops).chars
            attrs := (runOps t ops).attrs.map (runAll (op.attrAccesses (runOps t ops))) } ∧
        Within (t.cols * t.rows) (op.charAccesses (runOps t ops)) ∧
        Within (t.cols * t.rows) (op.attrAccesses (runOps t ops))) ∧
    ∀ lines lines' d, lines + lines' < 2 ^ 32 →
      gfxTextScrollUp (gfxTextScrollUp t lines d) lines' d = gfxTextScrollUp t (lines + lines') d := by
  have hcols := cols_lt_of_cells hcells
  refine ⟨textMatrix_runOps hcells, fun ops op => ⟨call_eq op _, ?_, ?_⟩, fun lines lines' d _ => ?_⟩
  · rw [TextOp.charAccesses, (runOps_size ops t).1, (runOps_size ops t).2]
    exact within_accesses hcols op
  · rw [TextOp.attrAccesses, (runOps_size ops t).1, (runOps_size ops t).2]
    exact within_accesses hcols op
  · have htwice : (TextOp.scrollUp lines' d).call ((TextOp.scrollUp lines d).call t) =
        (TextOp.scrollUp (lines + lines') d).call t := by
      rw [call_eq (.scrollUp lines' d), call_eq (.scrollUp lines d) t,
        call_eq (.scrollUp (lines + lines') d) t]
      simp only [TextOp.charAccesses, TextOp.attrAccesses, Option.map_map]
      rw [runAll_scrollUp_scrollUp hcells]
      congr 2
      exact funext fun attrs => runAll_scrollUp_scrollUp hcells lines lines' d attrs
    exact htwice

end

/-- Three columns and two rows, with attributes. -/
def smallText : GfxText where
  cols := 3
  rows := 2
  cellH := 8
  scale := 1
  font := fun _ => 0
  chars := fun _ => 0x20
  attrs := some fun _ => 0
  fg := 0xFFFFFF
  bg := 0
  attrDecode := none

theorem text_grid_small :
    smallText.cols * smallText.rows < 2 ^ 32 ∧
    (textMatrix 3 2 (runOps smallText [.puts 1 1 [0x48, 0x65, 0x79] 7, .scrollUp 1 9])).attrs.map
        (fun attrs => (attrs 0 0, attrs 0 1, attrs 1 2)) = some (0, 7, 9) ∧
    gfxTextScrollUp (gfxTextScrollUp smallText 1 9) 1 9 = gfxTextScrollUp smallText 2 9 := by
  obtain ⟨hrun, -, hscroll⟩ := text_grid (t := smallText) (by decide)
  refine ⟨by decide, ?_, hscroll 1 1 9 (by decide)⟩
  have hcells := hrun [.puts 1 1 [0x48, 0x65, 0x79] 7, .scrollUp 1 9]
  rw [show smallText.cols = 3 from rfl, show smallText.rows = 2 from rfl] at hcells
  rw [hcells]
  rfl

end RvvmHal.Graphics
