import RvvmHal.Graphics.TextGrid
import RvvmHal.Menu.Render

/-!
# Drawing any menu

What `render_gfx` needs of a menu and of a grid. The strings that it draws are a sequence of calls
(`putMenu_eq_some_iff`), so that it stays inside the cells whatever the sizes are. But an item with a
hint and no label makes it take the length of a null pointer, and a label can be drawn over, by its
own hint where the sum for the column wraps, and by later strings where the number of the cell does
(`menuSafe_iff`).
-/

namespace RvvmHal.Menu

open CString Graphics InPlace Raster

/-- The call that draws a string. -/
def putsOp (p : Placed) : TextOp := .puts p.col p.row p.str 0

/-- The calls that draw a menu. -/
def menuOps (rows : ℕ) (menu : UiMenu) : List TextOp :=
  .clear 0 :: (menuTexts rows menu).map putsOp

/-- The strings of items, the first of which is item `i`. -/
def itemsTexts (selected top : ℕ) (items : List UiItem) (i : ℕ) : List Placed :=
  (items.zipIdx i).flatMap fun p => itemTexts selected p.2 (top + p.2) p.1

/-- An item with a hint has a label. -/
def Labelled (it : UiItem) : Prop := it.hint.isSome → it.label.isSome

instance (it : UiItem) : Decidable (Labelled it) := inferInstanceAs (Decidable (_ → _))

/-- No item that is drawn has a hint and no label. -/
def NoBareHint (rows : ℕ) (menu : UiMenu) : Prop := ∀ it ∈ shownItems rows menu, Labelled it

instance (rows : ℕ) (menu : UiMenu) : Decidable (NoBareHint rows menu) :=
  inferInstanceAs (Decidable (∀ it ∈ _, _))

section

variable {t t' : GfxText} {menu : UiMenu} {i row row' : ℕ}

theorem runOps_append (t : GfxText) (ops ops' : List TextOp) :
    runOps t (ops ++ ops') = runOps (runOps t ops) ops' := List.foldl_append

/-- Beyond the last column nothing is written. -/
theorem gfxTextPuts_of_le {col : ℕ} (h : t.cols ≤ col) (row : ℕ) (s : List UInt8) (attr : UInt8) :
    gfxTextPuts t col row s attr = t := by
  rw [gfxTextPuts]
  split_ifs
  · rfl
  · cases s with
    | nil => rfl
    | cons c s =>
      rw [putsFrom]
      exact if_neg (Nat.not_lt.2 h)

/-- `hdr` holds the title line. -/
theorem copyHdr_title (title : List UInt8) :
    copyHdr (cstr " ===") (copyHdr title (copyHdr (cstr "=== ") [])) =
      (cstr "=== " ++ title ++ cstr " ===").take 79 := by
  have hcopied : copyHdr (cstr " ===") (copyHdr title (copyHdr (cstr "=== ") (List.take 79 []))) =
      (cstr "=== " ++ title ++ cstr " ===").take 79 := by
    rw [copyHdr_take, copyHdr_take, copyHdr_take, List.nil_append]
  exact hcopied

/-- **An item is drawn by calls**, unless it has a hint and no label. -/
theorem putItem_eq_some_iff (t : GfxText) (menu : UiMenu) (i row : ℕ) (it : UiItem) (t' : GfxText) :
    putItem t menu i row it = some t' ↔
      Labelled it ∧ t' = runOps t ((itemTexts menu.selected i row it).map putsOp) := by
  unfold putItem itemTexts Labelled
  cases hhint : it.hint with
  | none =>
    have hnone : (none : Option (List UInt8)).isSome = true → it.label.isSome = true :=
      fun h => absurd h Bool.false_ne_true
    cases hlabel : it.label with
    | none => exact ⟨fun h => ⟨hlabel ▸ hnone, (Option.some.inj h).symm⟩, fun h => congrArg some h.2.symm⟩
    | some label =>
      exact ⟨fun h => ⟨hlabel ▸ hnone, (Option.some.inj h).symm⟩, fun h => congrArg some h.2.symm⟩
  | some hint =>
    cases hlabel : it.label with
    | none =>
      -- the length of a null pointer
      refine ⟨fun h => (by cases h), fun h => absurd (h.1 rfl) Bool.false_ne_true⟩
    | some label =>
      have hput : ∀ t : GfxText, (if (label.length % 2 ^ 32 + 5) % 2 ^ 32 < t.cols then
          gfxTextPuts t ((label.length % 2 ^ 32 + 5) % 2 ^ 32) row hint 0 else t) =
          gfxTextPuts t ((label.length % 2 ^ 32 + 5) % 2 ^ 32) row hint 0 := fun t => by
        split_ifs with hcol
        · rfl
        · exact (gfxTextPuts_of_le (Nat.le_of_not_lt hcol) ..).symm
      simp only [uiStrlen, Option.map_some, hput]
      exact ⟨fun h => ⟨fun _ => rfl, (Option.some.inj h).symm⟩, fun h => congrArg some h.2.symm⟩

/-- **The loop over the items** draws as many of them as there is room for. -/
theorem putItems_eq_some_iff {items : List UiItem} (top : ℕ) (q : GfxText × ℕ) :
    putItems menu items t i (top + i) = some q ↔
      (∀ it ∈ items.take ((t.rows + 2 ^ 32 - 2) % 2 ^ 32 - (top + i)), Labelled it) ∧
      q = (runOps t ((itemsTexts menu.selected top
          (items.take ((t.rows + 2 ^ 32 - 2) % 2 ^ 32 - (top + i))) i).map putsOp),
        top + i + (items.take ((t.rows + 2 ^ 32 - 2) % 2 ^ 32 - (top + i))).length) := by
  induction items generalizing t i with
  | nil =>
    rw [List.take_nil]
    exact ⟨fun h => ⟨fun it hit => absurd hit List.not_mem_nil, (Option.some.inj h).symm⟩,
      fun h => congrArg some h.2.symm⟩
  | cons it items ih =>
    rw [putItems]
    split_ifs with hlt
    · have hmod := Nat.mod_lt (t.rows + 2 ^ 32 - 2) (Nat.two_pow_pos 32)
      have htake : (t.rows + 2 ^ 32 - 2) % 2 ^ 32 - (top + i) =
          (t.rows + 2 ^ 32 - 2) % 2 ^ 32 - (top + (i + 1)) + 1 := by omega
      rw [Nat.mod_eq_of_lt (by omega : top + i + 1 < 2 ^ 32), Nat.add_assoc, htake,
        List.take_succ_cons, List.forall_mem_cons, Option.bind_eq_some_iff]
      have hrows := (runOps_size ((itemTexts menu.selected i (top + i) it).map putsOp) t).2
      have hresult : ∀ taken : List UiItem,
          (runOps t ((itemsTexts menu.selected top (it :: taken) i).map putsOp),
            top + i + (it :: taken).length) =
          (runOps (runOps t ((itemTexts menu.selected i (top + i) it).map putsOp))
              ((itemsTexts menu.selected top taken (i + 1)).map putsOp),
            top + (i + 1) + taken.length) := fun taken => by
        have hlen : top + i + (it :: taken).length = top + (i + 1) + taken.length := by
          rw [List.length_cons]
          omega
        rw [hlen, itemsTexts, List.zipIdx_cons, List.flatMap_cons, List.map_append, runOps_append]
        rfl
      rw [hresult]
      constructor
      · rintro ⟨t₁, hitem, hq⟩
        obtain ⟨hlabel, rfl⟩ := (putItem_eq_some_iff ..).1 hitem
        obtain ⟨hall, rfl⟩ := ih.1 hq
        rw [hrows] at hall ⊢
        exact ⟨⟨hlabel, hall⟩, rfl⟩
      · rintro ⟨⟨hlabel, hall⟩, rfl⟩
        refine ⟨_, (putItem_eq_some_iff ..).2 ⟨hlabel, rfl⟩, ih.2 ?_⟩
        rw [hrows]
        exact ⟨hall, rfl⟩
    · rw [Nat.sub_eq_zero_of_le (Nat.le_of_not_lt hlt), List.take_zero]
      exact ⟨fun h => ⟨fun it hit => absurd hit List.not_mem_nil, (Option.some.inj h).symm⟩,
        fun h => congrArg some h.2.symm⟩

theorem putBody_eq_some_iff (hrows : t.rows < 2 ^ 32) :
    putBody t menu (firstRow menu) = some t' ↔
      NoBareHint t.rows menu ∧
      t' = runOps t ((itemsTexts menu.selected (firstRow menu) (shownItems t.rows menu) 0 ++
        footerTexts t.rows menu).map putsOp) := by
  obtain ⟨t₁, ht₁⟩ : ∃ t₁, t₁ = runOps t ((itemsTexts menu.selected (firstRow menu)
    (shownItems t.rows menu) 0).map putsOp) := ⟨_, rfl⟩
  have hrows₁ : t₁.rows = t.rows := ht₁ ▸ (runOps_size _ t).2
  have hitems : ∀ q, putItems menu menu.items t 0 (firstRow menu) = some q ↔
      NoBareHint t.rows menu ∧ q = (t₁, firstRow menu + (shownItems t.rows menu).length) :=
    fun q => ht₁ ▸ putItems_eq_some_iff (firstRow menu) q
  have hfooter : (if (firstRow menu + (shownItems t.rows menu).length + 1) % 2 ^ 32 < t₁.rows then
        gfxTextPuts t₁ 0 ((t₁.rows + 2 ^ 32 - 1) % 2 ^ 32) footer 0 else t₁) =
      runOps t₁ ((footerTexts t.rows menu).map putsOp) := by
    rw [hrows₁, footerTexts]
    split_ifs with hlt
    · have hlast : (t.rows + 2 ^ 32 - 1) % 2 ^ 32 = t.rows - 1 := by omega
      rw [hlast]
      rfl
    · rfl
  rw [putBody, Option.map_eq_some_iff, List.map_append, runOps_append, ← ht₁, ← hfooter]
  constructor
  · rintro ⟨q, hq, rfl⟩
    obtain ⟨hbare, rfl⟩ := (hitems q).1 hq
    exact ⟨hbare, rfl⟩
  · rintro ⟨hbare, rfl⟩
    exact ⟨_, (hitems _).2 ⟨hbare, rfl⟩, rfl⟩

/-- **A menu is drawn by calls**, unless an item that is drawn has a hint and no label. -/
theorem putMenu_eq_some_iff (hrows : t.rows < 2 ^ 32) :
    putMenu t menu = some t' ↔
      NoBareHint t.rows menu ∧ t' = runOps t (menuOps t.rows menu) := by
  have hcleared : ∀ t : GfxText, (gfxTextClear t 0).rows = t.rows := fun t => rfl
  have htexts : menuTexts t.rows menu = titleTexts menu ++
      (itemsTexts menu.selected (firstRow menu) (shownItems t.rows menu) 0 ++
        footerTexts t.rows menu) := List.append_assoc ..
  have hops : runOps t (menuOps t.rows menu) =
      runOps (runOps (gfxTextClear t 0) ((titleTexts menu).map putsOp))
        ((itemsTexts menu.selected (firstRow menu) (shownItems t.rows menu) 0 ++
          footerTexts t.rows menu).map putsOp) := by
    rw [menuOps, htexts, List.map_append, runOps_cons, runOps_append]
    rfl
  have hbody (t₁ : GfxText) (h : t₁.rows = t.rows) :
      putBody t₁ menu (firstRow menu) = some t' ↔ NoBareHint t₁.rows menu ∧
        t' = runOps t₁ ((itemsTexts menu.selected (firstRow menu) (shownItems t₁.rows menu) 0 ++
          footerTexts t₁.rows menu).map putsOp) := putBody_eq_some_iff (h ▸ hrows)
  rw [hops, putMenu]
  cases htitle : menu.title with
  | none =>
    have hrow := firstRow_none htitle
    have htitles : titleTexts menu = [] := by rw [titleTexts, htitle]
    have h := hbody (gfxTextClear t 0) (hcleared t)
    rw [hcleared] at h
    have hzero : putBody (gfxTextClear t 0) menu 0 =
        putBody (gfxTextClear t 0) menu (firstRow menu) := by rw [hrow]
    rw [htitles]
    dsimp only
    rw [hzero]
    exact h
  | some title =>
    have hrow := firstRow_some htitle
    have hcopied := copyHdr_title title
    have htitles : titleTexts menu =
        [⟨0, 0, copyHdr (cstr " ===") (copyHdr title (copyHdr (cstr "=== ") []))⟩] := by
      rw [titleTexts, htitle, hcopied]
    have hsize := (runOps_size ((titleTexts menu).map putsOp) (gfxTextClear t 0)).2
    have h := hbody (runOps (gfxTextClear t 0) ((titleTexts menu).map putsOp))
      (hsize.trans (hcleared t))
    rw [hsize, hcleared] at h
    dsimp only
    rw [← hrow, ← h, htitles]
    rfl

end

/-! ## The characters that are seen -/

/-- The last of the characters that the strings put on element `x` of the array. -/
def topChar (cols rows : ℕ) (texts : List Placed) (x : ℕ) : Option UInt8 :=
  (texts.filterMap fun p => reach cols rows p x).getLast?

/-- At each cell of a label, its number taken in 32 bits, the last of the strings that are drawn has
the label's character. -/
def LabelsOnTop (cols rows : ℕ) (menu : UiMenu) : Prop :=
  ∀ i it, (shownItems rows menu)[i]? = some it → firstRow menu + i < rows →
    ∀ j c, (it.label.getD [])[j]? = some c → 3 + j < cols →
      topChar cols rows (menuTexts rows menu) (pos cols (3 + j) (firstRow menu + i)) = some c

/-- Sizes at which no sum of `render_gfx` wraps. -/
structure Ordinary (cols rows : ℕ) (menu : UiMenu) : Prop where
  cells : cols * rows < 2 ^ 32
  hints : ∀ it ∈ shownItems rows menu, it.hint.isSome → (it.label.getD []).length + 5 < 2 ^ 32
  count : rows = 1 → menu.items.length < 2 ^ 32 - 1

/-- What `render_gfx` does to a text: nothing outside the cells changes, and every item that gets a
row shows its label at column 3. -/
structure Drawn (menu : UiMenu) (t t' : GfxText) : Prop where
  chars : ∀ x, t.cols * t.rows ≤ x → t'.chars x = t.chars x
  attrs : ∀ x, t.cols * t.rows ≤ x →
    (t'.attrs.map fun attrs => attrs x) = t.attrs.map fun attrs => attrs x
  labels : ∀ i it, (shownItems t.rows menu)[i]? = some it → firstRow menu + i < t.rows →
    ∀ j c, (it.label.getD [])[j]? = some c → 3 + j < t.cols →
      t'.chars (pos t.cols (3 + j) (firstRow menu + i)) = c

/-- `render_gfx` is safe for a menu on grids with so many columns and rows: `hdr` holds the title line
and its NUL, and the drawing returns, having taken the length of no null pointer. -/
structure MenuSafe (cols rows : ℕ) (menu : UiMenu) : Prop where
  hdr : ∀ title ∈ menu.title,
    (copyHdr (cstr " ===") (copyHdr title (copyHdr (cstr "=== ") []))).length < 80
  drawn : ∀ (u : Ui) (t : GfxText) (mem : Bytes.Mem), u.gfxEnabled = true → u.text = some t →
    t.cols = cols → t.rows = rows →
    ∃ t', renderGfx u menu mem =
        some ({ u with text := some t' }, gfxTextRender t' u.gfx mem 0 0) ∧ Drawn menu t t'

/-- A surface that is not there. -/
def blankGfx : Gfx := ⟨0, 0, 0, 0, .none, .xrgb8888⟩

/-- A text of one colour, without attributes. -/
def blankText (cols rows : ℕ) (chars : ℕ → UInt8) : GfxText :=
  ⟨cols, rows, 8, 1, fun _ => 0, chars, none, 0xFFFFFF, 0, none⟩

section

variable {t : GfxText} {menu : UiMenu} {cols rows x : ℕ}

theorem topChar_append (cols rows : ℕ) (texts texts' : List Placed) (x : ℕ) :
    topChar cols rows (texts ++ texts') x =
      (topChar cols rows texts' x).or (topChar cols rows texts x) := by
  rw [topChar, List.filterMap_append, List.getLast?_append]
  rfl

theorem topChar_singleton (cols rows : ℕ) (p : Placed) (x : ℕ) :
    topChar cols rows [p] x = reach cols rows p x := by
  rw [topChar]
  cases hreach : reach cols rows p x with
  | none => rw [List.filterMap_cons_none (f := fun p => reach cols rows p x) hreach]; rfl
  | some c => rw [List.filterMap_cons_some (f := fun p => reach cols rows p x) hreach]; rfl

theorem topChar_eq_none {texts : List Placed} (h : ∀ p ∈ texts, reach cols rows p x = none) :
    topChar cols rows texts x = none := by
  rw [topChar, List.filterMap_eq_nil_iff.2 h]
  rfl

/-- The characters of a text after a string has been drawn. -/
theorem chars_putsOp (hcols : t.cols < 2 ^ 32) (p : Placed) (x : ℕ) :
    ((putsOp p).call t).chars x = (reach t.cols t.rows p x).getD (t.chars x) := by
  rw [call_eq]
  simp only [TextOp.charAccesses, putsOp, TextOp.accesses]
  by_cases hrow : p.row ≥ t.rows
  · have hnone : reach t.cols t.rows p x = none := if_neg fun h => by omega
    rw [if_pos hrow, hnone]
    rfl
  · rw [if_neg hrow, runAll_putsCells hcols (Nat.lt_of_not_le hrow), Option.map_id]
    rfl

/-- The characters of a text after strings have been drawn. -/
theorem chars_runOps_texts (hcols : t.cols < 2 ^ 32) (texts : List Placed) (x : ℕ) :
    (runOps t (texts.map putsOp)).chars x =
      (topChar t.cols t.rows texts x).getD (t.chars x) := by
  induction texts generalizing t with
  | nil => rfl
  | cons p texts ih =>
    have hrest := ih (t := (putsOp p).call t) (by rwa [call_cols])
    have hput : ((putsOp p).call t).chars x = (reach t.cols t.rows p x).getD (t.chars x) :=
      chars_putsOp hcols p x
    rw [call_cols, call_rows, hput] at hrest
    rw [List.map_cons, runOps_cons, hrest, ← List.singleton_append, topChar_append,
      topChar_singleton, Option.getD_or]

/-- Nothing outside the cells changes. -/
theorem runOps_out (hcols : t.cols < 2 ^ 32) (ops : List TextOp) (hx : t.cols * t.rows ≤ x) :
    (runOps t ops).chars x = t.chars x ∧
      ((runOps t ops).attrs.map fun attrs => attrs x) = t.attrs.map fun attrs => attrs x := by
  induction ops generalizing t with
  | nil => exact ⟨rfl, rfl⟩
  | cons op ops ih =>
    obtain ⟨hchars, hattrs⟩ := ih (t := op.call t) (by rwa [call_cols])
      (by rwa [call_cols, call_rows])
    rw [runOps_cons, hchars, hattrs, call_eq]
    refine ⟨runAll_of_within (within_accesses (fun _ => hcols) op) hx, ?_⟩
    rw [Option.map_map]
    exact congrArg (Option.map · t.attrs)
      (funext fun attrs => runAll_of_within (within_accesses (fun _ => hcols) op) hx)

/-- A character of a string, on the cell that is meant. -/
theorem reach_self {p : Placed} {j : ℕ} (hrow : p.row < rows) (hcol : p.col + j < cols)
    (hx : pos cols (p.col + j) p.row < 2 ^ 32) :
    reach cols rows p (pos cols (p.col + j) p.row) = p.str[j]? := by
  have hj : (pos cols (p.col + j) p.row + 2 ^ 32 - (p.row * cols + p.col) % 2 ^ 32) % 2 ^ 32 =
      j := by
    rw [pos] at hx ⊢
    omega
  unfold reach
  dsimp only
  rw [hj, if_pos ⟨hrow, hx, hcol⟩]

/-- A label is one of the strings. -/
theorem label_mem_menuTexts {i : ℕ} {it : UiItem} (hit : (shownItems rows menu)[i]? = some it) :
    (⟨3, firstRow menu + i, it.label.getD []⟩ : Placed) ∈ menuTexts rows menu := by
  refine List.mem_append_left _ (List.mem_append_right _ (List.mem_flatMap.2 ⟨(it, i), ?_, ?_⟩))
  · exact List.mem_zipIdx_iff_getElem?.2 hit
  · exact List.mem_append_left _ (List.mem_cons_of_mem _ List.mem_cons_self)

theorem topChar_isSome {texts : List Placed} {p : Placed} (hp : p ∈ texts)
    (h : (reach cols rows p x).isSome) : (topChar cols rows texts x).isSome := by
  obtain ⟨c, hc⟩ := Option.isSome_iff_exists.1 h
  rw [topChar, List.getLast?_isSome]
  exact List.ne_nil_of_mem (List.mem_filterMap.2 ⟨p, hp, hc⟩)

theorem succ_ne (c : UInt8) : c + 1 ≠ c := by
  intro h
  have hnat := congrArg UInt8.toNat h
  have hlt := c.toNat_lt
  rw [UInt8.toNat_add] at hnat
  have hone : UInt8.toNat 1 = 1 := rfl
  omega

/-- A string in another row does not reach a cell. -/
theorem reach_of_row {p : Placed} {r c : ℕ} (hcells : cols * rows < 2 ^ 32) (hr : r < rows)
    (hc : c < cols) (hrow : r ≠ p.row) : reach cols rows p (pos cols c r) = none := by
  rw [reach_pos hcells hr hc, if_neg fun h => hrow h.1]

/-- The rows of items. -/
theorem row_of_mem_itemsTexts {selected top i : ℕ} {items : List UiItem} {p : Placed}
    (hp : p ∈ itemsTexts selected top items i) :
    ∃ k, i ≤ k ∧ k < i + items.length ∧ p.row = top + k := by
  obtain ⟨⟨it, k⟩, hk, hp⟩ := List.mem_flatMap.1 hp
  obtain ⟨hle, hget⟩ := List.mk_mem_zipIdx_iff_le_and_getElem?_sub.1 hk
  obtain ⟨hlt, -⟩ := List.getElem?_eq_some_iff.1 hget
  refine ⟨k, hle, by omega, ?_⟩
  rcases List.mem_append.1 hp with hp | hp
  · rcases List.mem_cons.1 hp with rfl | hp
    · rfl
    · rw [List.mem_singleton.1 hp]
  · dsimp only at hp
    split at hp
    · rw [List.mem_singleton.1 hp]
    · exact absurd hp List.not_mem_nil

/-- The line of help is below the items. -/
theorem footer_row {i : ℕ} {it : UiItem} (hrows : rows < 2 ^ 32)
    (hcount : rows = 1 → menu.items.length < 2 ^ 32 - 1)
    (hit : (shownItems rows menu)[i]? = some it) (hrow : firstRow menu + i < rows) {p : Placed}
    (hp : p ∈ footerTexts rows menu) : firstRow menu + i ≠ p.row := by
  obtain ⟨hlt, -⟩ := List.getElem?_eq_some_iff.1 hit
  have hlen : (shownItems rows menu).length ≤ (rows + 2 ^ 32 - 2) % 2 ^ 32 - firstRow menu :=
    List.length_take_le ..
  have hlen' : (shownItems rows menu).length ≤ menu.items.length := List.length_take_le' ..
  have hmenu := menu.count_lt
  rw [footerTexts] at hp
  split_ifs at hp with hcond
  · rw [List.mem_singleton.1 hp]
    dsimp only
    rcases (by omega : rows = 1 ∨ 2 ≤ rows) with hone | htwo
    · have := hcount hone
      omega
    · omega
  · exact absurd hp List.not_mem_nil

/-- The strings of one item: its label is not drawn over by its hint. -/
theorem topChar_itemTexts (selected i : ℕ) {r j : ℕ} {it : UiItem} {c : UInt8}
    (hcells : cols * rows < 2 ^ 32) (hr : r < rows) (hcol : 3 + j < cols)
    (hc : (it.label.getD [])[j]? = some c)
    (hhint : it.hint.isSome → (it.label.getD []).length + 5 < 2 ^ 32) :
    topChar cols rows (itemTexts selected i r it) (pos cols (3 + j) r) = some c := by
  have hx := (pos_lt hcol hr).trans hcells
  have hlabel := reach_self (p := ⟨3, r, it.label.getD []⟩) hr hcol hx
  have hfirst : topChar cols rows [⟨0, r, [0x20, if i = selected then 0x3E else 0x20, 0x20]⟩,
      ⟨3, r, it.label.getD []⟩] (pos cols (3 + j) r) = some c := by
    rw [← List.singleton_append, topChar_append, topChar_singleton, hlabel, hc, Option.some_or]
  obtain ⟨hj, -⟩ := List.getElem?_eq_some_iff.1 hc
  rw [itemTexts, topChar_append, hfirst]
  refine (congrArg (Option.or · (some c)) (topChar_eq_none fun p hp => ?_)).trans (Option.none_or ..)
  split at hp
  next label hint hlabel' hhint' =>
    rw [hlabel', Option.getD_some, hhint'] at hhint
    rw [hlabel', Option.getD_some] at hj
    rw [List.mem_singleton.1 hp, reach_pos hcells hr hcol, if_neg fun h => ?_]
    have hlt := hhint rfl
    have hle := h.2
    dsimp only at hle
    omega
  next => exact absurd hp List.not_mem_nil

/-- **On ordinary sizes nothing is drawn over the labels.** -/
theorem labelsOnTop_of_ordinary (hrows : rows < 2 ^ 32) (h : Ordinary cols rows menu) :
    LabelsOnTop cols rows menu := by
  intro i it hit hrow j c hc hcol
  obtain ⟨hlt, heq⟩ := List.getElem?_eq_some_iff.1 hit
  have hsplit : shownItems rows menu =
      (shownItems rows menu).take i ++ it :: (shownItems rows menu).drop (i + 1) := by
    rw [← heq, List.cons_getElem_drop_succ, List.take_append_drop]
  have hitems : itemsTexts menu.selected (firstRow menu) (shownItems rows menu) 0 =
      itemsTexts menu.selected (firstRow menu) ((shownItems rows menu).take i) 0 ++
        (itemTexts menu.selected i (firstRow menu + i) it ++
          itemsTexts menu.selected (firstRow menu) ((shownItems rows menu).drop (i + 1)) (i + 1)) := by
    have hlen : ((shownItems rows menu).take i).length = i := List.length_take_of_le hlt.le
    refine (congrArg (itemsTexts menu.selected (firstRow menu) · 0) hsplit).trans ?_
    rw [itemsTexts, List.zipIdx_append, List.flatMap_append, List.zipIdx_cons, List.flatMap_cons,
      hlen, Nat.zero_add]
    rfl
  have hbelow : topChar cols rows
      (itemsTexts menu.selected (firstRow menu) ((shownItems rows menu).drop (i + 1)) (i + 1))
      (pos cols (3 + j) (firstRow menu + i)) = none := topChar_eq_none fun p hp => by
    obtain ⟨k, hle, -, hk⟩ := row_of_mem_itemsTexts hp
    exact reach_of_row h.cells hrow hcol (by omega)
  have hfooter : topChar cols rows (footerTexts rows menu)
      (pos cols (3 + j) (firstRow menu + i)) = none := topChar_eq_none fun p hp =>
    reach_of_row h.cells hrow hcol (footer_row hrows h.count hit hrow hp)
  have htop := topChar_itemTexts menu.selected i h.cells hrow hcol hc
    (h.hints it (List.mem_of_getElem? hit))
  have htexts : menuTexts rows menu = titleTexts menu ++
      itemsTexts menu.selected (firstRow menu) (shownItems rows menu) 0 ++
        footerTexts rows menu := rfl
  rw [htexts, topChar_append, hfooter, Option.none_or, topChar_append, hitems, topChar_append,
    topChar_append, hbelow, Option.none_or, htop]
  rfl

theorem chars_menuOps (hcols : t.cols < 2 ^ 32) (menu : UiMenu) (x : ℕ) :
    (runOps t (menuOps t.rows menu)).chars x =
      (topChar t.cols t.rows (menuTexts t.rows menu) x).getD ((gfxTextClear t 0).chars x) :=
  chars_runOps_texts (t := gfxTextClear t 0) hcols (menuTexts t.rows menu) x

/-- Nothing is over the labels if they are shown on a text that holds something else. -/
theorem labelsOnTop_of_drawn (hcols : cols < 2 ^ 32) {menu : UiMenu}
    (hdrawn : ∀ t : GfxText, t.cols = cols → t.rows = rows →
      Drawn menu t (runOps t (menuOps rows menu))) : LabelsOnTop cols rows menu := by
  intro i it hit hrow j c hc hcol
  have hshown := (hdrawn (blankText cols rows fun _ => c + 1) rfl rfl).labels i it hit hrow j c hc hcol
  have hchar : (topChar cols rows (menuTexts rows menu)
      (pos cols (3 + j) (firstRow menu + i))).getD
      (if pos cols (3 + j) (firstRow menu + i) < cols * rows % 2 ^ 32 then 0x20 else c + 1) = c :=
    (chars_menuOps (t := blankText cols rows fun _ => c + 1) hcols menu _).symm.trans hshown
  cases htop : topChar cols rows (menuTexts rows menu) (pos cols (3 + j) (firstRow menu + i)) with
  | some d =>
    rw [htop] at hchar
    exact congrArg some hchar
  | none =>
    have hmod := Nat.mod_lt (cols * rows) (Nat.two_pow_pos 32)
    by_cases hx : pos cols (3 + j) (firstRow menu + i) < 2 ^ 32
    · have hreach := reach_self (p := ⟨3, firstRow menu + i, it.label.getD []⟩) hrow hcol hx
      have hsome := topChar_isSome (label_mem_menuTexts hit)
        (by rw [hreach, hc]; rfl : (reach cols rows ⟨3, firstRow menu + i, it.label.getD []⟩
          (pos cols (3 + j) (firstRow menu + i))).isSome)
      rw [htop] at hsome
      exact absurd hsome Bool.false_ne_true
    · rw [htop, Option.getD_none, if_neg (by omega)] at hchar
      exact absurd hchar (succ_ne c)

theorem menuSafe_of_labelsOnTop (hcols : cols < 2 ^ 32) (hrows : rows < 2 ^ 32) {menu : UiMenu}
    (hbare : NoBareHint rows menu) (htop : LabelsOnTop cols rows menu) : MenuSafe cols rows menu := by
  refine ⟨fun title _ => ?_, ?_⟩
  · rw [copyHdr_title, List.length_take]
    omega
  · rintro u t mem hgfx htext rfl rfl
    refine ⟨runOps t (menuOps t.rows menu), ?_, ?_, ?_, ?_⟩
    · rw [renderGfx, hgfx, htext]
      exact congrArg (Option.map _) ((putMenu_eq_some_iff hrows).2 ⟨hbare, rfl⟩)
    · exact fun x hx => (runOps_out hcols _ hx).1
    · exact fun x hx => (runOps_out hcols _ hx).2
    · intro i it hit hrow j c hc hcol
      rw [chars_menuOps hcols, htop i it hit hrow j c hc hcol]
      rfl

theorem menuSafe_iff_labelsOnTop (hcols : cols < 2 ^ 32) (hrows : rows < 2 ^ 32) (menu : UiMenu) :
    MenuSafe cols rows menu ↔ NoBareHint rows menu ∧ LabelsOnTop cols rows menu := by
  constructor
  · intro hsafe
    have hdrawn : ∀ t : GfxText, t.cols = cols → t.rows = rows →
        NoBareHint rows menu ∧ Drawn menu t (runOps t (menuOps rows menu)) := by
      rintro t rfl rfl
      obtain ⟨t', hrender, hdrawn⟩ := hsafe.drawn ⟨true, blankGfx, some t⟩ t (fun _ => 0) rfl rfl
        rfl rfl
      obtain ⟨t₁, hput, heq⟩ := Option.map_eq_some_iff.1 hrender
      obtain ⟨hbare, rfl⟩ := (putMenu_eq_some_iff hrows).1 hput
      have htext : some (runOps t (menuOps t.rows menu)) = some t' :=
        congrArg (fun p : Ui × Bytes.Mem => p.1.text) heq
      exact ⟨hbare, Option.some.inj htext ▸ hdrawn⟩
    have hbare := (hdrawn (blankText cols rows fun _ => 0) rfl rfl).1
    exact ⟨hbare, labelsOnTop_of_drawn hcols fun t h h' => (hdrawn t h h').2⟩
  · rintro ⟨hbare, htop⟩
    exact menuSafe_of_labelsOnTop hcols hrows hbare htop

/-- **Drawing a menu is safe** exactly if no item that is drawn has a hint and no label, and nothing is
drawn over the labels. Nothing is drawn over them if the grid has fewer than `2 ^ 32` cells and the
sums for the columns of the hints and for the rows do not wrap. -/
theorem menuSafe_iff (hcols : cols < 2 ^ 32) (hrows : rows < 2 ^ 32) (menu : UiMenu) :
    (MenuSafe cols rows menu ↔ NoBareHint rows menu ∧ LabelsOnTop cols rows menu) ∧
    (Ordinary cols rows menu → (MenuSafe cols rows menu ↔ NoBareHint rows menu)) := by
  have hsafe := menuSafe_iff_labelsOnTop hcols hrows menu
  refine ⟨hsafe, fun hordinary => ?_⟩
  rw [hsafe, and_iff_left (labelsOnTop_of_ordinary hrows hordinary)]

end

/-- One item, with a hint. -/
def hintMenu (label : Option (List UInt8)) : UiMenu where
  title := none
  items := [⟨label, 0, false, some (cstr "4 KiB")⟩]
  selected := 0
  count_lt := Nat.one_lt_two_pow (by decide)

theorem menuSafe_iff_hintMenu :
    Ordinary 40 24 (hintMenu (some (cstr "demo"))) ∧
    (MenuSafe 40 24 (hintMenu (some (cstr "demo"))) ↔
      NoBareHint 24 (hintMenu (some (cstr "demo")))) := by
  have hordinary : Ordinary 40 24 (hintMenu (some (cstr "demo"))) :=
    ⟨by decide, by decide, by decide⟩
  exact ⟨hordinary, (menuSafe_iff (by decide) (by decide) _).2 hordinary⟩

/-- A hint and no label: the length of a null pointer is taken. -/
theorem menu_null_label :
    (∀ u : Ui, u.gfxEnabled = true → u.text = some (blankText 40 24 fun _ => 0) →
      renderGfx u (hintMenu none) (fun _ => 0) = none) ∧
    ¬ MenuSafe 40 24 (hintMenu none) := by
  have hnone : ∀ u : Ui, u.gfxEnabled = true → u.text = some (blankText 40 24 fun _ => 0) →
      renderGfx u (hintMenu none) (fun _ => 0) = none := fun u hgfx htext => by
    rw [renderGfx, hgfx, htext]
    rfl
  refine ⟨hnone, fun hsafe => ?_⟩
  obtain ⟨t', hrender, -⟩ :=
    hsafe.drawn ⟨true, blankGfx, some (blankText 40 24 fun _ => 0)⟩ _ (fun _ => 0) rfl rfl rfl rfl
  rw [hnone _ rfl rfl] at hrender
  cases hrender

end RvvmHal.Menu
