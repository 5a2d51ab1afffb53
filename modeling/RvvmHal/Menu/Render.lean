import RvvmHal.Foundations.CString
import RvvmHal.Foundations.Machine
import RvvmHal.Graphics.Text

/-!
# Menus

`ui.c`: `ui_menu_run` draws a menu into the text grid of the GFX backend, waits for a key, and draws
it again, until an item is chosen. `menuGrid` says what a menu looks like: the title, the items
below it, each with the mark of the selection, its label and its hint, and a line of help at the
bottom. This is what the grid holds when the drawing returns (`putMenu_holds`).

A string is the list of its characters before the NUL, and a null pointer is `none`. The menu is
drawn on the UART backend as well when that is enabled, which is not modelled; the keys are those of
either backend.
-/

namespace RvvmHal.Menu

open Bytes CString Graphics Raster

/-- `ui_item_t`. -/
structure UiItem where
  label : Option (List UInt8)
  id : ℤ
  disabled : Bool
  hint : Option (List UInt8)

/-- `ui_menu_t`; `count` is the number of items. -/
structure UiMenu where
  title : Option (List UInt8)
  items : List UiItem
  selected : ℕ
  count_lt : items.length < 2 ^ 32

/-- `ui_t`, without the UART backend. -/
structure Ui where
  gfxEnabled : Bool
  gfx : Gfx
  text : Option GfxText

/-- The keys of `ui_poll_key` other than `UI_KEY_NONE`. -/
inductive UiKey
  | up
  | down
  | left
  | right
  | enter
  | esc
  | back
  | char (c : UInt8)

/-- `ui_init_gfx` with a surface and a text grid. -/
def uiInitGfx (u : Ui) (gfx : Gfx) (text : GfxText) : Ui :=
  { u with gfxEnabled := true, gfx := gfx, text := some text }

/-! ## Drawing -/

/-- `ui_strlen`; there is no result for a null pointer. -/
def uiStrlen : Option (List UInt8) → Option ℕ := Option.map List.length

/-- A loop of `render_gfx` that copies a string to the end of `hdr`, an array of 80 bytes. -/
def copyHdr : List UInt8 → List UInt8 → List UInt8
  | [], hdr => hdr
  | c :: s, hdr => if hdr.length < 80 - 1 then copyHdr s (hdr ++ [c]) else hdr

/-- An item in `render_gfx`. -/
def putItem (t : GfxText) (menu : UiMenu) (i row : ℕ) (it : UiItem) : Option GfxText :=
  let sel := i = menu.selected
  let marker := [0x20, if sel then 0x3E else 0x20, 0x20]
  let t := gfxTextPuts t 0 row marker 0
  let t := gfxTextPuts t 3 row (it.label.getD []) 0
  match it.hint with
  | none => some t
  | some hint =>
    (uiStrlen it.label).map fun n =>
      let col := (n % 2 ^ 32 + 5) % 2 ^ 32
      if col < t.cols then gfxTextPuts t col row hint 0 else t

/-- The loop over the items of `render_gfx`, from item `i` on: the text and the next row. -/
def putItems (menu : UiMenu) : List UiItem → GfxText → (i row : ℕ) → Option (GfxText × ℕ)
  | [], t, _, row => some (t, row)
  | it :: items, t, i, row =>
    if row < (t.rows + 2 ^ 32 - 2) % 2 ^ 32 then
      (putItem t menu i row it).bind fun t => putItems menu items t (i + 1) ((row + 1) % 2 ^ 32)
    else some (t, row)

/-- The footer of `render_gfx`. -/
def footer : List UInt8 := cstr "arrows | Enter | Esc"

/-- The items and the footer in `render_gfx`, from a row on. -/
def putBody (t : GfxText) (menu : UiMenu) (row : ℕ) : Option GfxText :=
  (putItems menu menu.items t 0 row).map fun p =>
    if (p.2 + 1) % 2 ^ 32 < p.1.rows then
      gfxTextPuts p.1 0 ((p.1.rows + 2 ^ 32 - 1) % 2 ^ 32) footer 0
    else p.1

/-- What `render_gfx` writes into the text grid. -/
def putMenu (t : GfxText) (menu : UiMenu) : Option GfxText :=
  let t := gfxTextClear t 0
  match menu.title with
  | none => putBody t menu 0
  | some title =>
    let hdr := copyHdr (cstr " ===") (copyHdr title (copyHdr (cstr "=== ") []))
    -- a blank row below the title
    putBody (gfxTextPuts t 0 0 hdr 0) menu 2

/-- `render_gfx`. -/
def renderGfx (u : Ui) (menu : UiMenu) (mem : Mem) : Option (Ui × Mem) :=
  match u.gfxEnabled, u.text with
  | true, some t =>
    (putMenu t menu).map fun t => ({ u with text := some t }, gfxTextRender t u.gfx mem 0 0)
  | _, _ => some (u, mem)

/-- `render_menu`. -/
def renderMenu (u : Ui) (menu : UiMenu) (mem : Mem) : Option (Ui × Mem) :=
  if u.gfxEnabled then renderGfx u menu mem else some (u, mem)

/-! ## The menu loop -/

namespace UiMenu

/-- Is item `i` disabled? -/
def disabledAt (menu : UiMenu) (i : ℕ) : Bool := (menu.items[i]?.map UiItem.disabled).getD false

end UiMenu

/-- The loop of `skip_disabled`, for at most as many steps. -/
def skipLoop (menu : UiMenu) (origin : ℕ) (down : Bool) : ℕ → ℕ → ℕ
  | 0, _ => origin
  | steps + 1, i =>
    if menu.disabledAt i = false then i
    else
      let count := menu.items.length
      skipLoop menu origin down steps
        (if down then (i + 1) % 2 ^ 32 % count else (i + count + 2 ^ 32 - 1) % 2 ^ 32 % count)

/-- `skip_disabled`. -/
def skipDisabled (menu : UiMenu) (origin : ℕ) (down : Bool) : ℕ :=
  if menu.items.length = 0 then 0 else skipLoop menu origin down menu.items.length origin

/-- What `ui_menu_run` does with a key: it goes on with the menu, or returns. -/
def menuKey (menu : UiMenu) : UiKey → UiMenu ⊕ ℤ
  | .up =>
    let count := menu.items.length
    .inl { menu with
      selected := skipDisabled menu ((menu.selected + count + 2 ^ 32 - 1) % 2 ^ 32 % count) false }
  | .down =>
    .inl { menu with
      selected := skipDisabled menu ((menu.selected + 1) % 2 ^ 32 % menu.items.length) true }
  | .enter | .right =>
    match menu.items[menu.selected]? with
    | some it => if it.disabled then .inl menu else .inr it.id
    | none => .inl menu
  | .esc | .back => .inr (-1)
  | .left | .char _ => .inl menu

/-- Where `ui_menu_run` is: about to draw, waiting for a key, or returned. -/
inductive MenuPc
  | draw
  | wait
  | ret (r : ℤ)
  deriving DecidableEq

/-- The state of a run. -/
structure MenuRun where
  pc : MenuPc
  ui : Ui
  menu : UiMenu
  mem : Mem

/-- What happens in a run: it draws, or a key arrives. -/
inductive MenuEvent
  | draw
  | key (k : UiKey)

/-- `ui_menu_run` up to its loop. -/
def menuStart (u : Ui) (menu : UiMenu) (mem : Mem) : MenuRun :=
  if menu.items.length = 0 then ⟨.ret (-1), u, menu, mem⟩
  else
    let menu := if menu.selected ≥ menu.items.length then { menu with selected := 0 } else menu
    ⟨.draw, u, { menu with selected := skipDisabled menu menu.selected true }, mem⟩

/-- `ui_menu_run`. -/
def uiMenuRun (u : Ui) (menu : UiMenu) (mem : Mem) : Machine MenuRun MenuEvent where
  init := menuStart u menu mem
  step
    | .draw, r =>
      if r.pc = .draw then
        (renderMenu r.ui r.menu r.mem).map fun (ui, mem) => { r with pc := .wait, ui, mem }
      else none
    | .key k, r =>
      if r.pc = .wait then
        match menuKey r.menu k with
        | .inl menu => some { r with pc := .draw, menu }
        | .inr id => some { r with pc := .ret id }
      else none

/-! ## What a menu looks like -/

/-- The title line. -/
def titleTexts (menu : UiMenu) : List Placed :=
  match menu.title with
  | none => []
  | some title => [⟨0, 0, (cstr "=== " ++ title ++ cstr " ===").take 79⟩]

/-- The row of the first item: there is a blank row below the title. -/
def firstRow (menu : UiMenu) : ℕ := if menu.title.isSome then 2 else 0

theorem firstRow_none {menu : UiMenu} (h : menu.title = none) : firstRow menu = 0 := by
  rw [firstRow, h]
  rfl

theorem firstRow_some {menu : UiMenu} {title : List UInt8} (h : menu.title = some title) :
    firstRow menu = 2 := by
  rw [firstRow, h]
  rfl

/-- The mark of the selection, the label, and the hint behind it. -/
def itemTexts (selected i row : ℕ) (it : UiItem) : List Placed :=
  [⟨0, row, [0x20, if i = selected then 0x3E else 0x20, 0x20]⟩, ⟨3, row, it.label.getD []⟩] ++
    match it.label, it.hint with
    | some label, some hint => [⟨(label.length % 2 ^ 32 + 5) % 2 ^ 32, row, hint⟩]
    | _, _ => []

/-- The items that are shown: the two rows at the bottom are not theirs. -/
def shownItems (rows : ℕ) (menu : UiMenu) : List UiItem :=
  menu.items.take ((rows + 2 ^ 32 - 2) % 2 ^ 32 - firstRow menu)

/-- The line of help at the bottom, if it is below the items. -/
def footerTexts (rows : ℕ) (menu : UiMenu) : List Placed :=
  if (firstRow menu + (shownItems rows menu).length + 1) % 2 ^ 32 < rows then
    [⟨0, rows - 1, footer⟩]
  else []

/-- The strings of a menu. -/
def menuTexts (rows : ℕ) (menu : UiMenu) : List Placed :=
  titleTexts menu ++
    ((shownItems rows menu).zipIdx.flatMap fun p =>
      itemTexts menu.selected p.2 (firstRow menu + p.2) p.1) ++
    footerTexts rows menu

/-- The characters of a menu on a grid with so many rows. -/
def menuGrid (rows : ℕ) (menu : UiMenu) : ℕ → ℕ → UInt8 :=
  (menuTexts rows menu).foldl place fun _ _ => 0x20

section

variable {t₀ t t' : GfxText} {menu : UiMenu} {grid : ℕ → ℕ → UInt8} {i row row' : ℕ}

/-- The loops copy as much as the array takes. -/
theorem copyHdr_take (s hdr : List UInt8) : copyHdr s (hdr.take 79) = (hdr ++ s).take 79 := by
  induction s generalizing hdr with
  | nil => rw [copyHdr, List.append_nil]
  | cons c s ih =>
    rw [copyHdr, List.length_take]
    split
    next hlt =>
      have hlen : (hdr ++ [c]).length ≤ 79 := by
        rw [List.length_append, List.length_singleton]
        omega
      rw [List.take_of_length_le (by omega), ← List.take_of_length_le hlen, ih, List.append_assoc]
      rfl
    next hge => rw [List.take_append_of_le_length (by omega)]

/-- An item writes its strings. -/
theorem putItem_holds (h : Holds t₀ 0 grid t) (ht : t₀.Sized) {it : UiItem}
    (hput : putItem t menu i row it = some t') :
    Holds t₀ 0 ((itemTexts menu.selected i row it).foldl place grid) t' := by
  have hmarker := h.gfxTextPuts ht 0 row
    [0x20, if i = menu.selected then 0x3E else 0x20, 0x20]
  have hlabel := hmarker.gfxTextPuts ht 3 row (it.label.getD [])
  unfold putItem at hput
  unfold itemTexts
  rw [List.foldl_append]
  cases hhint : it.hint with
  | none =>
    rw [hhint] at hput
    obtain rfl := Option.some.inj hput
    cases hsome : it.label with
    | none =>
      rw [hsome] at hlabel
      exact hlabel
    | some label =>
      rw [hsome] at hlabel
      exact hlabel
  | some hint =>
    rw [hhint] at hput
    obtain ⟨n, hn, hput⟩ := Option.map_eq_some_iff.1 hput
    obtain ⟨label, hsome, rfl⟩ := Option.map_eq_some_iff.1 hn
    rw [hsome] at hput hlabel
    rw [hsome]
    dsimp only at hput
    rw [hlabel.cols_eq] at hput
    split at hput
    next hcol =>
      subst hput
      exact hlabel.gfxTextPuts ht _ row hint
    next hcol =>
      -- the hint begins beyond the last column
      subst hput
      refine hlabel.congr fun col hcol' _ _ => (if_neg ?_).symm
      rintro ⟨-, hle, -⟩
      exact hcol (Nat.lt_of_le_of_lt hle hcol')

/-- The loop over the items writes the items that are shown, and counts their rows. -/
theorem putItems_holds {items : List UiItem} {top : ℕ} (h : Holds t₀ 0 grid t) (ht : t₀.Sized)
    (hput : putItems menu items t i (top + i) = some (t', row')) :
    Holds t₀ 0 ((((items.take ((t₀.rows + 2 ^ 32 - 2) % 2 ^ 32 - (top + i))).zipIdx i).flatMap
        fun p => itemTexts menu.selected p.2 (top + p.2) p.1).foldl place grid) t' ∧
      row' = top + i + (items.take ((t₀.rows + 2 ^ 32 - 2) % 2 ^ 32 - (top + i))).length := by
  induction items generalizing t grid i with
  | nil =>
    obtain ⟨rfl, rfl⟩ := Prod.mk.inj (Option.some.inj hput)
    rw [List.take_nil]
    exact ⟨h, rfl⟩
  | cons it items ih =>
    rw [putItems, h.rows_eq] at hput
    split at hput
    next hlt =>
      obtain ⟨t₁, hitem, hput⟩ := Option.bind_eq_some_iff.1 hput
      have hmod := Nat.mod_lt (t₀.rows + 2 ^ 32 - 2) (Nat.two_pow_pos 32)
      rw [Nat.mod_eq_of_lt (by omega : top + i + 1 < 2 ^ 32), Nat.add_assoc] at hput
      obtain ⟨hholds, hrow⟩ := ih (putItem_holds h ht hitem) hput
      have htake : (t₀.rows + 2 ^ 32 - 2) % 2 ^ 32 - (top + i) =
          (t₀.rows + 2 ^ 32 - 2) % 2 ^ 32 - (top + (i + 1)) + 1 := by omega
      rw [htake, List.take_succ_cons, List.zipIdx_cons, List.flatMap_cons, List.foldl_append,
        List.length_cons]
      exact ⟨hholds, by omega⟩
    next hge =>
      obtain ⟨rfl, rfl⟩ := Prod.mk.inj (Option.some.inj hput)
      rw [Nat.sub_eq_zero_of_le (Nat.le_of_not_lt hge), List.take_zero]
      exact ⟨h, rfl⟩

theorem putTitle_holds (h : Holds t₀ 0 grid t) (ht : t₀.Sized) {title : List UInt8}
    (htitle : menu.title = some title) :
    Holds t₀ 0 ((titleTexts menu).foldl place grid)
      (gfxTextPuts t 0 0 (copyHdr (cstr " ===") (copyHdr title (copyHdr (cstr "=== ") []))) 0) := by
  have hcopied : copyHdr (cstr " ===") (copyHdr title (copyHdr (cstr "=== ") (List.take 79 []))) =
      (cstr "=== " ++ title ++ cstr " ===").take 79 := by
    rw [copyHdr_take, copyHdr_take, copyHdr_take, List.nil_append]
  rw [List.take_nil] at hcopied
  rw [hcopied, titleTexts, htitle]
  exact h.gfxTextPuts ht 0 0 _

theorem putBody_holds (h : Holds t₀ 0 grid t) (ht : t₀.Sized)
    (hput : putBody t menu (firstRow menu) = some t') :
    Holds t₀ 0 ((footerTexts t₀.rows menu).foldl place
      (((shownItems t₀.rows menu).zipIdx.flatMap fun p =>
        itemTexts menu.selected p.2 (firstRow menu + p.2) p.1).foldl place grid)) t' := by
  obtain ⟨⟨t₁, row⟩, hitems, rfl⟩ := Option.map_eq_some_iff.1 hput
  rw [← Nat.add_zero (firstRow menu)] at hitems
  obtain ⟨h₁, hrow⟩ := putItems_holds h ht hitems
  have hshown : menu.items.take ((t₀.rows + 2 ^ 32 - 2) % 2 ^ 32 - firstRow menu) =
    shownItems t₀.rows menu := rfl
  have hrows := ht.rows
  rw [Nat.add_zero, hshown] at h₁ hrow
  dsimp only
  rw [h₁.rows_eq, hrow, footerTexts]
  by_cases hlt : (firstRow menu + (shownItems t₀.rows menu).length + 1) % 2 ^ 32 < t₀.rows
  · have hlast : (t₀.rows + 2 ^ 32 - 1) % 2 ^ 32 = t₀.rows - 1 := by omega
    rw [if_pos hlt, if_pos hlt, hlast, List.foldl_cons, List.foldl_nil]
    exact h₁.gfxTextPuts ht 0 _ footer
  · rw [if_neg hlt, if_neg hlt, List.foldl_nil]
    exact h₁

/-- **The grid holds the menu** when it has been written. -/
theorem putMenu_holds (h : SameGrid t₀ t) (ht : t₀.Sized) (hput : putMenu t menu = some t') :
    Holds t₀ 0 (menuGrid t₀.rows menu) t' := by
  have hclear := h.clear ht 0
  rw [menuGrid, menuTexts, List.foldl_append, List.foldl_append]
  unfold putMenu at hput
  cases htitle : menu.title with
  | none =>
    rw [htitle] at hput
    dsimp only at hput
    rw [← firstRow_none htitle] at hput
    rw [titleTexts, htitle]
    exact putBody_holds hclear ht hput
  | some title =>
    rw [htitle] at hput
    dsimp only at hput
    rw [← firstRow_some htitle] at hput
    exact putBody_holds (putTitle_holds hclear ht htitle) ht hput

end

end RvvmHal.Menu
