import RvvmHal.Foundations.CyclicOrder
import RvvmHal.Menu.Render

/-!
# Navigation in a menu

The cursor of `ui_menu_run`. With fewer than `2 ^ 31` items the sums of `skip_disabled` do not wrap,
and the cursor stays below the number of items. If an item is enabled the cursor is on an enabled
one whenever the menu is drawn, and the keys move it to the next and to the previous enabled item in
cyclic order (`menu_navigation`).
-/

namespace RvvmHal.Menu

open Bytes Cyclic

/-- A step of `skip_disabled`, down or up. -/
def skipStep (count : ℕ) (down : Bool) (i : ℕ) : ℕ :=
  if down then (i + 1) % 2 ^ 32 % count else (i + count + 2 ^ 32 - 1) % 2 ^ 32 % count

namespace UiMenu

variable (menu : UiMenu)

/-- Item `i` can be selected. -/
def Enabled (i : ℕ) : Prop := i < menu.items.length ∧ menu.disabledAt i = false

/-- Where Down takes the cursor from item `i`. -/
def nextOf (i : ℕ) : ℕ := skipDisabled menu (skipStep menu.items.length true i) true

/-- Where Up takes the cursor from item `i`. -/
def prevOf (i : ℕ) : ℕ := skipDisabled menu (skipStep menu.items.length false i) false

/-- The menu after Down. -/
def moveDown : UiMenu := { menu with selected := menu.nextOf menu.selected }

/-- The menu after Up. -/
def moveUp : UiMenu := { menu with selected := menu.prevOf menu.selected }

end UiMenu

/-! ## Skipping -/

section

variable {menu : UiMenu} {origin i : ℕ} {down : Bool}

theorem skipLoop_succ (steps : ℕ) :
    skipLoop menu origin down (steps + 1) i =
      if menu.disabledAt i = false then i
      else skipLoop menu origin down steps (skipStep menu.items.length down i) := rfl

/-- The loop does not look at the cursor. -/
theorem skipLoop_select (selected steps : ℕ) :
    skipLoop { menu with selected := selected } origin down steps i =
      skipLoop menu origin down steps i := by
  induction steps generalizing i with
  | zero => rfl
  | succ steps ih =>
    rw [skipLoop_succ, skipLoop_succ, ih]
    rfl

theorem skipDisabled_select (selected : ℕ) :
    skipDisabled { menu with selected := selected } origin down = skipDisabled menu origin down := by
  unfold skipDisabled
  rw [skipLoop_select]

theorem skipStep_lt (hpos : 0 < menu.items.length) :
    skipStep menu.items.length down i < menu.items.length := by
  unfold skipStep
  split <;> exact Nat.mod_lt _ hpos

theorem skipDisabled_lt (horigin : origin < menu.items.length) :
    skipDisabled menu origin down < menu.items.length := by
  have hpos : 0 < menu.items.length := Nat.zero_lt_of_lt horigin
  have hloop : ∀ steps i, i < menu.items.length →
      skipLoop menu origin down steps i < menu.items.length := by
    intro steps
    induction steps with
    | zero => exact fun _ _ => horigin
    | succ steps ih =>
      intro i hi
      rw [skipLoop_succ]
      split
      · exact hi
      · exact ih _ (skipStep_lt hpos)
  rw [skipDisabled, if_neg (Nat.ne_of_gt hpos)]
  exact hloop _ _ horigin

/-- The loop goes along the positions `w` to the first enabled one. -/
theorem skipLoop_eq {w : ℕ → ℕ} (hw : ∀ d, w (d + 1) = skipStep menu.items.length down (w d))
    {steps k : ℕ} (hk : k < steps) (hen : menu.disabledAt (w k) = false)
    (hdis : ∀ d < k, menu.disabledAt (w d) ≠ false) :
    skipLoop menu origin down steps (w 0) = w k := by
  induction k generalizing steps w with
  | zero =>
    obtain ⟨steps, rfl⟩ := Nat.exists_eq_add_one.2 hk
    rw [skipLoop_succ, if_pos hen]
  | succ k ih =>
    obtain ⟨steps, rfl⟩ := Nat.exists_eq_add_one.2 (Nat.zero_lt_of_lt hk)
    rw [skipLoop_succ, if_neg (hdis 0 (Nat.succ_pos k)), ← hw 0]
    exact ih (fun d => hw (d + 1)) (Nat.lt_of_succ_lt_succ hk) hen
      fun d hd => hdis (d + 1) (Nat.succ_lt_succ hd)

/-- **What is skipped**: the positions `w` before the first enabled one. -/
theorem exists_skipDisabled {w : ℕ → ℕ}
    (hw : ∀ d, w (d + 1) = skipStep menu.items.length down (w d)) (h0 : w 0 = origin)
    (hex : ∃ d < menu.items.length, menu.disabledAt (w d) = false) :
    ∃ k, k < menu.items.length ∧ skipDisabled menu origin down = w k ∧
      menu.disabledAt (w k) = false ∧ ∀ d < k, menu.disabledAt (w d) ≠ false := by
  have hfind : ∃ d, menu.disabledAt (w d) = false := hex.imp fun _ h => h.2
  obtain ⟨d, hd, hen⟩ := hex
  have hlt : Nat.find hfind < menu.items.length :=
    Nat.lt_of_le_of_lt (Nat.find_min' hfind hen) hd
  refine ⟨Nat.find hfind, hlt, ?_, Nat.find_spec hfind, fun d hd => Nat.find_min hfind hd⟩
  rw [skipDisabled, if_neg (by omega), ← h0]
  exact skipLoop_eq hw hlt (Nat.find_spec hfind) fun d hd => Nat.find_min hfind hd

end

/-! ## Next and previous items -/

section

variable {menu : UiMenu} {i j : ℕ}

theorem skipStep_down {n i : ℕ} (hn : n < 2 ^ 31) (hi : i < n) :
    skipStep n true i = (i + 1) % n := by
  rw [skipStep, if_pos rfl, Nat.mod_eq_of_lt (by omega : i + 1 < 2 ^ 32)]

/-- A step down is one of `n - 1` up. -/
theorem skipStep_up {n i : ℕ} (hn : n < 2 ^ 31) (hi : i < n) :
    skipStep n false i = (i + (n - 1)) % n := by
  have hsum : (i + n + 2 ^ 32 - 1) % 2 ^ 32 = i + (n - 1) := by omega
  rw [skipStep, if_neg (by decide), hsum]

/-- Going down from an item that is in the menu finds the first enabled one from it on. -/
theorem skipDisabled_down (hn : menu.items.length < 2 ^ 31) (hi : i < menu.items.length)
    (hex : ∃ e, menu.Enabled e) :
    ∃ k, skipDisabled menu i true = (i + k) % menu.items.length ∧
      menu.Enabled ((i + k) % menu.items.length) ∧
      ∀ d < k, ¬ menu.Enabled ((i + d) % menu.items.length) := by
  have hpos : 0 < menu.items.length := Nat.zero_lt_of_lt hi
  obtain ⟨e, hlt, hen⟩ := hex
  obtain ⟨d, hd, hde⟩ := exists_add_mod i hlt
  have hw : ∀ d, (i + (d + 1)) % menu.items.length =
      skipStep menu.items.length true ((i + d) % menu.items.length) := fun d => by
    rw [skipStep_down hn (Nat.mod_lt _ hpos), Nat.mod_add_mod, Nat.add_assoc]
  obtain ⟨k, -, heq, hk, hskip⟩ :=
    exists_skipDisabled (w := fun d => (i + d) % menu.items.length) hw (Nat.mod_eq_of_lt hi)
      ⟨d, hd, by rw [hde]; exact hen⟩
  exact ⟨k, heq, ⟨Nat.mod_lt _ hpos, hk⟩, fun d hd hen => hskip d hd hen.2⟩

/-- Down goes to the next enabled item. -/
theorem nextOf_isNext (hn : menu.items.length < 2 ^ 31) (hi : i < menu.items.length)
    (hex : ∃ e, menu.Enabled e) : IsNext menu.items.length menu.Enabled i (menu.nextOf i) := by
  obtain ⟨k, heq, hk, hskip⟩ :=
    skipDisabled_down hn (skipStep_lt (i := i) (Nat.zero_lt_of_lt hi)) hex
  rw [skipStep_down hn hi] at heq hk hskip
  simp only [Nat.mod_add_mod, Nat.add_assoc, Nat.add_comm 1] at heq hk hskip
  have hnext : menu.nextOf i = (i + (k + 1)) % menu.items.length := by
    rw [UiMenu.nextOf, skipStep_down hn hi, heq]
  rw [hnext]
  refine ⟨hk, k + 1, Nat.succ_pos k, rfl, fun d hd hlt => ?_⟩
  have hbefore := hskip (d - 1) (by omega)
  rwa [Nat.sub_add_cancel hd] at hbefore

/-- The positions below `i`, from above. -/
def downFrom (n i d : ℕ) : ℕ := (i + d * (n - 1)) % n

theorem downFrom_add {n : ℕ} (hn : 0 < n) (i a d : ℕ) :
    (downFrom n i (a + d) + d) % n = downFrom n i a := by
  rw [downFrom, downFrom, Nat.mod_add_mod, Nat.add_mul, ← Nat.add_assoc, Nat.add_assoc _ _ d,
    ← Nat.mul_succ, Nat.succ_eq_add_one, Nat.sub_add_cancel hn, Nat.add_mul_mod_self_right]

/-- Up goes to the previous enabled item. -/
theorem prevOf_isPrev (hn : menu.items.length < 2 ^ 31) (hi : i < menu.items.length)
    (hex : ∃ e, menu.Enabled e) : IsPrev menu.items.length menu.Enabled i (menu.prevOf i) := by
  have hpos : 0 < menu.items.length := Nat.zero_lt_of_lt hi
  obtain ⟨e, hlt, hen⟩ := hex
  obtain ⟨d, hd, hde⟩ := exists_add_mod (e + 1) hi
  have hw : ∀ d, downFrom menu.items.length i (d + 1 + 1) =
      skipStep menu.items.length false (downFrom menu.items.length i (d + 1)) := fun d => by
    rw [downFrom, downFrom, skipStep_up hn (Nat.mod_lt _ hpos), Nat.mod_add_mod,
      Nat.succ_mul (d + 1), ← Nat.add_assoc i]
  have h0 : downFrom menu.items.length i (0 + 1) = skipStep menu.items.length false i := by
    rw [skipStep_up hn hi, downFrom, Nat.zero_add, Nat.one_mul]
  have hlow : downFrom menu.items.length i 0 = i := by
    rw [downFrom, Nat.zero_mul, Nat.add_zero, Nat.mod_eq_of_lt hi]
  have habove : ∀ k, (downFrom menu.items.length i k + k) % menu.items.length = i := fun k => by
    have hadd := downFrom_add hpos i 0 k
    rwa [Nat.zero_add, hlow] at hadd
  have he : downFrom menu.items.length i (d + 1) = e := by
    rw [Nat.add_assoc, Nat.add_comm 1] at hde
    have hmod : downFrom menu.items.length i (d + 1) ≡ e [MOD menu.items.length] :=
      Nat.ModEq.add_right_cancel' (d + 1) ((habove (d + 1)).trans hde.symm)
    exact hmod.eq_of_lt_of_lt (Nat.mod_lt _ hpos) hlt
  obtain ⟨k, -, heq, hk, hskip⟩ :=
    exists_skipDisabled (w := fun d => downFrom menu.items.length i (d + 1)) hw h0
      ⟨d, hd, by rw [he]; exact hen⟩
  have hprev : menu.prevOf i = downFrom menu.items.length i (k + 1) := heq
  rw [hprev]
  refine ⟨⟨Nat.mod_lt _ hpos, hk⟩, Nat.mod_lt _ hpos, k + 1, Nat.succ_pos k, habove (k + 1),
    fun d hd hlt hen => ?_⟩
  have hadd := downFrom_add hpos i (k - d + 1) d
  rw [show k - d + 1 + d = k + 1 by omega] at hadd
  rw [hadd] at hen
  exact hskip (k - d) (by omega) hen.2

end

/-! ## The laws of navigation -/

/-- The cursor is on an enabled item, Down and Up move it to the next and to the previous one in
cyclic order and undo each other, and going down meets every enabled item before the first one comes
again. -/
structure Navigates (menu : UiMenu) : Prop where
  enabled : menu.Enabled menu.selected
  down : menuKey menu .down = .inl menu.moveDown ∧
    IsNext menu.items.length menu.Enabled menu.selected menu.moveDown.selected
  up : menuKey menu .up = .inl menu.moveUp ∧
    IsPrev menu.items.length menu.Enabled menu.selected menu.moveUp.selected
  up_down : menu.moveDown.moveUp = menu
  down_up : menu.moveUp.moveDown = menu
  around : ∃ period, 0 < period ∧ UiMenu.moveDown^[period] menu = menu ∧
    (∀ a < period, ∀ b < period,
      (UiMenu.moveDown^[a] menu).selected = (UiMenu.moveDown^[b] menu).selected → a = b) ∧
    ∀ i, menu.Enabled i → ∃ a < period, (UiMenu.moveDown^[a] menu).selected = i

section

variable {menu : UiMenu}

theorem nextOf_select (selected i : ℕ) :
    UiMenu.nextOf { menu with selected := selected } i = menu.nextOf i :=
  skipDisabled_select selected

theorem prevOf_select (selected i : ℕ) :
    UiMenu.prevOf { menu with selected := selected } i = menu.prevOf i :=
  skipDisabled_select selected

theorem iterate_moveDown (a : ℕ) :
    UiMenu.moveDown^[a] menu = { menu with selected := menu.nextOf^[a] menu.selected } := by
  induction a with
  | zero => rfl
  | succ a ih =>
    rw [Function.iterate_succ_apply', Function.iterate_succ_apply', ih, UiMenu.moveDown,
      nextOf_select]

theorem menuKey_down : menuKey menu .down = .inl menu.moveDown := by
  rw [menuKey, UiMenu.moveDown, UiMenu.nextOf, skipStep, if_pos rfl]

theorem menuKey_up : menuKey menu .up = .inl menu.moveUp := by
  rw [menuKey, UiMenu.moveUp, UiMenu.prevOf, skipStep, if_neg Bool.false_ne_true]

/-- **Navigation** from an enabled item. -/
theorem navigates (hn : menu.items.length < 2 ^ 31) (hsel : menu.Enabled menu.selected) :
    Navigates menu := by
  have hex : ∃ e, menu.Enabled e := ⟨_, hsel⟩
  have hnext := nextOf_isNext hn hsel.1 hex
  have hprev := prevOf_isPrev hn hsel.1 hex
  refine ⟨hsel, ⟨menuKey_down, hnext⟩, ⟨menuKey_up, hprev⟩, ?_, ?_, ?_⟩
  · have hback := prevOf_isPrev hn hnext.1.1 hex
    rw [UiMenu.moveUp, UiMenu.moveDown, prevOf_select]
    dsimp only
    rw [hback.unique (hnext.isPrev hsel.1 hsel)]
  · have hback := nextOf_isNext hn hprev.2.1 hex
    rw [UiMenu.moveDown, UiMenu.moveUp, nextOf_select]
    dsimp only
    rw [hback.unique (hprev.isNext hsel)]
  · obtain ⟨period, hpos, hperiod, hinj, hall⟩ :=
      exists_period (fun i hi _ => nextOf_isNext hn hi hex) hsel.1 hsel
    simp only [iterate_moveDown]
    refine ⟨period, hpos, ?_, hinj, fun i hi => hall i hi.1 hi⟩
    rw [hperiod]

end

/-! ## Runs -/

/-- The cursor in a run on a menu. -/
structure CursorOk (menu₀ menu : UiMenu) : Prop where
  items : menu.items = menu₀.items
  selected_lt : menu.selected < menu₀.items.length
  enabled : (∃ i, menu₀.Enabled i) → menu.Enabled menu.selected

section

variable {u : Ui} {menu₀ menu : UiMenu} {mem : Mem}

theorem enabled_congr {menu' : UiMenu} (h : menu.items = menu'.items) (i : ℕ) :
    menu.Enabled i ↔ menu'.Enabled i := by
  rw [UiMenu.Enabled, UiMenu.Enabled, UiMenu.disabledAt, UiMenu.disabledAt, h]

/-- The cursor after it has been moved. -/
theorem CursorOk.move (h : CursorOk menu₀ menu) {down : Bool} {i : ℕ}
    (hlt : i < menu.items.length)
    (hen : (∃ e, menu.Enabled e) → menu.Enabled (skipDisabled menu i down)) :
    CursorOk menu₀ { menu with selected := skipDisabled menu i down } where
  items := h.items
  selected_lt := h.items ▸ skipDisabled_lt hlt
  enabled hex := hen (hex.imp fun e he => (enabled_congr h.items e).2 he)

theorem cursorOk_start (hpos : 0 < menu.items.length) (hn : menu.items.length < 2 ^ 31) :
    CursorOk menu (menuStart u menu mem).menu ∧ (menuStart u menu mem).pc = .draw := by
  rw [menuStart, if_neg (Nat.ne_of_gt hpos)]
  refine ⟨?_, rfl⟩
  have hmove : ∀ selected, selected < menu.items.length →
      CursorOk menu { menu with selected := skipDisabled menu selected true } := by
    refine fun selected hlt => ⟨rfl, skipDisabled_lt hlt, fun hex => ?_⟩
    obtain ⟨k, heq, hk, -⟩ := skipDisabled_down hn hlt hex
    exact heq ▸ hk
  dsimp only
  split
  next =>
    rw [skipDisabled_select]
    exact hmove 0 hpos
  next hlt => exact hmove _ (Nat.lt_of_not_le hlt)

/-- A key keeps the cursor, or chooses. -/
theorem CursorOk.menuKey (h : CursorOk menu₀ menu) (hn : menu₀.items.length < 2 ^ 31) (k : UiKey) :
    (∀ menu', menuKey menu k = .inl menu' → CursorOk menu₀ menu') ∧
    ∀ r, Menu.menuKey menu k = .inr r → (k = .esc ∨ k = .back) ∧ r = -1 ∨
      ∃ it ∈ menu₀.items, it.disabled = false ∧ r = it.id := by
  have hlen : menu.items.length < 2 ^ 31 := by rwa [h.items]
  have hsel : menu.selected < menu.items.length := by
    rw [h.items]
    exact h.selected_lt
  have hpos : 0 < menu.items.length := Nat.zero_lt_of_lt hsel
  have hkeep : ∀ menu', (.inl menu : UiMenu ⊕ ℤ) = .inl menu' → CursorOk menu₀ menu' :=
    fun menu' heq => Sum.inl.inj heq ▸ h
  have hchoose : (∀ menu', Menu.menuKey menu .enter = .inl menu' → CursorOk menu₀ menu') ∧
      ∀ r, Menu.menuKey menu .enter = .inr r →
        ∃ it ∈ menu₀.items, it.disabled = false ∧ r = it.id := by
    unfold Menu.menuKey
    cases hit : menu.items[menu.selected]? with
    | none => exact ⟨hkeep, fun r heq => (by cases heq)⟩
    | some it =>
      dsimp only
      split
      next => exact ⟨hkeep, fun r heq => (by cases heq)⟩
      next hdis =>
        refine ⟨fun menu' heq => (by cases heq), fun r heq => ⟨it, ?_, ?_, ?_⟩⟩
        · exact h.items ▸ List.mem_of_getElem? hit
        · exact Bool.eq_false_iff.2 hdis
        · exact (Sum.inr.inj heq).symm
  cases k with
  | down =>
    rw [menuKey_down]
    refine ⟨fun menu' heq => ?_, fun r heq => (by cases heq)⟩
    obtain rfl := Sum.inl.inj heq
    exact h.move (skipStep_lt hpos) fun hex => (nextOf_isNext hlen hsel hex).1
  | up =>
    rw [menuKey_up]
    refine ⟨fun menu' heq => ?_, fun r heq => (by cases heq)⟩
    obtain rfl := Sum.inl.inj heq
    exact h.move (skipStep_lt hpos) fun hex => (prevOf_isPrev hlen hsel hex).1
  | left | char c => exact ⟨hkeep, fun r heq => (by cases heq)⟩
  | esc =>
    exact ⟨fun menu' heq => (by cases heq), fun r heq => .inl ⟨.inl rfl, (Sum.inr.inj heq).symm⟩⟩
  | back =>
    exact ⟨fun menu' heq => (by cases heq), fun r heq => .inl ⟨.inr rfl, (Sum.inr.inj heq).symm⟩⟩
  | enter => exact ⟨hchoose.1, fun r heq => .inr (hchoose.2 r heq)⟩
  | right => exact ⟨hchoose.1, fun r heq => .inr (hchoose.2 r heq)⟩

theorem cursorOk_step (hn : menu₀.items.length < 2 ^ 31) {s s' : MenuRun} {a : MenuEvent}
    (h : CursorOk menu₀ s.menu) (hs : (uiMenuRun u menu mem).step a s = some s') :
    CursorOk menu₀ s'.menu ∧ ∀ r, s'.pc = .ret r → ∃ k, a = .key k ∧
      ((k = .esc ∨ k = .back) ∧ r = -1 ∨ ∃ it ∈ menu₀.items, it.disabled = false ∧ r = it.id) := by
  cases a with
  | draw =>
    obtain ⟨-, hs⟩ := Option.ite_none_right_eq_some.1 hs
    obtain ⟨p, -, rfl⟩ := Option.map_eq_some_iff.1 hs
    exact ⟨h, fun r hr => (by cases hr)⟩
  | key k =>
    obtain ⟨-, hs⟩ := Option.ite_none_right_eq_some.1 hs
    obtain ⟨hgo, hret⟩ := h.menuKey hn k
    cases hk : menuKey s.menu k with
    | inl menu' =>
      rw [hk] at hs
      obtain rfl := Option.some.inj hs
      exact ⟨hgo menu' hk, fun r hr => (by cases hr)⟩
    | inr id =>
      rw [hk] at hs
      obtain rfl := Option.some.inj hs
      exact ⟨h, fun r hr => ⟨k, rfl, MenuPc.ret.inj hr ▸ hret id hk⟩⟩

theorem cursorOk_of_reachable (hpos : 0 < menu.items.length) (hn : menu.items.length < 2 ^ 31)
    {s : MenuRun} (h : (uiMenuRun u menu mem).Reachable s) : CursorOk menu s.menu :=
  h.invariant (cursorOk_start hpos hn).1 fun hI _ hs => (cursorOk_step hn hI hs).1

/-! ## Main results -/

/-- **Menu navigation.** In every run on a menu with items the cursor is below their number. If an
item is enabled, the cursor is on an enabled item, and the laws of navigation hold. The run returns
the id of an enabled item, or -1 after Esc or Backspace. -/
theorem menu_navigation (hpos : 0 < menu.items.length) (hn : menu.items.length < 2 ^ 31)
    {s : MenuRun} (h : (uiMenuRun u menu mem).Reachable s) :
    s.menu.items = menu.items ∧ s.menu.selected < menu.items.length ∧
    ((∃ i, menu.Enabled i) → Navigates s.menu) ∧
    ∀ r, s.pc = .ret r → ∃ s₀ k, (uiMenuRun u menu mem).Reachable s₀ ∧
      (uiMenuRun u menu mem).step (.key k) s₀ = some s ∧
      ((k = .esc ∨ k = .back) ∧ r = -1 ∨ ∃ it ∈ menu.items, it.disabled = false ∧ r = it.id) := by
  have hI := cursorOk_of_reachable hpos hn h
  refine ⟨hI.items, hI.selected_lt, fun hex => ?_, fun r hr => ?_⟩
  · exact navigates (by rwa [hI.items]) (hI.enabled hex)
  · cases h with
    | init =>
      have hdraw : (menuStart u menu mem).pc = .draw := (cursorOk_start hpos hn).2
      rw [uiMenuRun, hdraw] at hr
      cases hr
    | step hreach _ hs =>
      obtain ⟨k, rfl, hk⟩ := (cursorOk_step hn (cursorOk_of_reachable hpos hn hreach) hs).2 r hr
      exact ⟨_, k, hreach, hs, hk⟩

end

/-- A user interface without a display. -/
def blindUi : Ui := ⟨false, ⟨0, 0, 0, 0, .none, .xrgb8888⟩, none⟩

/-- Four items, the first and the third of which are disabled; the cursor is out of range. -/
def fourMenu : UiMenu where
  title := none
  items := [⟨none, 10, true, none⟩, ⟨none, 20, false, none⟩, ⟨none, 30, true, none⟩,
    ⟨none, 40, false, none⟩]
  selected := 7
  count_lt := by decide

theorem menu_navigation_fourMenu :
    ∃ s, (uiMenuRun blindUi fourMenu fun _ => 0).Reachable s ∧ s.menu.selected = 1 ∧
      Navigates s.menu ∧ s.pc = .ret 20 ∧
      ∃ it ∈ fourMenu.items, it.disabled = false ∧ 20 = it.id := by
  have hrun : (uiMenuRun blindUi fourMenu fun _ => 0).run
      [.draw, .key .down, .draw, .key .down, .draw, .key .up, .draw, .key .down, .draw, .key .enter]
      (uiMenuRun blindUi fourMenu fun _ => 0).init = some _ := rfl
  have hreach := Machine.reachable_of_run hrun
  obtain ⟨-, -, hnav, hret⟩ := menu_navigation (by decide) (by decide) hreach
  refine ⟨_, hreach, rfl, hnav ⟨1, by decide, rfl⟩, rfl, ?_⟩
  obtain ⟨s₀, k, -, -, ⟨-, heq⟩ | hit⟩ := hret 20 rfl
  · exact absurd heq (by decide)
  · exact hit

end RvvmHal.Menu
