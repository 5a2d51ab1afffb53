import RvvmHal.Menu.Navigation

/-!
# The file picker

`ui_pick_file` of `ui.c`: the files of a directory as a menu, and the path of the one that is chosen.
The menu keeps 63 bytes of a name, and the path is composed from what the menu keeps and cut to the
size of the buffer, so that the path that is returned is that of the chosen file if neither cut takes
anything away (`uiPickFile_iff`).
-/

namespace RvvmHal.Menu

open CString

/-- An entry of a directory, as `f_readdir` gives it. -/
structure FilInfo where
  fname : List UInt8
  fattrib : UInt8
  fname_ne_nil : fname ≠ []
  fname_nul : 0 ∉ fname
  fname_le : fname.length ≤ 255

/-- A directory (`AM_DIR`). -/
def FilInfo.isDir (f : FilInfo) : Bool := f.fattrib &&& 0x10 ≠ 0

/-- The comparison with the extension. -/
def extMatches (ext name : List UInt8) : Bool :=
  if name.length < ext.length + 1 then false
  else if name[name.length - ext.length - 1]? ≠ some 0x2E then false
  else name.drop (name.length - ext.length) = ext

/-- The entries that are taken. -/
def accepts (ext : Option (List UInt8)) (f : FilInfo) : Bool :=
  !f.isDir && match ext with
    | none => true
    | some ext => extMatches ext f.fname

/-- A name in one of the slots of `UI_NAME_MAX` bytes. -/
def slotName (f : FilInfo) : List UInt8 :=
  f.fname.take (if f.fname.length ≥ 64 then 64 - 1 else f.fname.length)

/-- The loop of `ui_pick_file` over the entries, with `n` of the `UI_PICK_MAX` slots filled. -/
def pickLoop (ext : Option (List UInt8)) : List FilInfo → ℕ → List (List UInt8)
  | [], _ => []
  | f :: listing, n =>
    if n < 64 then
      if accepts ext f then slotName f :: pickLoop ext listing (n + 1)
      else pickLoop ext listing n
    else []

theorem pickLoop_eq (ext : Option (List UInt8)) (listing : List FilInfo) (n : ℕ) :
    pickLoop ext listing n = ((listing.filter (accepts ext)).take (64 - n)).map slotName := by
  induction listing generalizing n with
  | nil => rw [pickLoop, List.filter_nil, List.take_nil, List.map_nil]
  | cons f listing ih =>
    rw [pickLoop]
    split_ifs with hn haccepts
    · rw [ih, List.filter_cons_of_pos haccepts, show 64 - n = 64 - (n + 1) + 1 by omega,
        List.take_succ_cons, List.map_cons]
    · rw [ih, List.filter_cons_of_neg haccepts]
    · rw [Nat.sub_eq_zero_of_le (Nat.le_of_not_lt hn), List.take_zero, List.map_nil]

theorem length_pickLoop (ext : Option (List UInt8)) (listing : List FilInfo) :
    (pickLoop ext listing 0).length ≤ 64 := by
  rw [pickLoop_eq, List.length_map]
  exact List.length_take_le ..

/-- The directory, or the default. -/
def dirString (dir : Option (List UInt8)) : List UInt8 := dir.getD (cstr "/")

/-- The menu of `ui_pick_file`. -/
def pickMenu (dir ext : Option (List UInt8)) (listing : List FilInfo) : UiMenu where
  -- the dash of the title is three bytes long
  title := some ((cstr "Pick file " ++ [0xE2, 0x80, 0x94] ++ cstr " " ++ dirString dir).take (80 - 1))
  items := (pickLoop ext listing 0).zipIdx.map fun p => ⟨some p.1, p.2, false, none⟩
  selected := 0
  count_lt := by
    rw [List.length_map, List.length_zipIdx]
    exact (length_pickLoop ext listing).trans_lt (by decide)

/-- `snprintf` into a buffer: the string that it holds, unless it has no room for one. -/
def snprintfOut (outsz : ℕ) (s : List UInt8) : Option (List UInt8) :=
  if outsz = 0 then none else some (s.take (outsz - 1))

/-- `ui_pick_file`: the result, and the string in `out` if it is written. `answer` is what
`ui_menu_run` returns for the menu. -/
def uiPickFile (dir ext : Option (List UInt8)) (opened : Option (List FilInfo)) (outsz : ℕ)
    (answer : ℤ) : Bool × Option (List UInt8) :=
  match opened with
  | none => (false, none)
  | some listing =>
    let names := pickLoop ext listing 0
    if names.length = 0 then (false, none)
    else if answer < 0 then (false, none)
    else
      let d := dirString dir
      let sep := if d ≠ [] ∧ d[d.length - 1]? = some 0x2F then [] else cstr "/"
      (true, snprintfOut outsz (d ++ sep ++ names.getD answer.toNat []))

/-! ## The file that is chosen -/

/-- The path of a file: one separator, unless the directory ends in one. -/
def path (dir name : List UInt8) : List UInt8 :=
  if dir.getLast? = some 0x2F then dir ++ name else dir ++ 0x2F :: name

/-- A regular file whose name ends in a dot and the extension, if there is one. -/
def IsCandidate (ext : Option (List UInt8)) (f : FilInfo) : Prop :=
  f.isDir = false ∧ ∀ e ∈ ext, 0x2E :: e <:+ f.fname

section

variable {dir ext : Option (List UInt8)} {listing : List FilInfo} {outsz : ℕ} {f : FilInfo}

/-- The comparison looks for the dot and the extension at the end. -/
theorem extMatches_iff (ext name : List UInt8) : extMatches ext name ↔ 0x2E :: ext <:+ name := by
  rw [List.suffix_iff_eq_drop, List.length_cons, extMatches]
  by_cases hlen : name.length < ext.length + 1
  · rw [if_pos hlen]
    refine iff_of_false Bool.false_ne_true fun h => ?_
    have hl := congrArg List.length h
    rw [List.length_cons, List.length_drop] at hl
    omega
  · have hk : name.length - ext.length - 1 < name.length := by omega
    have hsucc : name.length - ext.length - 1 + 1 = name.length - ext.length := by omega
    rw [if_neg hlen, ← Nat.sub_sub, List.drop_eq_getElem_cons hk, hsucc,
      List.getElem?_eq_getElem hk, List.cons.injEq]
    by_cases hdot : name[name.length - ext.length - 1] = 0x2E
    · rw [if_neg (not_not.2 (congrArg some hdot)), decide_eq_true_iff]
      exact ⟨fun h => ⟨hdot.symm, h.symm⟩, fun h => h.2.symm⟩
    · rw [if_pos fun h => hdot (Option.some.inj h)]
      exact iff_of_false Bool.false_ne_true fun h => hdot h.1.symm

theorem accepts_iff : accepts ext f ↔ IsCandidate ext f := by
  unfold accepts
  rw [Bool.and_eq_true, Bool.not_eq_true', IsCandidate]
  refine and_congr_right fun _ => ?_
  cases ext with
  | none => exact iff_of_true rfl fun e he => (by cases he)
  | some ext =>
    rw [extMatches_iff]
    exact ⟨fun h e he => Option.mem_some.1 he ▸ h, fun h => h ext rfl⟩

/-- The run of the menu returns -1 or the number of one of the names. -/
theorem answer_of_reachable {u : Ui} {mem : Bytes.Mem} {s : MenuRun} {r : ℤ}
    (hrun : (uiMenuRun u (pickMenu dir ext listing) mem).Reachable s) (hret : s.pc = .ret r)
    (hnames : 0 < (pickLoop ext listing 0).length) (hr : 0 ≤ r) :
    r.toNat < (pickLoop ext listing 0).length := by
  have hlen : (pickMenu dir ext listing).items.length = (pickLoop ext listing 0).length := by
    rw [pickMenu, List.length_map, List.length_zipIdx]
  have hle := length_pickLoop ext listing
  have hpos : 0 < (pickMenu dir ext listing).items.length := by rwa [hlen]
  have hn : (pickMenu dir ext listing).items.length < 2 ^ 31 := by omega
  cases hrun with
  | init =>
    have hdraw : (menuStart u (pickMenu dir ext listing) mem).pc = .draw := (cursorOk_start hpos hn).2
    rw [uiMenuRun, hdraw] at hret
    cases hret
  | step hreach _ hs =>
    obtain ⟨k, -, ⟨-, hback⟩ | ⟨it, hit, -, hid⟩⟩ :=
      (cursorOk_step hn (cursorOk_of_reachable hpos hn hreach) hs).2 r hret
    · omega
    · obtain ⟨p, hp, rfl⟩ := List.mem_map.1 hit
      obtain ⟨hlt, -⟩ := List.getElem?_eq_some_iff.1 (List.mem_zipIdx_iff_getElem?.1 hp)
      dsimp only at hid
      omega

/-- The separator, as the code finds it. -/
theorem append_sep (d name : List UInt8) :
    d ++ (if d ≠ [] ∧ d[d.length - 1]? = some 0x2F then [] else cstr "/") ++ name = path d name := by
  rw [path, ← List.getLast?_eq_getElem?]
  by_cases hlast : d.getLast? = some 0x2F
  · have hne : d ≠ [] := fun h => by
      rw [h] at hlast
      cases hlast
    rw [if_pos ⟨hne, hlast⟩, if_pos hlast, List.append_nil]
  · rw [if_neg fun h => hlast h.2, if_neg hlast, List.append_assoc]
    rfl

theorem exists_path (d : List UInt8) : ∃ pre, ∀ name, path d name = pre ++ name := by
  by_cases hlast : d.getLast? = some 0x2F
  · exact ⟨d, fun name => if_pos hlast⟩
  · exact ⟨d ++ [0x2F], fun name => by rw [path, if_neg hlast, List.append_assoc]; rfl⟩

/-- **Neither cut takes anything away** if the name and the path are short enough, and only then. -/
theorem snprintfOut_eq_iff (d : List UInt8) (f : FilInfo) (outsz : ℕ) :
    snprintfOut outsz (path d (slotName f)) = some (path d f.fname) ↔
      f.fname.length ≤ 63 ∧ (path d f.fname).length < outsz := by
  obtain ⟨pre, hpre⟩ := exists_path d
  rw [hpre, hpre, List.length_append, snprintfOut]
  by_cases hzero : outsz = 0
  · rw [if_pos hzero]
    exact iff_of_false (fun h => by cases h) fun h => by omega
  · rw [if_neg hzero, Option.some_inj, slotName]
    constructor
    · intro h
      have hl := congrArg List.length h
      rw [List.length_take, List.length_append, List.length_take, List.length_append] at hl
      split_ifs at hl <;> omega
    · rintro ⟨hname, hpath⟩
      rw [if_neg (by omega), List.take_length, List.take_of_length_le]
      rw [List.length_append]
      omega

/-- A file is picked: there is one, and the menu did not return -1. -/
theorem uiPickFile_of_true {r : ℤ} (htrue : (uiPickFile dir ext (some listing) outsz r).1 = true) :
    0 < (pickLoop ext listing 0).length ∧ 0 ≤ r ∧
      uiPickFile dir ext (some listing) outsz r =
        (true, snprintfOut outsz
          (path (dirString dir) ((pickLoop ext listing 0).getD r.toNat []))) := by
  rw [uiPickFile] at htrue ⊢
  dsimp only at htrue ⊢
  by_cases hnone : (pickLoop ext listing 0).length = 0
  · rw [if_pos hnone] at htrue
    cases htrue
  · rw [if_neg hnone] at htrue ⊢
    by_cases hback : r < 0
    · rw [if_pos hback] at htrue
      cases htrue
    · rw [if_neg hback, append_sep]
      exact ⟨Nat.pos_of_ne_zero hnone, Int.not_lt.1 hback, rfl⟩

/-- **Picking a file.** Whatever the user does, a file that is picked is a candidate of the listing,
and its whole path is returned exactly if its name has at most 63 bytes and the path has room in the
buffer. -/
theorem uiPickFile_iff {u : Ui} {mem : Bytes.Mem} {s : MenuRun} {r : ℤ}
    (hrun : (uiMenuRun u (pickMenu dir ext listing) mem).Reachable s) (hret : s.pc = .ret r)
    (htrue : (uiPickFile dir ext (some listing) outsz r).1 = true) :
    ∃ f, (listing.filter (accepts ext))[r.toNat]? = some f ∧ f ∈ listing ∧ IsCandidate ext f ∧
      ((uiPickFile dir ext (some listing) outsz r).2 = some (path (dirString dir) f.fname) ↔
        f.fname.length ≤ 63 ∧ (path (dirString dir) f.fname).length < outsz) := by
  obtain ⟨hnames, hr, hresult⟩ := uiPickFile_of_true htrue
  have hlt := answer_of_reachable hrun hret hnames hr
  have hname : (pickLoop ext listing 0)[r.toNat]? =
      (((listing.filter (accepts ext)).take 64)[r.toNat]?).map slotName := by
    rw [pickLoop_eq, List.getElem?_map]
  have hbound := length_pickLoop ext listing
  rw [List.getElem?_take_of_lt (by omega)] at hname
  obtain ⟨f, hf⟩ : ∃ f, (listing.filter (accepts ext))[r.toNat]? = some f := by
    cases hf : (listing.filter (accepts ext))[r.toNat]? with
    | none =>
      rw [hf, Option.map_none, List.getElem?_eq_none_iff] at hname
      omega
    | some f => exact ⟨f, rfl⟩
  rw [hf, Option.map_some] at hname
  obtain ⟨hmem, haccepts⟩ := List.mem_filter.1 (List.mem_of_getElem? hf)
  refine ⟨f, hf, hmem, accepts_iff.1 haccepts, ?_⟩
  rw [hresult, List.getD_eq_getElem?_getD, hname, Option.getD_some]
  exact snprintfOut_eq_iff (dirString dir) f outsz

end

/-- A file with a name of so many letters and the extension `gb`. -/
def letterFile (n : ℕ) (hn : n ≤ 252) : FilInfo where
  fname := List.replicate n 0x61 ++ cstr ".gb"
  fattrib := 0x20
  fname_ne_nil := List.append_ne_nil_of_right_ne_nil _ (by decide)
  fname_nul := by
    rw [List.mem_append, List.mem_replicate]
    exact not_or.2 ⟨fun h => absurd h.2 (by decide), by decide⟩
  fname_le := by
    rw [List.length_append, List.length_replicate]
    exact Nat.add_le_of_le_sub (by decide) hn

/-- A short name. -/
def shortFile : FilInfo := letterFile 4 (by decide)

/-- A name of 65 bytes. -/
def longFile : FilInfo := letterFile 62 (by decide)

theorem uiPickFile_iff_short :
    ∃ f ∈ [shortFile], IsCandidate (some (cstr "gb")) f ∧
      ((uiPickFile none (some (cstr "gb")) (some [shortFile]) 64 0).2 =
          some (path (cstr "/") f.fname) ↔
        f.fname.length ≤ 63 ∧ (path (cstr "/") f.fname).length < 64) := by
  have hrun : (uiMenuRun blindUi (pickMenu none (some (cstr "gb")) [shortFile]) fun _ => 0).run
      [.draw, .key .enter]
      (uiMenuRun blindUi (pickMenu none (some (cstr "gb")) [shortFile]) fun _ => 0).init =
        some _ := rfl
  have htrue : (uiPickFile none (some (cstr "gb")) (some [shortFile]) 64 0).1 = true := by decide
  obtain ⟨f, -, hmem, hcand, hiff⟩ := uiPickFile_iff (Machine.reachable_of_run hrun) rfl htrue
  exact ⟨f, hmem, hcand, hiff⟩

/-- The long name is cut to 63 bytes: the path that is returned names no file of the directory. -/
theorem uiPickFile_cut :
    (∃ s, (uiMenuRun blindUi (pickMenu none (some (cstr "gb")) [longFile]) fun _ => 0).Reachable s ∧
        s.pc = .ret 0) ∧
      (uiPickFile none (some (cstr "gb")) (some [longFile]) 256 0).1 = true ∧
      ∀ f ∈ [longFile], (uiPickFile none (some (cstr "gb")) (some [longFile]) 256 0).2 ≠
        some (path (cstr "/") f.fname) := by
  have hrun : (uiMenuRun blindUi (pickMenu none (some (cstr "gb")) [longFile]) fun _ => 0).run
      [.draw, .key .enter]
      (uiMenuRun blindUi (pickMenu none (some (cstr "gb")) [longFile]) fun _ => 0).init =
        some _ := rfl
  exact ⟨⟨_, Machine.reachable_of_run hrun, rfl⟩, by decide, by decide⟩

end RvvmHal.Menu
