import RvvmHal.Fatfs.Window

/-!
# The table

`get_fat` and `put_fat` read and write an entry of the FAT through the sector window, which an entry
of 12 bits may make them move twice. On the volume as FatFs sees it the first FAT is an array of
bytes (`Vol.fatMem`) and, by the sub-type, of entries (`Vol.table`). A `get_fat` that succeeds
returns the entry (`getFat_spec`), a `put_fat` that succeeds changes that entry and no other
(`putFat_spec`), and neither touches anything but the FATs.

Over any sequence of calls they are the two operations of an array (`fat_array`): what succeeds
returns what an array would that has seen the same stores.
-/

namespace RvvmHal.Fatfs

open Bytes Nvme

/-! ## Values in a sector -/

/-- A sector as memory. -/
def sectorMem (b : Sector) : Mem := fun x => b (sectorOff x)

/-- `ld_word`, at an offset of a sector. -/
def ldWord (b : Sector) (off : ℕ) : ℕ :=
  (b (sectorOff (off + 1))).toNat <<< 8 ||| (b (sectorOff off)).toNat

/-- `ld_dword`, at an offset of a sector. -/
def ldDword (b : Sector) (off : ℕ) : ℕ :=
  (((b (sectorOff (off + 3))).toNat <<< 8 ||| (b (sectorOff (off + 2))).toNat) <<< 8 |||
    (b (sectorOff (off + 1))).toNat) <<< 8 ||| (b (sectorOff off)).toNat

/-- The bytes that `st_word` stores. -/
def stWord (v : ℕ) : List UInt8 := [UInt8.ofNat v, UInt8.ofNat (v >>> 8)]

/-- The bytes that `st_dword` stores. -/
def stDword (v : ℕ) : List UInt8 :=
  [UInt8.ofNat v, UInt8.ofNat (v >>> 8), UInt8.ofNat (v >>> 8 >>> 8),
    UInt8.ofNat (v >>> 8 >>> 8 >>> 8)]

theorem ldWord_eq (b : Sector) (off : ℕ) : ldWord b off = readLe (sectorMem b) off 2 := by
  have h := (b (sectorOff off)).toNat_lt
  rw [FatType.readLe_two, ldWord, Nat.or_comm, Word.or_shiftLeft (by omega)]
  simp only [sectorMem]
  omega

theorem ldDword_eq (b : Sector) (off : ℕ) : ldDword b off = readLe (sectorMem b) off 4 := by
  have h₀ := (b (sectorOff off)).toNat_lt
  have h₁ := (b (sectorOff (off + 1))).toNat_lt
  have h₂ := (b (sectorOff (off + 2))).toNat_lt
  rw [ldDword, Nat.or_comm, Word.or_shiftLeft (by omega), Nat.or_comm, Word.or_shiftLeft (by omega),
    Nat.or_comm, Word.or_shiftLeft (by omega), readLe, readBytes_succ, readBytes_succ,
    readBytes_succ, readBytes_succ, readBytes_zero]
  simp only [ofLe, sectorMem, Nat.add_assoc, Nat.reduceAdd]
  omega

theorem stWord_eq (v : ℕ) : stWord v = leBytes 2 v := by
  simp only [stWord, leBytes, Word.shiftRight_eq, Nat.reducePow]

theorem stDword_eq (v : ℕ) : stDword v = leBytes 4 v := by
  simp only [stDword, leBytes, Word.shiftRight_eq, Nat.reducePow]

/-- A sector with some of its bytes replaced. -/
def poke (b : Sector) (off : ℕ) (l : List UInt8) : Sector := fun i =>
  writeBytes (sectorMem b) off l i

section

variable {σ : Type*} (D : Drive σ) (V : Vol)

/-- Bytes are stored in the window, which makes it dirty. -/
def FatFs.poke (f : FatFs σ) (off : ℕ) (l : List UInt8) : FatFs σ :=
  { f with win := Fatfs.poke f.win off l, wflag := true }

/-! ## The calls -/

/-- `get_fat`, on a volume that is not exFAT. -/
def getFat (f : FatFs σ) (clst : ℕ) : FatFs σ × ℕ :=
  if clst < 2 ∨ V.nFatent ≤ clst then (f, 1)
  else match V.fsType with
  | .fat12 =>
    let bc := clst + clst / 2
    let r := moveWindow D V f (V.fatbase + bc / lbaSize)
    if r.2 ≠ .ok then (r.1, 0xFFFFFFFF)
    else
      let wc := (r.1.win (sectorOff bc)).toNat
      let r' := moveWindow D V r.1 (V.fatbase + (bc + 1) / lbaSize)
      if r'.2 ≠ .ok then (r'.1, 0xFFFFFFFF)
      else
        let wc := wc ||| (r'.1.win (sectorOff (bc + 1))).toNat <<< 8
        (r'.1, if clst &&& 1 ≠ 0 then wc >>> 4 else wc &&& 0xFFF)
  | .fat16 =>
    let r := moveWindow D V f (V.fatbase + clst / (lbaSize / 2))
    if r.2 ≠ .ok then (r.1, 0xFFFFFFFF) else (r.1, ldWord r.1.win (clst * 2 % lbaSize))
  | .fat32 =>
    let r := moveWindow D V f (V.fatbase + clst / (lbaSize / 4))
    if r.2 ≠ .ok then (r.1, 0xFFFFFFFF)
    else (r.1, ldDword r.1.win (clst * 4 % lbaSize) &&& 0x0FFFFFFF)

/-- `put_fat`, on a volume that is not exFAT. -/
def putFat (f : FatFs σ) (clst val : ℕ) : FatFs σ × FResult :=
  if 2 ≤ clst ∧ clst < V.nFatent then
    match V.fsType with
    | .fat12 =>
      let bc := clst + clst / 2
      let r := moveWindow D V f (V.fatbase + bc / lbaSize)
      if r.2 ≠ .ok then r
      else
        let p := (r.1.win (sectorOff bc)).toNat
        let f := r.1.poke (bc % lbaSize) [UInt8.ofNat (if clst &&& 1 ≠ 0 then
          (p &&& 0x0F) ||| (val % 256) <<< 4 else val)]
        let r := moveWindow D V f (V.fatbase + (bc + 1) / lbaSize)
        if r.2 ≠ .ok then r
        else
          let p := (r.1.win (sectorOff (bc + 1))).toNat
          (r.1.poke ((bc + 1) % lbaSize) [UInt8.ofNat (if clst &&& 1 ≠ 0 then val >>> 4
            else (p &&& 0xF0) ||| (val >>> 8 % 256 &&& 0x0F))], .ok)
    | .fat16 =>
      let r := moveWindow D V f (V.fatbase + clst / (lbaSize / 2))
      if r.2 ≠ .ok then r
      else (r.1.poke (clst * 2 % lbaSize) (stWord (val % 2 ^ 16)), .ok)
    | .fat32 =>
      let r := moveWindow D V f (V.fatbase + clst / (lbaSize / 4))
      if r.2 ≠ .ok then r
      else
        let val := (val &&& 0x0FFFFFFF) ||| (ldDword r.1.win (clst * 4 % lbaSize) &&& 0xF0000000)
        (r.1.poke (clst * 4 % lbaSize) (stDword val), .ok)
  else (f, .intErr)

end

/-! ## The first FAT -/

namespace Vol

variable (V : Vol)

/-- The bytes of the first FAT. -/
def fatMem (d : Disk) : Mem := fun i =>
  if i < lbaSize * V.fsize then d (V.fatbase + i / lbaSize) (sectorOff i) else 0

/-- The entries of the first FAT. -/
def table (d : Disk) : ℕ → ℕ := V.fsType.entry (V.fatMem d)

variable {V} {d d' : Disk}

theorem fatMem_congr (h : ∀ x, V.fatbase ≤ x → x < V.fatbase + V.fsize → d' x = d x) :
    V.fatMem d' = V.fatMem d := by
  funext i
  unfold fatMem
  split
  · rename_i hi
    rw [h _ (Nat.le_add_right ..) (Nat.add_lt_add_left (Nat.div_lt_of_lt_mul hi) _)]
  · rfl

/-- The bytes of an entry lie in the table. -/
theorem off_lt {c : ℕ} (hc : c < V.nFatent) :
    V.fsType.off c + V.fsType.width ≤ lbaSize * V.fsize := by
  have hhalf : c / 2 ≤ (V.nFatent - 1) / 2 := Nat.div_le_div_right (by omega)
  refine le_trans ?_ V.table_fits
  cases V.fsType
  all_goals simp only [FatType.off, FatType.width, FatType.tableBytes]
  · rcases Nat.even_or_odd' V.nFatent with ⟨k, hk | hk⟩ <;> omega
  · omega
  · omega

variable (V) in
/-- The sectors of the first FAT can be read into the window. -/
theorem fat_lt {x : ℕ} (hx : x < V.fsize) : V.fatbase + x < noSector := by
  have hle := V.first_le_fats
  exact V.inFat_lt ⟨Nat.le_add_right .., by omega⟩

end Vol

theorem SameData.fatMem_eq {V : Vol} {d d' : Disk} (h : SameData V d d') :
    V.fatMem d' = V.fatMem d :=
  Vol.fatMem_congr fun x _ h₂ => h x fun hm => by
    have := hm.2.1
    omega

theorem SameData.table_eq {V : Vol} {d d' : Disk} (h : SameData V d d') : V.table d' = V.table d := by
  rw [Vol.table, h.fatMem_eq, Vol.table]

section

variable {σ : Type*} {D : Drive σ} {V : Vol} {f f' f'' : FatFs σ}

/-- What a call leaves of the object that may have changed the FATs. -/
structure Touched (D : Drive σ) (V : Vol) (f f' : FatFs σ) : Prop where
  coherent : f'.Coherent D V
  outside : ∀ x, ¬ V.InFat x → f'.view D x = f.view D x
  lastClst : f'.lastClst = f.lastClst
  freeClst : f'.freeClst = f.freeClst
  fsiFlag : f'.fsiFlag = f.fsiFlag

theorem Kept.touched (h : Kept D V f f') : Touched D V f f' :=
  ⟨h.coherent, fun x hx => h.data x fun hm => hx (V.inFat_of_inMirror hm), h.lastClst, h.freeClst,
    h.fsiFlag⟩

theorem Touched.refl (h : f.Coherent D V) : Touched D V f f := (Kept.refl h).touched

theorem Touched.trans (h : Touched D V f f') (h' : Touched D V f' f'') : Touched D V f f'' :=
  ⟨h'.coherent, fun x hx => (h'.outside x hx).trans (h.outside x hx),
    h'.lastClst.trans h.lastClst, h'.freeClst.trans h.freeClst, h'.fsiFlag.trans h.fsiFlag⟩

theorem Kept.table_eq (h : Kept D V f f') : V.table (f'.view D) = V.table (f.view D) :=
  h.data.table_eq

/-- **The window on the FAT**: when it has been moved to byte `p` of the first FAT, it shows the bytes
of that sector. -/
theorem moveWindow_fat (h : f.Coherent D V) {p : ℕ} (hp : p < lbaSize * V.fsize) :
    let r := moveWindow D V f (V.fatbase + p / lbaSize)
    Kept D V f r.1 ∧ (r.2 = .ok → r.1.winsect = V.fatbase + p / lbaSize ∧
      ∀ q, q / lbaSize = p / lbaSize → r.1.win (sectorOff q) = V.fatMem (f.view D) q) := by
  have hlt := V.fat_lt (Nat.div_lt_of_lt_mul hp)
  obtain ⟨hkept, hmove⟩ := moveWindow_spec h hlt
  refine ⟨hkept, fun hok => ?_⟩
  obtain ⟨hs, hw⟩ := hmove hok
  refine ⟨hs, fun q hq => ?_⟩
  have hq' : q < lbaSize * V.fsize := by
    simp only [lbaSize] at hp hq ⊢
    omega
  rw [← hkept.data.fatMem_eq, Vol.fatMem, if_pos hq', hq, hw]

/-- Storing bytes in the window, when it is on the first FAT. -/
theorem FatFs.Coherent.poke (h : f.Coherent D V) (h₁ : V.fatbase ≤ f.winsect)
    (h₂ : f.winsect < V.fatbase + V.fsize) (off : ℕ) (l : List UInt8) :
    Touched D V f (f.poke off l) := by
  have hle := V.first_le_fats
  have hfat : V.InFat f.winsect := ⟨h₁, by omega⟩
  have hne : f.winsect ≠ noSector := (V.inFat_lt hfat).ne
  refine ⟨⟨h.sect_le, fun hc => absurd hc (by simp [FatFs.poke]), fun _ => hne, fun _ hm => ?_⟩,
    fun x hx => ?_, rfl, rfl, rfl⟩
  · have := hm.2.1
    simp only [FatFs.poke] at this
    omega
  · have hx' : x ≠ f.winsect := fun he => hx (he ▸ hfat)
    rw [FatFs.view_of_dirty (f := f.poke off l) rfl]
    refine (Function.update_of_ne hx' ..).trans ?_
    unfold FatFs.view
    split
    · exact (Function.update_of_ne hx' ..).symm
    · rfl

/-- **The first FAT after bytes have been stored in the window.** -/
theorem fatMem_poke (h : f.Coherent D V) {p : ℕ} {l : List UInt8}
    (hs : f.winsect = V.fatbase + p / lbaSize) (hp : p + l.length ≤ lbaSize * V.fsize)
    (hsec : p % lbaSize + l.length ≤ lbaSize) (hl : l ≠ []) :
    V.fatMem ((f.poke (p % lbaSize) l).view D) = writeBytes (V.fatMem (f.view D)) p l := by
  have hlen : 0 < l.length := List.length_pos_iff.2 hl
  have hp' : p / lbaSize < V.fsize := by
    simp only [lbaSize] at hp ⊢
    omega
  have hne : f.winsect ≠ noSector := by
    have := V.first_le_fats
    exact (V.inFat_lt ⟨hs ▸ Nat.le_add_right .., by omega⟩).ne
  have hwin := h.view_winsect hne
  have hview : (f.poke (p % lbaSize) l).view D =
      Function.update (f.view D) f.winsect (poke f.win (p % lbaSize) l) := by
    rw [FatFs.view_of_dirty (f := f.poke (p % lbaSize) l) rfl]
    unfold FatFs.view
    split
    · exact (Function.update_idem ..).symm
    · rfl
  funext i
  rw [hview, Vol.fatMem]
  by_cases hi : i < lbaSize * V.fsize
  swap
  · rw [if_neg hi, writeBytes_of_not_mem _ _ _ (by omega), Vol.fatMem, if_neg hi]
  rw [if_pos hi]
  by_cases hsect : i / lbaSize = p / lbaSize
  · -- in the sector of the window
    rw [hsect, ← hs, Function.update_self, poke]
    by_cases hmem : p ≤ i ∧ i < p + l.length
    · rw [writeBytes_of_mem _ _ _ hmem.1 hmem.2, writeBytes_of_mem _ _ _ ?_ ?_]
      · congr 1
        simp only [sectorOff, lbaSize] at *
        omega
      · simp only [sectorOff, lbaSize] at *
        omega
      · simp only [sectorOff, lbaSize] at *
        omega
    · rw [writeBytes_of_not_mem _ p l (by omega), writeBytes_of_not_mem _ _ _ ?_, Vol.fatMem,
        if_pos hi, hsect, ← hs, hwin, sectorMem]
      · congr 1
        exact Fin.ext (Nat.mod_mod ..)
      · simp only [sectorOff, lbaSize] at *
        omega
  · rw [Function.update_of_ne (by omega), writeBytes_of_not_mem _ _ _ ?_, Vol.fatMem, if_pos hi]
    simp only [lbaSize] at *
    omega

/-! ## Reading an entry -/

/-- A value of the window is one of the first FAT. -/
theorem readLe_sectorMem {b : Sector} {m : Mem} {p n : ℕ} (hsec : p % lbaSize + n ≤ lbaSize)
    (h : ∀ q, q / lbaSize = p / lbaSize → b (sectorOff q) = m q) :
    readLe (sectorMem b) (p % lbaSize) n = readLe m p n := by
  unfold readLe readBytes
  refine congrArg ofLe (List.map_congr_left fun i hi => ?_)
  have hi' := List.mem_range.1 hi
  have hoff : sectorOff (p % lbaSize + i) = sectorOff (p + i) := by
    refine Fin.ext ?_
    simp only [sectorOff, lbaSize]
    omega
  rw [sectorMem, hoff]
  refine h _ ?_
  simp only [lbaSize] at *
  omega

/-- **`get_fat`** leaves what FatFs sees, and if no error of the drive is reported it returns the
entry. -/
theorem getFat_spec (h : f.Coherent D V) (c : ℕ) :
    Kept D V f (getFat D V f c).1 ∧ ((getFat D V f c).2 ≠ 0xFFFFFFFF → (getFat D V f c).2 =
      if c < 2 ∨ V.nFatent ≤ c then 1 else V.table (f.view D) c) := by
  rw [getFat]
  by_cases hc : c < 2 ∨ V.nFatent ≤ c
  · rw [if_pos hc]
    exact ⟨.refl h, fun _ => (if_pos hc).symm⟩
  rw [if_neg hc, if_neg hc]
  have hoff := V.off_lt (show c < V.nFatent by omega)
  cases ht : V.fsType with
  | fat12 =>
    simp only [ht, FatType.off, FatType.width] at hoff
    obtain ⟨hk₁, hw₁⟩ := moveWindow_fat (D := D) h (show c + c / 2 < lbaSize * V.fsize by omega)
    dsimp only
    by_cases h₁ : (moveWindow D V f (V.fatbase + (c + c / 2) / lbaSize)).2 = .ok
    swap
    · rw [if_pos h₁]
      exact ⟨hk₁, fun hne => absurd rfl hne⟩
    rw [if_neg (not_not.2 h₁)]
    obtain ⟨hk₂, hw₂⟩ := moveWindow_fat (D := D) hk₁.coherent
      (show c + c / 2 + 1 < lbaSize * V.fsize by omega)
    by_cases h₂ : (moveWindow D V (moveWindow D V f (V.fatbase + (c + c / 2) / lbaSize)).1
        (V.fatbase + (c + c / 2 + 1) / lbaSize)).2 = .ok
    swap
    · rw [if_pos h₂]
      exact ⟨hk₁.trans hk₂, fun hne => absurd rfl hne⟩
    rw [if_neg (not_not.2 h₂)]
    refine ⟨hk₁.trans hk₂, fun _ => ?_⟩
    have hlow := (V.fatMem (f.view D) (c + c / 2)).toNat_lt
    rw [(hw₁ h₁).2 _ rfl, (hw₂ h₂).2 _ rfl, hk₁.data.fatMem_eq, Word.or_shiftLeft hlow,
      Vol.table, ht, FatType.entry, FatType.readLe_two, Nat.and_one_is_mod,
      show 0xFFF = 2 ^ 12 - 1 from rfl, Word.and_low_mask, Word.shiftRight_eq,
      Nat.mul_comm _ (2 ^ 8)]
    by_cases hodd : c % 2 = 1
    · rw [if_pos (by omega), if_pos hodd]
      rfl
    · rw [if_neg (by omega), if_neg hodd]
      rfl
  | fat16 =>
    simp only [ht, FatType.off, FatType.width] at hoff
    obtain ⟨hk, hw⟩ := moveWindow_fat (D := D) h (show c * 2 < lbaSize * V.fsize by omega)
    rw [show c * 2 / lbaSize = c / (lbaSize / 2) by simp only [lbaSize]; omega] at hk hw
    dsimp only
    by_cases h₁ : (moveWindow D V f (V.fatbase + c / (lbaSize / 2))).2 = .ok
    swap
    · rw [if_pos h₁]
      exact ⟨hk, fun hne => absurd rfl hne⟩
    rw [if_neg (not_not.2 h₁)]
    refine ⟨hk, fun _ => ?_⟩
    rw [ldWord_eq, Vol.table, ht, FatType.entry, readLe_sectorMem (by simp only [lbaSize]; omega)]
    intro q hq
    exact (hw h₁).2 q (hq.trans (by simp only [lbaSize]; omega))
  | fat32 =>
    simp only [ht, FatType.off, FatType.width] at hoff
    obtain ⟨hk, hw⟩ := moveWindow_fat (D := D) h (show c * 4 < lbaSize * V.fsize by omega)
    rw [show c * 4 / lbaSize = c / (lbaSize / 4) by simp only [lbaSize]; omega] at hk hw
    dsimp only
    by_cases h₁ : (moveWindow D V f (V.fatbase + c / (lbaSize / 4))).2 = .ok
    swap
    · rw [if_pos h₁]
      exact ⟨hk, fun hne => absurd rfl hne⟩
    rw [if_neg (not_not.2 h₁)]
    refine ⟨hk, fun _ => ?_⟩
    rw [ldDword_eq, Vol.table, ht, FatType.entry, show 0x0FFFFFFF = 2 ^ 28 - 1 from rfl,
      Word.and_low_mask, readLe_sectorMem (by simp only [lbaSize]; omega)]
    intro q hq
    exact (hw h₁).2 q (hq.trans (by simp only [lbaSize]; omega))

/-! ## Storing an entry -/

/-- A store in the window, when it shows the sector of byte `p` of the first FAT. -/
theorem touched_poke (h : f.Coherent D V) {p : ℕ} (hp : p < lbaSize * V.fsize)
    (hs : f.winsect = V.fatbase + p / lbaSize) (off : ℕ) (l : List UInt8) :
    Touched D V f (f.poke off l) := by
  refine h.poke (hs ▸ Nat.le_add_right ..) ?_ off l
  have := Nat.div_lt_of_lt_mul hp
  omega

/-- A store at byte `p` of the first FAT, in the window when it has been moved there. -/
theorem moveWindow_poke (h : f.Coherent D V) {p : ℕ} {l : List UInt8} (hl : l ≠ [])
    (hp : p + l.length ≤ lbaSize * V.fsize) (hsec : p % lbaSize + l.length ≤ lbaSize)
    (hok : (moveWindow D V f (V.fatbase + p / lbaSize)).2 = .ok) :
    Touched D V f ((moveWindow D V f (V.fatbase + p / lbaSize)).1.poke (p % lbaSize) l) ∧
      V.fatMem (((moveWindow D V f (V.fatbase + p / lbaSize)).1.poke (p % lbaSize) l).view D) =
        writeBytes (V.fatMem (f.view D)) p l := by
  have hlen := List.length_pos_iff.2 hl
  obtain ⟨hkept, hw⟩ := moveWindow_fat (D := D) h (show p < lbaSize * V.fsize by omega)
  have hs := (hw hok).1
  refine ⟨hkept.touched.trans (touched_poke hkept.coherent (by omega) hs _ _), ?_⟩
  rw [fatMem_poke hkept.coherent hs hp hsec hl, hkept.data.fatMem_eq]

/-- The lower and the upper byte that `put_fat` makes of an entry of 12 bits. -/
theorem fat12_bytes (b v : ℕ) :
    UInt8.ofNat ((b &&& 0x0F) ||| (v % 256) <<< 4) = UInt8.ofNat (b % 16 + v % 16 * 16) ∧
      UInt8.ofNat ((b &&& 0xF0) ||| (v >>> 8 % 256 &&& 0x0F)) =
        UInt8.ofNat (b / 16 * 16 + v / 256 % 16) := by
  constructor
  · rw [show 0x0F = 2 ^ 4 - 1 from rfl, Word.and_low_mask, Word.or_shiftLeft (by omega),
      ← UInt8.toNat_inj, toNat_ofNat_uint8, toNat_ofNat_uint8]
    omega
  · rw [show 0xF0 = (2 ^ 4 - 1) * 2 ^ 4 from rfl, Word.and_field_mask,
      show 0x0F = 2 ^ 4 - 1 from rfl, Word.and_low_mask, Nat.or_comm, ← Nat.shiftLeft_eq,
      Word.or_shiftLeft (Nat.mod_lt _ (by decide)), Word.shiftRight_eq, ← UInt8.toNat_inj,
      toNat_ofNat_uint8, toNat_ofNat_uint8]
    omega

/-- The value that `put_fat` stores in an entry of 32 bits. -/
theorem fat32_value (w v : ℕ) (hw : w < 2 ^ 32) :
    (v &&& 0x0FFFFFFF) ||| (w &&& 0xF0000000) = v % 2 ^ 28 + w / 2 ^ 28 * 2 ^ 28 := by
  rw [show 0x0FFFFFFF = 2 ^ 28 - 1 from rfl, Word.and_low_mask,
    show 0xF0000000 = (2 ^ 4 - 1) * 2 ^ 28 from rfl, Word.and_field_mask, ← Nat.shiftLeft_eq,
    Word.or_shiftLeft (Nat.mod_lt _ (by decide)), Nat.mod_eq_of_lt (a := w / 2 ^ 28) (by omega)]

/-- **`put_fat`** touches nothing but the FATs, and when it succeeds it has stored the entry. -/
theorem putFat_spec (h : f.Coherent D V) (c v : ℕ) :
    Touched D V f (putFat D V f c v).1 ∧ ((putFat D V f c v).2 = .ok →
      2 ≤ c ∧ c < V.nFatent ∧ V.table ((putFat D V f c v).1.view D) =
        Function.update (V.table (f.view D)) c (v % 2 ^ V.fsType.bits)) := by
  rw [putFat]
  by_cases hc : 2 ≤ c ∧ c < V.nFatent
  swap
  · rw [if_neg hc]
    exact ⟨.refl h, fun hok => absurd hok (by simp)⟩
  rw [if_pos hc]
  have hoff := V.off_lt hc.2
  have hstore : ∀ m, m = V.fsType.store (V.fatMem (f.view D)) c v → V.fsType.entry m =
      Function.update (V.table (f.view D)) c (v % 2 ^ V.fsType.bits) := by
    rintro m rfl
    exact FatType.entry_store_eq _ _ _ _
  cases ht : V.fsType with
  | fat12 =>
    simp only [ht, FatType.off, FatType.width] at hoff hstore
    obtain ⟨hk₁, hw₁⟩ := moveWindow_fat (D := D) h (show c + c / 2 < lbaSize * V.fsize by omega)
    dsimp only
    by_cases h₁ : (moveWindow D V f (V.fatbase + (c + c / 2) / lbaSize)).2 = .ok
    swap
    · rw [if_pos h₁]
      exact ⟨hk₁.touched, fun hok => absurd hok h₁⟩
    rw [if_neg (not_not.2 h₁), (hw₁ h₁).2 _ rfl]
    set b := V.fatMem (f.view D) (c + c / 2)
    set x := UInt8.ofNat (if c &&& 1 ≠ 0 then (b.toNat &&& 0x0F) ||| (v % 256) <<< 4 else v) with hx
    obtain ⟨ht₁, hm₁⟩ := moveWindow_poke (D := D) h (l := [x]) (List.cons_ne_nil _ _)
      (by simp only [List.length_singleton]; omega)
      (by simp only [List.length_singleton, lbaSize]; omega) h₁
    set f₁ := (moveWindow D V f (V.fatbase + (c + c / 2) / lbaSize)).1.poke
      ((c + c / 2) % lbaSize) [x]
    obtain ⟨hk₂, hw₂⟩ := moveWindow_fat (D := D) ht₁.coherent
      (show c + c / 2 + 1 < lbaSize * V.fsize by omega)
    by_cases h₂ : (moveWindow D V f₁ (V.fatbase + (c + c / 2 + 1) / lbaSize)).2 = .ok
    swap
    · rw [if_pos h₂]
      exact ⟨ht₁.trans hk₂.touched, fun hok => absurd hok h₂⟩
    rw [if_neg (not_not.2 h₂), (hw₂ h₂).2 _ rfl, hm₁,
      writeBytes_of_not_mem _ _ _ (by simp only [List.length_singleton]; omega)]
    set b' := V.fatMem (f.view D) (c + c / 2 + 1)
    set y := UInt8.ofNat (if c &&& 1 ≠ 0 then v >>> 4
      else (b'.toNat &&& 0xF0) ||| (v >>> 8 % 256 &&& 0x0F)) with hy
    obtain ⟨ht₂, hm₂⟩ := moveWindow_poke (D := D) ht₁.coherent (l := [y]) (List.cons_ne_nil _ _)
      (by simp only [List.length_singleton]; omega)
      (by simp only [List.length_singleton, lbaSize]; omega) h₂
    refine ⟨ht₁.trans ht₂, fun _ => ⟨hc.1, hc.2, ?_⟩⟩
    rw [Vol.table, ht, hstore]
    rw [hm₂, hm₁, show c + c / 2 + 1 = c + c / 2 + [x].length from rfl, writeBytes_append,
      FatType.store, FatType.bytes, List.singleton_append]
    simp only [FatType.off]
    by_cases hodd : c % 2 = 1
    · have hand : c &&& 1 ≠ 0 := by rw [Nat.and_one_is_mod]; omega
      rw [if_pos hodd, hx, hy, if_pos hand, if_pos hand, (fat12_bytes b.toNat v).1,
        Word.shiftRight_eq]
      rfl
    · have hand : ¬ c &&& 1 ≠ 0 := by rw [Nat.and_one_is_mod]; omega
      rw [if_neg hodd, hx, hy, if_neg hand, if_neg hand, (fat12_bytes b'.toNat v).2]
  | fat16 =>
    simp only [ht, FatType.off, FatType.width] at hoff hstore
    have hdiv : c * 2 / lbaSize = c / (lbaSize / 2) := by
      simp only [lbaSize]
      omega
    obtain ⟨hk, -⟩ := moveWindow_fat (D := D) h (show c * 2 < lbaSize * V.fsize by omega)
    dsimp only
    rw [← hdiv]
    by_cases h₁ : (moveWindow D V f (V.fatbase + c * 2 / lbaSize)).2 = .ok
    swap
    · rw [if_pos h₁]
      exact ⟨hk.touched, fun hok => absurd hok h₁⟩
    rw [if_neg (not_not.2 h₁)]
    obtain ⟨ht₁, hm₁⟩ := moveWindow_poke (D := D) h (l := stWord (v % 2 ^ 16))
      (List.cons_ne_nil _ _) hoff (by simp only [stWord, List.length, lbaSize]; omega) h₁
    refine ⟨ht₁, fun _ => ⟨hc.1, hc.2, ?_⟩⟩
    rw [Vol.table, ht, hstore]
    rw [hm₁, stWord_eq, show 2 ^ 16 = 256 ^ 2 from rfl, leBytes_mod]
    rfl
  | fat32 =>
    simp only [ht, FatType.off, FatType.width] at hoff hstore
    have hdiv : c * 4 / lbaSize = c / (lbaSize / 4) := by
      simp only [lbaSize]
      omega
    obtain ⟨hk, hw⟩ := moveWindow_fat (D := D) h (show c * 4 < lbaSize * V.fsize by omega)
    dsimp only
    rw [← hdiv]
    by_cases h₁ : (moveWindow D V f (V.fatbase + c * 4 / lbaSize)).2 = .ok
    swap
    · rw [if_pos h₁]
      exact ⟨hk.touched, fun hok => absurd hok h₁⟩
    rw [if_neg (not_not.2 h₁), ldDword_eq, readLe_sectorMem (by simp only [lbaSize]; omega)
      (hw h₁).2, fat32_value _ _ (readLe_lt _ _ 4)]
    obtain ⟨ht₁, hm₁⟩ := moveWindow_poke (D := D) h (l := stDword (v % 2 ^ 28 +
      readLe (V.fatMem (f.view D)) (c * 4) 4 / 2 ^ 28 * 2 ^ 28)) (List.cons_ne_nil _ _) hoff
      (by simp only [stDword, List.length, lbaSize]; omega) h₁
    refine ⟨ht₁, fun _ => ⟨hc.1, hc.2, ?_⟩⟩
    rw [Vol.table, ht, hstore]
    rw [hm₁, stDword_eq]
    rfl

/-- When `put_fat` fails and an entry lies in one sector, the table is as it was. -/
theorem putFat_fail (h : f.Coherent D V) {c v : ℕ} (hV : V.fsType ≠ .fat12)
    (hr : (putFat D V f c v).2 ≠ .ok) : Kept D V f (putFat D V f c v).1 := by
  revert hr
  rw [putFat]
  by_cases hc : 2 ≤ c ∧ c < V.nFatent
  swap
  · rw [if_neg hc]
    exact fun _ => .refl h
  rw [if_pos hc]
  have hoff := V.off_lt hc.2
  cases ht : V.fsType with
  | fat12 => exact absurd ht hV
  | fat16 =>
    simp only [ht, FatType.off, FatType.width] at hoff
    have hs := V.fat_lt (Nat.div_lt_of_lt_mul (show c * 2 < lbaSize * V.fsize by omega))
    rw [show c * 2 / lbaSize = c / (lbaSize / 2) by simp only [lbaSize]; omega] at hs
    dsimp only
    split
    · exact fun _ => (moveWindow_spec h hs).1
    · exact fun hne => absurd rfl hne
  | fat32 =>
    simp only [ht, FatType.off, FatType.width] at hoff
    have hs := V.fat_lt (Nat.div_lt_of_lt_mul (show c * 4 < lbaSize * V.fsize by omega))
    rw [show c * 4 / lbaSize = c / (lbaSize / 4) by simp only [lbaSize]; omega] at hs
    dsimp only
    split
    · exact fun _ => (moveWindow_spec h hs).1
    · exact fun hne => absurd rfl hne

end

/-! ## The array -/

/-- Calls on the table, with moves of the window between them. -/
inductive FatOp
  | get (c : ℕ)
  | put (c v : ℕ)
  | move (sect : ℕ)
  | sync

section

variable {σ : Type*} (D : Drive σ) (V : Vol)

/-- A call, and what it returns, if it reports no error: a value that has been read, or that the call
is done. -/
def FatFs.exec (f : FatFs σ) : FatOp → FatFs σ × Option ℕ
  | .get c =>
    let r := getFat D V f c
    (r.1, if r.2 = 0xFFFFFFFF then none else some r.2)
  | .put c v =>
    let r := putFat D V f c v
    (r.1, if r.2 = .ok then some 0 else none)
  | .move sect =>
    let r := moveWindow D V f (sect % noSector)
    (r.1, if r.2 = .ok then some 0 else none)
  | .sync =>
    let r := syncWindow D V f
    (r.1, if r.2 = .ok then some 0 else none)

/-- The calls of a list, with what they return. -/
def FatFs.execAll (f : FatFs σ) : List FatOp → FatFs σ × List (FatOp × Option ℕ)
  | [] => (f, [])
  | op :: ops =>
    let r := f.exec D V op
    let rs := r.1.execAll ops
    (rs.1, (op, r.2) :: rs.2)

/-- An array after a call that has returned. -/
def arrayStep (T : ℕ → ℕ) : FatOp × Option ℕ → ℕ → ℕ
  | (.put c v, some _) => Function.update T c (v % 2 ^ V.fsType.bits)
  | _ => T

/-- What a call may return, when the array is `T`. -/
def Returns (T : ℕ → ℕ) : FatOp × Option ℕ → Prop
  | (.get c, some v) => v = if c < 2 ∨ V.nFatent ≤ c then 1 else T c
  | (.put c _, some _) => 2 ≤ c ∧ c < V.nFatent
  | _ => True

/-- The calls return what those of an array would. -/
def ArrayTrace : (ℕ → ℕ) → List (FatOp × Option ℕ) → Prop
  | _, [] => True
  | T, r :: rs => Returns V T r ∧ ArrayTrace (arrayStep V T r) rs

variable {D V} {f : FatFs σ}

/-- One call, as an array makes it. -/
theorem exec_spec (h : f.Coherent D V) (op : FatOp)
    (hV : V.fsType = .fat12 → (f.exec D V op).2 ≠ none) :
    (f.exec D V op).1.Coherent D V ∧ Returns V (V.table (f.view D)) (op, (f.exec D V op).2) ∧
      V.table ((f.exec D V op).1.view D) =
        arrayStep V (V.table (f.view D)) (op, (f.exec D V op).2) := by
  cases op with
  | get c =>
    obtain ⟨hkept, hget⟩ := getFat_spec h c
    rw [FatFs.exec]
    dsimp only
    by_cases hr : (getFat D V f c).2 = 0xFFFFFFFF
    · rw [if_pos hr]
      exact ⟨hkept.coherent, trivial, hkept.table_eq⟩
    · rw [if_neg hr]
      exact ⟨hkept.coherent, hget hr, hkept.table_eq⟩
  | put c v =>
    obtain ⟨ht, hput⟩ := putFat_spec h c v
    have hfail : V.fsType ≠ .fat12 → (putFat D V f c v).2 ≠ .ok → _ := putFat_fail h
    rw [FatFs.exec] at hV ⊢
    dsimp only at hV ⊢
    by_cases hr : (putFat D V f c v).2 = .ok
    · obtain ⟨h₂, hlt, hT⟩ := hput hr
      rw [if_pos hr]
      exact ⟨ht.coherent, ⟨h₂, hlt⟩, hT⟩
    · rw [if_neg hr] at hV ⊢
      exact ⟨ht.coherent, trivial, (hfail (fun h₁₂ => hV h₁₂ rfl) hr).table_eq⟩
  | move sect =>
    obtain ⟨hkept, -⟩ := moveWindow_spec h (Nat.mod_lt sect (show 0 < noSector by decide))
    rw [FatFs.exec]
    refine ⟨hkept.coherent, ?_, ?_⟩
    · dsimp only
      split <;> trivial
    · dsimp only
      split <;> exact hkept.table_eq
  | sync =>
    obtain ⟨hkept, -⟩ := syncWindow_spec h
    rw [FatFs.exec]
    refine ⟨hkept.coherent, ?_, ?_⟩
    · dsimp only
      split <;> trivial
    · dsimp only
      split <;> exact hkept.table_eq

/-- **The FAT is an array**, whatever the drive does and the sub-type packs: the calls that report no
error return what an array would that has seen the same stores, and the FAT ends as the array does.
A store that fails in the middle of an entry of 12 bits is left out. -/
theorem fat_array (h : f.Coherent D V) (ops : List FatOp)
    (hV : V.fsType = .fat12 → ∀ r ∈ (f.execAll D V ops).2, r.2 ≠ none) :
    ArrayTrace V (V.table (f.view D)) (f.execAll D V ops).2 ∧
      V.table ((f.execAll D V ops).1.view D) =
        (f.execAll D V ops).2.foldl (arrayStep V) (V.table (f.view D)) := by
  induction ops generalizing f with
  | nil => exact ⟨trivial, rfl⟩
  | cons op ops ih =>
    rw [FatFs.execAll] at hV ⊢
    dsimp only at hV ⊢
    obtain ⟨hco, hret, hT⟩ := exec_spec h op fun ht => hV ht _ List.mem_cons_self
    obtain ⟨htrace, hend⟩ := ih hco fun ht r hr => hV ht r (List.mem_cons_of_mem _ hr)
    rw [hT] at htrace hend
    exact ⟨⟨hret, htrace⟩, hend⟩

end

set_option maxRecDepth 10000 in
/-- Two entries of 12 bits that share a byte. -/
theorem fat_array_pair :
    let ops := [.put 2 0xABC, .put 3 0xDEF, .sync, .get 2, .put 2 0, .get 3]
    let V := smallVol .fat12
    ArrayTrace V (V.table (emptyFs.view ramDrive)) (emptyFs.execAll ramDrive V ops).2 ∧
      V.table ((emptyFs.execAll ramDrive V ops).1.view ramDrive) =
        (emptyFs.execAll ramDrive V ops).2.foldl (arrayStep V) (V.table (emptyFs.view ramDrive)) :=
  fat_array coherent_emptyFs _ fun _ => by decide

end RvvmHal.Fatfs
