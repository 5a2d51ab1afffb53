import RvvmHal.Fatfs.Files

/-!
# The copies of the FAT

FatFs reads the first FAT only, through the window, and `sync_window` reflects what it writes there
to the second. `Steps` says what the calls are made of: moves of the window, stores in it while it is
on the first FAT, and updates of the allocation information. What these keep, every call keeps. So
the second FAT on the disk is a copy of the first in every state that a run reaches on a drive whose
writes succeed (`copies_equal`).
-/

namespace RvvmHal.Fatfs

open Nvme

section

variable {σ : Type*} {D : Drive σ} {V : Vol} {f f' f'' : FatFs σ}

/-- The sectors of the first FAT. -/
def Vol.InFirst (V : Vol) (x : ℕ) : Prop := V.fatbase ≤ x ∧ x < V.fatbase + V.fsize

/-- **What the calls are made of**, when they move the window to the sectors of `P`. -/
inductive Steps (D : Drive σ) (V : Vol) (P : ℕ → Prop) (f : FatFs σ) : FatFs σ → Prop
  | refl : Steps D V P f f
  | move {f' : FatFs σ} (sect : ℕ) (hs : sect < noSector) (hP : P sect) (h : Steps D V P f f') :
    Steps D V P f (moveWindow D V f' sect).1
  | sync {f' : FatFs σ} (h : Steps D V P f f') : Steps D V P f (syncWindow D V f').1
  | poke {f' : FatFs σ} (off : ℕ) (l : List UInt8) (hw : V.InFirst f'.winsect)
    (h : Steps D V P f f') : Steps D V P f (f'.poke off l)
  | took {f' : FatFs σ} (ncl : ℕ) (h : Steps D V P f f') : Steps D V P f (f'.took V ncl)
  | gaveBack {f' : FatFs σ} (h : Steps D V P f f') : Steps D V P f (f'.gaveBack V)

theorem Steps.mono {P Q : ℕ → Prop} (hPQ : ∀ x, P x → Q x) (h : Steps D V P f f') :
    Steps D V Q f f' := by
  induction h with
  | refl => exact .refl
  | move sect hs hP _ ih => exact .move sect hs (hPQ sect hP) ih
  | sync _ ih => exact .sync ih
  | poke off l hw _ ih => exact .poke off l hw ih
  | took ncl _ ih => exact .took ncl ih
  | gaveBack _ ih => exact .gaveBack ih

theorem Steps.ite {β : Type*} {p : Prop} [Decidable p] {P : ℕ → Prop} {g g' : FatFs σ × β}
    (h : Steps D V P f g.1) (h' : ¬ p → Steps D V P f g'.1) :
    Steps D V P f (if p then g else g').1 := by
  split
  · exact h
  · rename_i hp
    exact h' hp

/-- A move that succeeds has moved the window. -/
theorem moveWindow_winsect {sect : ℕ} (hok : (moveWindow D V f sect).2 = .ok) :
    (moveWindow D V f sect).1.winsect = sect := by
  revert hok
  rw [moveWindow]
  by_cases hne : sect ≠ f.winsect
  swap
  · rw [if_neg hne]
    exact fun _ => (not_not.1 hne).symm
  rw [if_pos hne]
  by_cases hsync : (syncWindow D V f).2 = .ok
  · rw [if_pos hsync]
    dsimp only
    split
    · exact fun _ => rfl
    · exact fun hok => absurd hok (by simp)
  · rw [if_neg hsync]
    exact fun hok => absurd hok hsync

/-- A move to the FAT, and a store there when it succeeds. -/
theorem Steps.moveFat (x : ℕ) (hx : x < V.fsize) (h : Steps D V V.InFirst f f') :
    Steps D V V.InFirst f (moveWindow D V f' (V.fatbase + x)).1 ∧
      ((moveWindow D V f' (V.fatbase + x)).2 = .ok → ∀ off l,
        Steps D V V.InFirst f ((moveWindow D V f' (V.fatbase + x)).1.poke off l)) := by
  have hfirst : V.InFirst (V.fatbase + x) := ⟨Nat.le_add_right .., Nat.add_lt_add_left hx _⟩
  have hmove := h.move (V.fatbase + x) (V.fat_lt hx) hfirst
  refine ⟨hmove, fun hok off l => hmove.poke off l ?_⟩
  rwa [moveWindow_winsect hok]

/-- The sectors of the entry `c`, by the sub-type. -/
theorem entry_sectors {c : ℕ} (hc : c < V.nFatent) :
    (V.fsType = .fat12 → (c + c / 2) / lbaSize < V.fsize ∧ (c + c / 2 + 1) / lbaSize < V.fsize) ∧
      (V.fsType = .fat16 → c / (lbaSize / 2) < V.fsize) ∧
      (V.fsType = .fat32 → c / (lbaSize / 4) < V.fsize) := by
  have hoff := V.off_lt hc
  refine ⟨fun ht => ?_, fun ht => ?_, fun ht => ?_⟩
  all_goals
    simp only [ht, FatType.off, FatType.width, lbaSize] at hoff ⊢
    omega

theorem steps_getFat (c : ℕ) (h : Steps D V V.InFirst f f') : Steps D V V.InFirst f (getFat D V f' c).1 := by
  rw [getFat]
  by_cases hc : c < 2 ∨ V.nFatent ≤ c
  · rwa [if_pos hc]
  rw [if_neg hc]
  obtain ⟨h₁₂, h₁₆, h₃₂⟩ := entry_sectors (V := V) (show c < V.nFatent by omega)
  cases ht : V.fsType with
  | fat12 =>
    have hm := (h.moveFat _ (h₁₂ ht).1).1
    have hm' := (hm.moveFat _ (h₁₂ ht).2).1
    exact .ite hm fun _ => .ite hm' fun _ => hm'
  | fat16 =>
    have hm := (h.moveFat _ (h₁₆ ht)).1
    exact .ite hm fun _ => hm
  | fat32 =>
    have hm := (h.moveFat _ (h₃₂ ht)).1
    exact .ite hm fun _ => hm

theorem steps_putFat (c v : ℕ) (h : Steps D V V.InFirst f f') : Steps D V V.InFirst f (putFat D V f' c v).1 := by
  rw [putFat]
  by_cases hc : 2 ≤ c ∧ c < V.nFatent
  swap
  · rwa [if_neg hc]
  rw [if_pos hc]
  obtain ⟨h₁₂, h₁₆, h₃₂⟩ := entry_sectors (V := V) hc.2
  cases ht : V.fsType with
  | fat12 =>
    obtain ⟨hm, hp⟩ := h.moveFat _ (h₁₂ ht).1
    refine .ite hm fun hok => ?_
    obtain ⟨hm', hp'⟩ := (hp (not_not.1 hok) _ _).moveFat _ (h₁₂ ht).2
    exact .ite hm' fun hok' => hp' (not_not.1 hok') _ _
  | fat16 =>
    obtain ⟨hm, hp⟩ := h.moveFat _ (h₁₆ ht)
    exact .ite hm fun hok => hp (not_not.1 hok) _ _
  | fat32 =>
    obtain ⟨hm, hp⟩ := h.moveFat _ (h₃₂ ht)
    exact .ite hm fun hok => hp (not_not.1 hok) _ _

theorem steps_findFree {scl fuel ncl : ℕ} {r : Except ℕ ℕ} (h : Steps D V V.InFirst f f')
    (hfind : findFree D V scl fuel f' ncl = some (f'', r)) : Steps D V V.InFirst f f'' := by
  induction fuel generalizing f' ncl with
  | zero => simp [findFree] at hfind
  | succ fuel ih =>
    have hget := steps_getFat (nextCluster V ncl) h
    rw [findFree] at hfind
    dsimp only at hfind
    split at hfind
    · obtain ⟨rfl, -⟩ := Prod.mk.inj (Option.some.inj hfind)
      exact h
    · split at hfind
      · obtain ⟨rfl, -⟩ := Prod.mk.inj (Option.some.inj hfind)
        exact hget
      · split at hfind
        · obtain ⟨rfl, -⟩ := Prod.mk.inj (Option.some.inj hfind)
          exact hget
        · split at hfind
          · obtain ⟨rfl, -⟩ := Prod.mk.inj (Option.some.inj hfind)
            exact hget
          · exact ih hget hfind

theorem steps_linkCluster (clst ncl : ℕ) (h : Steps D V V.InFirst f f') :
    Steps D V V.InFirst f (linkCluster D V f' clst ncl).1 := by
  have hput := steps_putFat ncl 0xFFFFFFFF h
  have hput' := steps_putFat clst ncl hput
  have hsel : Steps D V V.InFirst f (if (putFat D V f' ncl 0xFFFFFFFF).2 = .ok ∧ clst ≠ 0 then
      putFat D V (putFat D V f' ncl 0xFFFFFFFF).1 clst ncl else putFat D V f' ncl 0xFFFFFFFF).1 :=
    .ite hput' fun _ => hput
  rw [linkCluster]
  exact .ite (hsel.took ncl) fun _ => hsel

theorem steps_findAndLink {clst scl v : ℕ} (h : Steps D V V.InFirst f f')
    (hfind : findAndLink D V f' clst scl = some (f'', v)) : Steps D V V.InFirst f f'' := by
  obtain ⟨⟨g, r⟩, hfree, hr⟩ := Option.map_eq_some_iff.1 hfind
  have hg := steps_findFree h hfree
  cases r with
  | ok ncl =>
    have hlink := steps_linkCluster clst ncl hg
    rwa [show linkCluster D V g clst ncl = (f'', v) from hr] at hlink
  | error e =>
    obtain ⟨rfl, -⟩ := Prod.mk.inj hr
    exact hg

theorem steps_newCluster {clst scl v : ℕ} (h : Steps D V V.InFirst f f')
    (hnew : newCluster D V f' clst scl = some (f'', v)) : Steps D V V.InFirst f f'' := by
  have hget := steps_getFat (nextCluster V scl) h
  rw [newCluster] at hnew
  dsimp only at hnew
  split at hnew
  · obtain ⟨rfl, -⟩ := Prod.mk.inj (Option.some.inj hnew)
    exact h
  · split at hnew
    · split at hnew
      · rwa [Option.some.inj hnew] at hget
      · split at hnew
        · exact steps_findAndLink hget hnew
        · have hlink := steps_linkCluster clst (nextCluster V scl) hget
          rwa [Option.some.inj hnew] at hlink
    · exact steps_findAndLink h hnew

theorem steps_createChain {clst v : ℕ} (h : Steps D V V.InFirst f f')
    (hcreate : createChain D V f' clst = some (f'', v)) : Steps D V V.InFirst f f'' := by
  have hget := steps_getFat clst h
  rw [createChain] at hcreate
  dsimp only at hcreate
  split at hcreate
  · exact steps_newCluster h hcreate
  · split at hcreate
    · obtain ⟨rfl, -⟩ := Prod.mk.inj (Option.some.inj hcreate)
      exact hget
    · split at hcreate
      · rwa [Option.some.inj hcreate] at hget
      · split at hcreate
        · rwa [Option.some.inj hcreate] at hget
        · exact steps_newCluster hget hcreate

theorem steps_freeClusters {fuel c : ℕ} {r : FResult} (h : Steps D V V.InFirst f f')
    (hfree : freeClusters D V fuel f' c = some (f'', r)) : Steps D V V.InFirst f f'' := by
  induction fuel generalizing f' c with
  | zero => simp [freeClusters] at hfree
  | succ fuel ih =>
    have hget := steps_getFat c h
    have hput := steps_putFat c 0 hget
    rw [freeClusters] at hfree
    dsimp only at hfree
    split at hfree
    · obtain ⟨rfl, -⟩ := Prod.mk.inj (Option.some.inj hfree)
      exact hget
    · split at hfree
      · obtain ⟨rfl, -⟩ := Prod.mk.inj (Option.some.inj hfree)
        exact hget
      · split at hfree
        · obtain ⟨rfl, -⟩ := Prod.mk.inj (Option.some.inj hfree)
          exact hget
        · split at hfree
          · rwa [Option.some.inj hfree] at hput
          · split at hfree
            · exact ih hput.gaveBack hfree
            · obtain ⟨rfl, -⟩ := Prod.mk.inj (Option.some.inj hfree)
              exact hput.gaveBack

theorem steps_removeChain {c pclst : ℕ} {r : FResult} (h : Steps D V V.InFirst f f')
    (hremove : removeChain D V f' c pclst = some (f'', r)) : Steps D V V.InFirst f f'' := by
  have hput := steps_putFat pclst 0xFFFFFFFF h
  rw [removeChain] at hremove
  dsimp only at hremove
  split at hremove
  · obtain ⟨rfl, -⟩ := Prod.mk.inj (Option.some.inj hremove)
    exact h
  · split at hremove
    · split at hremove
      · rwa [Option.some.inj hremove] at hput
      · exact steps_freeClusters hput hremove
    · exact steps_freeClusters h hremove

/-- A step outside the FATs. -/
theorem steps_call {ι : Type*} [DecidableEq ι] {s s' : FileSys σ ι} {a : Call ι} {ok : Bool}
    (hc : s.call D V a = some (s', ok)) : Steps D V (fun _ => True) s.fs s'.fs ∨
      ∃ off l, s'.fs = s.fs.poke off l ∧ s.fs.winsect ≠ noSector ∧ ¬ V.InFat s.fs.winsect := by
  cases a with
  | stretch i =>
    obtain ⟨⟨f', v⟩, hcreate, heq⟩ := Option.map_eq_some_iff.1 hc
    obtain ⟨rfl, -⟩ := Prod.mk.inj heq
    exact .inl ((steps_createChain .refl hcreate).mono fun _ _ => trivial)
  | cut i n =>
    rw [FileSys.call] at hc
    split at hc
    · obtain ⟨rfl, -⟩ := Prod.mk.inj (Option.some.inj hc)
      exact .inl .refl
    · obtain ⟨⟨f', r⟩, hremove, heq⟩ := Option.map_eq_some_iff.1 hc
      obtain ⟨rfl, -⟩ := Prod.mk.inj heq
      exact .inl ((steps_removeChain .refl hremove).mono fun _ _ => trivial)
  | move sect =>
    rw [FileSys.call] at hc
    split at hc
    · rename_i hs
      obtain ⟨rfl, -⟩ := Prod.mk.inj (Option.some.inj hc)
      exact .inl (.move sect hs trivial .refl)
    · simp at hc
  | store off l =>
    rw [FileSys.call] at hc
    split at hc
    · simp at hc
    · rename_i hs
      obtain ⟨rfl, -⟩ := Prod.mk.inj (Option.some.inj hc)
      rw [not_or] at hs
      exact .inr ⟨off, l, rfl, hs⟩
  | sync =>
    obtain ⟨rfl, -⟩ := Prod.mk.inj (Option.some.inj hc)
    exact .inl (.sync .refl)

/-! ## The second FAT -/

/-- The second FAT on the disk is a copy of the first. -/
def Mirrored (D : Drive σ) (V : Vol) (f : FatFs σ) : Prop :=
  ∀ x, x < V.fsize → D.disk f.io (V.fatbase + V.fsize + x) = D.disk f.io (V.fatbase + x)

/-- **`sync_window`** writes both copies. -/
theorem Mirrored.syncWindow (hD : ∀ s b lba, (D.writeSector s b lba).2 = true) (hn : V.nFats = 2)
    (h : f.Coherent D V) (hm : Mirrored D V f) : Mirrored D V (syncWindow D V f).1 := by
  rw [Fatfs.syncWindow]
  by_cases hw : f.wflag = true
  swap
  · rwa [if_neg hw]
  have hlt : f.winsect < 2 ^ 32 := Nat.lt_of_le_of_lt h.sect_le (by decide)
  have hfits := V.fats_fit
  have hend := V.end_lt
  rw [hn] at hfits
  rw [if_pos hw, if_pos (hD ..)]
  have hdisk := Drive.writeSector_ok (hD f.io f.win f.winsect) hlt
  by_cases hfirst : (f.winsect + 2 ^ 32 - V.fatbase) % 2 ^ 32 < V.fsize ∧ V.nFats = 2
  · rw [if_pos hfirst]
    obtain ⟨hle, hmir⟩ := inMirror_add hlt hfirst.1 hn
    have hmir_lt : f.winsect + V.fsize < 2 ^ 32 := by
      have := hmir.2.2
      omega
    have hboth := Drive.writeSector_ok (hD (D.writeSector f.io f.win f.winsect).1 f.win
      (f.winsect + V.fsize)) hmir_lt
    have hsize := V.fsize_pos
    intro x hx
    change D.disk (D.writeSector (D.writeSector f.io f.win f.winsect).1 f.win
      (f.winsect + V.fsize)).1 _ = D.disk (D.writeSector (D.writeSector f.io f.win f.winsect).1 f.win
      (f.winsect + V.fsize)).1 _
    rw [hboth, hdisk]
    by_cases hxw : V.fatbase + x = f.winsect
    · -- the sector of the window, in both copies
      rw [show V.fatbase + V.fsize + x = f.winsect + V.fsize by omega, Function.update_self, hxw,
        Function.update_of_ne (by omega), Function.update_self]
    · rw [Function.update_of_ne (by omega), Function.update_of_ne (by omega),
        Function.update_of_ne (by have := hmir.2.1; omega), Function.update_of_ne hxw]
      exact hm x hx
  · rw [if_neg hfirst]
    intro x hx
    have hout : ¬ V.InMirror f.winsect := h.no_mirror hw
    have hnot : ∀ y, (V.fatbase ≤ y ∧ y < V.fatbase + 2 * V.fsize) → y ≠ f.winsect := by
      rintro y ⟨h₁, h₂⟩ rfl
      rcases Nat.lt_or_ge f.winsect (V.fatbase + V.fsize) with hlow | hhigh
      · exact hfirst ⟨by omega, hn⟩
      · exact hout ⟨hn, hhigh, h₂⟩
    change D.disk (D.writeSector f.io f.win f.winsect).1 _ =
      D.disk (D.writeSector f.io f.win f.winsect).1 _
    rw [hdisk, Function.update_of_ne (hnot _ (by omega)), Function.update_of_ne (hnot _ (by omega))]
    exact hm x hx

/-- Reading does not change the disk. -/
theorem Mirrored.moveWindow (hD : ∀ s b lba, (D.writeSector s b lba).2 = true) (hn : V.nFats = 2)
    (h : f.Coherent D V) (hm : Mirrored D V f) (sect : ℕ) :
    Mirrored D V (moveWindow D V f sect).1 := by
  have hsync := hm.syncWindow hD hn h
  rw [Fatfs.moveWindow]
  dsimp only
  split
  · split
    · have hread : ∀ win sect', Mirrored D V ((Fatfs.syncWindow D V f).1.load
          (D.readSector (Fatfs.syncWindow D V f).1.io sect).1 win sect') := by
        intro win sect' x hx
        change D.disk (D.readSector _ sect).1 _ = D.disk (D.readSector _ sect).1 _
        rw [Drive.readSector_disk]
        exact hsync x hx
      split
      · exact hread _ _
      · exact hread _ _
    · exact hsync
  · exact hm

/-- What the calls are made of keeps the copies equal. -/
theorem Steps.mirrored (hD : ∀ s b lba, (D.writeSector s b lba).2 = true) (hn : V.nFats = 2)
    (h : f.Coherent D V) (hm : Mirrored D V f) {P : ℕ → Prop} (hs : Steps D V P f f') :
    f'.Coherent D V ∧ Mirrored D V f' := by
  induction hs with
  | refl => exact ⟨h, hm⟩
  | move sect hs _ _ ih =>
    exact ⟨(moveWindow_spec ih.1 hs).1.coherent, ih.2.moveWindow hD hn ih.1 sect⟩
  | sync _ ih => exact ⟨(syncWindow_spec ih.1).1.coherent, ih.2.syncWindow hD hn ih.1⟩
  | poke off l hw _ ih => exact ⟨(ih.1.poke hw.1 hw.2 off l).coherent, ih.2⟩
  | took ncl _ ih => exact ⟨⟨ih.1.sect_le, ih.1.clean, ih.1.dirty, ih.1.no_mirror⟩, ih.2⟩
  | gaveBack _ ih => exact ⟨⟨ih.1.sect_le, ih.1.clean, ih.1.dirty, ih.1.no_mirror⟩, ih.2⟩

/-- The entries of the second FAT. -/
def Vol.mirror (V : Vol) (d : Disk) : ℕ → ℕ := V.table fun x => d (x + V.fsize)

/-- **The second FAT is a copy of the first** in every state that a run reaches, and of the FAT as
FatFs sees it when the window is clean. -/
theorem copies_equal {ι : Type*} [DecidableEq ι] {s₀ s : FileSys σ ι}
    (hD : ∀ s b lba, (D.writeSector s b lba).2 = true) (hn : V.nFats = 2)
    (h : s₀.fs.Coherent D V) (hm : Mirrored D V s₀.fs) (hs : (fileCalls D V s₀).Reachable s) :
    V.mirror (D.disk s.fs.io) = V.table (D.disk s.fs.io) ∧
      (s.fs.wflag = false → V.mirror (D.disk s.fs.io) = V.table (s.fs.view D)) := by
  have hinv : s.fs.Coherent D V ∧ Mirrored D V s.fs := by
    refine hs.invariant (I := fun s => s.fs.Coherent D V ∧ Mirrored D V s.fs) ⟨h, hm⟩
      fun {t t' a} ht _ hstep => ?_
    obtain ⟨⟨t'', ok⟩, hcall, rfl⟩ := Option.map_eq_some_iff.1 hstep
    rcases steps_call hcall with hsteps | ⟨off, l, hpoke, hne, hfat⟩
    · exact hsteps.mirrored hD hn ht.1 ht.2
    · dsimp only
      rw [hpoke]
      exact ⟨(ht.1.store hne hfat off l).1, ht.2⟩
  have hcopy : V.mirror (D.disk s.fs.io) = V.table (D.disk s.fs.io) := by
    rw [Vol.mirror, Vol.table, Vol.table, Vol.fatMem_congr fun x h₁ h₂ => ?_]
    have hx := hinv.2 (x - V.fatbase) (by omega)
    rwa [show V.fatbase + V.fsize + (x - V.fatbase) = x + V.fsize by omega,
      show V.fatbase + (x - V.fatbase) = x by omega] at hx
  refine ⟨hcopy, fun hw => ?_⟩
  rw [hcopy, FatFs.view_of_clean hw]

end

set_option maxRecDepth 10000 in
theorem copies_equal_emptyFiles : ∃ s,
    (fileCalls ramDrive (smallVol .fat16) emptyFiles).run
        [.stretch true, .stretch true, .cut true 1, .sync] emptyFiles = some s ∧
      (smallVol .fat16).mirror (ramDrive.disk s.fs.io) =
          (smallVol .fat16).table (ramDrive.disk s.fs.io) ∧
        (s.fs.wflag = false → (smallVol .fat16).mirror (ramDrive.disk s.fs.io) =
          (smallVol .fat16).table (s.fs.view ramDrive)) := by
  have hsome : ((fileCalls ramDrive (smallVol .fat16) emptyFiles).run
      [.stretch true, .stretch true, .cut true 1, .sync] emptyFiles).isSome := by decide
  obtain ⟨s, hs⟩ := Option.isSome_iff_exists.1 hsome
  exact ⟨s, hs, copies_equal (fun _ _ _ => rfl) rfl coherent_emptyFs (fun _ _ => rfl)
    (Machine.ReachableBy.init.of_run (fun _ _ _ => trivial) hs)⟩

end RvvmHal.Fatfs
