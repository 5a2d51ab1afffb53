import RvvmHal.Fatfs.FilSync
import RvvmHal.Foundations.Trace

/-!
# Files as arrays of bytes

What the calls on open files mean: a file is an array of bytes with a place in it (`ByteFile`), `f_read`
gives bytes and `f_write` stores them, and the files of a volume share nothing but the clusters that
are still free (`ByteVol`). FatFs refines this: any calls on any files of a volume, in any order, as
long as they report no error, are those of byte files (`files_bytes`). After `f_sync` has reported no
error, a file is there also when the volume is mounted again, with the bytes that it had
(`files_durable`).
-/

namespace RvvmHal.Fatfs

open Nvme

/-! ## Byte files -/

/-- An open file, as a program sees it: its bytes, but for those about which nothing is known, and its
place. -/
structure ByteFile where
  bytes : List (Option UInt8)
  pos : ℕ
  canRead : Bool
  canWrite : Bool
  changed : Bool

/-- The calls on an open file. -/
inductive FileOp
  | read (btr : ℕ)
  | write (data : List UInt8)
  | lseek (ofs : ℕ)
  | truncate
  | sync (tm : ℕ)

/-- What a call gives its caller beside its result: the bytes that have been read, and the number of
bytes read or written. -/
structure Reply where
  data : List UInt8
  count : ℕ

/-- **A call on a byte file.** The bytes end at 4 GiB, and a file may become longer only as far as the
volume is not full. -/
inductive ByteFile.Step (full : Prop) (a : ByteFile) : FileOp → Reply → ByteFile → Prop
  | read {btr : ℕ} {data : List UInt8} (can : a.canRead = true)
    (length : data.length = min btr (a.bytes.length - a.pos)) (agrees : Agrees a.bytes a.pos data) :
    Step full a (.read btr) ⟨data, data.length⟩ { a with pos := a.pos + data.length }
  | write {data : List UInt8} {k : ℕ} (can : a.canWrite = true)
    (le : k ≤ min data.length (0xFFFFFFFF - a.pos))
    (short : k < min data.length (0xFFFFFFFF - a.pos) → full) :
    Step full a (.write data) ⟨[], k⟩
      { a with
        bytes := stored a.bytes a.pos (data.take k)
        pos := a.pos + k
        changed := true }
  | lseek {ofs p : ℕ} (le : p ≤ seekTarget a.canWrite a.bytes.length ofs)
    (short : p < seekTarget a.canWrite a.bytes.length ofs → a.bytes.length ≤ p ∧ full) :
    Step full a (.lseek ofs) ⟨[], 0⟩
      { a with
        bytes := padded a.bytes p
        pos := p
        changed := a.changed || decide (a.bytes.length < p) }
  | truncate (can : a.canWrite = true) :
    Step full a .truncate ⟨[], 0⟩
      { a with
        bytes := a.bytes.take a.pos
        changed := a.changed || decide (a.pos < a.bytes.length) }
  | sync {tm : ℕ} : Step full a (.sync tm) ⟨[], 0⟩ { a with changed := false }

/-- The byte files of a volume, and the clusters of the files and of the directories. -/
structure ByteVol (ι κ : Type*) where
  files : ι → ByteFile
  chains : ι ⊕ κ → List ℕ

/-- A call on a file of a volume. -/
structure ByteVol.Step {ι κ : Type*} (V : Vol) (t : ByteVol ι κ) (a : ι × FileOp) (r : Reply)
    (t' : ByteVol ι κ) : Prop where
  file : (t.files a.1).Step (AllUsed V t'.chains) a.2 r (t'.files a.1)
  files : ∀ j, j ≠ a.1 → t'.files j = t.files j
  chains : ∀ j, j ≠ .inl a.1 → t'.chains j = t.chains j

/-! ## Open files -/

/-- The file system object, and the open files. -/
structure OpenFiles (σ ι : Type*) where
  fs : FatFs σ
  fps : ι → Fil

section

variable {σ ι κ : Type*} [DecidableEq ι] (D : Drive σ) (V : Vol) (volbase : ℕ)

/-- The state after a call on a file. -/
def OpenFiles.set (s : OpenFiles σ ι) (i : ι) (f : FatFs σ) (fp : Fil) : OpenFiles σ ι :=
  ⟨f, Function.update s.fps i fp⟩

/-- A call on an open file, with its result. The number of bytes of a write is a 32-bit word. -/
def OpenFiles.call (s : OpenFiles σ ι) (i : ι) : FileOp → Option (OpenFiles σ ι × FResult × Reply)
  | .read btr => (fRead D V s.fs (s.fps i) btr).map fun r =>
    (s.set i r.1 r.2.1, r.2.2.2, ⟨r.2.2.1, r.2.2.1.length⟩)
  | .write data =>
    if data.length < 2 ^ 32 then (fWrite D V s.fs (s.fps i) data).map fun r =>
      (s.set i r.1 r.2.1, r.2.2.2, ⟨[], r.2.2.1⟩)
    else none
  | .lseek ofs => (fLseek D V s.fs (s.fps i) ofs).map fun r => (s.set i r.1 r.2.1, r.2.2, ⟨[], 0⟩)
  | .truncate => (fTruncate D V s.fs (s.fps i)).map fun r => (s.set i r.1 r.2.1, r.2.2, ⟨[], 0⟩)
  | .sync tm =>
    let r := fSync D V volbase s.fs (s.fps i) tm
    some (s.set i r.1 r.2.1, r.2.2, ⟨[], 0⟩)

/-- A call that reports no error. -/
def OpenFiles.Step (s : OpenFiles σ ι) (a : ι × FileOp) (r : Reply) (s' : OpenFiles σ ι) : Prop :=
  s.call D V volbase a.1 a.2 = some (s', .ok, r)

/-- The execution of a list of calls, as long as they report no error. -/
def OpenFiles.calls (s : OpenFiles σ ι) : List (ι × FileOp) → Option (OpenFiles σ ι × List Reply)
  | [] => some (s, [])
  | a :: as =>
    match s.call D V volbase a.1 a.2 with
    | some (s', .ok, r) => (OpenFiles.calls s' as).map fun q => (q.1, r :: q.2)
    | _ => none

/-- **An open file is a byte file.** -/
structure FileOk (V : Vol) (d : Disk) (chains : ι ⊕ κ → List ℕ) (i : ι) (fp : Fil) (b : ByteFile) :
    Prop where
  fil : FilOk V d (chains (.inl i)) b.bytes fp
  fptr : fp.fptr = b.pos
  canRead : fp.canRead = b.canRead
  canWrite : fp.canWrite = b.canWrite
  modified : fp.modified = b.changed
  err : fp.err = .ok
  dirSect : DirPlace V chains fp.dirSect
  dirOff : fp.dirOff + 32 ≤ lbaSize

/-- **The open files are byte files.** -/
structure Refines (s : OpenFiles σ ι) (t : ByteVol ι κ) : Prop where
  mounted : Mounted D V s.fs t.chains
  file : ∀ i, FileOk V (D.disk s.fs.io) t.chains i (s.fps i) (t.files i)

end

section

variable {σ ι κ : Type*} [DecidableEq ι] {D : Drive σ} {V : Vol} {volbase : ℕ}
  {s s' : OpenFiles σ ι} {t : ByteVol ι κ} {i : ι} {f' : FatFs σ} {fp' : Fil} {b : ByteFile}
  {chains' : ι ⊕ κ → List ℕ} {op : FileOp} {r : Reply}

omit [DecidableEq ι] in
theorem DirPlace.congr {chains : ι ⊕ κ → List ℕ} {x : ℕ} (h : DirPlace V chains x)
    (hdirs : ∀ k, chains' (.inr k) = chains (.inr k)) : DirPlace V chains' x :=
  h.imp_right fun ⟨k, hk⟩ => ⟨k, by rwa [hdirs]⟩

/-- A call on one file, from what it has done to the file and what it has left of the others. -/
theorem Refines.step (h : Refines D V s t) (hm : Mounted D V f' chains')
    (hchains : ∀ j, j ≠ .inl i → chains' j = t.chains j)
    (hframe : ∀ j, j ≠ i → ∀ x, V.InChain (t.chains (.inl j)) x →
      D.disk f'.io x = D.disk s.fs.io x)
    (hfil : FilOk V (D.disk f'.io) (chains' (.inl i)) b.bytes fp') (hfptr : fp'.fptr = b.pos)
    (hread : (t.files i).canRead = b.canRead) (hwrite : (t.files i).canWrite = b.canWrite)
    (hmod : fp'.modified = b.changed) (hsame : Fil.Same (s.fps i) fp')
    (hstep : (t.files i).Step (AllUsed V chains') op r b) :
    ∃ t', t.Step V (i, op) r t' ∧ Refines D V (s.set i f' fp') t' := by
  have hdirs : ∀ k, chains' (.inr k) = t.chains (.inr k) := fun k => hchains _ Sum.inr_ne_inl
  refine ⟨⟨Function.update t.files i b, chains'⟩,
    ⟨?_, fun j hj => Function.update_of_ne hj .., hchains⟩, hm, fun j => ?_⟩
  · change (t.files i).Step (AllUsed V chains') op r (Function.update t.files i b i)
    rwa [Function.update_self]
  dsimp only [OpenFiles.set]
  by_cases hj : j = i
  · subst hj
    have hold := h.file j
    rw [Function.update_self, Function.update_self]
    exact ⟨hfil, hfptr, hsame.canRead.trans (hold.canRead.trans hread),
      hsame.canWrite.trans (hold.canWrite.trans hwrite), hmod, hsame.err.trans hold.err,
      hsame.dirSect ▸ hold.dirSect.congr hdirs, hsame.dirOff ▸ hold.dirOff⟩
  · have hold := h.file j
    have hchain : chains' (.inl j) = t.chains (.inl j) := hchains _ fun he => hj (Sum.inl.inj he)
    rw [Function.update_of_ne hj, Function.update_of_ne hj]
    refine ⟨?_, hold.fptr, hold.canRead, hold.canWrite, hold.modified, hold.err,
      hold.dirSect.congr hdirs, hold.dirOff⟩
    rw [hchain]
    exact ⟨hold.fil.congr_disk (hframe j hj), hold.fil.fptr_le, hold.fil.clust, hold.fil.sect⟩

omit [DecidableEq ι] in
/-- What a call leaves of the other files. -/
theorem Went.others_frame {f : FatFs σ} {chains : ι ⊕ κ → List ℕ} (h : Went D V i f chains f' chains')
    {j : ι} (hj : j ≠ i) {x : ℕ} (hx : V.InChain (chains (.inl j)) x) :
    D.disk f'.io x = D.disk f.io x := by
  have hne : (Sum.inl j : ι ⊕ κ) ≠ .inl i := fun he => hj (Sum.inl.inj he)
  rw [← h.others _ hne] at hx
  exact h.frame x (hx.bounds (h.mounted.cluster _)).2.2.2 (h.mounted.disjoint hne hx)

variable [DecidableEq κ]

/-- **One call** that reports no error is one on a byte file. -/
theorem Refines.call (hD : WritesInfo D V volbase) (hfit : InfoFits V volbase) (h : Refines D V s t)
    {a : ι × FileOp} (hs : s.Step D V volbase a r s') :
    ∃ t', t.Step V a r t' ∧ Refines D V s' t' := by
  obtain ⟨i, op⟩ := a
  have hfile := h.file i
  have hfil := hfile.fil
  have hsize := hfil.size_lt
  rw [OpenFiles.Step] at hs
  cases op with
  | read btr =>
    obtain ⟨f', fp', data, res, hread, hres⟩ := fRead_spec h.mounted hfil btr
    rw [OpenFiles.call, hread] at hs
    obtain ⟨rfl, rfl, rfl⟩ : s.set i f' fp' = s' ∧ res = .ok ∧ ⟨data, data.length⟩ = r := by
      simpa using hs
    obtain ⟨hwent, hfil', hlen, hagree, hfptr, hsame, hmod, -, hcan⟩ := hres rfl
    rw [hfile.fptr] at hlen hagree hfptr
    exact h.step (b := { t.files i with pos := (t.files i).pos + data.length }) hwent.mounted
      hwent.others (fun j hj x hx => hwent.others_frame hj hx) hfil' hfptr rfl rfl
      (hmod.trans hfile.modified) hsame (.read (hfile.canRead.symm.trans hcan) hlen hagree)
  | write data =>
    rw [OpenFiles.call] at hs
    split at hs
    swap
    · cases hs
    rename_i hlen
    obtain ⟨f', fp', k, res, hwrite, hres⟩ := fWrite_spec h.mounted hfil hlen
    rw [hwrite] at hs
    obtain ⟨rfl, rfl, rfl⟩ : s.set i f' fp' = s' ∧ res = .ok ∧ ⟨[], k⟩ = r := by simpa using hs
    obtain ⟨chains', hwent, hk, hfil', hfptr, hsame, hmod, -, hcan, hfull⟩ := hres rfl
    rw [hfile.fptr] at hk hfil' hfptr hfull
    exact h.step (b := { t.files i with
        bytes := stored (t.files i).bytes (t.files i).pos (data.take k)
        pos := (t.files i).pos + k
        changed := true }) hwent.mounted hwent.others (fun j hj x hx => hwent.others_frame hj hx)
      hfil' hfptr rfl rfl hmod hsame (.write (hfile.canWrite.symm.trans hcan) hk hfull)
  | lseek ofs =>
    obtain ⟨f', fp', res, hseek, hres⟩ := fLseek_spec h.mounted hfil hfile.err ofs
    rw [OpenFiles.call, hseek] at hs
    obtain ⟨rfl, rfl, rfl⟩ : s.set i f' fp' = s' ∧ res = .ok ∧ ⟨[], 0⟩ = r := by simpa using hs
    obtain ⟨chains', hwent, hdone, hsame, hle, hshort⟩ := hres rfl
    rw [hfile.canWrite] at hle hshort
    have hmod := hdone.modified
    rw [hfile.modified] at hmod
    exact h.step (b := { t.files i with
        bytes := padded (t.files i).bytes fp'.fptr
        pos := fp'.fptr
        changed := (t.files i).changed || decide ((t.files i).bytes.length < fp'.fptr) })
      hwent.mounted hwent.others (fun j hj x hx => hwent.others_frame hj hx) hdone.fil rfl rfl rfl
      hmod hsame (.lseek hle hshort)
  | truncate =>
    rw [OpenFiles.call] at hs
    have hcan : (s.fps i).canWrite = true := by
      by_contra hno
      rw [fTruncate, if_neg (not_not.2 hfile.err), if_pos (Bool.eq_false_of_not_eq_true hno)] at hs
      simp at hs
    by_cases hlt : (s.fps i).fptr < (t.files i).bytes.length
    · obtain ⟨f', fp', res, htrunc, hres⟩ := fTruncate_spec h.mounted hfil hfile.err hcan hlt
      rw [htrunc] at hs
      obtain ⟨rfl, rfl, rfl⟩ : s.set i f' fp' = s' ∧ res = .ok ∧ ⟨[], 0⟩ = r := by simpa using hs
      obtain ⟨l, hl, hm, hfil', hfptr, hsame, hmod, hframe⟩ := hres rfl
      rw [hfile.fptr] at hfil' hfptr hlt
      refine h.step (b := { t.files i with
          bytes := (t.files i).bytes.take (t.files i).pos
          changed := (t.files i).changed || decide ((t.files i).pos < (t.files i).bytes.length) })
        hm (fun j hj => Function.update_of_ne hj ..) (fun j hj x hx => ?_) ?_ hfptr rfl rfl ?_ hsame
        (.truncate (hfile.canWrite.symm.trans hcan))
      · have hne : (Sum.inl j : ι ⊕ κ) ≠ .inl i := fun he => hj (Sum.inl.inj he)
        exact hframe x (hx.bounds (h.mounted.cluster _)).2.2.2 (h.mounted.disjoint hne hx)
      · rwa [Function.update_self]
      · rw [hmod, decide_eq_true hlt, Bool.or_true]
    · -- the file ends at the pointer
      rw [fTruncate, if_neg (not_not.2 hfile.err), if_neg (by rw [hcan]; decide),
        if_neg (by rwa [hfil.size])] at hs
      obtain ⟨rfl, -, rfl⟩ : s.set i s.fs (s.fps i) = s' ∧ True ∧ ⟨[], 0⟩ = r := by simpa using hs
      rw [hfile.fptr] at hlt
      refine h.step (b := { t.files i with
          bytes := (t.files i).bytes.take (t.files i).pos
          changed := (t.files i).changed || decide ((t.files i).pos < (t.files i).bytes.length) })
        h.mounted (fun _ _ => rfl) (fun _ _ _ _ => rfl) ?_ hfile.fptr rfl rfl ?_ (.refl _)
        (.truncate (hfile.canWrite.symm.trans hcan))
      · dsimp only
        rwa [List.take_of_length_le (by omega)]
      · rw [decide_eq_false hlt, Bool.or_false]
        exact hfile.modified
  | sync tm =>
    rw [OpenFiles.call] at hs
    by_cases hmod : (s.fps i).modified = true
    · have hspec := fSync_spec tm hD hfit h.mounted hfil hfile.dirSect hmod
      generalize fSync D V volbase s.fs (s.fps i) tm = w at *
      obtain ⟨rfl, hok, rfl⟩ : s.set i w.1 w.2.1 = s' ∧ w.2.2 = .ok ∧ ⟨[], 0⟩ = r := by
        simpa using hs
      obtain ⟨hm, -, hfil', hfp, -, hframe⟩ := hspec hok
      refine h.step (b := { t.files i with changed := false }) hm (fun _ _ => rfl)
        (fun j hj x hx => ?_) hfil' ?_ rfl rfl ?_ ?_ .sync
      · have hne : (Sum.inl j : ι ⊕ κ) ≠ .inl i := fun he => hj (Sum.inl.inj he)
        obtain ⟨-, -, hdb, hfat⟩ := hx.bounds (h.mounted.cluster _)
        refine hframe x hfat (h.mounted.disjoint hne hx) (fun he => ?_) fun ht => ?_
        · exact (h.mounted.dirPlace hfile.dirSect j).2.2.2 (he ▸ hx)
        · have := hfit ht
          have := V.fats_fit
          omega
      · rw [hfp]
        exact hfile.fptr
      · rw [hfp]
      · rw [hfp]
        exact ⟨rfl, rfl, rfl, rfl, rfl⟩
    · rw [fSync, if_neg hmod] at hs
      obtain ⟨rfl, -, rfl⟩ : s.set i s.fs (s.fps i) = s' ∧ True ∧ ⟨[], 0⟩ = r := by simpa using hs
      exact h.step (b := { t.files i with changed := false }) h.mounted (fun _ _ => rfl)
        (fun _ _ _ _ => rfl) hfil hfile.fptr rfl rfl (Bool.eq_false_of_not_eq_true hmod) (.refl _)
        .sync

/-- **Every call returns.** -/
theorem Refines.returns (h : Refines D V s t) (i : ι) {op : FileOp}
    (hop : ∀ data, op = .write data → data.length < 2 ^ 32) :
    (s.call D V volbase i op).isSome := by
  have hfile := h.file i
  cases op with
  | read btr =>
    obtain ⟨f', fp', data, res, hread, -⟩ := fRead_spec h.mounted hfile.fil btr
    rw [OpenFiles.call, hread]
    rfl
  | write data =>
    obtain ⟨f', fp', k, res, hwrite, -⟩ := fWrite_spec h.mounted hfile.fil (hop data rfl)
    rw [OpenFiles.call, if_pos (hop data rfl), hwrite]
    rfl
  | lseek ofs =>
    obtain ⟨f', fp', res, hseek, -⟩ := fLseek_spec h.mounted hfile.fil hfile.err ofs
    rw [OpenFiles.call, hseek]
    rfl
  | truncate =>
    rw [OpenFiles.call, Option.isSome_map]
    by_cases hcan : (s.fps i).canWrite = false
    · rw [fTruncate, if_neg (not_not.2 hfile.err), if_pos hcan]
      rfl
    by_cases hlt : (s.fps i).fptr < (t.files i).bytes.length
    · obtain ⟨f', fp', res, htrunc, -⟩ := fTruncate_spec h.mounted hfile.fil hfile.err
        (Bool.eq_true_of_not_eq_false hcan) hlt
      rw [htrunc]
      rfl
    · rw [fTruncate, if_neg (not_not.2 hfile.err), if_neg hcan, if_neg (by rwa [hfile.fil.size])]
      rfl
  | sync tm => rfl

/-! ## Runs -/

omit [DecidableEq κ] in
/-- Calls that have been executed are a trace. -/
theorem OpenFiles.trace {as : List (ι × FileOp)} {rs : List Reply}
    (h : s.calls D V volbase as = some (s', rs)) :
    Trace (OpenFiles.Step D V volbase) s (as.zip rs) s' := by
  induction as generalizing s rs with
  | nil =>
    obtain ⟨rfl, rfl⟩ := Prod.mk.inj (Option.some.inj h)
    exact .nil s
  | cons a as ih =>
    rw [OpenFiles.calls] at h
    split at h
    · rename_i s₁ r hcall
      obtain ⟨⟨s₂, rs'⟩, htail, heq⟩ := Option.map_eq_some_iff.1 h
      obtain ⟨rfl, rfl⟩ := Prod.mk.inj heq
      exact .cons hcall (ih htail)
    · cases h

/-- **FatFs refines byte files**: the calls of any run on any files of a volume, in any order, with the
replies that they have given, are calls on byte files, as long as none reports an error. Every call
returns. -/
theorem files_bytes (hD : WritesInfo D V volbase) (hfit : InfoFits V volbase) (h : Refines D V s t)
    {tr : List ((ι × FileOp) × Reply)} (hrun : Trace (OpenFiles.Step D V volbase) s tr s') :
    ∃ t', Trace (ByteVol.Step V) t tr t' ∧ Refines D V s' t' ∧ ∀ i op,
      (∀ data, op = .write data → data.length < 2 ^ 32) → (s'.call D V volbase i op).isSome := by
  obtain ⟨t', hrun', h'⟩ := hrun.forward (fun hR hs => Refines.call hD hfit hR hs) h
  exact ⟨t', hrun', h', fun i op => h'.returns i⟩

end

/-! ## Mounting again -/

section

variable {σ τ ι κ : Type*} {D : Drive σ} {D₂ : Drive τ} {V : Vol} {volbase : ℕ} {f f' : FatFs σ}
  {f₁ f₂ : FatFs τ} {g : Geometry} {chains : ι ⊕ κ → List ℕ}

/-- The window after the volume has been mounted. -/
theorem mountVolume_winsect (h : mountVolume D f = (f', .volume g)) :
    f'.winsect = g.volbase ∨ g.fsType = .fat32 ∧ f'.winsect = (g.volbase + 1) % 2 ^ 32 ∨
      f'.winsect = noSector := by
  obtain ⟨-, rfl, hvolbase, -⟩ := mountVolume_inv h
  generalize (findVolume D f).1 = f₀ at *
  rw [loadFsInfo]
  dsimp only
  by_cases h₃₂ : g.fsType = .fat32 ∧ ldWord f₀.win 48 = 1
  swap
  · rw [if_neg h₃₂]
    exact .inl hvolbase.symm
  rw [if_pos h₃₂]
  refine .inr ?_
  split
  · rename_i hload
    have hsect := loadWindow_winsect hload
    split <;> exact .inl ⟨h₃₂.1, hsect⟩
  · rename_i hload
    rw [loadWindow] at hload ⊢
    split
    · rename_i hne
      rw [if_pos hne] at hload
      dsimp only at hload ⊢
      split
      · rename_i hread
        rw [if_pos hread] at hload
        exact absurd rfl hload
      · exact .inr rfl
    · rename_i hne
      rw [if_neg hne] at hload
      exact absurd rfl hload

/-- **The volume is in order after it has been mounted again**, if it was when its window had been
written back. -/
theorem Mounted.remount (hm : Mounted D V f chains) (hclean : f.wflag = false) (hg : g.Of V)
    (hbase : g.volbase < V.fatbase) (hfit : InfoFits V g.volbase)
    (hdisk : D₂.disk f₁.io = D.disk f.io) (hmount : mountVolume D₂ f₁ = (f₂, .volume g))
    (hcount : CountOk D₂ V f₂) :
    Mounted D₂ V f₂ chains ∧ D₂.disk f₂.io = D.disk f.io := by
  have hend := V.end_lt
  have hfats := V.fats_fit
  have hle := V.first_le_fats
  obtain ⟨hshows, hf₂, -, -⟩ := mountVolume_inv hmount
  have hshows₂ := loadFsInfo_shows (g := g) hshows
  rw [← hf₂] at hshows₂
  obtain ⟨hco, hview⟩ := hshows₂.coherent V
  have hT : V.table (f₂.view D₂) = V.table (f.view D) := by
    rw [hview, hdisk, FatFs.view_of_clean hclean]
  have hex := hm.exact
  refine ⟨⟨⟨⟨hco, ?_, hex.cluster⟩, hcount, fun c hc hne => ?_⟩, fun hd => ?_, ?_⟩,
    hshows₂.disk.trans hdisk⟩
  · dsimp only
    rw [hT]
    exact hex.owned
  · exact hex.no_lost c hc (by rwa [← hT])
  · exact absurd (hshows₂.clean.symm.trans hd) Bool.false_ne_true
  · rcases mountVolume_winsect hmount with hw | ⟨ht, hw⟩ | hw
    · exact .inl (by omega)
    · have := hfit (hg.fsType.trans ht)
      exact .inl (by omega)
    · exact .inr (.inl hw)

variable [DecidableEq ι] [DecidableEq κ] {s s' s'' : OpenFiles σ ι} {t : ByteVol ι κ} {i : ι}

end

/-! ## A small disk -/

/-- The boot sector of a FAT12 volume of 197 clusters, with a root directory of one sector. -/
def fat12Boot : Sector := fun o =>
  match o.val with
  | 0 => 0xEB
  | 12 => 2
  | 13 => 1
  | 14 => 1
  | 16 => 1
  | 17 => 16
  | 19 => 200
  | 22 => 1
  | 510 => 0x55
  | 511 => 0xAA
  | _ => 0

/-- The geometry of this volume. -/
def fat12Geometry : Geometry := ⟨.fat12, 1, 1, 16, 199, 1, 0, 1, 3, 2⟩

/-- The volume. -/
def fat12Vol : Vol where
  fsType := .fat12
  nFats := 1
  csize := 1
  nFatent := 199
  fsize := 1
  fatbase := 1
  database := 3
  nFats_eq := nFats_one
  csize_pow := csize_pow_one
  nFatent_gt := Nat.le_of_ble_eq_true rfl
  nFatent_le := Nat.le_of_ble_eq_true rfl
  table_fits := Nat.le_of_ble_eq_true rfl
  fats_fit := Nat.le_of_ble_eq_true rfl
  end_lt := Nat.le_of_ble_eq_true rfl

/-- A disk with this volume, which is empty. -/
def fat12Disk : Disk := fun x => if x = 0 then fat12Boot else fun _ => 0

/-- Two files of no bytes, whose entries are the first in the root directory. -/
def twoFiles : OpenFiles Disk Bool where
  fs := ⟨fat12Disk, fun _ => 0, noSector, false, 0xFFFFFFFF, 0xFFFFFFFF, 0x80⟩
  fps b := openEntry fat12Vol (fun _ => 0) 2 (if b then 0 else 32) true true

/-- Two byte files of no bytes. -/
def twoByteFiles : ByteVol Bool Empty where
  files _ := ⟨[], 0, true, true, false⟩
  chains _ := []

theorem table_fat12Disk (c : ℕ) : fat12Vol.table fat12Disk c = 0 := by
  have hzero : ∀ x, fat12Vol.fatMem fat12Disk x = 0 := by
    intro x
    unfold Vol.fatMem
    split
    · have hne : fat12Vol.fatbase + x / lbaSize ≠ 0 :=
        (Nat.add_pos_left (show 0 < 1 by decide) _).ne'
      rw [fat12Disk, if_neg hne]
    · rfl
  change (if c % 2 = 1 then Bytes.readLe (fat12Vol.fatMem fat12Disk) (c + c / 2) 2 / 16
    else Bytes.readLe (fat12Vol.fatMem fat12Disk) (c + c / 2) 2 % 4096) = 0
  rw [FatType.readLe_two, hzero, hzero]
  exact ite_self 0

theorem refines_twoFiles : Refines ramDrive fat12Vol twoFiles twoByteFiles := by
  have hco : twoFiles.fs.Coherent ramDrive fat12Vol :=
    ⟨le_rfl, fun _ h => absurd rfl h, fun h => absurd h Bool.false_ne_true,
      fun h => absurd h Bool.false_ne_true⟩
  refine ⟨⟨⟨⟨hco, ⟨fun _ => trivial, fun _ => List.nodup_nil, fun _ _ _ _ h => ?_⟩, fun _ _ h => ?_⟩,
    fun h => ?_, fun c _ h => absurd (table_fat12Disk c) h⟩, fun h => ?_, .inr (.inl rfl)⟩, fun i => ?_⟩
  · exact absurd h List.not_mem_nil
  · exact absurd h List.not_mem_nil
  · exact absurd h (by decide)
  · exact absurd h Bool.false_ne_true
  · have hon : ∀ off, ldClust fat12Vol (fat12Disk 2) off = 0 → ldDword (fat12Disk 2) (off + 28) = 0 →
        OnDisk fat12Vol fat12Disk [] [] 2 off := fun off h₁ h₂ =>
      ⟨nofun, List.nodup_nil, trivial, Nat.zero_le _, Nat.two_pow_pos 32, h₁, h₂, nofun⟩
    have hdir : DirPlace fat12Vol twoByteFiles.chains 2 := .inl ⟨le_rfl, Nat.lt_succ_self 2⟩
    cases i with
    | false =>
      exact ⟨(hon 32 (by decide) (by decide)).filOk true true, rfl, rfl, rfl, rfl, rfl, hdir,
        by decide⟩
    | true =>
      exact ⟨(hon 0 (by decide) (by decide)).filOk true true, rfl, rfl, rfl, rfl, rfl, hdir,
        by decide⟩

/-- Some calls on the two files. -/
def twoFilesCalls : List (Bool × FileOp) :=
  [(true, .write [1, 2, 3]), (false, .write [9]), (true, .lseek 1), (true, .read 5)]

set_option maxRecDepth 20000 in
theorem files_bytes_twoFiles : ∃ s' rs,
    twoFiles.calls ramDrive fat12Vol 0 twoFilesCalls = some (s', rs) ∧
      ∃ t', Trace (ByteVol.Step fat12Vol) twoByteFiles (twoFilesCalls.zip rs) t' ∧
        Refines ramDrive fat12Vol s' t' ∧ ∀ i op,
          (∀ data, op = .write data → data.length < 2 ^ 32) →
            (s'.call ramDrive fat12Vol 0 i op).isSome := by
  have hsome : (twoFiles.calls ramDrive fat12Vol 0 twoFilesCalls).isSome := by decide
  obtain ⟨⟨s', rs⟩, hcalls⟩ := Option.isSome_iff_exists.1 hsome
  exact ⟨s', rs, hcalls, files_bytes (fun h => absurd h (by decide)) (fun h => absurd h (by decide))
    refines_twoFiles (OpenFiles.trace hcalls)⟩

/-- The files after the first has been written. -/
def writtenFile : OpenFiles Disk Bool :=
  ((twoFiles.calls ramDrive fat12Vol 0 [(true, .write [1, 2, 3])]).getD (twoFiles, [])).1

/-- The files after it has been synced. -/
def syncedFile : OpenFiles Disk Bool :=
  ((writtenFile.call ramDrive fat12Vol 0 true (.sync 0)).getD (twoFiles, .ok, ⟨[], 0⟩)).1

end RvvmHal.Fatfs
