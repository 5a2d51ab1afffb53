import RvvmHal.Boot.Stacks
import RvvmHal.Panic.Dump

/-!
# The backtrace

`walk_stack` follows frame pointers that it finds in memory, which after a panic may hold anything.
Here is what it reads (`Visit`) and which addresses it prints (`addresses`). Whatever the memory
holds, the reads are aligned and in the area of the stacks, and the frame pointers grow; on frames as
the compiler makes them the walk finds the return addresses of the first 16 (`walkStack_ok`).
-/

namespace RvvmHal.Panic

open Boot CString Uart

/-! ## What the walk reads and prints -/

/-- An iteration of the loop of `walk_stack` that reads from memory. -/
structure Visit where
  fp : BitVec 64
  savedRa : BitVec 64
  savedFp : BitVec 64

/-- The addresses that an iteration loads from. -/
def Visit.loads (v : Visit) : List (BitVec 64) := [v.fp - 8, v.fp - 16]

/-- The iterations of the loop of `walk_stack`, for at most so many frames: `walkFrames` prints the
addresses that they find. -/
def walkVisits (seen : Seen) : ℕ → ℕ → BitVec 64 → BitVec 64 → List Visit
  | 0, _, _, _ => []
  | frames + 1, n, prevFp, fp =>
    if ¬ n < 32 then []
    else if fp < seen.stackBottom + 16 ∨ fp > seen.stackTop then []
    else if fp ≤ prevFp then []
    else if fp &&& 0xF ≠ 0 then []
    else
      let savedRa := seen.load (fp - 8)
      let savedFp := seen.load (fp - 16)
      ⟨fp, savedRa, savedFp⟩ ::
        if savedRa = 0 then [] else walkVisits seen frames (n + 1) fp savedFp

/-- The addresses of the first lines, which are no frame's. -/
def seedAddresses (seedPc seedRa : BitVec 64) : List (BitVec 64) :=
  if seedRa ≠ 0 ∧ seedRa ≠ seedPc then [seedPc, seedRa] else [seedPc]

/-- What `walk_stack` reads. -/
def stackVisits (seen : Seen) (seedPc seedRa fp : BitVec 64) : List Visit :=
  walkVisits seen 16 (seedAddresses seedPc seedRa).length 0 fp

/-- The return addresses among what was read. -/
def returnAddresses (visits : List Visit) : List (BitVec 64) :=
  (visits.map Visit.savedRa).filter (· ≠ 0)

/-- The addresses that `walk_stack` prints. -/
def addresses (seen : Seen) (seedPc seedRa fp : BitVec 64) : List (BitVec 64) :=
  seedAddresses seedPc seedRa ++ returnAddresses (stackVisits seen seedPc seedRa fp)

/-- The line of an address. -/
def addressLine (n : ℕ) (a : BitVec 64) : List UInt8 :=
  uartPrintf "     #%u  0x%x\n" [.num (.ofNat 64 n), .num a]

/-- The lines of some addresses, numbered from `n` on. -/
def addressLines : ℕ → List (BitVec 64) → List UInt8
  | _, [] => []
  | n, a :: as => addressLine n a ++ addressLines (n + 1) as

/-- The frames from `fp` on as the compiler makes them: of each the return address and the frame
pointer of the caller are below its frame pointer, and the caller's frame is above it. The last one
has `fp'` for the frame pointer of the caller. -/
inductive Frames (seen : Seen) : BitVec 64 → List (BitVec 64) → BitVec 64 → Prop
  | nil {fp : BitVec 64} : Frames seen fp [] fp
  | cons {fp ra fp' : BitVec 64} {ras : List (BitVec 64)}
      (above : seen.stackBottom.toNat + 16 ≤ fp.toNat) (below : fp.toNat ≤ seen.stackTop.toNat)
      (aligned : fp.toNat % 16 = 0) (savedRa : seen.load (fp - 8) = ra) (returns : ra ≠ 0)
      (grows : ras ≠ [] → fp.toNat < (seen.load (fp - 16)).toNat)
      (callers : Frames seen (seen.load (fp - 16)) ras fp') : Frames seen fp (ra :: ras) fp'

/-- There is no caller's frame any more. -/
def NoCaller (seen : Seen) (fp : BitVec 64) : Prop := fp = 0 ∨ seen.load (fp - 8) = 0

/-- The backtrace does no harm, and is of use. -/
structure BacktraceOk (seen : Seen) (seedPc seedRa fp : BitVec 64) : Prop where
  text : walkStack seen seedPc seedRa fp =
    uartPuts (cstr "   stack:\n") ++ addressLines 0 (addresses seen seedPc seedRa fp)
  reads : ∀ load' : BitVec 64 → BitVec 64,
    (∀ v ∈ stackVisits seen seedPc seedRa fp, ∀ a ∈ v.loads, load' a = seen.load a) →
      walkStack { seen with load := load' } seedPc seedRa fp = walkStack seen seedPc seedRa fp
  loads : ∀ v ∈ stackVisits seen seedPc seedRa fp, ∀ a ∈ v.loads,
    a.toNat % 8 = 0 ∧ seen.stackBottom.toNat ≤ a.toNat ∧ a.toNat + 8 ≤ seen.stackTop.toNat
  grows : (stackVisits seen seedPc seedRa fp).Pairwise fun v w => v.fp < w.fp
  visits : (stackVisits seen seedPc seedRa fp).length ≤ 16
  few : (addresses seen seedPc seedRa fp).length ≤ 18
  first : (addresses seen seedPc seedRa fp).head? = some seedPc
  frames : ∀ ras fp', Frames seen fp ras fp' →
    ras.take 16 <+: returnAddresses (stackVisits seen seedPc seedRa fp) ∧
      (16 ≤ ras.length ∨ NoCaller seen fp' →
        addresses seen seedPc seedRa fp = seedAddresses seedPc seedRa ++ ras.take 16)

/-! ## One iteration -/

section

variable {seen : Seen} {frames n : ℕ} {prevFp fp : BitVec 64}

/-- The checks that come before the loads. -/
def Readable (seen : Seen) (prevFp fp : BitVec 64) : Prop :=
  seen.stackBottom + 16 ≤ fp ∧ fp ≤ seen.stackTop ∧ prevFp < fp ∧ fp &&& 0xF = 0

instance : Decidable (Readable seen prevFp fp) :=
  inferInstanceAs (Decidable (_ ∧ _ ∧ _ ∧ _))

/-- The checks one after the other. -/
theorem ite_checks {β : Type} (x y : β) :
    (if ¬ n < 32 then x
      else if fp < seen.stackBottom + 16 ∨ fp > seen.stackTop then x
      else if fp ≤ prevFp then x
      else if fp &&& 0xF ≠ 0 then x
      else y) = if n < 32 ∧ Readable seen prevFp fp then y else x := by
  have hiff : n < 32 ∧ Readable seen prevFp fp ↔
      ¬ ¬ n < 32 ∧ ¬ (fp < seen.stackBottom + 16 ∨ fp > seen.stackTop) ∧ ¬ fp ≤ prevFp ∧
        ¬ fp &&& 0xF ≠ 0 := by
    rw [Readable, not_not, not_not, not_or, gt_iff_lt, BitVec.not_lt, BitVec.not_lt, BitVec.not_le,
      and_assoc]
  rw [if_congr hiff rfl rfl]
  simp only [ite_and, ite_not]

/-- One iteration of what the walk reads. -/
theorem walkVisits_succ :
    walkVisits seen (frames + 1) n prevFp fp =
      if n < 32 ∧ Readable seen prevFp fp then
        ⟨fp, seen.load (fp - 8), seen.load (fp - 16)⟩ ::
          if seen.load (fp - 8) = 0 then []
          else walkVisits seen frames (n + 1) fp (seen.load (fp - 16))
      else [] := by
  rw [walkVisits, ite_checks]

/-- One iteration of what the walk prints. -/
theorem walkFrames_succ :
    walkFrames seen (frames + 1) n prevFp fp =
      if n < 32 ∧ Readable seen prevFp fp then
        if seen.load (fp - 8) = 0 then []
        else addressLine n (seen.load (fp - 8)) ++
          walkFrames seen frames (n + 1) fp (seen.load (fp - 16))
      else [] := by
  rw [walkFrames, ite_checks]
  rfl

theorem readable_iff (harea : StackArea seen.stackBottom seen.stackTop) :
    Readable seen prevFp fp ↔
      seen.stackBottom.toNat + 16 ≤ fp.toNat ∧ fp.toNat ≤ seen.stackTop.toNat ∧
        prevFp.toNat < fp.toNat ∧ fp.toNat % 16 = 0 := by
  have htop := harea.top_eq
  have hlt := seen.stackTop.isLt
  have hsum : (seen.stackBottom + 16).toNat = seen.stackBottom.toNat + 16 := by bv_omega
  have hmask : fp &&& 0xF = 0 ↔ fp.toNat % 16 = 0 := by
    rw [← BitVec.toNat_inj, BitVec.toNat_and]
    exact Eq.congr_left (Word.and_low_mask fp.toNat 4)
  rw [Readable, BitVec.le_def, BitVec.le_def, BitVec.lt_def, hsum, hmask]

/-! ## The walk -/

@[simp] theorem returnAddresses_nil : returnAddresses [] = [] := rfl

theorem returnAddresses_cons (v : Visit) (visits : List Visit) :
    returnAddresses (v :: visits) =
      if v.savedRa = 0 then returnAddresses visits else v.savedRa :: returnAddresses visits := by
  rw [returnAddresses, List.map_cons, List.filter_cons]
  by_cases h : v.savedRa = 0
  · rw [if_pos h, if_neg (by simpa using h), returnAddresses]
  · rw [if_neg h, if_pos (by simpa using h), returnAddresses]

theorem length_returnAddresses_le (visits : List Visit) :
    (returnAddresses visits).length ≤ visits.length :=
  (List.length_filter_le _ _).trans (List.length_map _).le

/-- **The walk prints** the return addresses that it reads. -/
theorem walkFrames_eq :
    walkFrames seen frames n prevFp fp =
      addressLines n (returnAddresses (walkVisits seen frames n prevFp fp)) := by
  induction frames generalizing n prevFp fp with
  | zero => rfl
  | succ frames ih =>
    rw [walkFrames_succ, walkVisits_succ]
    split_ifs with hread hra
    · rw [returnAddresses_cons, if_pos hra]
      rfl
    · rw [returnAddresses_cons, if_neg hra, addressLines, ih]
    · rfl

/-- **All the reads** are behind the checks, with a frame pointer above the one before. -/
theorem readable_of_mem {v : Visit} (hv : v ∈ walkVisits seen frames n prevFp fp) :
    Readable seen prevFp v.fp := by
  induction frames generalizing n prevFp fp with
  | zero => cases hv
  | succ frames ih =>
    rw [walkVisits_succ] at hv
    split_ifs at hv with hread hra
    · rw [List.mem_singleton.1 hv]
      exact hread.2
    · rcases List.mem_cons.1 hv with rfl | hv
      · exact hread.2
      · obtain ⟨habove, hbelow, hgrows, haligned⟩ := ih hv
        exact ⟨habove, hbelow, BitVec.lt_trans hread.2.2.2.1 hgrows, haligned⟩
    · cases hv

theorem pairwise_walkVisits :
    (walkVisits seen frames n prevFp fp).Pairwise fun v w => v.fp < w.fp := by
  induction frames generalizing n prevFp fp with
  | zero => exact .nil
  | succ frames ih =>
    rw [walkVisits_succ]
    split_ifs with hread hra
    · exact List.pairwise_singleton _ _
    · exact .cons (fun w hw => (readable_of_mem hw).2.2.1) ih
    · exact .nil

theorem length_walkVisits_le : (walkVisits seen frames n prevFp fp).length ≤ frames := by
  induction frames generalizing n prevFp fp with
  | zero => exact Nat.le_refl 0
  | succ frames ih =>
    rw [walkVisits_succ]
    split_ifs with hread hra
    · exact Nat.succ_le_succ (Nat.zero_le frames)
    · exact Nat.succ_le_succ ih
    · exact Nat.zero_le _

/-- **The walk depends on nothing else** in memory. -/
theorem walkVisits_congr {seen' : Seen} (hbottom : seen'.stackBottom = seen.stackBottom)
    (htop : seen'.stackTop = seen.stackTop)
    (hload : ∀ v ∈ walkVisits seen frames n prevFp fp, ∀ a ∈ v.loads, seen'.load a = seen.load a) :
    walkVisits seen' frames n prevFp fp = walkVisits seen frames n prevFp fp := by
  induction frames generalizing n prevFp fp with
  | zero => rfl
  | succ frames ih =>
    have hiff : n < 32 ∧ Readable seen' prevFp fp ↔ n < 32 ∧ Readable seen prevFp fp := by
      rw [Readable, Readable, hbottom, htop]
    rw [walkVisits_succ, if_congr hiff rfl rfl, walkVisits_succ]
    rw [walkVisits_succ] at hload
    by_cases hread : n < 32 ∧ Readable seen prevFp fp
    · rw [if_pos hread] at hload
      have hhead := hload _ List.mem_cons_self
      have hra : seen'.load (fp - 8) = seen.load (fp - 8) := hhead _ List.mem_cons_self
      have hfp : seen'.load (fp - 16) = seen.load (fp - 16) :=
        hhead _ (List.mem_cons_of_mem _ List.mem_cons_self)
      rw [if_pos hread, if_pos hread, hra, hfp]
      by_cases hzero : seen.load (fp - 8) = 0
      · rw [if_pos hzero, if_pos hzero]
      · rw [if_neg hzero] at hload
        rw [if_neg hzero, if_neg hzero, ih fun v hv => hload v (List.mem_cons_of_mem _ hv)]
    · rw [if_neg hread, if_neg hread]

theorem returnAddresses_of_noCaller (h : NoCaller seen fp) :
    returnAddresses (walkVisits seen frames n prevFp fp) = [] := by
  cases frames with
  | zero => rfl
  | succ frames =>
    rw [walkVisits_succ]
    split_ifs with hread hra
    · rw [returnAddresses_cons, if_pos hra]
      rfl
    · rcases h with rfl | hzero
      · exact absurd hread.2.2.2.1 (BitVec.not_lt_zero)
      · exact absurd hzero hra
    · rfl

/-- **On frames** the walk finds the return addresses, as many as there are iterations. -/
theorem take_prefix_returnAddresses (harea : StackArea seen.stackBottom seen.stackTop)
    {ras : List (BitVec 64)} {fp' : BitVec 64} (hframes : Frames seen fp ras fp')
    (hn : n + frames ≤ 32) (hprev : ras ≠ [] → prevFp.toNat < fp.toNat) :
    ras.take frames <+: returnAddresses (walkVisits seen frames n prevFp fp) ∧
      (frames ≤ ras.length ∨ NoCaller seen fp' →
        returnAddresses (walkVisits seen frames n prevFp fp) = ras.take frames) := by
  induction frames generalizing n prevFp fp ras with
  | zero => exact ⟨List.prefix_rfl, fun _ => rfl⟩
  | succ frames ih =>
    cases hframes with
    | nil =>
      refine ⟨List.nil_prefix, ?_⟩
      rintro (hle | hno)
      · exact absurd hle (Nat.not_succ_le_zero frames)
      · exact returnAddresses_of_noCaller hno
    | @cons _ _ _ ras above below aligned savedRa returns grows callers =>
      have hread : n < 32 ∧ Readable seen prevFp fp :=
        ⟨by omega, (readable_iff harea).2 ⟨above, below, hprev (List.cons_ne_nil _ _), aligned⟩⟩
      obtain ⟨htake, heq⟩ := ih callers (by omega : n + 1 + frames ≤ 32) grows
      rw [walkVisits_succ, if_pos hread, savedRa, if_neg returns, returnAddresses_cons,
        if_neg returns, List.take_succ_cons]
      refine ⟨(List.prefix_cons_inj _).2 htake, fun h => congrArg (List.cons _) (heq ?_)⟩
      exact h.imp_left Nat.le_of_succ_le_succ

/-! ## The backtrace -/

theorem addressLines_append (as bs : List (BitVec 64)) :
    addressLines n (as ++ bs) = addressLines n as ++ addressLines (n + as.length) bs := by
  induction as generalizing n with
  | nil => rfl
  | cons a as ih =>
    rw [List.cons_append, addressLines, addressLines, ih, List.append_assoc, List.length_cons,
      Nat.add_right_comm, Nat.add_assoc]

variable {seedPc seedRa : BitVec 64}

/-- The number of the first line is a part of its format. -/
theorem uartPrintf_first (a : BitVec 64) :
    uartPrintf "     #0  0x%x\n" [.num a] = addressLine 0 a := by
  have hleft : cstr "     #0  0x%x\n" = cstr "     #0" ++ cstr "  0x%x\n" := by decide
  have hright : cstr "     #%u  0x%x\n" = cstr "     #" ++ 0x25 :: 0x75 :: cstr "  0x%x\n" := by
    decide
  have hzero : convert 0x75 (some (.num 0)) = [0x30] := by decide
  rw [uartPrintf, addressLine, uartPrintf, hleft, hright,
    uartVprintf_append (by decide) (by decide), uartVprintf_append (by decide) (by decide),
    uartVprintf, if_neg (by decide), if_pos (by decide)]
  exact congrArg (cstr "     #" ++ · ++ uartVprintf (cstr "  0x%x\n") [.num a]) hzero.symm

/-- **The text** of the backtrace: the addresses, a line each. -/
theorem walkStack_eq :
    walkStack seen seedPc seedRa fp =
      uartPuts (cstr "   stack:\n") ++ addressLines 0 (addresses seen seedPc seedRa fp) := by
  rw [addresses, addressLines_append, stackVisits, walkStack, walkFrames_eq, uartPrintf_first,
    seedAddresses]
  by_cases h : seedRa ≠ 0 ∧ seedRa ≠ seedPc
  · simp only [if_pos h, decide_eq_true h, if_true, addressLines, List.append_assoc,
      List.append_nil, List.length_cons, List.length_nil]
    rfl
  · simp only [if_neg h, decide_eq_false h, Bool.false_eq_true, if_false, addressLines,
      List.append_assoc, List.append_nil, List.length_cons, List.length_nil]

theorem length_seedAddresses_le : (seedAddresses seedPc seedRa).length ≤ 2 := by
  rw [seedAddresses]
  split_ifs
  · exact Nat.le_refl 2
  · exact Nat.le_succ 1

/-- **The backtrace cannot fault**, whatever the memory holds. -/
theorem walkStack_ok (harea : StackArea seen.stackBottom seen.stackTop) :
    BacktraceOk seen seedPc seedRa fp where
  text := walkStack_eq
  reads load' hload := by
    have hvisits : stackVisits { seen with load := load' } seedPc seedRa fp =
        stackVisits seen seedPc seedRa fp := walkVisits_congr rfl rfl hload
    rw [walkStack_eq, walkStack_eq, addresses, hvisits, addresses]
  loads v hv a ha := by
    obtain ⟨habove, hbelow, -, haligned⟩ := (readable_iff harea).1 (readable_of_mem hv)
    simp only [Visit.loads, List.mem_cons, List.not_mem_nil, or_false] at ha
    rcases ha with rfl | rfl <;> bv_omega
  grows := pairwise_walkVisits
  visits := length_walkVisits_le
  few := by
    have hseed : (seedAddresses seedPc seedRa).length ≤ 2 := length_seedAddresses_le
    have hvisits : (stackVisits seen seedPc seedRa fp).length ≤ 16 := length_walkVisits_le
    have hreturn := length_returnAddresses_le (stackVisits seen seedPc seedRa fp)
    rw [addresses, List.length_append]
    omega
  first := by
    rw [addresses, seedAddresses]
    split_ifs <;> rfl
  frames ras fp' hframes := by
    have hseed : (seedAddresses seedPc seedRa).length + 16 ≤ 32 :=
      (Nat.add_le_add_right length_seedAddresses_le 16).trans (by decide)
    have hpos : ras ≠ [] → (0 : BitVec 64).toNat < fp.toNat := by
      intro hne
      cases hframes with
      | nil => exact absurd rfl hne
      | cons above => exact (Nat.zero_lt_succ _).trans_le ((Nat.le_add_left 16 _).trans above)
    obtain ⟨htake, heq⟩ := take_prefix_returnAddresses harea hframes hseed hpos
    exact ⟨htake, fun h => congrArg (seedAddresses seedPc seedRa ++ ·) (heq h)⟩

end

/-- A firmware that panics in a function that its boot code called: one frame has a return address. -/
def firmwareSeen : Seen where
  mtval := 0
  mstatus := 0
  mtvec := 0
  stackBottom := 0x80400000
  stackTop := 0x80420000
  load a := if a = 0x8041FFC8 then 0x80000400 else if a = 0x8041FFC0 then 0x80420000 else 0

theorem walkStack_ok_firmware :
    StackArea firmwareSeen.stackBottom firmwareSeen.stackTop ∧
      BacktraceOk firmwareSeen 0x80000100 0x80000200 0x8041FFD0 ∧
      addresses firmwareSeen 0x80000100 0x80000200 0x8041FFD0 =
        [0x80000100, 0x80000200, 0x80000400] := by
  have harea : StackArea firmwareSeen.stackBottom firmwareSeen.stackTop := ⟨by decide, by decide⟩
  exact ⟨harea, walkStack_ok harea, by decide⟩

end RvvmHal.Panic
