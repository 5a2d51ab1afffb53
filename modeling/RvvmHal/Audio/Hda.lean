import RvvmHal.Foundations.Loop
import RvvmHal.Foundations.Word

/-!
# The command ring of the audio controller

`hda_init` and `hda_send_cmd` of `hda.c`. The driver has an array `corb` for the commands, writes a
code for the size of the ring to `CORBSIZE`, and reduces its write pointer with a mask. The array
has 64 entries, but the code and the mask are those of a ring of 256.

Commands are stored at 1, 2, 3, …, modulo 256 (`Filled`): from the 64th on they are outside of the
array, and the ring that the controller reads is never inside of it (`corbOk_iff`).
-/

namespace RvvmHal.Audio

open Loop

/-! ## Registers -/

abbrev HDA_REG_GCTL : ℕ := 0x08

abbrev HDA_REG_CORBLBASE : ℕ := 0x40

abbrev HDA_REG_CORBUBASE : ℕ := 0x44

abbrev HDA_REG_CORBWP : ℕ := 0x48

abbrev HDA_REG_CORBCTL : ℕ := 0x4C

abbrev HDA_REG_CORBSIZE : ℕ := 0x4E

abbrev HDA_REG_RIRBLBASE : ℕ := 0x50

abbrev HDA_REG_RIRBUBASE : ℕ := 0x54

abbrev HDA_REG_RIRBWP : ℕ := 0x58

abbrev HDA_REG_RINTCNT : ℕ := 0x5A

abbrev HDA_REG_RIRBCTL : ℕ := 0x5C

abbrev HDA_REG_RIRBSIZE : ℕ := 0x5E

abbrev HDA_VERB_SET_AMP_GAIN_MUTE : ℕ := 0x003

abbrev HDA_AMP_OUTPUT : ℕ := 0x8000

abbrev HDA_AMP_LEFT : ℕ := 0x2000

abbrev HDA_AMP_RIGHT : ℕ := 0x1000

abbrev RVVM_HDA_BEEP_NID : ℕ := 4

/-- The number of entries of the array `corb`. -/
abbrev corbLength : ℕ := 64

/-- The number of entries of a ring, for the code in `CORBSIZE` or `RIRBSIZE`. -/
def ringEntries : ℕ → ℕ
  | 0 => 2
  | 1 => 16
  | 2 => 256
  | _ => 0

/-! ## The driver -/

/-- The state of `hda.c`: its variables, the values last written to the registers, and the stores
to `corb`, each with its index. -/
structure Hda where
  up : Bool
  corbWp : ℕ
  rirbRp : ℕ
  regs : ℕ → Option ℕ
  corb : List (ℕ × ℕ)

/-- The state in which the program begins. -/
def Hda.boot : Hda := ⟨false, 0, 0, fun _ => none, []⟩

/-- A write to a register. -/
def Hda.write (s : Hda) (off v : ℕ) : Hda := { s with regs := Function.update s.regs off (some v) }

/-- A round of a loop that reads a register until `cond` holds of it. -/
def awaitBody (cond : ℕ → Bool) (reads : ℕ → ℕ) (i : ℕ) : Iter ℕ ℕ :=
  if cond (reads i) then .stop i else .next (i + 1)

/-- At most `n` reads of a register, until `cond` holds. -/
def await (cond : ℕ → Bool) (reads : ℕ → ℕ) (n : ℕ) : Option ℕ :=
  iterate (awaitBody cond reads) n 0

/-- What the driver reads while it waits for the response to a command: the values of `RIRBWP`, and
the array `rirb`. -/
structure Response where
  rirbWp : ℕ → ℕ
  rirb : ℕ → ℕ

/-- `hda_pack_long`. -/
def hdaPackLong (cad nid verb pay : ℕ) : ℕ :=
  (cad <<< 28 ||| nid <<< 20 ||| (verb &&& 0xF) <<< 16 ||| pay) % 2 ^ 32

/-- `hda_send_cmd`. -/
def hdaSendCmd (r : Response) (s : Hda) (cmd : ℕ) : ℕ × Hda :=
  if s.up then
    let wp := (s.corbWp + 1) &&& 0xFF
    let s := { s with corbWp := wp, corb := s.corb ++ [(wp, cmd)] }.write HDA_REG_CORBWP wp
    match await (fun v => v ≠ s.rirbRp) r.rirbWp 100000 with
    | some _ =>
      let rp := (s.rirbRp + 1) &&& 0xFF
      (r.rirb rp &&& 0xFFFFFFFF, { s with rirbRp := rp })
    | none => (0, s)
  else (0, s)

/-- What `hda_init` finds: the base address of the controller, if there is one, the addresses of the
two arrays, and the values of the registers that it waits for. -/
structure Board where
  bar0 : Option ℕ
  corb : ℕ
  rirb : ℕ
  gctlOff : ℕ → ℕ
  gctlOn : ℕ → ℕ
  statests : ℕ → ℕ

/-- The part of `hda_init` that sets up the two rings. -/
def ringSetup (b : Board) (s : Hda) : Hda :=
  let s := s.write HDA_REG_CORBLBASE (b.corb % 2 ^ 32)
  let s := s.write HDA_REG_CORBUBASE (b.corb >>> 32)
  let s := s.write HDA_REG_CORBSIZE 2
  let s := s.write HDA_REG_CORBWP 0
  let s := s.write HDA_REG_CORBCTL 2
  let s := { s with corbWp := 0 }
  let s := s.write HDA_REG_RIRBLBASE (b.rirb % 2 ^ 32)
  let s := s.write HDA_REG_RIRBUBASE (b.rirb >>> 32)
  let s := s.write HDA_REG_RIRBSIZE 2
  let s := s.write HDA_REG_RIRBWP 0x8000
  let s := s.write HDA_REG_RINTCNT 1
  let s := s.write HDA_REG_RIRBCTL 2
  { s with rirbRp := 0 }

/-- The command with which `hda_init` unmutes the beep widget. -/
def unmuteCmd : ℕ :=
  hdaPackLong 0 RVVM_HDA_BEEP_NID HDA_VERB_SET_AMP_GAIN_MUTE
    (HDA_AMP_OUTPUT ||| HDA_AMP_LEFT ||| HDA_AMP_RIGHT ||| 0x40)

/-- `hda_init`; `none` when the controller has not left or entered its reset after `polls` reads. -/
def hdaInit (polls : ℕ) (b : Board) (r : Response) (s : Hda) : Option (Bool × Hda) :=
  if s.up then some (true, s)
  else
    match b.bar0 with
    | none => some (false, s)
    | some bar =>
      if bar = 0 then some (false, s)
      else do
        let s := s.write HDA_REG_GCTL 0
        let _ ← await (fun v => v &&& 1 = 0) b.gctlOff polls
        let s := s.write HDA_REG_GCTL 1
        let _ ← await (fun v => v &&& 1 ≠ 0) b.gctlOn polls
        let s := ringSetup b s
        match await (fun v => v &&& 1 ≠ 0) b.statests 1000 with
        | none => some (false, s)
        | some _ => some (true, (hdaSendCmd r { s with up := true } unmuteCmd).2)

/-- A sequence of commands, each with the response to it. -/
def sendAll (s : Hda) (calls : List (ℕ × Response)) : Hda :=
  calls.foldl (fun s call => (hdaSendCmd call.2 s call.1).2) s

/-! ## The stores to the array -/

variable {s s₀ : Hda} {r : Response} {b : Board} {calls : List (ℕ × Response)}

/-- The state after `n` commands: the indices of their stores, and the index that the controller was
told last. -/
structure Filled (n : ℕ) (s : Hda) : Prop where
  up : s.up = true
  wp : s.corbWp = n % 256
  stores : s.corb.map Prod.fst = (List.range n).map fun k => (k + 1) % 256
  told : s.regs HDA_REG_CORBWP = some (n % 256)
  size : s.regs HDA_REG_CORBSIZE = some 2

/-- A command is stored at the next index, which the controller is then told. -/
theorem hdaSendCmd_snd (hup : s.up = true) (cmd : ℕ) :
    ∃ rp, (hdaSendCmd r s cmd).2 =
      { s with
        corbWp := (s.corbWp + 1) % 256
        rirbRp := rp
        corb := s.corb ++ [((s.corbWp + 1) % 256, cmd)]
        regs := Function.update s.regs HDA_REG_CORBWP (some ((s.corbWp + 1) % 256)) } := by
  have hmask : (s.corbWp + 1) &&& 0xFF = (s.corbWp + 1) % 256 := Word.and_low_mask _ 8
  rw [hdaSendCmd, if_pos hup, hmask]
  dsimp only
  split
  · exact ⟨_, rfl⟩
  · exact ⟨_, rfl⟩

theorem Filled.send {n : ℕ} (h : Filled n s) (cmd : ℕ) :
    Filled (n + 1) (hdaSendCmd r s cmd).2 := by
  have hwp : (s.corbWp + 1) % 256 = (n + 1) % 256 := by
    rw [h.wp]
    omega
  have hsize : HDA_REG_CORBSIZE ≠ HDA_REG_CORBWP := by decide
  obtain ⟨rp, hsend⟩ := hdaSendCmd_snd (r := r) h.up cmd
  rw [hsend, hwp]
  exact
    { up := h.up
      wp := rfl
      stores := by
        rw [List.map_append, h.stores, List.range_succ, List.map_append]
        rfl
      told := by
        dsimp only
        rw [Function.update_self]
      size := by
        dsimp only
        rw [Function.update_of_ne hsize, h.size] }

theorem Filled.sendAll {n : ℕ} (h : Filled n s) (calls : List (ℕ × Response)) :
    Filled (n + calls.length) (sendAll s calls) := by
  induction calls generalizing s n with
  | nil => exact h
  | cons call calls ih =>
    rw [List.length_cons, Nat.add_comm calls.length, ← Nat.add_assoc]
    exact ih (h.send call.1)

/-- Nothing is stored while the controller is not up. -/
theorem sendAll_of_not_up (hup : s.up = false) (calls : List (ℕ × Response)) :
    sendAll s calls = s := by
  induction calls with
  | nil => rfl
  | cons call calls ih =>
    have hsend : (hdaSendCmd call.2 s call.1).2 = s := by
      rw [hdaSendCmd, hup]
      rfl
    rw [sendAll, List.foldl_cons, hsend]
    exact ih

/-- The controller that `hda_init` finds has registers. -/
def Board.Mapped (b : Board) : Prop := ∃ bar, b.bar0 = some bar ∧ bar ≠ 0

/-- What `hda_init` does: without a controller nothing; with one it sets up the rings, and if a
codec announces itself it brings the controller up and sends a command. -/
theorem hdaInit_boot {polls : ℕ} {ok : Bool}
    (h : hdaInit polls b r Hda.boot = some (ok, s₀)) :
    (¬ b.Mapped ∧ ok = false ∧ s₀ = Hda.boot) ∨
    (b.Mapped ∧ ok = false ∧ s₀.up = false ∧ s₀.corb = [] ∧ s₀.regs HDA_REG_CORBSIZE = some 2) ∨
    (b.Mapped ∧ ok = true ∧ Filled 1 s₀) := by
  rw [hdaInit, if_neg (by decide)] at h
  cases hbar : b.bar0 with
  | none =>
    rw [hbar, Option.some.injEq] at h
    cases h
    refine .inl ⟨?_, rfl, rfl⟩
    rintro ⟨bar, hsome, -⟩
    rw [hbar] at hsome
    cases hsome
  | some bar =>
    rw [hbar] at h
    dsimp only at h
    by_cases hzero : bar = 0
    · rw [if_pos hzero, Option.some.injEq] at h
      cases h
      refine .inl ⟨?_, rfl, rfl⟩
      rintro ⟨bar', hsome, hne⟩
      rw [hbar] at hsome
      cases hsome
      exact hne hzero
    · rw [if_neg hzero] at h
      have hmapped : b.Mapped := ⟨bar, hbar, hzero⟩
      obtain ⟨-, -, h⟩ := Option.bind_eq_some_iff.1 h
      obtain ⟨-, -, h⟩ := Option.bind_eq_some_iff.1 h
      split at h
      · cases h
        exact .inr (.inl ⟨hmapped, rfl, rfl, rfl, rfl⟩)
      · cases h
        refine .inr (.inr ⟨hmapped, rfl, ?_⟩)
        exact Filled.send (n := 0) ⟨rfl, rfl, rfl, rfl, rfl⟩ unmuteCmd

/-! ## The array and the ring -/

/-- What is asked of the stores: each is inside of the array, the controller is told the index of
the last, and the array has all entries of the ring that the controller reads. -/
structure CorbOk (s : Hda) : Prop where
  inside : ∀ e ∈ s.corb, e.1 < corbLength
  told : ∀ e, s.corb.getLast? = some e → s.regs HDA_REG_CORBWP = some e.1
  covers : ∀ code, s.regs HDA_REG_CORBSIZE = some code → ringEntries code ≤ corbLength

theorem CorbOk.boot : CorbOk Hda.boot := ⟨nofun, nofun, nofun⟩

/-- The array does not have the entries of the ring. -/
theorem not_corbOk (h : s.regs HDA_REG_CORBSIZE = some 2) : ¬ CorbOk s := by
  intro hok
  have hle := hok.covers 2 h
  revert hle
  decide

/-- The index of the last store is the one that the controller is told. -/
theorem Filled.told_last {n : ℕ} (h : Filled n s) {e : ℕ × ℕ} (he : s.corb.getLast? = some e) :
    s.regs HDA_REG_CORBWP = some e.1 := by
  have hlast := congrArg List.getLast? h.stores
  rw [List.getLast?_map, he] at hlast
  cases n with
  | zero => cases hlast
  | succ n =>
    rw [List.range_succ, List.map_append, List.map_singleton, List.getLast?_concat] at hlast
    rw [h.told, Option.some.inj hlast]

/-- The stores are inside of the array as long as there are fewer than 64. -/
theorem Filled.inside_iff {n : ℕ} (h : Filled n s) :
    (∀ e ∈ s.corb, e.1 < corbLength) ↔ n < corbLength := by
  have hmap : (∀ e ∈ s.corb, e.1 < corbLength) ↔ ∀ i ∈ s.corb.map Prod.fst, i < corbLength := by
    rw [List.forall_mem_map]
  rw [hmap, h.stores, List.forall_mem_map]
  dsimp only [corbLength]
  refine ⟨fun hall => ?_, fun hn k hk => ?_⟩
  · by_contra hge
    have h64 := hall 63 (List.mem_range.2 (by omega))
    omega
  · have hk := List.mem_range.1 hk
    omega

/-- **The stores to `corb`**, in every run of commands after `hda_init`: when there is a controller
the array is smaller than its ring, and it is overrun by the 64th command, of which `hda_init` sends
the first. The controller is always told the index of the last store. -/
theorem corbOk_iff {polls : ℕ} {ok : Bool} (h : hdaInit polls b r Hda.boot = some (ok, s₀))
    (calls : List (ℕ × Response)) :
    (CorbOk (sendAll s₀ calls) ↔ ¬ b.Mapped) ∧
    (∀ e, (sendAll s₀ calls).corb.getLast? = some e →
      (sendAll s₀ calls).regs HDA_REG_CORBWP = some e.1) ∧
    (ok = true → ((∀ e ∈ (sendAll s₀ calls).corb, e.1 < corbLength) ↔ calls.length < 63)) := by
  rcases hdaInit_boot h with ⟨hmapped, rfl, rfl⟩ | ⟨hmapped, rfl, hup, hcorb, hsize⟩ |
    ⟨hmapped, rfl, hf⟩
  · rw [sendAll_of_not_up rfl]
    exact ⟨iff_of_true .boot hmapped, CorbOk.boot.told, nofun⟩
  · rw [sendAll_of_not_up hup]
    refine ⟨iff_of_false (not_corbOk hsize) (not_not_intro hmapped), fun e he => ?_, nofun⟩
    rw [hcorb] at he
    cases he
  · have hf := hf.sendAll calls
    refine ⟨iff_of_false (not_corbOk hf.size) (not_not_intro hmapped), fun e => hf.told_last,
      fun _ => ?_⟩
    rw [hf.inside_iff, corbLength]
    omega

/-- A controller that follows its reset bit, with a codec. -/
def readyBoard : Board where
  bar0 := some 0x40000000
  corb := 0x80010000
  rirb := 0x80011000
  gctlOff _ := 0
  gctlOn _ := 1
  statests _ := 1

/-- The response to the `k`-th command, which is there at the first read. -/
def promptResponse (k : ℕ) : Response := ⟨fun _ => k % 256, fun _ => 0⟩

/-- `n` commands after that of `hda_init`. -/
def promptCalls (n : ℕ) : List (ℕ × Response) :=
  (List.range n).map fun k => (0, promptResponse (k + 2))

/-- The state after `hda_init`. -/
theorem hdaInit_readyBoard :
    ∃ s₀, hdaInit 1 readyBoard (promptResponse 1) Hda.boot = some (true, s₀) := ⟨_, rfl⟩

/-- With a controller and no further command, the ring is larger than the array. -/
theorem corbOk_iff_readyBoard :
    ∃ s₀, hdaInit 1 readyBoard (promptResponse 1) Hda.boot = some (true, s₀) ∧
      (CorbOk (sendAll s₀ []) ↔ ¬ readyBoard.Mapped) := by
  obtain ⟨s₀, hinit⟩ := hdaInit_readyBoard
  exact ⟨s₀, hinit, (corbOk_iff hinit []).1⟩

/-- The 64th command is stored outside of the array. -/
theorem corb_overrun :
    ∃ s₀, hdaInit 1 readyBoard (promptResponse 1) Hda.boot = some (true, s₀) ∧
      (∃ e ∈ (sendAll s₀ (promptCalls 63)).corb, e.1 = 64) ∧
      ¬ CorbOk (sendAll s₀ (promptCalls 63)) := by
  obtain ⟨s₀, hinit⟩ := hdaInit_readyBoard
  rcases hdaInit_boot hinit with ⟨-, hok, -⟩ | ⟨-, hok, -⟩ | ⟨-, -, hf⟩
  · cases hok
  · cases hok
  · have hf := hf.sendAll (promptCalls 63)
    refine ⟨s₀, hinit, ?_, not_corbOk hf.size⟩
    have hmem : 64 ∈ (sendAll s₀ (promptCalls 63)).corb.map Prod.fst := by
      rw [hf.stores]
      decide
    exact List.mem_map.1 hmem

end RvvmHal.Audio
