import RvvmHal.Audio.Hda
import RvvmHal.Audio.Pcm

/-!
# The buffer descriptor list

`audio_pcm.c`: what `audio_pcm_open` tells the controller. The list `bdl` splits the ring of samples
into slices, and the registers of the stream say how many slices there are and how many bytes they
have together. The slices always cover the ring, one after the other. The controller needs each of
them at a multiple of 128 bytes; `audio_pcm_open` asks for a ring that begins at one and for equal
slices, but not for slices of a multiple of 128 bytes (`audioPcmOpen_tiles_iff`).
-/

namespace RvvmHal.Audio

/-! ## Opening a stream -/

abbrev HDA_VERB_SET_CONV_FMT : ℕ := 0x002

abbrev HDA_VERB_SET_CONV_STREAM : ℕ := 0x706

abbrev HDA_OUT_NID : ℕ := 2

abbrev HDA_SD_CTL : ℕ := 0x00

abbrev HDA_SD_CBL : ℕ := 0x08

abbrev HDA_SD_LVI : ℕ := 0x0C

abbrev HDA_SD_FMT : ℕ := 0x12

abbrev HDA_SD_BDPL : ℕ := 0x18

abbrev HDA_SD_BDPU : ℕ := 0x1C

/-- `hda_pack_short`. -/
def hdaPackShort (cad nid verb pay : ℕ) : ℕ :=
  (cad <<< 28 ||| nid <<< 20 ||| (verb &&& 0xFFF) <<< 8 ||| pay) % 2 ^ 32

/-- `bdl_entry_t`. -/
structure BdlEntry where
  addr : ℕ
  len : ℕ
  flags : ℕ
  deriving DecidableEq

/-- What a call of `audio_pcm_open` leaves behind: the stream if it returns true, the commands to the
codec, the writes to the registers of the stream, the array `bdl`, and what is printed. -/
structure Opened where
  pcm : Option Pcm
  cmds : List ℕ
  regs : List (ℕ × ℕ)
  bdl : ℕ → BdlEntry
  printed : List (String × List ℕ)

/-- The value that a register has been given last. -/
def Opened.reg (o : Opened) (off : ℕ) : Option ℕ :=
  (o.regs.reverse.find? fun w => w.1 = off).map Prod.snd

/-- The loop over the entries of `bdl`. -/
def bdlFill (ring framesPerEntry channels bytesPerEntry bdlEntries : ℕ) (bdl : ℕ → BdlEntry) :
    ℕ → BdlEntry :=
  (List.range bdlEntries).foldl
    (fun bdl i => Function.update bdl i {
      addr := (ring + 2 * (i * framesPerEntry % 2 ^ 32 * channels % 2 ^ 32)) % 2 ^ 64
      len := bytesPerEntry
      flags := 1 })
    bdl

/-- `audio_pcm_open`, with the array `bdl` at `bdlAddr`. -/
def audioPcmOpenIo (hdaUp : Bool) (bdlAddr : ℕ) (bdl : ℕ → BdlEntry)
    (ring ringFrames bdlEntries sampleRate channels : ℕ) : Opened :=
  let fail (printed : List (String × List ℕ)) : Opened := ⟨none, [], [], bdl, printed⟩
  if hdaUp = false then
    fail [("audio_pcm: backend not up; call audio_init() first\n", [])]
  else if bdlEntries = 0 ∨ bdlEntries > 8 then fail []
  else if ringFrames = 0 ∨ ringFrames % bdlEntries ≠ 0 then
    fail [("audio_pcm: ring_frames=%u must be multiple of bdl_entries=%u\n",
      [ringFrames, bdlEntries])]
  else if channels = 0 ∨ channels > 16 then
    fail [("audio_pcm: bad channel count %u (need 1..16)\n", [channels])]
  else if fmtForFormat sampleRate channels = 0 then
    fail [("audio_pcm: unsupported format rate=%u ch=%u\n", [sampleRate, channels])]
  else
    let fmt := fmtForFormat sampleRate channels
    let streamTag := 1
    let ampPayload := HDA_AMP_OUTPUT ||| HDA_AMP_LEFT ||| HDA_AMP_RIGHT ||| 0x40
    let framesPerEntry := ringFrames / bdlEntries
    let bytesPerFrame := channels * 2 % 2 ^ 32
    let bytesPerEntry := framesPerEntry * bytesPerFrame % 2 ^ 32
    { pcm := some {
        ringFrames := ringFrames
        sampleRate := sampleRate
        channels := channels
        bdlEntries := bdlEntries
        wpFrames := 0
        totalWritten := 0
        running := true }
      cmds := [
        hdaPackLong 0 HDA_OUT_NID HDA_VERB_SET_AMP_GAIN_MUTE ampPayload,
        hdaPackLong 0 HDA_OUT_NID HDA_VERB_SET_CONV_FMT fmt,
        hdaPackShort 0 HDA_OUT_NID HDA_VERB_SET_CONV_STREAM ((streamTag &&& 0xF) <<< 4)]
      regs := [
        (HDA_SD_CTL, 0),
        (HDA_SD_BDPL, bdlAddr &&& 0xFFFFFFFF),
        (HDA_SD_BDPU, bdlAddr >>> 32),
        (HDA_SD_CBL, ringFrames * bytesPerFrame % 2 ^ 32),
        (HDA_SD_LVI, (bdlEntries - 1) % 2 ^ 16),
        (HDA_SD_FMT, fmt),
        (HDA_SD_CTL, streamTag <<< 20 ||| 1 <<< 1)]
      bdl := bdlFill ring framesPerEntry channels bytesPerEntry bdlEntries bdl
      printed := [("audio_pcm: ring %u frames @ %u Hz × %u ch, %u BDL entries (%u frames each)\n",
        [ringFrames, sampleRate, channels, bdlEntries, framesPerEntry])] }

variable {hdaUp : Bool} {bdlAddr : ℕ} {bdl : ℕ → BdlEntry}
  {ring ringFrames bdlEntries sampleRate channels : ℕ} {p : Pcm}

/-- The stream is that of `audioPcmOpen`. -/
theorem audioPcmOpenIo_pcm :
    (audioPcmOpenIo hdaUp bdlAddr bdl ring ringFrames bdlEntries sampleRate channels).pcm =
      audioPcmOpen hdaUp ringFrames bdlEntries sampleRate channels := by
  unfold audioPcmOpenIo audioPcmOpen
  split
  · rfl
  split
  · rfl
  split
  · rfl
  split
  · rfl
  split <;> rfl

theorem bdlFill_of_lt {framesPerEntry bytesPerEntry i : ℕ} (hi : i < bdlEntries) :
    bdlFill ring framesPerEntry channels bytesPerEntry bdlEntries bdl i =
      ⟨(ring + 2 * (i * framesPerEntry % 2 ^ 32 * channels % 2 ^ 32)) % 2 ^ 64, bytesPerEntry, 1⟩ := by
  unfold bdlFill
  induction bdlEntries with
  | zero => omega
  | succ n ih =>
    rw [List.range_succ, List.foldl_append, List.foldl_cons, List.foldl_nil]
    rcases Nat.lt_succ_iff_lt_or_eq.1 hi with hlt | rfl
    · rw [Function.update_of_ne hlt.ne, ih hlt]
    · rw [Function.update_self]

/-! ## The slices -/

/-- **The slices of a ring**: the entries up to `LVI` cover it, and each begins at a multiple of 128
bytes. -/
structure Tiles (ring : ℕ) (o : Opened) (cbl lvi : ℕ) : Prop where
  reg_cbl : o.reg HDA_SD_CBL = some cbl
  reg_lvi : o.reg HDA_SD_LVI = some lvi
  start : (o.bdl 0).addr = ring
  nonempty : ∀ i ≤ lvi, 0 < (o.bdl i).len
  equal : ∀ i ≤ lvi, (o.bdl i).len = (o.bdl 0).len
  contiguous : ∀ i < lvi, (o.bdl (i + 1)).addr = ((o.bdl i).addr + (o.bdl i).len) % 2 ^ 64
  total : ((List.range (lvi + 1)).map fun i => (o.bdl i).len).sum = cbl
  aligned : ∀ i ≤ lvi, 128 ∣ (o.bdl i).addr

/-- What `audio_pcm_open` has checked, and what it has programmed. -/
structure Programmed (ring ringFrames bdlEntries channels : ℕ) (o : Opened) : Prop where
  entries : 0 < bdlEntries ∧ bdlEntries ≤ 8
  frames : 0 < ringFrames
  divides : bdlEntries ∣ ringFrames
  channels_pos : 0 < channels
  reg_cbl : o.reg HDA_SD_CBL = some (ringFrames * (channels * 2 % 2 ^ 32) % 2 ^ 32)
  reg_lvi : o.reg HDA_SD_LVI = some ((bdlEntries - 1) % 2 ^ 16)
  bdl : ∀ i < bdlEntries, o.bdl i =
    ⟨(ring + 2 * (i * (ringFrames / bdlEntries) % 2 ^ 32 * channels % 2 ^ 32)) % 2 ^ 64,
      ringFrames / bdlEntries * (channels * 2 % 2 ^ 32) % 2 ^ 32, 1⟩

theorem programmed_of_open
    (hopen : (audioPcmOpenIo hdaUp bdlAddr bdl ring ringFrames bdlEntries sampleRate channels).pcm =
      some p) : Programmed ring ringFrames bdlEntries channels
      (audioPcmOpenIo hdaUp bdlAddr bdl ring ringFrames bdlEntries sampleRate channels) := by
  rw [audioPcmOpenIo_pcm, audioPcmOpen] at hopen
  obtain ⟨hup, hopen⟩ := Option.ite_none_left_eq_some.1 hopen
  obtain ⟨hentries, hopen⟩ := Option.ite_none_left_eq_some.1 hopen
  obtain ⟨hframes, hopen⟩ := Option.ite_none_left_eq_some.1 hopen
  obtain ⟨hchannels, hopen⟩ := Option.ite_none_left_eq_some.1 hopen
  obtain ⟨hfmt, -⟩ := Option.ite_none_left_eq_some.1 hopen
  rw [audioPcmOpenIo, if_neg hup, if_neg hentries, if_neg hframes, if_neg hchannels, if_neg hfmt]
  exact ⟨by omega, by omega, Nat.dvd_of_mod_eq_zero (by omega), by omega, rfl, rfl,
    fun i hi => bdlFill_of_lt hi⟩

namespace Programmed

variable {q : ℕ} {o : Opened}

/-- The slices, as long as no product of the geometry leaves its word. -/
theorem entry_eq (h : Programmed ring (bdlEntries * q) bdlEntries channels o)
    (hsize : bdlEntries * q * channels * 2 < 2 ^ 32) {i : ℕ} (hi : i < bdlEntries) :
    o.bdl i = ⟨(ring + i * (q * channels * 2)) % 2 ^ 64, q * channels * 2, 1⟩ := by
  have hpos := h.entries.1
  have hq : 0 < q := Nat.pos_of_mul_pos_left h.frames
  -- each product divides or bounds that of the whole ring
  have hframes : i * q ≤ bdlEntries * q := Nat.mul_le_mul_right q hi.le
  have hsamples : i * q * channels ≤ bdlEntries * q * channels := Nat.mul_le_mul_right _ hframes
  have hring : bdlEntries * q ≤ bdlEntries * q * channels := Nat.le_mul_of_pos_right _ h.channels_pos
  have hchannels : channels ≤ bdlEntries * q * channels := Nat.le_mul_of_pos_left _ h.frames
  have hslice : q * (channels * 2) ≤ bdlEntries * (q * (channels * 2)) :=
    Nat.le_mul_of_pos_left _ hpos
  rw [← Nat.mul_assoc, ← Nat.mul_assoc, ← Nat.mul_assoc] at hslice
  rw [h.bdl i hi, Nat.mul_div_cancel_left _ hpos, Nat.mod_eq_of_lt (show i * q < 2 ^ 32 by omega),
    Nat.mod_eq_of_lt (show i * q * channels < 2 ^ 32 by omega),
    Nat.mod_eq_of_lt (show channels * 2 < 2 ^ 32 by omega),
    Nat.mod_eq_of_lt (show q * (channels * 2) < 2 ^ 32 by rw [← Nat.mul_assoc]; omega)]
  have haddr : 2 * (i * q * channels) = i * (q * channels * 2) := by
    rw [Nat.mul_comm, Nat.mul_assoc i q, Nat.mul_assoc i]
  rw [haddr, Nat.mul_assoc q]

/-- The slices cover the ring, wherever they begin. -/
theorem tiles (h : Programmed ring (bdlEntries * q) bdlEntries channels o)
    (hsize : bdlEntries * q * channels * 2 < 2 ^ 32) (hword : ring < 2 ^ 64)
    (haligned : ∀ i < bdlEntries, 128 ∣ (ring + i * (q * channels * 2)) % 2 ^ 64) :
    Tiles ring o (bdlEntries * q * channels * 2) (bdlEntries - 1) := by
  obtain ⟨hpos, height⟩ := h.entries
  have hlast : ∀ {i}, i ≤ bdlEntries - 1 → i < bdlEntries := by omega
  have hchannels : channels ≤ bdlEntries * q * channels := Nat.le_mul_of_pos_left _ h.frames
  have hq : 0 < q := Nat.pos_of_mul_pos_left h.frames
  constructor
  · rw [h.reg_cbl, Nat.mod_eq_of_lt (show channels * 2 < 2 ^ 32 by omega), ← Nat.mul_assoc,
      Nat.mod_eq_of_lt hsize]
  · rw [h.reg_lvi, Nat.mod_eq_of_lt (by omega)]
  · rw [h.entry_eq hsize hpos, Nat.zero_mul]
    exact Nat.mod_eq_of_lt hword
  · intro i hi
    rw [h.entry_eq hsize (hlast hi)]
    exact Nat.mul_pos (Nat.mul_pos hq h.channels_pos) (by decide)
  · intro i hi
    rw [h.entry_eq hsize (hlast hi), h.entry_eq hsize hpos]
  · intro i hi
    rw [h.entry_eq hsize (hlast hi), h.entry_eq hsize (hlast hi.le), Nat.succ_mul,
      Nat.mod_add_mod, Nat.add_assoc]
  · have hlen : (List.range (bdlEntries - 1 + 1)).map (fun i => (o.bdl i).len) =
        List.replicate bdlEntries (q * channels * 2) := by
      rw [Nat.sub_add_cancel hpos]
      refine List.eq_replicate_iff.2 ⟨by simp, fun x hx => ?_⟩
      obtain ⟨i, hi, rfl⟩ := List.mem_map.1 hx
      rw [h.entry_eq hsize (List.mem_range.1 hi)]
    rw [hlen, List.sum_replicate_nat, Nat.mul_assoc, Nat.mul_assoc, Nat.mul_assoc]
  · intro i hi
    rw [h.entry_eq hsize (hlast hi)]
    exact haligned i (hlast hi)

end Programmed

/-! ## Main results -/

/-- **The slices tile the ring**, at multiples of 128 bytes, if and only if there is one slice or
their length is a multiple of 128 bytes. -/
theorem audioPcmOpen_tiles_iff
    (hopen : (audioPcmOpenIo hdaUp bdlAddr bdl ring ringFrames bdlEntries sampleRate channels).pcm =
      some p) (hsize : ringFrames * channels * 2 < 2 ^ 32) (hring : 128 ∣ ring)
    (hword : ring < 2 ^ 64) :
    (∃ cbl lvi, Tiles ring
        (audioPcmOpenIo hdaUp bdlAddr bdl ring ringFrames bdlEntries sampleRate channels) cbl lvi) ↔
      bdlEntries = 1 ∨ 128 ∣ ringFrames / bdlEntries * channels * 2 := by
  have h := programmed_of_open hopen
  obtain ⟨hpos, height⟩ := h.entries
  obtain ⟨q, rfl⟩ := h.divides
  rw [Nat.mul_div_cancel_left _ hpos]
  constructor
  · -- the second slice begins where the first one ends
    rintro ⟨cbl, lvi, htiles⟩
    by_cases hone : bdlEntries = 1
    · exact .inl hone
    refine .inr ?_
    have hlvi := htiles.reg_lvi
    rw [h.reg_lvi, Nat.mod_eq_of_lt (by omega)] at hlvi
    have haligned := htiles.aligned 1 (by have := Option.some.inj hlvi; omega)
    rw [h.entry_eq hsize (by omega), Nat.one_mul] at haligned
    exact (Nat.dvd_add_right hring).1 ((Nat.dvd_mod_iff (by decide)).1 haligned)
  · intro hslice
    refine ⟨_, _, h.tiles hsize hword fun i hi => ?_⟩
    refine (Nat.dvd_mod_iff (by decide)).2 ((Nat.dvd_add_right hring).2 ?_)
    rcases hslice with rfl | hslice
    · obtain rfl : i = 0 := by omega
      simp
    · exact hslice.mul_left i

/-- A ring of 4096 frames in four slices. -/
theorem audioPcmOpen_tiles_four : ∃ cbl lvi, Tiles 0x80000000
    (audioPcmOpenIo true 0 (fun _ => ⟨0, 0, 0⟩) 0x80000000 4096 4 48000 2) cbl lvi :=
  (audioPcmOpen_tiles_iff rfl (by decide) (by decide) (by decide)).2 (.inr (by decide))

/-- A ring of 4 frames in two slices: the second begins 4 bytes into the ring. -/
theorem audioPcmOpen_tiles_short :
    (audioPcmOpenIo true 0 (fun _ => ⟨0, 0, 0⟩) 0x80000000 4 2 48000 1).pcm ≠ none ∧
      ¬ ∃ cbl lvi, Tiles 0x80000000
        (audioPcmOpenIo true 0 (fun _ => ⟨0, 0, 0⟩) 0x80000000 4 2 48000 1) cbl lvi := by
  refine ⟨nofun, ?_⟩
  rintro ⟨cbl, lvi, h⟩
  have hlvi : lvi = 1 := Option.some.inj (h.reg_lvi.symm.trans rfl)
  have haligned := h.aligned 1 (by omega)
  revert haligned
  decide

end RvvmHal.Audio
