import RvvmHal.Foundations.Machine
import RvvmHal.Foundations.RingBuffer

/-!
# Streams of samples

`audio_pcm.c`: a ring of frames which the host plays round and round. The producer asks with
`audio_pcm_writable` how many frames it may fill in, fills in some of them, and commits these with
`audio_pcm_advance`. How far the host has come it learns from the register `LPIB` only, so that
both positions are known modulo the size of the ring.

The ring never holds more than `ring_frames - 1` frames that are still to be played, whatever the
order of the calls and of the steps of the host, and none of these is written over
(`pcm_ring_keeps`).
-/

namespace RvvmHal.Audio

open Cyclic RingBuffer

/-! ## The stream -/

/-- `audio_pcm_t`. -/
structure Pcm where
  ringFrames : ℕ
  sampleRate : ℕ
  channels : ℕ
  bdlEntries : ℕ
  wpFrames : ℕ
  totalWritten : ℕ
  running : Bool

/-- `fmt_for_format`. -/
def fmtForFormat (rate channels : ℕ) : ℕ :=
  if channels < 1 ∨ channels > 16 then 0
  else
    match rate with
    | 44100 => 0x4010 ||| (channels - 1)
    | 48000 => 0x0010 ||| (channels - 1)
    | 88200 => 0x4810 ||| (channels - 1)
    | 96000 => 0x0810 ||| (channels - 1)
    | _ => 0

/-- `audio_pcm_open`, on the stream; `none` when it returns false. -/
def audioPcmOpen (hdaUp : Bool) (ringFrames bdlEntries sampleRate channels : ℕ) : Option Pcm :=
  if hdaUp = false then none
  else if bdlEntries = 0 ∨ bdlEntries > 8 then none
  else if ringFrames = 0 ∨ ringFrames % bdlEntries ≠ 0 then none
  else if channels = 0 ∨ channels > 16 then none
  else if fmtForFormat sampleRate channels = 0 then none
  else some {
    ringFrames := ringFrames
    sampleRate := sampleRate
    channels := channels
    bdlEntries := bdlEntries
    wpFrames := 0
    totalWritten := 0
    running := true }

/-- `audio_pcm_position`, for the value read from `LPIB`. -/
def audioPcmPosition (p : Pcm) (lpib : ℕ) : ℕ :=
  if p.running then lpib / (p.channels * 2) % p.ringFrames else 0

/-- `audio_pcm_writable`. -/
def audioPcmWritable (p : Pcm) (lpib : ℕ) : ℕ :=
  if p.running then
    let inflight :=
      ((p.wpFrames + p.ringFrames) % 2 ^ 32 + 2 ^ 32 - audioPcmPosition p lpib) % 2 ^ 32 %
        p.ringFrames
    p.ringFrames - 1 - inflight
  else 0

/-- `audio_pcm_advance`. -/
def audioPcmAdvance (p : Pcm) (frames : ℕ) : Pcm :=
  if p.running then { p with
    wpFrames := (p.wpFrames + frames) % 2 ^ 32 % p.ringFrames
    totalWritten := (p.totalWritten + frames) % 2 ^ 32 }
  else p

/-- The value of `CBL`: the bytes after which the host starts over. -/
def cblBytes (p : Pcm) : ℕ := p.ringFrames * (p.channels * 2) % 2 ^ 32

/-! ## The producer and the host -/

variable {α : Type*}

/-- A stream that is being played. `frames` are the frames that have been committed, `played` is
the number of bytes that the host has read, and `granted` are the values that `audio_pcm_writable`
has returned since the last commit. -/
structure PcmSys (α : Type*) where
  pcm : Pcm
  ring : ℕ → α
  frames : List α
  played : ℕ
  granted : List ℕ

namespace PcmSys

/-- The register `LPIB`. -/
def lpib (s : PcmSys α) : ℕ := s.played % cblBytes s.pcm

/-- The frames that the host has read to the end. -/
def done (s : PcmSys α) : ℕ := s.played / (s.pcm.channels * 2)

/-- The frames that are in flight. -/
def inFlight (s : PcmSys α) : ℕ := s.frames.length - s.done

/-- The slot of a frame that is to be filled in, as the producer computes it. -/
def slot (s : PcmSys α) (i : ℕ) : ℕ := (s.pcm.wpFrames + i) % 2 ^ 32 % s.pcm.ringFrames

/-- The producer may commit `k` frames. -/
def MayCommit (s : PcmSys α) (k : ℕ) : Prop := ∃ v ∈ s.granted, k ≤ v

instance (s : PcmSys α) (k : ℕ) : Decidable (s.MayCommit k) :=
  inferInstanceAs (Decidable (∃ v ∈ s.granted, k ≤ v))

end PcmSys

/-- What can happen: the producer asks for room, fills in the slot of a frame, or commits frames,
and the host reads some bytes. -/
inductive PcmAct (α : Type*)
  | query
  | store (i : ℕ) (x : α)
  | advance (k : ℕ)
  | host (bytes : ℕ)

/-- One step. The producer keeps to what it has been granted, and the host never gets past the
frames in flight. -/
def pcmStep : PcmAct α → PcmSys α → Option (PcmSys α)
  | .query, s => some { s with granted := audioPcmWritable s.pcm s.lpib :: s.granted }
  | .store i x, s =>
    if s.MayCommit (i + 1) then some { s with ring := Function.update s.ring (s.slot i) x }
    else none
  | .advance k, s =>
    if s.MayCommit k then some { s with
      pcm := audioPcmAdvance s.pcm k
      frames := s.frames ++ (List.range k).map fun i => s.ring (s.slot i)
      granted := [] }
    else none
  | .host bytes, s =>
    if (s.played + bytes) / (s.pcm.channels * 2) ≤ s.frames.length then
      some { s with played := s.played + bytes }
    else none

/-- A stream that has just been opened. The producer may fill in all of the ring but one frame
without asking. -/
def pcmMachine (p : Pcm) (ring : ℕ → α) : Machine (PcmSys α) (PcmAct α) where
  init := { pcm := p, ring := ring, frames := [], played := 0, granted := [p.ringFrames - 1] }
  step := pcmStep

/-! ## The invariant -/

variable {N ch : ℕ} {s s' : PcmSys α}

/-- A stream of `N` frames with `ch` channels between two steps. -/
structure RingInv (N ch : ℕ) (s : PcmSys α) : Prop where
  running : s.pcm.running = true
  ringFrames : s.pcm.ringFrames = N
  channels : s.pcm.channels = ch
  wp : s.pcm.wpFrames = s.frames.length % N
  done_le : s.done ≤ s.frames.length
  room : s.frames.length < s.done + N
  granted : ∀ v ∈ s.granted, s.frames.length + v < s.done + N
  holds : Holds N s.ring s.done s.frames

namespace RingInv

/-- Sums of places in the ring do not wrap. -/
theorem small (h : RingInv N ch s) (hch : 0 < ch) (hsize : N * ch * 2 < 2 ^ 32) :
    0 < N ∧ N * 2 < 2 ^ 32 := by
  have hle := h.done_le
  have hroom := h.room
  have hmul : N * 1 ≤ N * ch := Nat.mul_le_mul_left N hch
  omega

/-- The host's place in the ring. -/
theorem position_eq (h : RingInv N ch s) (hsize : N * ch * 2 < 2 ^ 32) :
    audioPcmPosition s.pcm s.lpib = s.done % N := by
  rw [Nat.mul_assoc] at hsize
  rw [audioPcmPosition, if_pos h.running, PcmSys.lpib, cblBytes, PcmSys.done, h.ringFrames,
    h.channels, Nat.mod_eq_of_lt hsize, Nat.mod_mul_left_div_self, Nat.mod_mod]

/-- The number of frames in flight, from the two places. -/
theorem inFlight_eq (h : RingInv N ch s) (hsize : N * ch * 2 < 2 ^ 32) :
    s.inFlight = (s.pcm.wpFrames + N - audioPcmPosition s.pcm s.lpib) % N := by
  rw [h.position_eq hsize, h.wp, slot_distance h.done_le h.room, PcmSys.inFlight]

/-- One frame of the ring is never granted. -/
theorem writable_eq (h : RingInv N ch s) (hch : 0 < ch) (hsize : N * ch * 2 < 2 ^ 32) :
    audioPcmWritable s.pcm s.lpib = N - 1 - s.inFlight := by
  obtain ⟨hN, hsmall⟩ := h.small hch hsize
  have hwp : s.pcm.wpFrames < N := h.wp ▸ Nat.mod_lt _ hN
  have hrd : audioPcmPosition s.pcm s.lpib < N := h.position_eq hsize ▸ Nat.mod_lt _ hN
  have hword : ((s.pcm.wpFrames + N) % 2 ^ 32 + 2 ^ 32 - audioPcmPosition s.pcm s.lpib) % 2 ^ 32 =
      s.pcm.wpFrames + N - audioPcmPosition s.pcm s.lpib := by omega
  rw [audioPcmWritable, if_pos h.running]
  dsimp only
  rw [h.ringFrames, hword, h.inFlight_eq hsize]

/-- The slot of a frame that is to be filled in comes behind those of the frames in the ring. -/
theorem slot_eq (h : RingInv N ch s) (hch : 0 < ch) (hsize : N * ch * 2 < 2 ^ 32) {i : ℕ}
    (hi : i ≤ N) : s.slot i = (s.frames.length + i) % N := by
  obtain ⟨hN, hsmall⟩ := h.small hch hsize
  have hwp : s.pcm.wpFrames < N := h.wp ▸ Nat.mod_lt _ hN
  have hword : (s.pcm.wpFrames + i) % 2 ^ 32 = s.pcm.wpFrames + i := by omega
  rw [PcmSys.slot, h.ringFrames, hword, h.wp, Nat.mod_add_mod]

theorem lt_of_mayCommit (h : RingInv N ch s) {k : ℕ} (hk : s.MayCommit k) :
    s.frames.length + k < s.done + N := by
  obtain ⟨v, hv, hkv⟩ := hk
  have := h.granted v hv
  omega

/-! ### Steps -/

theorem query (h : RingInv N ch s) (hch : 0 < ch) (hsize : N * ch * 2 < 2 ^ 32) :
    RingInv N ch { s with granted := audioPcmWritable s.pcm s.lpib :: s.granted } := by
  refine { h with granted := ?_ }
  intro v hv
  rcases List.mem_cons.1 hv with rfl | hv
  · have hle := h.done_le
    have hroom := h.room
    rw [h.writable_eq hch hsize, PcmSys.inFlight]
    show s.frames.length + _ < s.done + N
    omega
  · exact h.granted v hv

theorem store (h : RingInv N ch s) (hch : 0 < ch) (hsize : N * ch * 2 < 2 ^ 32) {i : ℕ} {x : α}
    (hi : s.MayCommit (i + 1)) :
    RingInv N ch { s with ring := Function.update s.ring (s.slot i) x } := by
  have hlt := h.lt_of_mayCommit hi
  have hle := h.done_le
  refine { h with holds := ?_ }
  rw [h.slot_eq hch hsize (by omega)]
  apply h.holds.store_free (Nat.le_add_right ..)
  omega

theorem advance (h : RingInv N ch s) (hch : 0 < ch) (hsize : N * ch * 2 < 2 ^ 32) {k : ℕ}
    (hk : s.MayCommit k) :
    RingInv N ch { s with
      pcm := audioPcmAdvance s.pcm k
      frames := s.frames ++ (List.range k).map fun i => s.ring (s.slot i)
      granted := [] } := by
  obtain ⟨hN, hsmall⟩ := h.small hch hsize
  have hlt := h.lt_of_mayCommit hk
  have hle := h.done_le
  have hlen : (s.frames ++ (List.range k).map fun i => s.ring (s.slot i)).length =
      s.frames.length + k := by simp
  have hslots : (List.range k).map (fun i => s.ring (s.slot i)) =
      (List.range k).map fun i => s.ring ((s.frames.length + i) % N) := by
    apply List.map_congr_left
    intro i hi
    rw [h.slot_eq hch hsize (by have := List.mem_range.1 hi; omega)]
  rw [audioPcmAdvance, if_pos h.running]
  constructor
  · exact h.running
  · exact h.ringFrames
  · exact h.channels
  · rw [hlen]
    exact h.ringFrames ▸ h.slot_eq hch hsize (i := k) (by omega)
  · rw [hlen]
    exact Nat.le_trans hle (Nat.le_add_right ..)
  · rw [hlen]
    exact hlt
  · simp
  · rw [hslots]
    exact h.holds.publish_range k

theorem host (h : RingInv N ch s) {bytes : ℕ}
    (hhost : (s.played + bytes) / (s.pcm.channels * 2) ≤ s.frames.length) :
    RingInv N ch { s with played := s.played + bytes } := by
  have hmono : s.done ≤ (s.played + bytes) / (s.pcm.channels * 2) :=
    Nat.div_le_div_right (Nat.le_add_right ..)
  refine { h with
    done_le := hhost
    room := Nat.lt_of_lt_of_le h.room (Nat.add_le_add_right hmono N)
    granted := fun v hv => Nat.lt_of_lt_of_le (h.granted v hv) (Nat.add_le_add_right hmono N)
    holds := h.holds.mono hmono }

/-- Every step keeps the invariant. -/
theorem step (h : RingInv N ch s) (hch : 0 < ch) (hsize : N * ch * 2 < 2 ^ 32) {a : PcmAct α}
    (hs : pcmStep a s = some s') : RingInv N ch s' := by
  cases a with
  | query =>
    cases hs
    exact h.query hch hsize
  | store i x =>
    obtain ⟨hi, hs⟩ := Option.ite_none_right_eq_some.1 hs
    cases hs
    exact h.store hch hsize hi
  | advance k =>
    obtain ⟨hk, hs⟩ := Option.ite_none_right_eq_some.1 hs
    cases hs
    exact h.advance hch hsize hk
  | host bytes =>
    obtain ⟨hhost, hs⟩ := Option.ite_none_right_eq_some.1 hs
    cases hs
    exact h.host hhost

end RingInv

/-- What `audio_pcm_open` has checked. -/
theorem ringInv_open {hdaUp : Bool} {bdl rate : ℕ} {p : Pcm}
    (hopen : audioPcmOpen hdaUp N bdl rate ch = some p) (ring : ℕ → α) :
    0 < ch ∧ RingInv N ch (pcmMachine p ring).init := by
  unfold audioPcmOpen at hopen
  obtain ⟨-, hopen⟩ := Option.ite_none_left_eq_some.1 hopen
  obtain ⟨-, hopen⟩ := Option.ite_none_left_eq_some.1 hopen
  obtain ⟨hN, hopen⟩ := Option.ite_none_left_eq_some.1 hopen
  obtain ⟨hch, hopen⟩ := Option.ite_none_left_eq_some.1 hopen
  obtain ⟨-, hopen⟩ := Option.ite_none_left_eq_some.1 hopen
  cases hopen
  refine ⟨by omega, ?_⟩
  constructor
  · rfl
  · rfl
  · rfl
  · simp [pcmMachine]
  · simp [pcmMachine, PcmSys.done]
  · simp [pcmMachine, PcmSys.done]
    omega
  · simp [pcmMachine, PcmSys.done]
    omega
  · exact holds_nil

/-! ## Main result -/

/-- **The ring keeps what has not been played.** In every run of the producer and the host the
frames in flight are those between the two places, one frame of the ring is always left over, so
that a full ring is not taken for an empty one, the slots that the producer may fill in are not
among those in flight, and these hold the frames that were committed. -/
theorem pcm_ring_keeps {hdaUp : Bool} {N bdl rate ch : ℕ} {p : Pcm}
    (hopen : audioPcmOpen hdaUp N bdl rate ch = some p) (hsize : N * ch * 2 < 2 ^ 32)
    {ring : ℕ → α} {s : PcmSys α} (hs : (pcmMachine p ring).Reachable s) :
    s.inFlight = (s.pcm.wpFrames + N - audioPcmPosition s.pcm s.lpib) % N ∧
    s.inFlight ≤ N - 1 ∧
    audioPcmWritable s.pcm s.lpib + s.inFlight = N - 1 ∧
    (s.pcm.wpFrames = audioPcmPosition s.pcm s.lpib ↔ s.inFlight = 0) ∧
    (∀ k, s.MayCommit k → ∀ i < k, ∀ j < s.inFlight,
      s.slot i ≠ (audioPcmPosition s.pcm s.lpib + j) % N) ∧
    ∀ j < s.inFlight,
      s.frames[s.done + j]? = some (s.ring ((audioPcmPosition s.pcm s.lpib + j) % N)) := by
  obtain ⟨hch, hinit⟩ := ringInv_open hopen ring
  have h : RingInv N ch s := hs.invariant hinit fun hI _ hstep => hI.step hch hsize hstep
  have hle := h.done_le
  have hroom := h.room
  have hflight : s.inFlight = s.frames.length - s.done := rfl
  refine ⟨h.inFlight_eq hsize, by omega, ?_, ?_, ?_, ?_⟩
  · rw [h.writable_eq hch hsize]
    omega
  · rw [h.position_eq hsize, h.wp, RingBuffer.wrap_eq_iff hle hroom]
    omega
  · intro k hk i hi j hj
    have hlt := h.lt_of_mayCommit hk
    rw [h.slot_eq hch hsize (by omega), h.position_eq hsize, Nat.mod_add_mod]
    apply Ne.symm
    apply slot_ne_of_lt <;> omega
  · intro j hj
    have hj' : s.done + j < s.frames.length := by omega
    rw [h.position_eq hsize, Nat.mod_add_mod, h.holds _ hj' (Nat.le_add_right ..),
      List.getElem?_eq_getElem hj']

/-- A ring of four frames that is filled, of which one is played, and which is filled again. -/
def pcmRun : List (PcmAct ℕ) :=
  [.store 0 10, .store 1 11, .store 2 12, .advance 3, .host 2, .query, .store 0 13, .advance 1]

/-- Afterwards the frame that was played has made room for the last one. -/
theorem pcm_ring_keeps_four : ∃ p s, audioPcmOpen true 4 2 48000 1 = some p ∧
    (pcmMachine p fun _ => 0).run pcmRun (pcmMachine p fun _ => 0).init = some s ∧
    audioPcmWritable s.pcm s.lpib + s.inFlight = 3 := by
  obtain ⟨p, hopen⟩ : ∃ p, audioPcmOpen true 4 2 48000 1 = some p := ⟨_, rfl⟩
  obtain ⟨s, hrun⟩ : ∃ s, (pcmMachine p fun _ => 0).run pcmRun (pcmMachine p fun _ => 0).init =
      some s := by
    cases hopen
    exact Option.isSome_iff_exists.1 (by decide)
  refine ⟨p, s, hopen, hrun, ?_⟩
  exact (pcm_ring_keeps hopen (by decide) (Machine.reachable_of_run hrun)).2.2.1

end RvvmHal.Audio
