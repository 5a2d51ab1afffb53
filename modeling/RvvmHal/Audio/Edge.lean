import Mathlib.Order.Basic
import RvvmHal.Foundations.Hold
import RvvmHal.Foundations.Loop
import RvvmHal.Audio.Pcm

/-!
# Edge-driven audio

`audio_edge.c` over `audio_pcm.c`: a speaker whose level changes at cycles of an emulated clock is
rendered at the sample rate of the host. `audio_edge_set` queues a change, and
`audio_edge_advance` renders the samples up to a cycle, walking the queue.

The frames into which a run is split do not show in the samples: the sample of number `k` is the
level of the last change that is not later than it, and its place in the ring depends on `k` alone
(`edge_zero_order_hold`).
-/

namespace RvvmHal.Audio

open Hold Loop

/-! ## The channel -/

abbrev HOST_SAMPLE_RATE : ℕ := 48000

abbrev EDGE_RING_FRAMES : ℕ := 4800

abbrev EDGE_BDL_ENTRIES : ℕ := 5

/-- `audio_sample_rate`. -/
def audioSampleRate : ℕ := HOST_SAMPLE_RATE

/-- `audio_edge_t`, with the stream `edge_pcm` and the stores to `edge_ring` since the channel was
opened, each a slot and a sample. An event is a cycle and a level. -/
structure Edge where
  emulatorHz : ℕ
  cycleOrigin : ℕ
  totalSamples : ℕ
  currentLevel : ℤ
  events : List (ℕ × ℤ)
  droppedEvents : ℕ
  opened : Bool
  pcm : Pcm
  ring : List (ℕ × ℤ)

/-- `audio_edge_open`. -/
def audioEdgeOpen (hdaUp edgePcmOpen : Bool) (emulatorHz : ℕ) : Option Edge :=
  if hdaUp = false then none
  else if edgePcmOpen then none
  else if emulatorHz = 0 then none
  else
    (audioPcmOpen hdaUp EDGE_RING_FRAMES EDGE_BDL_ENTRIES audioSampleRate 1).map fun pcm =>
      { emulatorHz := emulatorHz
        cycleOrigin := 0
        totalSamples := 0
        currentLevel := 0
        events := []
        droppedEvents := 0
        opened := true
        pcm := audioPcmAdvance pcm (EDGE_RING_FRAMES - 1)
        ring := [] }

/-- `audio_edge_set`. -/
def audioEdgeSet (e : Edge) (level : ℤ) (atCycle : ℕ) : Edge :=
  if e.opened then
    if e.events.length ≥ 256 then
      { e with droppedEvents := (e.droppedEvents + 1) % 2 ^ 32, currentLevel := level }
    else { e with events := e.events ++ [(atCycle, level)] }
  else e

/-- `cycle_to_sample`. -/
def cycleToSample (e : Edge) (cycle : ℕ) : ℕ :=
  let delta := (cycle + 2 ^ 64 - e.cycleOrigin) % 2 ^ 64
  delta * audioSampleRate % 2 ^ 64 / e.emulatorHz

/-- A round of the loop that waits for the host, with the value that `LPIB` has then: whether there
was room in time. -/
def drainBody (p : Pcm) (frameSamples : ℕ) (lpib : ℕ → ℕ) (waited : ℕ) : Iter ℕ Bool :=
  if audioPcmWritable p (lpib waited) < frameSamples then
    if waited ≥ 50 then .stop false else .next (waited + 1)
  else .stop true

/-- The index in the frame that `audio_edge_advance` computes for the cycle of an event. -/
def eventIdx (e : Edge) (now frameSamples cycle : ℕ) : ℕ :=
  let cycle := if cycle < e.cycleOrigin then e.cycleOrigin else cycle
  let cycle := if cycle > now then now else cycle
  let total := cycleToSample e cycle
  let idx := if total > e.totalSamples then (total - e.totalSamples) % 2 ^ 32 else 0
  if idx > frameSamples then frameSamples else idx

/-- The loops of `audio_edge_advance` over the events and the samples before each: the stores to the
ring, and the level at the end. -/
def renderFrame (e : Edge) (now frameSamples : ℕ) : List (ℕ × ℤ) × ℤ :=
  render (fun s level => ((e.pcm.wpFrames + s) % 2 ^ 32 % EDGE_RING_FRAMES, level))
    e.currentLevel frameSamples
    (e.events.map fun event => (eventIdx e now frameSamples event.1, event.2))

/-- `audio_edge_advance` from the wait for the host on, for `frame` samples. -/
def advanceFrame (e : Edge) (now totalNow frame : ℕ) (lpib : ℕ → ℕ) : Edge :=
  match iterate (drainBody e.pcm frame lpib) 51 0 with
  | some true =>
    { e with
      ring := e.ring ++ (renderFrame e now frame).1
      pcm := audioPcmAdvance e.pcm frame
      totalSamples := totalNow
      currentLevel := (renderFrame e now frame).2
      events := [] }
  | _ => { e with events := [], totalSamples := totalNow }

/-- `audio_edge_advance`, with the successive values of `LPIB`. -/
def audioEdgeAdvance (e : Edge) (now : ℕ) (lpib : ℕ → ℕ) : Edge :=
  if e.opened then
    let totalNow := cycleToSample e now
    if totalNow ≤ e.totalSamples then
      match e.events.getLast? with
      | some event => { e with currentLevel := event.2, events := [] }
      | none => e
    else
      let frame := totalNow - e.totalSamples
      advanceFrame e now totalNow
        (if frame > EDGE_RING_FRAMES - 1 then EDGE_RING_FRAMES - 1 else frame) lpib
  else e

/-! ## Runs -/

/-- The calls of a run. -/
inductive EdgeOp
  | set (level : ℤ) (cycle : ℕ)
  | advance (now : ℕ) (lpib : ℕ → ℕ)

/-- One call. -/
def edgeStep (e : Edge) : EdgeOp → Edge
  | .set level cycle => audioEdgeSet e level cycle
  | .advance now lpib => audioEdgeAdvance e now lpib

/-- A sequence of calls. -/
def edgeRun (e : Edge) (ops : List EdgeOp) : Edge := ops.foldl edgeStep e

/-- The sample that a cycle falls into. -/
def sampleOf (hz cycle : ℕ) : ℕ := 48000 * cycle / hz

/-- The slot of the ring for a sample. -/
def slotOf (k : ℕ) : ℕ := (4799 + k) % 4800

/-- The events that a run submits, in order. -/
def submitted (ops : List EdgeOp) : List (ℕ × ℤ) :=
  ops.filterMap fun
    | .set level cycle => some (cycle, level)
    | .advance .. => none

/-- The cycle of the last advance, if it is not `last`. -/
def lastAdvance (last : ℕ) (ops : List EdgeOp) : ℕ :=
  ops.foldl (fun last op =>
    match op with
    | .set .. => last
    | .advance now _ => now) last

/-- The signal for a list of events. -/
def signal (hz : ℕ) (events : List (ℕ × ℤ)) : List (ℕ × ℤ) :=
  events.map fun event => (sampleOf hz event.1, event.2)

/-- The host makes room for `frameSamples` samples in time: at one of the looks at `LPIB` there is
enough of it in front of the slot `wp`. -/
def DrainsInTime (wp frameSamples : ℕ) (lpib : ℕ → ℕ) : Prop :=
  ∃ waited ≤ 50, frameSamples ≤ 4799 - (wp + 4800 - lpib waited / 2 % 4800) % 4800

/-- The runs in question, from a point at which the last call was at the cycle `clock`, the last
advance at the cycle `last`, and `pending` events have been submitted since: cycles do not decrease
and are not too large for the arithmetic, at most 256 events are submitted before an advance, and an
advance is by fewer than 4800 samples, for which the host makes room. -/
def Timed (hz : ℕ) : ℕ → ℕ → ℕ → List EdgeOp → Prop
  | _, _, _, [] => True
  | clock, last, pending, .set _ cycle :: ops =>
    clock ≤ cycle ∧ cycle * 48000 < 2 ^ 64 ∧ pending < 256 ∧ Timed hz cycle last (pending + 1) ops
  | clock, last, _, .advance now lpib :: ops =>
    clock ≤ now ∧ now * 48000 < 2 ^ 64 ∧ sampleOf hz now - sampleOf hz last < 4800 ∧
      DrainsInTime (slotOf (sampleOf hz last)) (sampleOf hz now - sampleOf hz last) lpib ∧
      Timed hz now now 0 ops

/-! ## The invariant -/

variable {hz clock last : ℕ} {e e₀ : Edge} {past : List (ℕ × ℤ)}

theorem sampleOf_mono {c d : ℕ} (h : c ≤ d) : sampleOf hz c ≤ sampleOf hz d :=
  Nat.div_le_div_right (Nat.mul_le_mul_left _ h)

/-- The slots of successive samples. -/
theorem slotOf_add_mod {k i : ℕ} (hi : i < 4800) :
    (slotOf k + i) % 2 ^ 32 % EDGE_RING_FRAMES = slotOf (k + i) := by
  dsimp only [slotOf, EDGE_RING_FRAMES]
  omega

/-- The state between two calls. `past` are the events that have been rendered. -/
structure EdgeInv (hz clock last : ℕ) (past : List (ℕ × ℤ)) (e : Edge) : Prop where
  hz_eq : e.emulatorHz = hz
  origin : e.cycleOrigin = 0
  opened : e.opened = true
  running : e.pcm.running = true
  ringFrames : e.pcm.ringFrames = 4800
  channels : e.pcm.channels = 1
  wp : e.pcm.wpFrames = slotOf (sampleOf hz last)
  total : e.totalSamples = sampleOf hz last
  last_le : last ≤ clock
  past_le : ∀ event ∈ past, event.1 ≤ last
  level : e.currentLevel = (past.getLast?.map Prod.snd).getD 0
  ge_last : ∀ event ∈ e.events, last ≤ event.1
  le_clock : ∀ event ∈ e.events, event.1 ≤ clock
  sorted : (e.events.map Prod.fst).Pairwise (· ≤ ·)
  ring : e.ring = (List.range (sampleOf hz last)).map fun k => (slotOf k, held 0 (signal hz past) k)

theorem edgeInv_open {hdaUp edgePcmOpen : Bool}
    (h : audioEdgeOpen hdaUp edgePcmOpen hz = some e₀) : e₀.events = [] ∧ EdgeInv hz 0 0 [] e₀ := by
  have hzero : sampleOf hz 0 = 0 := by rw [sampleOf, Nat.mul_zero, Nat.zero_div]
  unfold audioEdgeOpen at h
  obtain ⟨hup, h⟩ := Option.ite_none_left_eq_some.1 h
  obtain ⟨-, h⟩ := Option.ite_none_left_eq_some.1 h
  obtain ⟨-, h⟩ := Option.ite_none_left_eq_some.1 h
  obtain ⟨pcm, hpcm, rfl⟩ := Option.map_eq_some_iff.1 h
  rw [audioPcmOpen, if_neg hup] at hpcm
  cases hpcm
  refine ⟨rfl, rfl, rfl, rfl, rfl, rfl, rfl, ?_, hzero.symm, le_rfl, nofun, rfl, nofun, nofun,
    .nil, ?_⟩
  · rw [hzero]
    rfl
  · rw [hzero]
    rfl

namespace EdgeInv

/-- The sample of a cycle, when the arithmetic does not wrap. -/
theorem cycleToSample_eq (h : EdgeInv hz clock last past e) {cycle : ℕ}
    (hlt : cycle * 48000 < 2 ^ 64) : cycleToSample e cycle = sampleOf hz cycle := by
  have hdelta : (cycle + 2 ^ 64 - 0) % 2 ^ 64 = cycle := by omega
  rw [cycleToSample, h.origin, hdelta, h.hz_eq, audioSampleRate, HOST_SAMPLE_RATE,
    Nat.mod_eq_of_lt hlt, sampleOf, Nat.mul_comm]

/-- An event is queued. -/
theorem set (h : EdgeInv hz clock last past e) (level : ℤ) {cycle : ℕ} (hcycle : clock ≤ cycle)
    (hroom : e.events.length < 256) :
    (audioEdgeSet e level cycle).events = e.events ++ [(cycle, level)] ∧
      EdgeInv hz cycle last past (audioEdgeSet e level cycle) := by
  have hset : audioEdgeSet e level cycle = { e with events := e.events ++ [(cycle, level)] } := by
    rw [audioEdgeSet, if_pos h.opened, if_neg (Nat.not_le.2 hroom)]
  rw [hset]
  refine ⟨rfl, { h with
    last_le := h.last_le.trans hcycle
    ge_last := ?_
    le_clock := ?_
    sorted := ?_ }⟩
  · intro event hevent
    rcases List.mem_append.1 hevent with hevent | hevent
    · exact h.ge_last event hevent
    · rw [List.mem_singleton.1 hevent]
      exact h.last_le.trans hcycle
  · intro event hevent
    rcases List.mem_append.1 hevent with hevent | hevent
    · exact Nat.le_trans (h.le_clock event hevent) hcycle
    · rw [List.mem_singleton.1 hevent]
  · rw [List.map_append, List.pairwise_append]
    refine ⟨h.sorted, List.pairwise_singleton .., fun c hc d hd => ?_⟩
    obtain ⟨event, hevent, rfl⟩ := List.mem_map.1 hc
    rw [List.map_singleton, List.mem_singleton] at hd
    rw [hd]
    exact Nat.le_trans (h.le_clock event hevent) hcycle

/-! ### The wait -/

theorem audioPcmWritable_eq (h : EdgeInv hz clock last past e) (lpib : ℕ) :
    audioPcmWritable e.pcm lpib =
      4799 - (slotOf (sampleOf hz last) + 4800 - lpib / 2 % 4800) % 4800 := by
  have hslot : slotOf (sampleOf hz last) < 4800 := Nat.mod_lt _ (by decide)
  have hpos : lpib / 2 % 4800 < 4800 := Nat.mod_lt _ (by decide)
  have hword : ((slotOf (sampleOf hz last) + 4800) % 2 ^ 32 + 2 ^ 32 - lpib / 2 % 4800) % 2 ^ 32 =
      slotOf (sampleOf hz last) + 4800 - lpib / 2 % 4800 := by omega
  rw [audioPcmWritable, if_pos h.running, audioPcmPosition, if_pos h.running, h.ringFrames,
    h.channels, h.wp]
  dsimp only
  rw [hword]

end EdgeInv

theorem iterate_drainBody {p : Pcm} {frame n waited : ℕ} {lpib : ℕ → ℕ} (hn : waited + n = 51)
    (h : ∃ i, waited ≤ i ∧ i ≤ 50 ∧ frame ≤ audioPcmWritable p (lpib i)) :
    iterate (drainBody p frame lpib) n waited = some true := by
  induction n generalizing waited with
  | zero =>
    obtain ⟨i, h₁, h₂, -⟩ := h
    omega
  | succ n ih =>
    by_cases hfree : audioPcmWritable p (lpib waited) < frame
    · obtain ⟨i, h₁, h₂, h₃⟩ := h
      have hne : i ≠ waited := by
        rintro rfl
        omega
      have hbody : drainBody p frame lpib waited = .next (waited + 1) := by
        rw [drainBody, if_pos hfree, if_neg (by omega)]
      rw [iterate_next hbody]
      exact ih (by omega) ⟨i, by omega, h₂, h₃⟩
    · exact iterate_stop (if_neg hfree)

/-- An advance within a sample keeps the level of the last event only. -/
theorem audioEdgeAdvance_within {now : ℕ} {lpib : ℕ → ℕ} (hopened : e.opened = true)
    (hle : cycleToSample e now ≤ e.totalSamples) : audioEdgeAdvance e now lpib = { e with
      currentLevel := (e.events.getLast?.map Prod.snd).getD e.currentLevel
      events := [] } := by
  rw [audioEdgeAdvance, if_pos hopened]
  dsimp only
  rw [if_pos hle]
  cases hlast : e.events.getLast? with
  | none => rw [Option.map_none, Option.getD_none, ← List.getLast?_eq_none_iff.1 hlast]
  | some event => rfl

namespace EdgeInv

/-! ### The frame -/

/-- The index of an event is its distance in samples from the last advance. -/
theorem eventIdx_eq (h : EdgeInv hz clock last past e) {now cycle : ℕ} (hnow : cycle ≤ now)
    (hlt : now * 48000 < 2 ^ 64) (hfew : sampleOf hz now - sampleOf hz last < 4800) :
    eventIdx e now (sampleOf hz now - sampleOf hz last) cycle =
      sampleOf hz cycle - sampleOf hz last := by
  have hmono : sampleOf hz cycle ≤ sampleOf hz now := sampleOf_mono hnow
  have hcycle : cycle * 48000 < 2 ^ 64 := (Nat.mul_le_mul_right _ hnow).trans_lt hlt
  unfold eventIdx
  rw [h.origin, if_neg (Nat.not_lt_zero cycle)]
  dsimp only
  rw [if_neg (Nat.not_lt.2 hnow), h.cycleToSample_eq hcycle, h.total]
  by_cases hgt : sampleOf hz cycle > sampleOf hz last
  · have hidx : (sampleOf hz cycle - sampleOf hz last) % 2 ^ 32 =
        sampleOf hz cycle - sampleOf hz last := by omega
    rw [if_pos hgt, hidx, if_neg (by omega)]
  · rw [if_neg hgt, if_neg (Nat.not_lt_zero _)]
    omega

/-- The samples of a frame. -/
theorem renderFrame_eq (h : EdgeInv hz clock last past e) {now : ℕ} (hnow : clock ≤ now)
    (hlt : now * 48000 < 2 ^ 64) (hfew : sampleOf hz now - sampleOf hz last < 4800) :
    renderFrame e now (sampleOf hz now - sampleOf hz last) =
      ((List.range (sampleOf hz now - sampleOf hz last)).map fun i =>
          (slotOf (sampleOf hz last + i),
            held e.currentLevel (signal hz e.events) (sampleOf hz last + i)),
        (e.events.getLast?.map Prod.snd).getD e.currentLevel) := by
  have hevents : (e.events.map fun event =>
      (eventIdx e now (sampleOf hz now - sampleOf hz last) event.1, event.2)) =
        (signal hz e.events).map fun event => (event.1 - sampleOf hz last, event.2) := by
    rw [signal, List.map_map]
    refine List.map_congr_left fun event hevent => ?_
    rw [h.eventIdx_eq (Nat.le_trans (h.le_clock event hevent) hnow) hlt hfew]
    rfl
  rw [renderFrame, hevents, render_eq]
  · refine Prod.ext (List.map_congr_left fun i hi => ?_) ?_
    · have hi := List.mem_range.1 hi
      rw [held_sub, h.wp, slotOf_add_mod (by omega)]
    · rw [signal, List.getLast?_map, List.getLast?_map, Option.map_map, Option.map_map]
      rfl
  · have htimes : ((signal hz e.events).map fun event => (event.1 - sampleOf hz last, event.2)).map
        Prod.fst = (e.events.map Prod.fst).map fun c => sampleOf hz c - sampleOf hz last := by
      simp only [signal, List.map_map, Function.comp_def]
    rw [htimes]
    refine h.sorted.map _ fun c d hcd => ?_
    exact Nat.sub_le_sub_right (sampleOf_mono hcd) _
  · rw [signal, List.map_map, List.forall_mem_map]
    intro event hevent
    exact Nat.sub_le_sub_right (sampleOf_mono (Nat.le_trans (h.le_clock event hevent) hnow)) _

/-! ### The events that have been rendered -/

/-- Up to the last advance the new events are of no account. -/
theorem held_past (h : EdgeInv hz clock last past e) {k : ℕ} (hk : k < sampleOf hz last) :
    held 0 (signal hz (past ++ e.events)) k = held 0 (signal hz past) k := by
  rw [signal, List.map_append, held_append]
  refine held_of_lt ?_
  rw [List.forall_mem_map]
  exact fun event hevent => hk.trans_le (sampleOf_mono (h.ge_last event hevent))

/-- From the last advance on the old events are summed up by the current level. -/
theorem held_frame (h : EdgeInv hz clock last past e) {k : ℕ} (hk : sampleOf hz last ≤ k) :
    held 0 (signal hz (past ++ e.events)) k = held e.currentLevel (signal hz e.events) k := by
  rw [signal, List.map_append, held_append, ← signal, ← signal]
  have hpast : held 0 (signal hz past) k = e.currentLevel := by
    rw [held_of_le, h.level, signal, List.getLast?_map, Option.map_map]
    · rfl
    · rw [signal, List.forall_mem_map]
      exact fun event hevent => (sampleOf_mono (h.past_le event hevent)).trans hk
  rw [hpast]

theorem level_append (h : EdgeInv hz clock last past e) :
    ((past ++ e.events).getLast?.map Prod.snd).getD 0 =
      (e.events.getLast?.map Prod.snd).getD e.currentLevel := by
  rw [List.getLast?_append, h.level]
  cases e.events.getLast? with
  | none => rfl
  | some event => rfl

theorem append_le (h : EdgeInv hz clock last past e) {now : ℕ} (hnow : clock ≤ now) :
    ∀ event ∈ past ++ e.events, event.1 ≤ now := by
  intro event hevent
  rcases List.mem_append.1 hevent with hevent | hevent
  · exact Nat.le_trans (h.past_le event hevent) (h.last_le.trans hnow)
  · exact Nat.le_trans (h.le_clock event hevent) hnow

theorem audioEdgeAdvance_idle (h : EdgeInv hz clock last past e) {now : ℕ} {lpib : ℕ → ℕ}
    (hlt : now * 48000 < 2 ^ 64) (hle : sampleOf hz now ≤ sampleOf hz last) :
    audioEdgeAdvance e now lpib = { e with
      currentLevel := (e.events.getLast?.map Prod.snd).getD e.currentLevel
      events := [] } := by
  apply audioEdgeAdvance_within h.opened
  rw [h.cycleToSample_eq hlt, h.total]
  exact hle

/-- An advance by samples for which there is room. -/
theorem audioEdgeAdvance_frame (h : EdgeInv hz clock last past e) {now : ℕ} {lpib : ℕ → ℕ}
    (hlt : now * 48000 < 2 ^ 64) (hgt : ¬ sampleOf hz now ≤ sampleOf hz last)
    (hfew : sampleOf hz now - sampleOf hz last < 4800)
    (hdrain : DrainsInTime (slotOf (sampleOf hz last)) (sampleOf hz now - sampleOf hz last) lpib) :
    audioEdgeAdvance e now lpib = { e with
      ring := e.ring ++ (renderFrame e now (sampleOf hz now - sampleOf hz last)).1
      pcm := audioPcmAdvance e.pcm (sampleOf hz now - sampleOf hz last)
      totalSamples := sampleOf hz now
      currentLevel := (renderFrame e now (sampleOf hz now - sampleOf hz last)).2
      events := [] } := by
  have hdrained : iterate (drainBody e.pcm (sampleOf hz now - sampleOf hz last) lpib) 51 0 =
      some true := by
    obtain ⟨waited, hwaited, hroom⟩ := hdrain
    refine iterate_drainBody (Nat.zero_add 51) ⟨waited, Nat.zero_le waited, hwaited, ?_⟩
    rwa [h.audioPcmWritable_eq]
  have hclip : ¬ sampleOf hz now - sampleOf hz last > EDGE_RING_FRAMES - 1 := by
    rw [EDGE_RING_FRAMES]
    omega
  rw [audioEdgeAdvance, if_pos h.opened]
  dsimp only
  rw [h.cycleToSample_eq hlt, h.total, if_neg hgt, if_neg hclip, advanceFrame, hdrained]

/-- **An advance** renders the samples up to its cycle. -/
theorem advance (h : EdgeInv hz clock last past e) {now : ℕ} {lpib : ℕ → ℕ} (hnow : clock ≤ now)
    (hlt : now * 48000 < 2 ^ 64) (hfew : sampleOf hz now - sampleOf hz last < 4800)
    (hdrain : DrainsInTime (slotOf (sampleOf hz last)) (sampleOf hz now - sampleOf hz last) lpib) :
    (audioEdgeAdvance e now lpib).events = [] ∧
      EdgeInv hz now now (past ++ e.events) (audioEdgeAdvance e now lpib) := by
  have hmono : sampleOf hz last ≤ sampleOf hz now := sampleOf_mono (h.last_le.trans hnow)
  by_cases hle : sampleOf hz now ≤ sampleOf hz last
  · have heq : sampleOf hz now = sampleOf hz last := le_antisymm hle hmono
    rw [h.audioEdgeAdvance_idle hlt hle]
    refine ⟨rfl, { h with
      wp := by rw [h.wp, heq]
      total := by rw [h.total, heq]
      last_le := le_rfl
      past_le := h.append_le hnow
      level := h.level_append.symm
      ge_last := fun _ he => absurd he List.not_mem_nil
      le_clock := fun _ he => absurd he List.not_mem_nil
      sorted := .nil
      ring := ?_ }⟩
    rw [h.ring, heq]
    refine List.map_congr_left fun k hk => ?_
    rw [h.held_past (List.mem_range.1 hk)]
  · rw [h.audioEdgeAdvance_frame hlt hle hfew hdrain, h.renderFrame_eq hnow hlt hfew,
      audioPcmAdvance, if_pos h.running]
    refine ⟨rfl, { h with
      wp := ?_
      total := rfl
      last_le := le_rfl
      past_le := h.append_le hnow
      level := h.level_append.symm
      ge_last := fun _ he => absurd he List.not_mem_nil
      le_clock := fun _ he => absurd he List.not_mem_nil
      sorted := .nil
      ring := ?_ }⟩
    · dsimp only
      rw [h.wp, h.ringFrames, slotOf, slotOf]
      omega
    · have hrange : List.range (sampleOf hz now) = List.range (sampleOf hz last) ++
          (List.range (sampleOf hz now - sampleOf hz last)).map (sampleOf hz last + ·) := by
        rw [← List.range_add, Nat.add_sub_cancel' hmono]
      rw [hrange, List.map_append, List.map_map, h.ring]
      refine congrArg₂ _ (List.map_congr_left fun k hk => ?_) (List.map_congr_left fun i _ => ?_)
      · rw [h.held_past (List.mem_range.1 hk)]
      · simp only [Function.comp_def, h.held_frame (Nat.le_add_right ..)]

end EdgeInv

/-! ## Main result -/

/-- The invariant of a run. -/
theorem edgeInv_run {ops : List EdgeOp} {pending : ℕ} (h : EdgeInv hz clock last past e)
    (hpending : e.events.length = pending) (hops : Timed hz clock last pending ops) :
    ∃ past' clock', past' ++ (edgeRun e ops).events = past ++ e.events ++ submitted ops ∧
      EdgeInv hz clock' (lastAdvance last ops) past' (edgeRun e ops) := by
  induction ops generalizing e clock last pending past with
  | nil => exact ⟨past, clock, (List.append_nil _).symm, h⟩
  | cons op ops ih =>
    cases op with
    | set level cycle =>
      obtain ⟨hcycle, -, hroom, hops⟩ := hops
      obtain ⟨hevents, hset⟩ := h.set level hcycle (hpending ▸ hroom)
      have hlen : (audioEdgeSet e level cycle).events.length = pending + 1 := by
        rw [hevents, List.length_append, hpending, List.length_singleton]
      obtain ⟨past', clock', happ, hinv⟩ := ih hset hlen hops
      refine ⟨past', clock', happ.trans ?_, hinv⟩
      rw [hevents, ← List.append_assoc, List.append_assoc]
      rfl
    | advance now lpib =>
      obtain ⟨hnow, hlt, hfew, hdrain, hops⟩ := hops
      obtain ⟨hevents, hadv⟩ := h.advance hnow hlt hfew hdrain
      obtain ⟨past', clock', happ, hinv⟩ := ih hadv (by rw [hevents]; rfl) hops
      refine ⟨past', clock', happ.trans ?_, hinv⟩
      rw [hevents, List.append_nil]
      rfl

theorem edge_samples {hdaUp edgePcmOpen : Bool}
    (hopen : audioEdgeOpen hdaUp edgePcmOpen hz = some e₀) {ops : List EdgeOp}
    (hops : Timed hz 0 0 0 ops) :
    (edgeRun e₀ ops).totalSamples = sampleOf hz (lastAdvance 0 ops) ∧
    (edgeRun e₀ ops).ring = (List.range (sampleOf hz (lastAdvance 0 ops))).map fun k =>
      (slotOf k, held 0 (signal hz (submitted ops)) k) := by
  obtain ⟨hnone, hinit⟩ := edgeInv_open hopen
  obtain ⟨past, clock, happ, hinv⟩ := edgeInv_run hinit (by rw [hnone]; rfl) hops
  rw [hnone] at happ
  refine ⟨hinv.total, ?_⟩
  rw [hinv.ring]
  refine List.map_congr_left fun k hk => ?_
  rw [← hinv.held_past (List.mem_range.1 hk), happ]
  rfl

/-- **Zero-order hold**: in every run the sample of number `k` is the level of the last event whose
cycle falls into a sample up to `k`, or 0, and is stored at the slot `slotOf k`. Runs with the same
events differ in how many samples they have rendered only. -/
theorem edge_zero_order_hold {hdaUp edgePcmOpen : Bool} {hz : ℕ} {e₀ : Edge}
    (hopen : audioEdgeOpen hdaUp edgePcmOpen hz = some e₀) {ops : List EdgeOp}
    (hops : Timed hz 0 0 0 ops) :
    (edgeRun e₀ ops).totalSamples = sampleOf hz (lastAdvance 0 ops) ∧
    (edgeRun e₀ ops).ring = ((List.range (edgeRun e₀ ops).totalSamples).map fun k =>
      (slotOf k, held 0 (signal hz (submitted ops)) k)) ∧
    ∀ ops', Timed hz 0 0 0 ops' → submitted ops' = submitted ops →
      (edgeRun e₀ ops).totalSamples ≤ (edgeRun e₀ ops').totalSamples →
      (edgeRun e₀ ops).ring <+: (edgeRun e₀ ops').ring := by
  obtain ⟨htotal, hring⟩ := edge_samples hopen hops
  refine ⟨htotal, by rw [hring, htotal], fun ops' hops' hsame hle => ?_⟩
  obtain ⟨htotal', hring'⟩ := edge_samples hopen hops'
  rw [htotal, htotal'] at hle
  obtain ⟨more, hmore⟩ := Nat.exists_eq_add_of_le hle
  rw [hring, hring', hsame, hmore, List.range_add, List.map_append]
  exact List.prefix_append ..

/-- Two changes of a speaker at 3.5 MHz, in two frames of 48 samples. -/
def beeperOps : List EdgeOp :=
  [.set 0x4000 100, .advance 3500 fun _ => 96, .set (-0x4000) 3600, .advance 7000 fun _ => 192]

/-- The second change is heard from the sample 49 on. -/
theorem edge_zero_order_hold_beeper :
    ∃ e₀, audioEdgeOpen true false 3500000 = some e₀ ∧
      (edgeRun e₀ beeperOps).ring[50]? = some (49, -0x4000) := by
  have htimed : Timed 3500000 0 0 0 beeperOps :=
    ⟨by decide, by decide, by decide, by decide, by decide, by decide, ⟨0, by decide, by decide⟩,
      by decide, by decide, by decide, by decide, by decide, by decide, ⟨0, by decide, by decide⟩,
      trivial⟩
  obtain ⟨e₀, hopen⟩ : ∃ e₀, audioEdgeOpen true false 3500000 = some e₀ := ⟨_, rfl⟩
  obtain ⟨htotal, hring, -⟩ := edge_zero_order_hold hopen htimed
  refine ⟨e₀, hopen, ?_⟩
  rw [hring, htotal]
  decide

end RvvmHal.Audio
