import RvvmHal.Audio.Edge
import RvvmHal.Foundations.EachStep

/-!
# The level between frames

The field `current_level` of a channel is the level that the speaker has between two frames. Four
paths of `audio_edge_advance` and one of `audio_edge_set` update it, each on its own: the change
that finds the queue full sets it at once, a frame that is rendered leaves the level of the last
change in the queue, and a frame that is given up on leaves it as it is.

So the level is that of the last change except in two cases: when the queue was full and what was
in it is rendered afterwards, and when changes were in the queue of a frame that is given up on.
`current_level_iff` says exactly in which runs it is right after every advance.
-/

namespace RvvmHal.Audio

open Hold Loop

/-! ## The changes of a frame -/

/-- The levels that have been set: the last one before the last advance, and those since. -/
def recentStep (r : ℤ × List ℤ) : EdgeOp → ℤ × List ℤ
  | .set level _ => (r.1, r.2 ++ [level])
  | .advance .. => (r.2.getLast?.getD r.1, [])

/-- The levels that a run from `audio_edge_open` has set. -/
def recent (ops : List EdgeOp) : ℤ × List ℤ := ops.foldl recentStep (0, [])

/-- The level of the last `audio_edge_set` of a run, 0 if there is none. -/
def lastLevel (ops : List EdgeOp) : ℤ := ((submitted ops).getLast?.map Prod.snd).getD 0

/-- The samples of the frame that an advance is about. -/
def frameSamples (e : Edge) (now : ℕ) : ℕ :=
  if cycleToSample e now - e.totalSamples > EDGE_RING_FRAMES - 1 then EDGE_RING_FRAMES - 1
  else cycleToSample e now - e.totalSamples

/-- There are samples to render, and at none of the looks at `LPIB` there is room for them. -/
def Stalls (e : Edge) (now : ℕ) (lpib : ℕ → ℕ) : Prop :=
  e.totalSamples < cycleToSample e now ∧
    ∀ waited ≤ 50, audioPcmWritable e.pcm (lpib waited) < frameSamples e now

/-- The condition on an advance. If the host stalls, nothing was set since the last advance, or more
than the queue has room for, or the level is what it was before; otherwise the queue had room for
all changes, or the last change is to the level of the last one that was queued. -/
def LevelKept (e : Edge) (r : ℤ × List ℤ) (now : ℕ) (lpib : ℕ → ℕ) : Prop :=
  (Stalls e now lpib → r.2 = [] ∨ 256 < r.2.length ∨ r.2.getLast? = some r.1) ∧
  (¬ Stalls e now lpib → r.2.length ≤ 256 ∨ r.2.getLast? = r.2[255]?)

/-- The condition on a run, call by call. -/
def KeepsLevel (e₀ : Edge) (ops : List EdgeOp) : Prop :=
  EachStep (fun past op => ∀ now lpib, op = .advance now lpib →
    LevelKept (edgeRun e₀ past) (recent past) now lpib) ops

/-- After every advance of a run the level is that of the last `audio_edge_set`. -/
def LevelRight (e₀ : Edge) (ops : List EdgeOp) : Prop :=
  EachStep (fun past op => ∀ now lpib, op = .advance now lpib →
    (edgeRun e₀ (past ++ [op])).currentLevel = lastLevel past) ops

/-! ## What an advance does to the level -/

variable {e e₀ : Edge} {r : ℤ × List ℤ} {now : ℕ} {lpib : ℕ → ℕ} {ops : List EdgeOp}

@[simp] theorem edgeRun_concat (op : EdgeOp) :
    edgeRun e (ops ++ [op]) = edgeStep (edgeRun e ops) op := by
  simp [edgeRun]

@[simp] theorem recent_concat (op : EdgeOp) :
    recent (ops ++ [op]) = recentStep (recent ops) op := by
  simp [recent]

/-- The level of the last change, from the changes of the frame. -/
theorem lastLevel_eq (ops : List EdgeOp) :
    lastLevel ops = (recent ops).2.getLast?.getD (recent ops).1 := by
  induction ops using List.reverseRecOn with
  | nil => rfl
  | append_singleton ops op ih =>
    cases op with
    | set level cycle => simp [lastLevel, submitted, recentStep]
    | advance now lpib => simpa [lastLevel, submitted, recentStep] using ih

/-- The wait ends without room if there is none at any look. -/
theorem iterate_drainBody_stalls {p : Pcm} {frame n waited : ℕ} (hn : waited + n = 51)
    (hpos : 0 < n) (h : ∀ i ≤ 50, audioPcmWritable p (lpib i) < frame) :
    iterate (drainBody p frame lpib) n waited = some false := by
  induction n generalizing waited with
  | zero => omega
  | succ n ih =>
    by_cases hlast : waited ≥ 50
    · apply iterate_stop
      rw [drainBody, if_pos (h waited (by omega)), if_pos hlast]
    · have hbody : drainBody p frame lpib waited = .next (waited + 1) := by
        rw [drainBody, if_pos (h waited (by omega)), if_neg hlast]
      rw [iterate_next hbody]
      apply ih <;> omega

theorem audioEdgeAdvance_eq (hopened : e.opened = true)
    (hlt : e.totalSamples < cycleToSample e now) : audioEdgeAdvance e now lpib =
      advanceFrame e now (cycleToSample e now) (frameSamples e now) lpib := by
  rw [audioEdgeAdvance, if_pos hopened]
  dsimp only
  rw [if_neg (Nat.not_le.2 hlt), frameSamples]

/-- An advance that gives up on the host. -/
theorem audioEdgeAdvance_stalls (hopened : e.opened = true) (h : Stalls e now lpib) :
    audioEdgeAdvance e now lpib = { e with events := [], totalSamples := cycleToSample e now } := by
  obtain ⟨hlt, hroom⟩ := h
  have hwait : iterate (drainBody e.pcm (frameSamples e now) lpib) 51 0 = some false :=
    iterate_drainBody_stalls (Nat.zero_add 51) (Nat.succ_pos _) hroom
  rw [audioEdgeAdvance_eq hopened hlt, advanceFrame, hwait]

theorem renderFrame_level (e : Edge) (now frame : ℕ) :
    (renderFrame e now frame).2 = (e.events.getLast?.map Prod.snd).getD e.currentLevel := by
  rw [renderFrame, render]
  dsimp only
  rw [foldl_holdStep_snd, List.getLast?_map, Option.map_map]
  rfl

/-- An advance that finds room. -/
theorem audioEdgeAdvance_room (hopened : e.opened = true)
    (hlt : e.totalSamples < cycleToSample e now) (h : ¬ Stalls e now lpib) :
    audioEdgeAdvance e now lpib = { e with
      ring := e.ring ++ (renderFrame e now (frameSamples e now)).1
      pcm := audioPcmAdvance e.pcm (frameSamples e now)
      totalSamples := cycleToSample e now
      currentLevel := (renderFrame e now (frameSamples e now)).2
      events := [] } := by
  have hroom : ∃ i, 0 ≤ i ∧ i ≤ 50 ∧ frameSamples e now ≤ audioPcmWritable e.pcm (lpib i) := by
    by_contra hno
    refine h ⟨hlt, fun i hi => ?_⟩
    apply Nat.not_le.1
    intro hi'
    exact hno ⟨i, Nat.zero_le i, hi, hi'⟩
  rw [audioEdgeAdvance_eq hopened hlt, advanceFrame, iterate_drainBody (Nat.zero_add 51) hroom]

/-- An advance that does not give up leaves the level of the last change in the queue. -/
theorem level_audioEdgeAdvance (hopened : e.opened = true) (h : ¬ Stalls e now lpib) :
    (audioEdgeAdvance e now lpib).opened = true ∧ (audioEdgeAdvance e now lpib).events = [] ∧
      (audioEdgeAdvance e now lpib).currentLevel =
        (e.events.getLast?.map Prod.snd).getD e.currentLevel := by
  by_cases hle : cycleToSample e now ≤ e.totalSamples
  · rw [audioEdgeAdvance_within hopened hle]
    exact ⟨hopened, rfl, rfl⟩
  · rw [audioEdgeAdvance_room hopened (Nat.not_le.1 hle) h]
    exact ⟨hopened, rfl, renderFrame_level ..⟩

/-! ## The invariant -/

/-- The state between two calls, as long as the level has been right: the queue holds the first
changes of the frame, and the level is the one before the frame unless the queue is full. -/
structure LevelInv (r : ℤ × List ℤ) (e : Edge) : Prop where
  opened : e.opened = true
  events : e.events.map Prod.snd = r.2.take 256
  level : e.currentLevel = if r.2.length ≤ 256 then r.1 else r.2.getLast?.getD r.1

namespace LevelInv

theorem length_events (h : LevelInv r e) : e.events.length = min 256 r.2.length := by
  have hlen := congrArg List.length h.events
  rwa [List.length_map, List.length_take] at hlen

theorem set (h : LevelInv r e) (level : ℤ) (cycle : ℕ) :
    LevelInv (recentStep r (.set level cycle)) (audioEdgeSet e level cycle) := by
  have hlen := h.length_events
  rw [audioEdgeSet, if_pos h.opened]
  by_cases hfull : e.events.length ≥ 256
  · rw [if_pos hfull]
    refine ⟨h.opened, ?_, ?_⟩
    · simp only [recentStep]
      rw [List.take_append_of_le_length (by omega)]
      exact h.events
    · have hlt : ¬ (r.2 ++ [level]).length ≤ 256 := by simp; omega
      show level = if (r.2 ++ [level]).length ≤ 256 then r.1 else (r.2 ++ [level]).getLast?.getD r.1
      rw [if_neg hlt]
      simp
  · rw [if_neg hfull]
    have hle : (r.2 ++ [level]).length ≤ 256 := by simp; omega
    have hold : r.2.length ≤ 256 := by omega
    refine ⟨h.opened, ?_, ?_⟩
    · simp only [recentStep]
      rw [List.map_append, h.events, List.take_of_length_le hle, List.take_of_length_le hold]
      rfl
    · show e.currentLevel =
        if (r.2 ++ [level]).length ≤ 256 then r.1 else (r.2 ++ [level]).getLast?.getD r.1
      rw [if_pos hle, h.level, if_pos hold]

/-- The level of the last change in the queue. -/
theorem getLast_events (h : LevelInv r e) : e.events.getLast?.map Prod.snd =
    if r.2.length ≤ 256 then r.2.getLast? else r.2[255]? := by
  rw [← List.getLast?_map, h.events]
  by_cases hle : r.2.length ≤ 256
  · rw [if_pos hle, List.take_of_length_le hle]
  · rw [if_neg hle, List.getLast?_eq_getElem?, List.length_take, Nat.min_eq_left (by omega),
      List.getElem?_take_of_lt (by omega)]

/-- **An advance** leaves the right level exactly under the condition. -/
theorem advance_iff (h : LevelInv r e) :
    (audioEdgeAdvance e now lpib).currentLevel = r.2.getLast?.getD r.1 ↔
      LevelKept e r now lpib := by
  by_cases hst : Stalls e now lpib
  · rw [audioEdgeAdvance_stalls h.opened hst, LevelKept]
    simp only [hst, not_true_eq_false, false_implies, and_true, true_implies]
    rw [h.level]
    by_cases hle : r.2.length ≤ 256
    · rw [if_pos hle]
      cases hlast : r.2.getLast? with
      | none => simp [List.getLast?_eq_none_iff.1 hlast]
      | some level =>
        have hne : r.2 ≠ [] := by
          rintro hnil
          simp [hnil] at hlast
        simp [hne, Nat.not_lt.2 hle, eq_comm]
    · simp [hle, Nat.not_le.1 hle]
  · rw [(level_audioEdgeAdvance h.opened hst).2.2, LevelKept, h.getLast_events, h.level]
    simp only [hst, not_false_eq_true, false_implies, true_and, true_implies]
    by_cases hle : r.2.length ≤ 256
    · simp [hle]
    · have hlt : 255 < r.2.length := by omega
      have hne : r.2 ≠ [] := by
        rintro hnil
        simp [hnil] at hlt
      simp [hle, List.getElem?_eq_getElem hlt, List.getLast?_eq_some_getLast hne, eq_comm]

/-- An advance after which the level is right. -/
theorem advance (h : LevelInv r e)
    (hright : (audioEdgeAdvance e now lpib).currentLevel = r.2.getLast?.getD r.1) :
    LevelInv (recentStep r (.advance now lpib)) (audioEdgeAdvance e now lpib) := by
  by_cases hst : Stalls e now lpib
  · refine ⟨?_, ?_, hright⟩
    · rw [audioEdgeAdvance_stalls h.opened hst]
      exact h.opened
    · rw [audioEdgeAdvance_stalls h.opened hst]
      rfl
  · obtain ⟨hopened, hevents, -⟩ := level_audioEdgeAdvance h.opened hst
    refine ⟨hopened, ?_, hright⟩
    rw [hevents]
    rfl

end LevelInv

theorem levelInv_open {hdaUp edgePcmOpen : Bool} {hz : ℕ}
    (hopen : audioEdgeOpen hdaUp edgePcmOpen hz = some e₀) : LevelInv (0, []) e₀ := by
  obtain ⟨hevents, hinv⟩ := edgeInv_open hopen
  refine ⟨hinv.opened, ?_, hinv.level⟩
  rw [hevents]
  rfl

/-- As long as the level is right, it is so exactly under the condition, and the invariant holds. -/
theorem levelInv_run {hdaUp edgePcmOpen : Bool} {hz : ℕ}
    (hopen : audioEdgeOpen hdaUp edgePcmOpen hz = some e₀) (ops : List EdgeOp) :
    (LevelRight e₀ ops ↔ KeepsLevel e₀ ops) ∧
      (LevelRight e₀ ops → LevelInv (recent ops) (edgeRun e₀ ops)) := by
  apply eachStep_congr (I := fun past => LevelInv (recent past) (edgeRun e₀ past))
  · exact levelInv_open hopen
  · intro past op h
    apply forall_congr' fun now => forall_congr' fun lpib => ?_
    apply imp_congr_right
    rintro rfl
    rw [edgeRun_concat, lastLevel_eq]
    exact h.advance_iff
  · intro past op h hright
    rw [edgeRun_concat, recent_concat]
    cases op with
    | set level cycle => exact h.set level cycle
    | advance now lpib =>
      apply h.advance
      rw [← lastLevel_eq, ← hright now lpib rfl, edgeRun_concat]
      rfl

/-! ### Changes without an advance -/

/-- The calls that make some changes. -/
def sets (changes : List (ℕ × ℤ)) : List EdgeOp := changes.map fun c => .set c.2 c.1

variable {changes : List (ℕ × ℤ)}

theorem recent_sets : recent (sets changes) = (0, changes.map Prod.snd) := by
  induction changes using List.reverseRecOn with
  | nil => rfl
  | append_singleton changes c ih =>
    rw [sets, List.map_append, List.map_append]
    exact (recent_concat _).trans (by rw [← sets, ih]; rfl)

theorem levelRight_sets (changes : List (ℕ × ℤ)) : LevelRight e₀ (sets changes) := by
  rintro past op hop now lpib rfl
  have hmem : .advance now lpib ∈ sets changes := hop.subset (by simp)
  simp [sets] at hmem

/-- Changes do not move the clock. -/
theorem cycleToSample_sets (changes : List (ℕ × ℤ)) :
    (edgeRun e (sets changes)).totalSamples = e.totalSamples ∧
      cycleToSample (edgeRun e (sets changes)) = cycleToSample e := by
  induction changes generalizing e with
  | nil => exact ⟨rfl, rfl⟩
  | cons c changes ih =>
    have hset : (audioEdgeSet e c.2 c.1).totalSamples = e.totalSamples ∧
        cycleToSample (audioEdgeSet e c.2 c.1) = cycleToSample e := by
      unfold audioEdgeSet
      split_ifs <;> exact ⟨rfl, rfl⟩
    obtain ⟨htotal, hcycle⟩ := ih (e := audioEdgeSet e c.2 c.1)
    exact ⟨htotal.trans hset.1, hcycle.trans hset.2⟩

/-! ## Main result -/

/-- **The last level is kept** in a run from `audio_edge_open`, after every advance, exactly if
every advance meets the condition. -/
theorem current_level_iff {hdaUp edgePcmOpen : Bool} {hz : ℕ} {e₀ : Edge}
    (hopen : audioEdgeOpen hdaUp edgePcmOpen hz = some e₀) (ops : List EdgeOp) :
    LevelRight e₀ ops ↔ KeepsLevel e₀ ops := (levelInv_run hopen ops).1

/-- A change at the cycle 100 and a frame for which the host makes room. -/
def clickOps : List EdgeOp := sets [(100, 0x4000)] ++ [.advance 3500 fun _ => 96]

/-- The level of the change is kept. -/
theorem current_level_iff_click :
    ∃ e₀, audioEdgeOpen true false 3500000 = some e₀ ∧ LevelRight e₀ clickOps := by
  obtain ⟨e₀, hopen⟩ : ∃ e₀, audioEdgeOpen true false 3500000 = some e₀ := ⟨_, rfl⟩
  refine ⟨e₀, hopen, (current_level_iff hopen clickOps).2 ?_⟩
  rw [KeepsLevel, clickOps, eachStep_concat]
  constructor
  · exact (levelInv_run hopen _).1.1 (levelRight_sets _)
  · rintro now lpib ⟨⟩
    rw [recent_sets]
    refine ⟨fun hst => ?_, fun _ => .inl (by decide)⟩
    have hroom := hst.2 0 (by decide)
    cases hopen
    revert hroom
    decide

/-- The host does not play: the change is dropped with its frame, and the speaker stays at 0. -/
def stalledOps : List EdgeOp := sets [(100, 0x4000)] ++ [.advance 3500 fun _ => 0]

/-- A change too many for the queue. -/
def crowd : List (ℕ × ℤ) := List.replicate 256 (10, 0x4000) ++ [(20, 0)]

/-- An advance within the first sample after that. -/
def crowdedOps : List EdgeOp := sets crowd ++ [.advance 70 fun _ => 0]

theorem recent_crowd : recent (sets crowd) = (0, List.replicate 256 0x4000 ++ [0]) := by
  rw [recent_sets, crowd, List.map_append, List.map_replicate]
  rfl

theorem lastLevel_crowd : lastLevel (sets crowd) = 0 := by
  rw [lastLevel_eq, recent_crowd, List.getLast?_concat]
  rfl

/-- **The last level is lost** when the host stalls, and when the queue overflows. -/
theorem current_level_lost : ∃ e₀, audioEdgeOpen true false 3500000 = some e₀ ∧
    (lastLevel stalledOps = 0x4000 ∧ (edgeRun e₀ stalledOps).currentLevel = 0 ∧
      ¬ LevelRight e₀ stalledOps) ∧
    (lastLevel crowdedOps = 0 ∧ (edgeRun e₀ crowdedOps).currentLevel = 0x4000 ∧
      ¬ LevelRight e₀ crowdedOps) := by
  obtain ⟨e₀, hopen⟩ : ∃ e₀, audioEdgeOpen true false 3500000 = some e₀ := ⟨_, rfl⟩
  have hstalled : (edgeRun e₀ stalledOps).currentLevel = 0 := by
    cases hopen
    decide
  have hcrowded : (edgeRun e₀ crowdedOps).currentLevel = 0x4000 := by
    have hinv := (levelInv_run hopen _).2 (levelRight_sets crowd)
    have hidle : ¬ Stalls (edgeRun e₀ (sets crowd)) 70 fun _ => 0 := by
      rintro ⟨hlt, -⟩
      obtain ⟨htotal, hcycle⟩ := cycleToSample_sets (e := e₀) crowd
      rw [htotal, hcycle] at hlt
      cases hopen
      revert hlt
      decide
    rw [crowdedOps, edgeRun_concat]
    refine (level_audioEdgeAdvance hinv.opened hidle).2.2.trans ?_
    have hlt : 255 < (List.replicate 256 (0x4000 : ℤ)).length := by
      rw [List.length_replicate]
      decide
    rw [hinv.getLast_events, recent_crowd, List.length_append, List.length_replicate,
      List.length_singleton, if_neg (by decide), List.getElem?_append_left hlt,
      List.getElem?_replicate_of_lt (by decide)]
    rfl
  have hlast : lastLevel (sets [(100, 0x4000)]) = 0x4000 := by decide
  refine ⟨e₀, hopen, ⟨by decide, hstalled, fun h => ?_⟩, ?_, hcrowded, fun h => ?_⟩
  · have hright := h (sets [(100, 0x4000)]) _ List.prefix_rfl 3500 _ rfl
    rw [hlast] at hright
    exact absurd (hright.symm.trans hstalled) (by decide)
  · rw [lastLevel_eq, crowdedOps, recent_concat, recentStep, ← lastLevel_eq, lastLevel_crowd]
    rfl
  · have hright := h (sets crowd) _ List.prefix_rfl 70 _ rfl
    rw [lastLevel_crowd] at hright
    exact absurd (hright.symm.trans hcrowded) (by decide)

end RvvmHal.Audio
