import Mathlib.Data.List.Induction
import RvvmHal.Input.Hid

/-!
# The key transitions of a report

`hid.c`: `hid_poll_i2c`. A usage is down if it is in a slot of the report or is a modifier whose bit
is set. The polls call back with the slots that have changed, and not with the usages: a usage that
is new in two slots is called back twice, and one that is both a bit and a slot is called back for
each of them.

A poll calls back once for each usage that has changed if and only if the change is simple
(`hid_transitions`).
-/

namespace RvvmHal.Hid

/-! ## The reports of a run -/

/-- The report before the first: `prev_keys` and `prev_mod` are 0. -/
def Report.zero : Report := fun _ => 0

/-- The usages that are down in a report. -/
abbrev Report.held (buf : Report) : Set UInt8 := Hid.held buf.keys buf.mod

/-- The events between two reports. -/
abbrev changes (prev buf : Report) : List (UInt8 × Bool) :=
  pollEvents buf.keys prev.keys buf.mod prev.mod

/-- Nothing changes from a report to itself. -/
theorem changes_self (buf : Report) : changes buf buf = [] := by
  refine List.eq_nil_iff_forall_not_mem.2 fun e he => ?_
  rcases List.mem_append.1 he with he | he
  · obtain ⟨b, hb, -⟩ := mem_modEvents.1 he
    exact hb Iff.rfl
  rcases List.mem_append.1 he with he | he <;>
    exact absurd (mem_keyEvents.1 he).2.1 fun ⟨i, hi⟩ => (mem_keyEvents.1 he).2.2.1 i hi

/-- The keyboard after a sequence of polls. -/
def hidAfter (virtioInputPoll : Option ℕ → Calls) (bus : List I2c) (s : State) : State :=
  bus.foldl (fun s i2c => (hidKbPoll virtioInputPoll i2c s).1) s

/-- The last good report of a sequence of polls. -/
def lastReport (i2cAddr : UInt8) (bus : List I2c) : Report :=
  bus.foldl (fun prev i2c => (goodReport i2cAddr i2c).getD prev) .zero

/-- The keyboard remembers a report. -/
structure Remembers (i2cAddr : UInt8) (prev : Report) (kb : Keyboard) : Prop where
  backend : kb.backend = .i2c
  initialised : kb.initialised = true
  addr : kb.i2c_addr = i2cAddr
  keys : kb.prev_keys = prev.keys
  mod : kb.prev_mod = prev.mod

theorem remembers_init (i2cAddr : UInt8) : Remembers i2cAddr .zero (hidKbInit i2cAddr) :=
  ⟨rfl, rfl, rfl, rfl, rfl⟩

section

variable {virtioInputPoll : Option ℕ → Calls} {i2cAddr : UInt8} {prev buf : Report} {s : State}
  {i2c : I2c}

theorem hidKbPoll_i2c (h : Remembers i2cAddr prev s.kb) :
    hidKbPoll virtioInputPoll i2c s = hidPollI2c i2c s := by
  rw [hidKbPoll, h.initialised, if_neg (by decide), h.backend]

/-- A good report is remembered, and its events are called back. -/
theorem hidKbPoll_good (h : Remembers i2cAddr prev s.kb) (hbuf : goodReport i2cAddr i2c = some buf) :
    Remembers i2cAddr buf (hidKbPoll virtioInputPoll i2c s).1.kb ∧
      (hidKbPoll virtioInputPoll i2c s).2.calls = changes prev buf := by
  obtain ⟨hread, hlen⟩ := Option.filter_eq_some_iff.1 hbuf
  rw [hidKbPoll_i2c h, hidPollI2c, h.addr, hread]
  dsimp only
  rw [if_neg (by simpa using hlen), modCalls_eq, keyCalls_eq, keyCalls_eq, Calls.extend_extend,
    Calls.extend_extend, h.keys, h.mod]
  exact ⟨⟨h.backend, h.initialised, h.addr, rfl, rfl⟩, rfl⟩

/-- A poll without a good report changes nothing, and calls back with nothing. -/
theorem hidKbPoll_bad (virtioInputPoll : Option ℕ → Calls) (h : Remembers i2cAddr prev s.kb)
    (hbuf : goodReport i2cAddr i2c = none) :
    (hidKbPoll virtioInputPoll i2c s).1.kb = s.kb ∧
      (hidKbPoll virtioInputPoll i2c s).2.calls = [] := by
  rw [hidKbPoll_i2c h, hidPollI2c, h.addr]
  rw [goodReport] at hbuf
  cases hread : i2c i2cAddr regSel with
  | none =>
    dsimp only
    split <;> exact ⟨rfl, rfl⟩
  | some buf =>
    rw [hread] at hbuf
    dsimp only
    rw [if_pos (by simpa using hbuf)]
    exact ⟨rfl, rfl⟩

/-- After a poll the keyboard remembers the last good report, and has called back with the events
between it and the one before. -/
theorem hidKbPoll_remembers (virtioInputPoll : Option ℕ → Calls) (i2c : I2c)
    (h : Remembers i2cAddr prev s.kb) :
    Remembers i2cAddr ((goodReport i2cAddr i2c).getD prev) (hidKbPoll virtioInputPoll i2c s).1.kb ∧
      (hidKbPoll virtioInputPoll i2c s).2.calls =
        changes prev ((goodReport i2cAddr i2c).getD prev) := by
  cases hbuf : goodReport i2cAddr i2c with
  | none =>
    obtain ⟨hkb, hcalls⟩ := hidKbPoll_bad virtioInputPoll h hbuf
    exact ⟨hkb.symm ▸ h, hcalls.trans (changes_self prev).symm⟩
  | some buf => exact hidKbPoll_good h hbuf

/-- After a sequence of polls the keyboard remembers the last good report. -/
theorem remembers_hidAfter (virtioInputPoll : Option ℕ → Calls) (i2cAddr : UInt8)
    (bus : List I2c) : Remembers i2cAddr (lastReport i2cAddr bus)
      (hidAfter virtioInputPoll bus ⟨hidKbInit i2cAddr, false, []⟩).kb := by
  induction bus using List.reverseRecOn with
  | nil => exact remembers_init i2cAddr
  | append_singleton bus i2c ih =>
    rw [lastReport, hidAfter, List.foldl_append, List.foldl_append]
    exact (hidKbPoll_remembers virtioInputPoll i2c ih).1

end

/-! ## The callbacks of a usage -/

/-- How many slots hold a usage. -/
def slots (arr : Fin 6 → UInt8) (u : UInt8) : ℕ := (List.finRange 6).countP fun i => arr i = u

/-- The callbacks of a usage. -/
def callsOf (u : UInt8) (calls : List (UInt8 × Bool)) : List (UInt8 × Bool) :=
  calls.filter fun e => e.1 = u

theorem slots_pos {arr : Fin 6 → UInt8} {u : UInt8} : 0 < slots arr u ↔ ∃ i, arr i = u := by
  simp [slots, List.countP_pos_iff]

theorem slots_eq_zero {arr : Fin 6 → UInt8} {u : UInt8} : slots arr u = 0 ↔ ∀ i, arr i ≠ u := by
  simp [slots, List.countP_eq_zero]

theorem mem_held {keys : Fin 6 → UInt8} {mod u : UInt8} (hu : u ≠ 0) :
    u ∈ held keys mod ↔ 0 < slots keys u ∨ ModBit mod u := by
  rw [slots_pos]
  exact or_congr_left (and_iff_right hu)

/-- 0 is no key, and no modifier. -/
theorem zero_notMem_held {keys : Fin 6 → UInt8} {mod : UInt8} : 0 ∉ held keys mod := by
  rintro (⟨hne, -⟩ | ⟨b, -, hb⟩)
  · exact hne rfl
  · exact modUsages_ne_zero b hb

/-- A filtered list all of whose elements are equal. -/
theorem filter_eq_replicate {α : Type} [DecidableEq α] {p : α → Bool} {l : List α} {a : α}
    (h : ∀ b ∈ l, p b = true → b = a) : l.filter p = List.replicate (l.countP p) a := by
  rw [List.countP_eq_length_filter]
  exact List.eq_replicate_iff.2 ⟨rfl, fun b hb => h b (List.mem_filter.1 hb).1
    (List.mem_filter.1 hb).2⟩

/-- The callbacks of the keys: one for each slot, if the usage is not in the other array. -/
theorem callsOf_keyEvents {arr other : Fin 6 → UInt8} {pressed : Bool} {u : UInt8} (hu : u ≠ 0) :
    callsOf u (keyEvents arr other pressed) =
      if slots other u = 0 then List.replicate (slots arr u) (u, pressed) else [] := by
  have hall : ∀ e ∈ keyEvents arr other pressed, decide (e.1 = u) = true → e = (u, pressed) :=
    fun e he hue => Prod.ext (of_decide_eq_true hue) (mem_keyEvents.1 he).2.2.2
  rw [callsOf, filter_eq_replicate hall, keyEvents, List.countP_map, List.countP_filter]
  by_cases hout : slots other u = 0
  · rw [if_pos hout, slots]
    congr 1
    refine List.countP_congr fun i _ => ?_
    have hin : inArray other u = false := (inArray_eq_false hu).2 (slots_eq_zero.1 hout)
    simp only [Function.comp_apply, Bool.and_eq_true, decide_eq_true_eq]
    exact ⟨fun h => h.1, fun h => ⟨h, h ▸ hu, h ▸ hin⟩⟩
  · rw [if_neg hout, List.replicate_eq_nil_iff, List.countP_eq_zero]
    intro i _ h
    simp only [Function.comp_apply, Bool.and_eq_true, decide_eq_true_eq] at h
    obtain ⟨rfl, -, hin⟩ := h
    exact hout (slots_eq_zero.2 ((inArray_eq_false hu).1 hin))

/-- The callbacks of the modifiers: one if the bit has changed. -/
theorem callsOf_modEvents {mod prevMod u : UInt8} : callsOf u (modEvents mod prevMod) =
    if ModBit mod u ↔ ModBit prevMod u then [] else [(u, decide (ModBit mod u))] := by
  have hbit : ∀ (m : UInt8) (b : Fin 8), ModBit m modUsages[b] ↔ Bit m b := by
    intro m b
    constructor
    · rintro ⟨b', hb', heq⟩
      exact modUsages_inj heq ▸ hb'
    · exact fun hb => ⟨b, hb, rfl⟩
  rw [callsOf]
  by_cases hu : ∃ b : Fin 8, modUsages[b] = u
  · obtain ⟨b, rfl⟩ := hu
    have hall : ∀ e ∈ modEvents mod prevMod, decide (e.1 = modUsages[b]) = true →
        e = (modUsages[b], decide (ModBit mod modUsages[b])) := by
      intro e he heq
      obtain ⟨b', -, rfl⟩ := mem_modEvents.1 he
      obtain rfl := modUsages_inj (of_decide_eq_true heq)
      simp only [hbit]
    have hcount : (modEvents mod prevMod).countP (fun e => e.1 = modUsages[b]) =
        (List.finRange 8).countP fun b' => b' = b ∧ ¬ (Bit mod b ↔ Bit prevMod b) := by
      rw [modEvents, List.countP_map, List.countP_filter]
      refine List.countP_congr fun b' _ => ?_
      simp only [Function.comp_apply, Bool.and_eq_true, decide_eq_true_eq, bit_xor]
      constructor
      · exact fun h => ⟨modUsages_inj h.1, modUsages_inj h.1 ▸ h.2⟩
      · rintro ⟨rfl, hne⟩
        exact ⟨rfl, hne⟩
    rw [filter_eq_replicate hall, hcount]
    simp only [hbit]
    by_cases hsame : Bit mod b ↔ Bit prevMod b
    · simp [hsame]
    · have hone : (List.finRange 8).countP (fun b' => decide (b' = b)) = 1 :=
        (List.nodup_finRange 8).count.trans (if_pos (List.mem_finRange b))
      simp [hsame, hone]
  · have hnot : ∀ m : UInt8, ¬ ModBit m u := by
      rintro m ⟨b, -, hb⟩
      exact hu ⟨b, hb⟩
    rw [if_pos (by simp only [hnot])]
    refine List.filter_eq_nil_iff.2 fun e he heq => ?_
    obtain ⟨b, -, rfl⟩ := mem_modEvents.1 he
    exact hu ⟨b, of_decide_eq_true heq⟩

/-- 0 is never called back. -/
theorem callsOf_zero (prev buf : Report) : callsOf 0 (changes prev buf) = [] := by
  refine List.filter_eq_nil_iff.2 fun e he heq => ?_
  have hzero : e.1 = 0 := of_decide_eq_true heq
  rcases List.mem_append.1 he with he | he
  · obtain ⟨b, -, rfl⟩ := mem_modEvents.1 he
    exact modUsages_ne_zero b hzero
  rcases List.mem_append.1 he with he | he <;> exact (mem_keyEvents.1 he).1 hzero

/-! ## One callback for each transition -/

/-- A usage that has changed is called back once, with its new state; another one is not. -/
@[mk_iff]
structure CalledOnce (prev now : Set UInt8) (calls : List (UInt8 × Bool)) (u : UInt8) : Prop where
  pressed : u ∈ now → u ∉ prev → callsOf u calls = [(u, true)]
  released : u ∉ now → u ∈ prev → callsOf u calls = [(u, false)]
  same : (u ∈ now ↔ u ∈ prev) → callsOf u calls = []

/-- A usage that is in the slots of one report only is in one slot, and is no modifier that is set
in either report. -/
def Lone (buf other : Report) (u : UInt8) : Prop :=
  0 < slots buf.keys u → slots other.keys u = 0 →
    slots buf.keys u = 1 ∧ ¬ ModBit buf.mod u ∧ ¬ ModBit other.mod u

/-- The change of a usage is simple. -/
@[mk_iff]
structure SimpleChange (prev buf : Report) (u : UInt8) : Prop where
  press : Lone buf prev u
  release : Lone prev buf u
  stay : 0 < slots buf.keys u → 0 < slots prev.keys u → (ModBit buf.mod u ↔ ModBit prev.mod u)

/-- **The callbacks of a usage**: its bit, its slots in the report before, its slots in this one. -/
theorem callsOf_changes {prev buf : Report} {u : UInt8} (hu : u ≠ 0) : callsOf u (changes prev buf) =
      (if ModBit buf.mod u ↔ ModBit prev.mod u then [] else [(u, decide (ModBit buf.mod u))]) ++
        ((if slots buf.keys u = 0 then List.replicate (slots prev.keys u) (u, false) else []) ++
          if slots prev.keys u = 0 then List.replicate (slots buf.keys u) (u, true) else []) := by
  rw [← callsOf_modEvents, ← callsOf_keyEvents hu, ← callsOf_keyEvents hu]
  simp only [callsOf, changes, pollEvents, List.filter_append]

theorem calledOnce_changes {prev buf : Report} {u : UInt8} (hu : u ≠ 0) :
    CalledOnce prev.held buf.held (changes prev buf) u ↔ SimpleChange prev buf u := by
  rw [calledOnce_iff, simpleChange_iff, callsOf_changes hu, mem_held hu, mem_held hu]
  unfold Lone
  rcases slots buf.keys u with _ | n <;> rcases slots prev.keys u with _ | m <;>
    by_cases hnow : ModBit buf.mod u <;> by_cases hwas : ModBit prev.mod u <;>
    simp [hnow, hwas, List.replicate_succ]

/-! ## Main results -/

/-- A poll after a sequence of polls calls back once with each usage that has changed since the last
good report, and with no other. -/
def OncePerTransition (virtioInputPoll : Option ℕ → Calls) (i2cAddr : UInt8) (bus : List I2c)
    (i2c : I2c) : Prop :=
  ∀ u, CalledOnce (lastReport i2cAddr bus).held (lastReport i2cAddr (bus ++ [i2c])).held
    (hidKbPoll virtioInputPoll i2c
      (hidAfter virtioInputPoll bus ⟨hidKbInit i2cAddr, false, []⟩)).2.calls u

/-- **One callback for each transition**, if and only if the change of every usage is simple. -/
theorem hid_transitions (virtioInputPoll : Option ℕ → Calls) (i2cAddr : UInt8) (bus : List I2c)
    (i2c : I2c) : OncePerTransition virtioInputPoll i2cAddr bus i2c ↔
      ∀ u ≠ 0, SimpleChange (lastReport i2cAddr bus) (lastReport i2cAddr (bus ++ [i2c])) u := by
  have hlast : lastReport i2cAddr (bus ++ [i2c]) =
      (goodReport i2cAddr i2c).getD (lastReport i2cAddr bus) := List.foldl_append
  have hcalls := (hidKbPoll_remembers virtioInputPoll i2c
    (remembers_hidAfter virtioInputPoll i2cAddr bus)).2
  rw [OncePerTransition, hcalls, ← hlast]
  constructor
  · exact fun h u hu => (calledOnce_changes hu).1 (h u)
  · intro h u
    by_cases hu : u = 0
    · subst hu
      exact ⟨fun hnow => absurd hnow zero_notMem_held, fun _ hwas => absurd hwas zero_notMem_held,
        fun _ => callsOf_zero ..⟩
    · exact (calledOnce_changes hu).2 (h u hu)

/-- A bus whose device answers with a report of its length, and these keys. -/
def holding (keys : List UInt8) : I2c := fun _ _ => some fun i => ([10, 0, 0, 0] ++ keys).getD i 0

/-- All slots are 0x01 when too many keys are down: one usage has changed, and it is called back six
times. -/
theorem hid_transitions_rollover :
    ¬ OncePerTransition (fun _ => ⟨[], 0⟩) 0x08 [] (holding [1, 1, 1, 1, 1, 1]) := by
  intro h
  have hsix := (h 1).pressed ((mem_held (by decide)).2 (by decide))
    (mt (mem_held (by decide)).1 (by decide))
  revert hsix
  decide

end RvvmHal.Hid
