import RvvmHal.Foundations.Replay
import RvvmHal.Foundations.Word

/-!
# The keyboard

`hid.c`: `hid_kb_poll`, with the I2C backend. A poll reads a report, compares it to the one before,
and calls back with every change; the callbacks of a poll are collected with the count that it
returns. The I2C bus, `i2c_write_then_read`, is a function of the address and of the bytes written,
which may be another one at each poll.

Replaying the callbacks of any sequence of polls gives the keys and modifiers that are down in the
last good report (`hid_events`).
-/

namespace RvvmHal.Hid

/-! ## Polling -/

/-- `hid_backend_t`. -/
inductive Backend
  | none
  | i2c
  | virtio
  deriving DecidableEq

/-- `hid_keyboard_t`; `vi` is a pointer. -/
structure Keyboard where
  backend : Backend
  initialised : Bool
  i2c_addr : UInt8
  prev_keys : Fin 6 → UInt8
  prev_mod : UInt8
  vi : Option ℕ

/-- A report, as it is read: `RVVM_HID_KB_REPORT_LEN` bytes. -/
abbrev Report := Fin 10 → UInt8

/-- `i2c_write_then_read` of a report. -/
abbrev I2c := UInt8 → List UInt8 → Option Report

/-- The keyboard, the static `warned`, and what has been printed. -/
structure State where
  kb : Keyboard
  warned : Bool
  printed : List (String × UInt8)

/-- The callbacks of a poll, and the count of events. -/
structure Calls where
  calls : List (UInt8 × Bool)
  events : ℕ
  deriving DecidableEq

/-- `cb(usage, pressed, ctx); events++`. -/
def Calls.cb (c : Calls) (usage : UInt8) (pressed : Bool) : Calls :=
  ⟨c.calls ++ [(usage, pressed)], c.events + 1⟩

/-- `hid_kb_init`. -/
def hidKbInit (i2cAddr : UInt8) : Keyboard := ⟨.i2c, true, i2cAddr, fun _ => 0, 0, none⟩

/-- `in_array`. -/
def inArray (arr : Fin 6 → UInt8) (u : UInt8) : Bool :=
  if u = 0 then false else (List.finRange 6).any fun i => arr i == u

/-- `reg_sel`: `I2C_HID_REG_INPUT`, little endian. -/
def regSel : List UInt8 := [0x03, 0x00]

/-- The length of a report. -/
def Report.len (buf : Report) : ℕ := (buf 0).toNat ||| (buf 1).toNat <<< 8

/-- The modifiers of a report. -/
def Report.mod (buf : Report) : UInt8 := buf 2

/-- The keys of a report. -/
def Report.keys (buf : Report) : Fin 6 → UInt8 := fun i => buf (Fin.natAdd 4 i)

/-- `mod_usages`. -/
def modUsages : Vector UInt8 8 := #v[0xE0, 0xE1, 0xE2, 0xE3, 0xE4, 0xE5, 0xE6, 0xE7]

/-- The bit of a modifier. -/
abbrev Bit (mod : UInt8) (b : Fin 8) : Prop := mod.toNat &&& 1 <<< b.val ≠ 0

/-- The loop over the modifiers. -/
def modCalls (mod prevMod : UInt8) (c : Calls) : Calls :=
  (List.finRange 8).foldl
    (fun c b => if Bit (mod ^^^ prevMod) b then c.cb modUsages[b] (decide (Bit mod b)) else c) c

/-- The loop over the keys of `arr` that are not in `other`. -/
def keyCalls (arr other : Fin 6 → UInt8) (pressed : Bool) (c : Calls) : Calls :=
  (List.finRange 6).foldl
    (fun c i => if arr i ≠ 0 ∧ inArray other (arr i) = false then c.cb (arr i) pressed else c) c

/-- `hid_poll_i2c`. -/
def hidPollI2c (i2cWriteThenRead : I2c) (s : State) : State × Calls :=
  match i2cWriteThenRead s.kb.i2c_addr regSel with
  | none =>
    if s.warned then (s, ⟨[], 0⟩)
    else
      let line := ("hid: i2c xact to addr 0x%x failed\n", s.kb.i2c_addr)
      ({ s with warned := true, printed := s.printed ++ [line] }, ⟨[], 0⟩)
  | some buf =>
    if buf.len = 0 then (s, ⟨[], 0⟩)
    else
      let c := modCalls buf.mod s.kb.prev_mod ⟨[], 0⟩
      let c := keyCalls s.kb.prev_keys buf.keys false c
      let c := keyCalls buf.keys s.kb.prev_keys true c
      ({ s with kb := { s.kb with prev_mod := buf.mod, prev_keys := buf.keys } }, c)

/-- `hid_kb_poll`; `virtioInputPoll` is that of the other backend. -/
def hidKbPoll (virtioInputPoll : Option ℕ → Calls) (i2cWriteThenRead : I2c) (s : State) :
    State × Calls :=
  if s.kb.initialised = false then (s, ⟨[], 0⟩)
  else
    match s.kb.backend with
    | .i2c => hidPollI2c i2cWriteThenRead s
    | .virtio => (s, virtioInputPoll s.kb.vi)
    | .none => (s, ⟨[], 0⟩)

/-- A sequence of polls, with the bus at each of them. -/
def hidRun (virtioInputPoll : Option ℕ → Calls) : List I2c → State → List Calls
  | [], _ => []
  | i2c :: bus, s =>
    let r := hidKbPoll virtioInputPoll i2c s
    r.2 :: hidRun virtioInputPoll bus r.1

/-! ## The events of a poll -/

/-- The events of the modifiers. -/
def modEvents (mod prevMod : UInt8) : List (UInt8 × Bool) :=
  ((List.finRange 8).filter fun b => Bit (mod ^^^ prevMod) b).map
    fun b => (modUsages[b], decide (Bit mod b))

/-- The events of the keys of `arr` that are not in `other`. -/
def keyEvents (arr other : Fin 6 → UInt8) (pressed : Bool) : List (UInt8 × Bool) :=
  ((List.finRange 6).filter fun i => arr i ≠ 0 ∧ inArray other (arr i) = false).map
    fun i => (arr i, pressed)

/-- Events are called back and counted. -/
def Calls.extend (c : Calls) (l : List (UInt8 × Bool)) : Calls :=
  ⟨c.calls ++ l, c.events + l.length⟩

theorem Calls.extend_extend (c : Calls) (l l' : List (UInt8 × Bool)) :
    (c.extend l).extend l' = c.extend (l ++ l') := by
  simp [Calls.extend, Nat.add_assoc]

/-- A loop that calls back for some of its indices. -/
theorem foldl_cb {ι : Type} (p : ι → Prop) [DecidablePred p] (e : ι → UInt8 × Bool) (l : List ι)
    (c : Calls) : l.foldl (fun c i => if p i then c.cb (e i).1 (e i).2 else c) c =
      c.extend ((l.filter p).map e) := by
  induction l generalizing c with
  | nil => simp [Calls.extend]
  | cons i l ih =>
    rw [List.foldl_cons, ih, List.filter_cons]
    by_cases hp : p i
    · simp [hp, Calls.cb, Calls.extend, Nat.add_assoc, Nat.add_comm 1]
    · simp [hp]

theorem modCalls_eq (mod prevMod : UInt8) (c : Calls) :
    modCalls mod prevMod c = c.extend (modEvents mod prevMod) :=
  foldl_cb (fun b => Bit (mod ^^^ prevMod) b) (fun b => (modUsages[b], decide (Bit mod b))) _ c

theorem keyCalls_eq (arr other : Fin 6 → UInt8) (pressed : Bool) (c : Calls) :
    keyCalls arr other pressed c = c.extend (keyEvents arr other pressed) :=
  foldl_cb (fun i => arr i ≠ 0 ∧ inArray other (arr i) = false) (fun i => (arr i, pressed)) _ c

/-- The events of a poll. -/
def pollEvents (keys prevKeys : Fin 6 → UInt8) (mod prevMod : UInt8) : List (UInt8 × Bool) :=
  modEvents mod prevMod ++ (keyEvents prevKeys keys false ++ keyEvents keys prevKeys true)

/-! ## What is held down -/

/-- The usage of a modifier. -/
def IsModifier (u : UInt8) : Prop := 0xE0 ≤ u ∧ u ≤ 0xE7

/-- The usages of keys and of modifiers that are down. -/
def held (keys : Fin 6 → UInt8) (mod : UInt8) : Set UInt8 :=
  {u | (u ≠ 0 ∧ ∃ i, keys i = u) ∨ ∃ b : Fin 8, Bit mod b ∧ modUsages[b] = u}

/-- The usage is a modifier, and its bit is set. -/
def ModBit (mod u : UInt8) : Prop := ∃ b : Fin 8, Bit mod b ∧ modUsages[b] = u

instance (mod u : UInt8) : Decidable (ModBit mod u) := inferInstanceAs (Decidable (∃ _ : Fin 8, _))

theorem isModifier_modUsages (b : Fin 8) : IsModifier modUsages[b] := by
  revert b
  unfold IsModifier
  decide

theorem modUsages_inj {b b' : Fin 8} (h : modUsages[b] = modUsages[b']) : b = b' := by
  revert b b'
  decide

theorem modUsages_ne_zero (b : Fin 8) : modUsages[b] ≠ 0 := by
  revert b
  decide

theorem bit_iff (mod : UInt8) (b : Fin 8) : Bit mod b ↔ mod.toNat.testBit b = true := by
  rw [Bit, Nat.one_shiftLeft, Nat.and_two_pow]
  cases mod.toNat.testBit b <;> simp

/-- A bit of the difference is set where the bits differ. -/
theorem bit_xor (mod prevMod : UInt8) (b : Fin 8) :
    Bit (mod ^^^ prevMod) b ↔ ¬ (Bit mod b ↔ Bit prevMod b) := by
  rw [bit_iff, bit_iff, bit_iff, UInt8.toNat_xor, Nat.testBit_xor]
  cases mod.toNat.testBit b <;> cases prevMod.toNat.testBit b <;> decide

theorem inArray_eq_false {arr : Fin 6 → UInt8} {u : UInt8} (hu : u ≠ 0) :
    inArray arr u = false ↔ ∀ i, arr i ≠ u := by
  simp [inArray, hu]

theorem mem_modEvents {mod prevMod : UInt8} {e : UInt8 × Bool} : e ∈ modEvents mod prevMod ↔
    ∃ b : Fin 8, ¬ (Bit mod b ↔ Bit prevMod b) ∧ (modUsages[b], decide (Bit mod b)) = e := by
  simp only [modEvents, List.mem_map, List.mem_filter, List.mem_finRange, true_and,
    decide_eq_true_eq, bit_xor]

theorem mem_keyEvents {arr other : Fin 6 → UInt8} {pressed : Bool} {e : UInt8 × Bool} :
    e ∈ keyEvents arr other pressed ↔
      e.1 ≠ 0 ∧ (∃ i, arr i = e.1) ∧ (∀ i, other i ≠ e.1) ∧ e.2 = pressed := by
  simp only [keyEvents, List.mem_map, List.mem_filter, List.mem_finRange, true_and,
    decide_eq_true_eq]
  constructor
  · rintro ⟨i, ⟨hne, hin⟩, rfl⟩
    exact ⟨hne, ⟨i, rfl⟩, (inArray_eq_false hne).1 hin, rfl⟩
  · obtain ⟨u, b⟩ := e
    rintro ⟨hne, ⟨i, rfl⟩, hother, rfl⟩
    exact ⟨i, ⟨hne, (inArray_eq_false hne).2 hother⟩, rfl⟩

section

variable {keys prevKeys : Fin 6 → UInt8} {mod prevMod : UInt8}

theorem mem_held_modUsages (hkeys : ∀ i, ¬ IsModifier (keys i)) (b : Fin 8) :
    modUsages[b] ∈ held keys mod ↔ Bit mod b := by
  constructor
  · rintro (⟨-, i, hi⟩ | ⟨b', hb', heq⟩)
    · exact absurd (hi ▸ isModifier_modUsages b) (hkeys i)
    · exact modUsages_inj heq ▸ hb'
  · exact fun hb => .inr ⟨b, hb, rfl⟩

theorem mem_held_of_not_isModifier {u : UInt8} (hu : ¬ IsModifier u) :
    u ∈ held keys mod ↔ u ≠ 0 ∧ ∃ i, keys i = u := by
  constructor
  · rintro (h | ⟨b, -, rfl⟩)
    · exact h
    · exact absurd (isModifier_modUsages b) hu
  · exact .inl

/-- **The events of a poll** take what was held down to what is held down now. -/
theorem replay_pollEvents (hkeys : ∀ i, ¬ IsModifier (keys i))
    (hprev : ∀ i, ¬ IsModifier (prevKeys i)) :
    replay (pollEvents keys prevKeys mod prevMod) (held prevKeys prevMod) = held keys mod := by
  refine replay_eq ?_ ?_
  · -- each event says what the new state is
    intro e he
    rcases List.mem_append.1 he with he | he
    · obtain ⟨b, -, rfl⟩ := mem_modEvents.1 he
      rw [mem_held_modUsages hkeys, decide_eq_true_eq]
    rcases List.mem_append.1 he with he | he
    · obtain ⟨-, ⟨i, hi⟩, hnot, hreleased⟩ := mem_keyEvents.1 he
      rw [mem_held_of_not_isModifier (hi ▸ hprev i), hreleased]
      exact ⟨fun h => (by cases h), fun ⟨_, j, hj⟩ => absurd hj (hnot j)⟩
    · obtain ⟨hne, ⟨i, hi⟩, -, hpressed⟩ := mem_keyEvents.1 he
      exact ⟨fun _ => .inl ⟨hne, i, hi⟩, fun _ => hpressed⟩
  · -- each change has an event
    intro u hu
    by_cases hmod : ∃ b : Fin 8, modUsages[b] = u
    · obtain ⟨b, rfl⟩ := hmod
      rw [mem_held_modUsages hkeys, mem_held_modUsages hprev] at hu
      exact ⟨_, List.mem_append_left _ (mem_modEvents.2 ⟨b, fun h => hu h.symm, rfl⟩), rfl⟩
    have hold : u ∈ held prevKeys prevMod ↔ u ≠ 0 ∧ ∃ i, prevKeys i = u :=
      or_iff_left fun ⟨b, _, hb⟩ => hmod ⟨b, hb⟩
    have hnew : u ∈ held keys mod ↔ u ≠ 0 ∧ ∃ i, keys i = u :=
      or_iff_left fun ⟨b, _, hb⟩ => hmod ⟨b, hb⟩
    rw [hold, hnew] at hu
    have hkey : ∀ {arr other : Fin 6 → UInt8} (pressed : Bool), u ≠ 0 → (∃ i, arr i = u) →
        ¬ (u ≠ 0 ∧ ∃ i, other i = u) → (u, pressed) ∈ keyEvents arr other pressed :=
      fun _ hne hin hout => mem_keyEvents.2 ⟨hne, hin, fun i hi => hout ⟨hne, i, hi⟩, rfl⟩
    by_cases hdown : u ≠ 0 ∧ ∃ i, keys i = u
    · have hup : ¬ (u ≠ 0 ∧ ∃ i, prevKeys i = u) := fun h => hu ⟨fun _ => hdown, fun _ => h⟩
      exact ⟨(u, true), List.mem_append_right _
        (List.mem_append_right _ (hkey true hdown.1 hdown.2 hup)), rfl⟩
    · have hwas : u ≠ 0 ∧ ∃ i, prevKeys i = u :=
        by_contra fun h => hu ⟨fun h' => absurd h' h, fun h' => absurd h' hdown⟩
      exact ⟨(u, false), List.mem_append_right _
        (List.mem_append_left _ (hkey false hwas.1 hwas.2 hdown)), rfl⟩

end

/-! ## Sequences of polls -/

/-- The report that a poll acts on: the transaction has not failed, and the length is not 0. -/
def goodReport (i2cAddr : UInt8) (i2cWriteThenRead : I2c) : Option Report :=
  (i2cWriteThenRead i2cAddr regSel).filter fun buf => buf.len ≠ 0

/-- What is held down in a report, or nothing. -/
def heldBy : Option Report → Set UInt8
  | some buf => held buf.keys buf.mod
  | none => ∅

/-- The events of a poll: those of modifiers, releases of keys, presses of keys. -/
structure PollOk (c : Calls) : Prop where
  count : c.events = c.calls.length
  order : ∃ mods releases presses, c.calls = mods ++ (releases ++ presses) ∧
    (∀ e ∈ mods, IsModifier e.1) ∧
    (∀ e ∈ releases, ¬ IsModifier e.1 ∧ e.2 = false) ∧
    ∀ e ∈ presses, ¬ IsModifier e.1 ∧ e.2 = true

theorem pollOk_nil : PollOk ⟨[], 0⟩ :=
  ⟨rfl, [], [], [], rfl, fun _ h => (by cases h), fun _ h => (by cases h), fun _ h => (by cases h)⟩

theorem pollOk_pollEvents {keys prevKeys : Fin 6 → UInt8} {mod prevMod : UInt8}
    (hkeys : ∀ i, ¬ IsModifier (keys i)) (hprev : ∀ i, ¬ IsModifier (prevKeys i)) :
    PollOk (Calls.extend ⟨[], 0⟩ (pollEvents keys prevKeys mod prevMod)) where
  count := Nat.zero_add _
  order := by
    refine ⟨modEvents mod prevMod, keyEvents prevKeys keys false, keyEvents keys prevKeys true, rfl,
      fun e he => ?_, fun e he => ?_, fun e he => ?_⟩
    · obtain ⟨b, -, rfl⟩ := mem_modEvents.1 he
      exact isModifier_modUsages b
    · obtain ⟨-, ⟨i, hi⟩, -, hreleased⟩ := mem_keyEvents.1 he
      exact ⟨hi ▸ hprev i, hreleased⟩
    · obtain ⟨-, ⟨i, hi⟩, -, hpressed⟩ := mem_keyEvents.1 he
      exact ⟨hi ▸ hkeys i, hpressed⟩

/-- The keyboard between polls, by the last good report if there was one. -/
structure KeyboardOk (i2cAddr : UInt8) (last : Option Report) (kb : Keyboard) : Prop where
  backend : kb.backend = .i2c
  initialised : kb.initialised = true
  addr : kb.i2c_addr = i2cAddr
  held : held kb.prev_keys kb.prev_mod = heldBy last
  keys : ∀ i, ¬ IsModifier (kb.prev_keys i)

/-- The keyboard after `hid_kb_init`. -/
theorem keyboardOk_init (i2cAddr : UInt8) : KeyboardOk i2cAddr none (hidKbInit i2cAddr) where
  backend := rfl
  initialised := rfl
  addr := rfl
  held := by
    refine Set.eq_empty_iff_forall_notMem.2 fun u hu => ?_
    rcases hu with ⟨hne, _, hi⟩ | ⟨b, hb, -⟩
    · exact hne hi.symm
    · exact hb (Nat.zero_and _)
  keys _ h := absurd h.1 (show ¬ (0xE0 : UInt8) ≤ 0 by decide)

section

variable {virtioInputPoll : Option ℕ → Calls} {i2cAddr : UInt8}

/-- **A poll**: the keyboard and the callbacks follow the report, if it is good. -/
theorem hidKbPoll_spec {i2c : I2c} {last : Option Report} {s : State}
    (h : KeyboardOk i2cAddr last s.kb)
    (hkeys : ∀ buf, goodReport i2cAddr i2c = some buf → ∀ i, ¬ IsModifier (buf.keys i)) :
    KeyboardOk i2cAddr ((goodReport i2cAddr i2c).or last) (hidKbPoll virtioInputPoll i2c s).1.kb ∧
      replay (hidKbPoll virtioInputPoll i2c s).2.calls (heldBy last) =
        heldBy ((goodReport i2cAddr i2c).or last) ∧
      PollOk (hidKbPoll virtioInputPoll i2c s).2 := by
  have hpoll : hidKbPoll virtioInputPoll i2c s = hidPollI2c i2c s := by
    rw [hidKbPoll, h.initialised, if_neg (by decide), h.backend]
  rw [hpoll, hidPollI2c, h.addr]
  rw [goodReport] at hkeys ⊢
  cases hbuf : i2c i2cAddr regSel with
  | none =>
    dsimp only
    split <;> exact ⟨h, rfl, pollOk_nil⟩
  | some buf =>
    dsimp only
    by_cases hlen : buf.len = 0
    · rw [if_pos hlen, Option.filter_some, if_neg (by simpa using hlen)]
      exact ⟨h, rfl, pollOk_nil⟩
    rw [hbuf, Option.filter_some, if_pos (by simpa using hlen)] at hkeys
    rw [if_neg hlen, Option.filter_some, if_pos (by simpa using hlen), Option.some_or, modCalls_eq,
      keyCalls_eq, keyCalls_eq, Calls.extend_extend, Calls.extend_extend]
    have hnew := hkeys buf rfl
    refine ⟨⟨h.backend, h.initialised, h.addr, rfl, hnew⟩, ?_, pollOk_pollEvents hnew h.keys⟩
    rw [← h.held]
    exact replay_pollEvents hnew h.keys

/-- A run of polls from any keyboard. -/
theorem hidRun_spec {bus : List I2c} {last : Option Report} {s : State}
    (h : KeyboardOk i2cAddr last s.kb) (hkeys : ∀ i2c ∈ bus, ∀ buf,
      goodReport i2cAddr i2c = some buf → ∀ i, ¬ IsModifier (buf.keys i)) :
    replay ((hidRun virtioInputPoll bus s).flatMap Calls.calls) (heldBy last) =
        heldBy ((bus.filterMap (goodReport i2cAddr)).getLast?.or last) ∧
      ∀ c ∈ hidRun virtioInputPoll bus s, PollOk c := by
  induction bus generalizing last s with
  | nil => exact ⟨rfl, fun c hc => (by cases hc)⟩
  | cons i2c bus ih =>
    obtain ⟨hkb, hcalls, hok⟩ := hidKbPoll_spec h (hkeys i2c List.mem_cons_self)
    obtain ⟨hrest, hoks⟩ := ih hkb fun i2c' hi => hkeys i2c' (List.mem_cons_of_mem i2c hi)
    refine ⟨?_, List.forall_mem_cons.2 ⟨hok, hoks⟩⟩
    rw [hidRun, List.flatMap_cons, replay_append, hcalls, hrest, List.filterMap_cons]
    cases goodReport i2cAddr i2c with
    | none => rfl
    | some buf =>
      rw [List.getLast?_cons]
      cases (bus.filterMap (goodReport i2cAddr)).getLast? <;> rfl

/-! ## Main results -/

/-- **The events reconstruct the keyboard.** After any sequence of polls, replaying all callbacks on
the empty set gives the keys and modifiers that are down in the last good report; in each poll the
releases of keys precede the presses, and the count is that of the callbacks. -/
theorem hid_events {bus : List I2c} (hkeys : ∀ i2c ∈ bus, ∀ buf,
      goodReport i2cAddr i2c = some buf → ∀ i, ¬ IsModifier (buf.keys i)) :
    replay ((hidRun virtioInputPoll bus ⟨hidKbInit i2cAddr, false, []⟩).flatMap Calls.calls) ∅ =
        heldBy (bus.filterMap (goodReport i2cAddr)).getLast? ∧
      ∀ c ∈ hidRun virtioInputPoll bus ⟨hidKbInit i2cAddr, false, []⟩, PollOk c := by
  refine (hidRun_spec (s := ⟨hidKbInit i2cAddr, false, []⟩) (keyboardOk_init i2cAddr) hkeys).imp_left
    fun h => ?_
  rwa [Option.or_none] at h

end

/-- A bus whose device answers with a report of its length, a modifier and two keys. -/
def pressing (len mod key₁ key₂ : UInt8) : I2c :=
  fun _ _ => some fun i => [len, 0, mod, 0, key₁, key₂, 0, 0, 0, 0].getD i 0

/-- Shift and two keys go down; no report, and a failed transaction; one key is another one, and the
keys are in other slots. -/
def typing : List I2c :=
  [pressing 10 0x02 4 5, pressing 0 0 0 0, fun _ _ => none, pressing 10 0x00 6 4]

theorem hid_events_typing :
    replay ((hidRun (fun _ => ⟨[], 0⟩) typing ⟨hidKbInit 0x08, false, []⟩).flatMap Calls.calls) ∅ =
        heldBy (typing.filterMap (goodReport 0x08)).getLast? ∧
      hidRun (fun _ => ⟨[], 0⟩) typing ⟨hidKbInit 0x08, false, []⟩ =
        [⟨[(0xE1, true), (4, true), (5, true)], 3⟩, ⟨[], 0⟩, ⟨[], 0⟩,
          ⟨[(0xE1, false), (5, false), (6, true)], 3⟩] := by
  refine ⟨(hid_events ?_).1, by decide⟩
  intro i2c hi buf hbuf
  have hxact : i2c 0x08 regSel = some buf := (Option.filter_eq_some_iff.1 hbuf).1
  simp only [typing, List.mem_cons, List.not_mem_nil, or_false] at hi
  unfold IsModifier
  rcases hi with rfl | rfl | rfl | rfl
  · obtain rfl := Option.some.inj hxact
    decide
  · obtain rfl := Option.some.inj hxact
    decide
  · cases hxact
  · obtain rfl := Option.some.inj hxact
    decide

end RvvmHal.Hid
