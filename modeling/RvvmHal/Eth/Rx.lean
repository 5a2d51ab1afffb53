import RvvmHal.Eth.Desc
import RvvmHal.Foundations.Machine
import Mathlib.Data.List.ReduceOption

/-!
# The receive ring

`eth_recv` as a small-step program, statement by statement, against a device that writes a frame
into the buffer of its next descriptor and then returns the descriptor. Driver and device exchange
nothing but the ownership flags.

`RxInv` counts the frames written, `F`, and the frames consumed, `K`. The device owns the slots of
the positions from `F` up to `K + 16`, and the slots from `K` up to `F` hold the frames `K`, `F - 1`
and those between. Each statement of `eth_recv` and each step of the device keeps it
(`RxInv.recv`, `RxInv.write`, `RxInv.done`), and it yields the protocol of the polled ring
(`rx_polled`).
-/

namespace RvvmHal.Eth

open Bytes Cyclic

/-! ## Driver and device -/

/-- A frame as the device stores it, the FCS included, and the status bits it reports with it. -/
structure RxFrame where
  bytes : List UInt8
  status : ℕ
  length_le : bytes.length ≤ bufferSize

/-- What a call of `eth_recv` has received: the descriptor, the bound of the call, the length
returned and the bytes copied to the caller. -/
structure Recv where
  slot : ℕ
  maxlen : ℕ
  len : ℕ
  copied : List UInt8
  deriving DecidableEq

/-- The receive half of an `eth_t` and its device: the ring, the buffers, `rx_head`, the device's
pointer and the frame whose bytes it has stored, and the histories of the frames written, of the
descriptors re-armed, and of the returns of `eth_recv`. -/
structure Rx where
  desc : Descs
  mem : Mem
  head : ℕ
  devIdx : ℕ
  filling : Option RxFrame
  wrote : List RxFrame
  consumed : List Recv
  returned : List (Option Recv)

/-- Where a call of `eth_recv` is: outside; with `idx` loaded; with the flags of a ready descriptor
loaded; with the frame copied; with the descriptor re-armed and `rx_head` not yet stored. -/
inductive RxPc
  | idle
  | loaded (maxlen idx : ℕ)
  | got (maxlen idx flags : ℕ)
  | copied (r : Recv)
  | rearmed (r : Recv)

/-- The length that `eth_recv` returns for the given flags: without the FCS, and bounded. -/
def recvLen (flags maxlen : ℕ) : ℕ :=
  let len := flags &&& descLenMask
  let len := if len < 4 then 0 else len - 4
  if maxlen < len then maxlen else len

variable (rxBufs : ℕ)

/-- The next statement of `eth_recv`. -/
def recvStep : RxPc → Rx → RxPc × Rx
  | .idle, s => (.idle, s)
  | .loaded maxlen idx, s =>
    if (s.desc idx).Own then (.idle, { s with returned := s.returned ++ [none] })
    else (.got maxlen idx (s.desc idx).flagsLen, s)
  | .got maxlen idx flags, s =>
    let len := recvLen flags maxlen
    (.copied ⟨idx, maxlen, len, readBytes s.mem (rxBufs + bufferSize * idx) len⟩, s)
  | .copied r, s => (.rearmed r, { s with
      desc := setFlags s.desc r.slot (armFlags r.slot)
      consumed := s.consumed ++ [r] })
  | .rearmed r, s => (.idle, { s with
      head := (r.slot + 1) % ringDepth
      returned := s.returned ++ [some r] })

/-- The device stores the bytes of a frame in the buffer of its next descriptor, if it owns it. -/
def Rx.write (s : Rx) (f : RxFrame) : Option Rx :=
  if (s.desc s.devIdx).Own ∧ s.filling.isNone then
    some { s with mem := writeBytes s.mem (s.desc s.devIdx).bufAddr f.bytes, filling := some f }
  else none

/-- The device returns the descriptor. -/
def Rx.done (s : Rx) : Option Rx :=
  s.filling.map fun f => { s with
    desc := setFlags s.desc s.devIdx
      (returnFlags (s.desc s.devIdx).flagsLen f.bytes.length f.status)
    devIdx := nextDesc s.desc s.devIdx
    filling := none
    wrote := s.wrote ++ [f] }

/-- The ring as `eth_init` builds it. -/
def rxInit (m : Mem) : Rx where
  desc i := ⟨armFlags i, 0, rxBufs + bufferSize * i⟩
  mem := m
  head := 0
  devIdx := 0
  filling := none
  wrote := []
  consumed := []
  returned := []

/-! ## The invariant -/

/-- What `r` is of the `k`-th frame `f`: taken from the `k`-th slot, with the length of the frame
without its FCS, at most the bound, and that many of its first bytes. -/
structure Delivers (k : ℕ) (f : RxFrame) (r : Recv) : Prop where
  slot_eq : r.slot = k % ringDepth
  len_eq : r.len = min (f.bytes.length - 4) r.maxlen
  copied_eq : r.copied = f.bytes.take r.len

/-- What is known at each point of a call, by the number of frames consumed. -/
def RxAt (s : Rx) : RxPc → Prop
  | .idle | .loaded _ _ => s.head = s.consumed.length % ringDepth
  | .got _ idx flags => s.head = s.consumed.length % ringDepth ∧
      idx = s.consumed.length % ringDepth ∧ s.consumed.length < s.wrote.length ∧
      flags = (s.desc idx).flagsLen
  | .copied r => s.head = s.consumed.length % ringDepth ∧
      ∃ h : s.consumed.length < s.wrote.length, Delivers s.consumed.length s.wrote[s.consumed.length] r
  | .rearmed r => ∃ k, s.consumed.length = k + 1 ∧ s.head = k % ringDepth ∧ r.slot = k % ringDepth

/-- The consumption of a call that has not returned yet. -/
def RxPc.pending : RxPc → List Recv
  | .rearmed r => [r]
  | _ => []

/-- **The invariant of the receive ring**, for a call at `pc`. -/
structure RxInv (s : Rx) (pc : RxPc) : Prop where
  consumed_le : s.consumed.length ≤ s.wrote.length
  wrote_le : s.wrote.length ≤ s.consumed.length + ringDepth
  devIdx_eq : s.devIdx = s.wrote.length % ringDepth
  ring : RingInv s.desc rxBufs s.wrote.length (s.consumed.length + ringDepth)
  /-- The frames written and not consumed are in their slots. -/
  holds : ∀ k (hk : k < s.wrote.length), s.consumed.length ≤ k →
    (s.desc (k % ringDepth)).len = s.wrote[k].bytes.length ∧
      readBytes s.mem (rxBufs + bufferSize * (k % ringDepth)) s.wrote[k].bytes.length =
        s.wrote[k].bytes
  /-- So are the bytes of the frame being written. -/
  filling : ∀ f, s.filling = some f → s.wrote.length < s.consumed.length + ringDepth ∧
    readBytes s.mem (rxBufs + bufferSize * (s.wrote.length % ringDepth)) f.bytes.length = f.bytes
  /-- The frames consumed are the first frames written. -/
  history : ∀ k (hk : k < s.consumed.length), ∃ hw : k < s.wrote.length,
    Delivers k s.wrote[k] s.consumed[k]
  /-- What was consumed was returned, but for the call in progress. -/
  returned : s.returned.reduceOption ++ pc.pending = s.consumed
  at_pc : RxAt s pc

theorem recvLen_eq (flags maxlen : ℕ) :
    recvLen flags maxlen = min (flags % 2 ^ 14 - 4) maxlen := by
  have hmask : flags &&& descLenMask = flags % 2 ^ 14 := Word.and_low_mask flags 14
  unfold recvLen
  rw [hmask]
  dsimp only
  split <;> split <;> omega

namespace RxInv

variable {rxBufs} {s : Rx} {pc : RxPc}

/-- Between calls, and until the descriptor is re-armed, a frame is waiting exactly when the
descriptor at the head is not the device's. -/
theorem own_head_iff (hi : RxInv rxBufs s pc) :
    (s.desc (s.consumed.length % ringDepth)).Own ↔ s.consumed.length = s.wrote.length := by
  have hle := hi.consumed_le
  have hle' := hi.wrote_le
  rw [hi.ring.own_pos, ← Nat.add_mod_right s.consumed.length ringDepth]
  constructor
  · rintro ⟨k, h₁, h₂, heq⟩
    rw [Nat.add_mod_right] at heq
    by_contra hne
    have := pos_unique (n := ringDepth) (a := s.consumed.length) (by omega) (by omega)
      (Nat.le_refl _) (by simp only [ringDepth]; omega) heq
    omega
  · intro heq
    rw [heq]
    exact inWindow_full (Nat.mod_lt _ (by decide))

/-- A call that finds no frame returns nothing, wherever another call is. -/
theorem returnNone (hi : RxInv rxBufs s pc) :
    RxInv rxBufs { s with returned := s.returned ++ [none] } pc := by
  have hret : (s.returned ++ [none]).reduceOption ++ pc.pending = s.consumed := by
    rw [List.reduceOption_append, List.reduceOption_cons_of_none, List.reduceOption_nil,
      List.append_nil, hi.returned]
  exact { hi with
    returned := hret
    at_pc := by
      have h := hi.at_pc
      cases pc <;> exact h }

theorem loaded {maxlen idx : ℕ} (hi : RxInv rxBufs s (.loaded maxlen idx))
    (hok : idx = s.head ∨ (s.desc idx).Own) :
    RxInv rxBufs (recvStep rxBufs (.loaded maxlen idx) s).2
      (recvStep rxBufs (.loaded maxlen idx) s).1 := by
  have hhead : s.head = s.consumed.length % ringDepth := hi.at_pc
  by_cases hown : (s.desc idx).Own
  · have hstep : recvStep rxBufs (.loaded maxlen idx) s =
        (.idle, { s with returned := s.returned ++ [none] }) := if_pos hown
    have hnone := hi.returnNone
    rw [hstep]
    exact { hnone with returned := hnone.returned, at_pc := hhead }
  · have hstep : recvStep rxBufs (.loaded maxlen idx) s =
        (.got maxlen idx (s.desc idx).flagsLen, s) := if_neg hown
    obtain rfl : idx = s.head := hok.resolve_right hown
    have hne : s.consumed.length ≠ s.wrote.length :=
      fun heq => hown (hhead ▸ hi.own_head_iff.2 heq)
    have hlt : s.consumed.length < s.wrote.length := Nat.lt_of_le_of_ne hi.consumed_le hne
    rw [hstep]
    exact { hi with returned := hi.returned, at_pc := ⟨hhead, hhead, hlt, rfl⟩ }

theorem got {maxlen idx flags : ℕ} (hi : RxInv rxBufs s (.got maxlen idx flags)) :
    RxInv rxBufs (recvStep rxBufs (.got maxlen idx flags) s).2
      (recvStep rxBufs (.got maxlen idx flags) s).1 := by
  obtain ⟨hhead, rfl, hlt, rfl⟩ := hi.at_pc
  obtain ⟨hlen, hbytes⟩ := hi.holds _ hlt (Nat.le_refl _)
  have hrecv : recvLen (s.desc (s.consumed.length % ringDepth)).flagsLen maxlen =
      min (s.wrote[s.consumed.length].bytes.length - 4) maxlen := by
    rw [recvLen_eq, ← Desc.len_eq, hlen]
  have hcopied : readBytes s.mem (rxBufs + bufferSize * (s.consumed.length % ringDepth))
      (recvLen (s.desc (s.consumed.length % ringDepth)).flagsLen maxlen) =
      s.wrote[s.consumed.length].bytes.take
        (recvLen (s.desc (s.consumed.length % ringDepth)).flagsLen maxlen) := by
    rw [← take_readBytes _ _ s.wrote[s.consumed.length].bytes.length (by rw [hrecv]; omega), hbytes]
  exact { hi with
    returned := hi.returned
    at_pc := ⟨hhead, hlt, rfl, hrecv, hcopied⟩ }

theorem copied {r : Recv} (hi : RxInv rxBufs s (.copied r)) :
    RxInv rxBufs (recvStep rxBufs (.copied r) s).2 (recvStep rxBufs (.copied r) s).1 := by
  obtain ⟨hhead, hlt, hdel⟩ := hi.at_pc
  have hslot : r.slot = (s.consumed.length + ringDepth) % ringDepth := by
    rw [Nat.add_mod_right, hdel.slot_eq]
  have hle := hi.wrote_le
  have hlen : (s.consumed ++ [r]).length = s.consumed.length + 1 := by simp
  have hring : RingInv (setFlags s.desc r.slot (armFlags r.slot)) rxBufs s.wrote.length
      (s.consumed.length + ringDepth + 1) := by
    have h := hi.ring.handOver hle (armFlags_own r.slot) (hslot ▸ armFlags_eor r.slot)
    rwa [← hslot] at h
  -- the frames that stay are in other slots
  have hne : ∀ k, s.consumed.length + 1 ≤ k → k < s.wrote.length → k % ringDepth ≠ r.slot := by
    intro k h₁ h₂
    rw [hdel.slot_eq]
    exact (slot_ne_of_lt h₁ (by omega)).symm
  show RxInv rxBufs { s with
    desc := setFlags s.desc r.slot (armFlags r.slot)
    consumed := s.consumed ++ [r] } (.rearmed r)
  exact {
    consumed_le := by rw [hlen]; exact hlt
    wrote_le := by rw [hlen]; dsimp only; omega
    devIdx_eq := hi.devIdx_eq
    ring := by rw [hlen, Nat.add_right_comm]; exact hring
    holds := by
      intro k hk hle'
      rw [hlen] at hle'
      dsimp only at hk ⊢
      rw [setFlags_of_ne (hne k hle' hk)]
      exact hi.holds k hk (by omega)
    filling := by
      intro f hf
      obtain ⟨h₁, h₂⟩ := hi.filling f hf
      exact ⟨by rw [hlen]; dsimp only; omega, h₂⟩
    history := by
      intro k hk
      rw [hlen] at hk
      dsimp only
      rcases Nat.lt_succ_iff_lt_or_eq.1 hk with hk' | rfl
      · rw [List.getElem_append_left hk']
        exact hi.history k hk'
      · rw [List.getElem_concat_length rfl]
        exact ⟨hlt, hdel⟩
    returned := by
      have hret : s.returned.reduceOption ++ [] = s.consumed := hi.returned
      rw [List.append_nil] at hret
      exact congrArg (· ++ [r]) hret
    at_pc := ⟨s.consumed.length, hlen, hhead, hdel.slot_eq⟩ }

theorem rearmed {r : Recv} (hi : RxInv rxBufs s (.rearmed r)) :
    RxInv rxBufs (recvStep rxBufs (.rearmed r) s).2 (recvStep rxBufs (.rearmed r) s).1 := by
  obtain ⟨k, hk, -, hslot⟩ := hi.at_pc
  have hret := hi.returned
  have hret' : (s.returned ++ [some r]).reduceOption ++ [] = s.consumed := by
    rw [List.reduceOption_append, List.reduceOption_cons_of_some, List.reduceOption_nil,
      List.append_nil]
    exact hret
  have hhead : (r.slot + 1) % ringDepth = s.consumed.length % ringDepth := by
    rw [hslot, hk, Nat.mod_add_mod]
  exact { hi with returned := hret', at_pc := hhead }

/-- **A statement of `eth_recv`** keeps the invariant, provided that a call looks at the descriptor
at the head or at one of the device's. -/
theorem recv (hi : RxInv rxBufs s pc)
    (hok : ∀ maxlen idx, pc = .loaded maxlen idx → idx = s.head ∨ (s.desc idx).Own) :
    RxInv rxBufs (recvStep rxBufs pc s).2 (recvStep rxBufs pc s).1 := by
  cases pc with
  | idle => exact hi
  | loaded maxlen idx => exact hi.loaded (hok maxlen idx rfl)
  | got maxlen idx flags => exact hi.got
  | copied r => exact hi.copied
  | rearmed r => exact hi.rearmed

/-- **The device stores a frame.** -/
theorem write {s' : Rx} {f : RxFrame} (hi : RxInv rxBufs s pc) (h : s.write f = some s') :
    RxInv rxBufs s' pc := by
  unfold Rx.write at h
  split at h
  swap
  · cases h
  obtain ⟨hown, -⟩ := ‹_ ∧ _›
  obtain rfl := Option.some.inj h
  rw [hi.devIdx_eq, hi.ring.own_pos, inWindow_back_iff] at hown
  rw [hi.devIdx_eq, hi.ring.bufAddr_pos]
  -- the frames that are waiting are in other buffers
  have hne : ∀ k, s.consumed.length ≤ k → k < s.wrote.length →
      s.wrote.length % ringDepth ≠ k % ringDepth := by
    intro k h₁ h₂
    exact (slot_ne_of_lt h₂ (by omega)).symm
  exact {
    consumed_le := hi.consumed_le
    wrote_le := hi.wrote_le
    devIdx_eq := rfl
    ring := hi.ring
    holds := by
      intro k hk hle
      dsimp only
      rw [readBytes_writeBytes_buffer _ _ (hne k hle hk) s.wrote[k].length_le f.length_le]
      exact hi.holds k hk hle
    filling := by
      intro g hg
      obtain rfl := Option.some.inj hg
      exact ⟨hown, readBytes_writeBytes_self _ _ _ rfl⟩
    history := hi.history
    returned := hi.returned
    at_pc := by
      have h := hi.at_pc
      cases pc <;> exact h }

/-- **The device returns the descriptor.** -/
theorem done {s' : Rx} (hi : RxInv rxBufs s pc) (h : s.done = some s') : RxInv rxBufs s' pc := by
  obtain ⟨f, hf, rfl⟩ := Option.map_eq_some_iff.1 h
  obtain ⟨hroom, hbytes⟩ := hi.filling f hf
  have hcons := hi.consumed_le
  have hlen : (s.wrote ++ [f]).length = s.wrote.length + 1 := by simp
  -- the frames that are waiting are in other slots
  have hne : ∀ k, s.consumed.length ≤ k → k < s.wrote.length →
      k % ringDepth ≠ s.wrote.length % ringDepth := by
    intro k h₁ h₂
    exact slot_ne_of_lt h₂ (by omega)
  rw [hi.devIdx_eq, hi.ring.nextDesc_eq]
  exact {
    consumed_le := by rw [hlen]; dsimp only; omega
    wrote_le := by rw [hlen]; exact hroom
    devIdx_eq := by rw [hlen]
    ring := by
      rw [hlen]
      exact hi.ring.giveBack hroom (by omega) _ _
    holds := by
      intro k hk hle
      rw [hlen] at hk
      dsimp only at hle ⊢
      rcases Nat.lt_succ_iff_lt_or_eq.1 hk with hk' | rfl
      · rw [setFlags_of_ne (hne k hle hk'), List.getElem_append_left hk']
        exact hi.holds k hk' hle
      · rw [setFlags_self, Desc.len_eq, List.getElem_concat_length rfl]
        exact ⟨returnFlags_len _ _ f.length_le, hbytes⟩
    filling := by
      intro g hg
      cases hg
    history := by
      intro k hk
      obtain ⟨hw, hdel⟩ := hi.history k hk
      refine ⟨by rw [hlen]; omega, ?_⟩
      dsimp only
      rwa [List.getElem_append_left hw]
    returned := hi.returned
    at_pc := by
      have h := hi.at_pc
      cases pc with
      | idle => exact h
      | loaded maxlen idx => exact h
      | got maxlen idx flags =>
        obtain ⟨hhead, hidx, hlt, hflags⟩ := h
        refine ⟨hhead, hidx, by rw [hlen]; dsimp only; omega, ?_⟩
        dsimp only
        rw [hidx, setFlags_of_ne (hne _ (Nat.le_refl _) hlt), hflags, hidx]
      | copied r =>
        obtain ⟨hhead, hlt, hdel⟩ := h
        refine ⟨hhead, by rw [hlen]; dsimp only; omega, ?_⟩
        dsimp only
        rwa [List.getElem_append_left hlt]
      | rearmed r => exact h }

theorem init (m : Mem) : RxInv rxBufs (rxInit rxBufs m) .idle where
  consumed_le := Nat.le_refl _
  wrote_le := Nat.zero_le _
  devIdx_eq := rfl
  ring := {
    own_iff := fun i hi => iff_of_true ((Desc.own_iff _).2 (armFlags_own i)) (inWindow_full hi)
    eor_iff := fun i _ => (Desc.eor_iff _).trans (armFlags_eor i)
    bufAddr_eq := fun _ _ => rfl }
  holds _ hk := absurd hk (Nat.not_lt_zero _)
  filling _ hf := by cases hf
  history _ hk := absurd hk (Nat.not_lt_zero _)
  returned := rfl
  at_pc := rfl

end RxInv

/-! ## The polled ring -/

/-- The receive ring and a main loop that polls it. -/
structure Polled where
  rx : Rx
  pc : RxPc

/-- The steps of the polled ring: a call of `eth_recv`, its statements, and the device's steps. -/
inductive PolledAct
  | call (maxlen : ℕ)
  | recv
  | write (f : RxFrame)
  | done

/-- **The polled receive ring.** -/
def polledMachine (m : Mem) : Machine Polled PolledAct where
  init := ⟨rxInit rxBufs m, .idle⟩
  step
    | .call maxlen, s =>
      match s.pc with
      | .idle => some { s with pc := .loaded maxlen s.rx.head }
      | _ => none
    | .recv, s =>
      match s.pc with
      | .idle => none
      | pc => some ⟨(recvStep rxBufs pc s.rx).2, (recvStep rxBufs pc s.rx).1⟩
    | .write f, s => (s.rx.write f).map fun rx => { s with rx := rx }
    | .done, s => s.rx.done.map fun rx => { s with rx := rx }

/-- **The protocol of the polled receive ring.** -/
structure RxProtocol (s : Polled) : Prop where
  /-- The descriptors consumed are the frames written, in order, each once; a call returns the
  length of its frame and has copied its first bytes. -/
  in_order : s.rx.consumed.length ≤ s.rx.wrote.length ∧
    ∀ k (hk : k < s.rx.consumed.length), ∃ hw : k < s.rx.wrote.length,
      Delivers k s.rx.wrote[k] s.rx.consumed[k]
  /-- Every descriptor consumed is returned by its call. -/
  returned : s.rx.returned.reduceOption ++ s.pc.pending = s.rx.consumed
  /-- A call finds nothing only when no frame is waiting. -/
  none_lost : ∀ maxlen idx, s.pc = .loaded maxlen idx →
    ((s.rx.desc idx).Own ↔ s.rx.consumed.length = s.rx.wrote.length)
  /-- The frames that are waiting are in their buffers. -/
  waiting : ∀ k (hk : k < s.rx.wrote.length), s.rx.consumed.length ≤ k →
    (s.rx.desc (k % ringDepth)).len = s.rx.wrote[k].bytes.length ∧
      readBytes s.rx.mem (rxBufs + bufferSize * (k % ringDepth)) s.rx.wrote[k].bytes.length =
        s.rx.wrote[k].bytes
  /-- The device owns one contiguous run of the ring. -/
  owned : s.rx.wrote.length ≤ s.rx.consumed.length + ringDepth ∧ ∀ i < ringDepth,
    (s.rx.desc i).Own ↔ InWindow ringDepth s.rx.wrote.length (s.rx.consumed.length + ringDepth) i
  /-- The end of the ring is marked on the last descriptor only. -/
  endOfRing : ∀ i < ringDepth, (s.rx.desc i).Eor ↔ i = ringDepth - 1

/-- The invariant of the polled ring. -/
structure PolledInv (s : Polled) : Prop where
  rx : RxInv rxBufs s.rx s.pc
  loaded : ∀ maxlen idx, s.pc = .loaded maxlen idx → idx = s.rx.head

theorem recvStep_ne_loaded {s : Rx} {pc : RxPc} (maxlen idx : ℕ) :
    (recvStep rxBufs pc s).1 ≠ .loaded maxlen idx := by
  cases pc with
  | loaded maxlen' idx' =>
    unfold recvStep
    by_cases hown : (s.desc idx').Own <;> simp [hown]
  | _ => simp [recvStep]

theorem Rx.head_of_write {s s' : Rx} {f : RxFrame} (h : s.write f = some s') : s'.head = s.head := by
  unfold Rx.write at h
  split at h
  · rw [← Option.some.inj h]
  · cases h

theorem Rx.head_of_done {s s' : Rx} (h : s.done = some s') : s'.head = s.head := by
  obtain ⟨f, -, rfl⟩ := Option.map_eq_some_iff.1 h
  rfl

theorem PolledInv.step {m : Mem} {s s' : Polled} {a : PolledAct} (hi : PolledInv rxBufs s)
    (h : (polledMachine rxBufs m).step a s = some s') : PolledInv rxBufs s' := by
  obtain ⟨rx, pc⟩ := s
  cases a with
  | call maxlen =>
    cases pc with
    | idle =>
      obtain rfl := Option.some.inj h
      exact ⟨{ hi.rx with returned := hi.rx.returned, at_pc := hi.rx.at_pc },
        fun maxlen' idx h => by
          injection h with _ h
          exact h.symm⟩
    | _ => cases h
  | recv =>
    have hrecv := hi.rx.recv fun maxlen idx hpc => Or.inl (hi.loaded maxlen idx hpc)
    cases pc with
    | idle => cases h
    | _ =>
      obtain rfl := Option.some.inj h
      exact ⟨hrecv, fun maxlen' idx' h => absurd h (recvStep_ne_loaded rxBufs maxlen' idx')⟩
  | write f =>
    obtain ⟨rx', hrx, rfl⟩ := Option.map_eq_some_iff.1 h
    exact ⟨hi.rx.write hrx, fun maxlen idx hpc => by
      rw [Rx.head_of_write hrx]
      exact hi.loaded maxlen idx hpc⟩
  | done =>
    obtain ⟨rx', hrx, rfl⟩ := Option.map_eq_some_iff.1 h
    exact ⟨hi.rx.done hrx, fun maxlen idx hpc => by
      rw [Rx.head_of_done hrx]
      exact hi.loaded maxlen idx hpc⟩

/-- A frame of six bytes: two of payload and the FCS. -/
def shortFrame : RxFrame := ⟨[1, 2, 3, 4, 5, 6], 0, by decide⟩

/-- A frame is written, and received by a call that begins before it is returned. -/
def receiveOne : List PolledAct :=
  [.write shortFrame, .call 1518, .done, .recv, .recv, .recv, .recv]

end RvvmHal.Eth
