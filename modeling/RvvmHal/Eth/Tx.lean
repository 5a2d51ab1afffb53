import RvvmHal.Eth.Desc
import RvvmHal.Foundations.Machine

/-!
# The transmit ring

`eth_send` as a small-step program, statement by statement, against a device that transmits the
frame of its next descriptor and then returns the descriptor. As in the receive ring the two share
ownership flags only, and a full ring differs from an empty one in the flag at `tx_head` alone.

`TxInv` counts the frames handed over, `S`, and the descriptors returned, `C`. The device owns the
slots of the positions from `C` up to `S`, and these hold the frames handed over and not yet
returned. What the device transmits is therefore a prefix of what was accepted (`tx_protocol`).
-/

namespace RvvmHal.Eth

open Bytes Cyclic

/-! ## Driver and device -/

/-- The transmit half of an `eth_t` and its device: the ring, the buffers, `tx_head`, the device's
pointer, whether it has read the frame there, and the histories of the descriptors returned, of the
frames transmitted, and of the returns of `eth_send`. -/
structure Tx where
  desc : Descs
  mem : Mem
  head : ℕ
  devIdx : ℕ
  sending : Bool
  cleared : ℕ
  transmitted : List (List UInt8)
  returned : List (List UInt8 × Bool)

/-- Where a call of `eth_send` is: outside; with `idx` loaded; with the flags of a free descriptor
loaded; with the frame copied; with the descriptor handed over and `tx_head` not yet stored. -/
inductive TxPc
  | idle
  | loaded (frame : List UInt8) (idx : ℕ)
  | free (frame : List UInt8) (idx : ℕ)
  | copied (frame : List UInt8) (idx : ℕ)
  | handed (frame : List UInt8) (idx : ℕ)

variable (txBufs : ℕ)

/-- The next statement of `eth_send`. The kick of the device stores nothing the device does not see
anyway. -/
def sendStep : TxPc → Tx → TxPc × Tx
  | .idle, s => (.idle, s)
  | .loaded frame idx, s =>
    if (s.desc idx).Own then (.idle, { s with returned := s.returned ++ [(frame, false)] })
    else (.free frame idx, s)
  | .free frame idx, s =>
    (.copied frame idx, { s with mem := writeBytes s.mem (txBufs + bufferSize * idx) frame })
  | .copied frame idx, s =>
    (.handed frame idx, { s with desc := setFlags s.desc idx (sendFlags idx frame.length) })
  | .handed frame idx, s =>
    (.idle, { s with
      head := (idx + 1) % ringDepth
      returned := s.returned ++ [(frame, true)] })

/-- The device reads and transmits the frame of its next descriptor, if it owns it. -/
def Tx.transmit (s : Tx) : Option Tx :=
  if (s.desc s.devIdx).Own ∧ s.sending = false then
    some { s with
      sending := true
      transmitted := s.transmitted ++
        [readBytes s.mem (s.desc s.devIdx).bufAddr (s.desc s.devIdx).len] }
  else none

/-- The device returns the descriptor, with the bits other than ownership and end of ring as it
likes. -/
def Tx.clear (s : Tx) (len status : ℕ) : Option Tx :=
  if s.sending then
    some { s with
      desc := setFlags s.desc s.devIdx (returnFlags (s.desc s.devIdx).flagsLen len status)
      devIdx := nextDesc s.desc s.devIdx
      sending := false
      cleared := s.cleared + 1 }
  else none

/-- The ring as `eth_init` builds it. -/
def txInit (m : Mem) : Tx where
  desc i := ⟨idleFlags i, 0, txBufs + bufferSize * i⟩
  mem := m
  head := 0
  devIdx := 0
  sending := false
  cleared := 0
  transmitted := []
  returned := []

/-- The transmit ring and a caller. -/
structure Sender where
  tx : Tx
  pc : TxPc

/-- The steps: a call of `eth_send`, its statements, and the device's steps. -/
inductive SendAct
  | call (frame : List UInt8)
  | send
  | transmit
  | clear (len status : ℕ)

/-- A call of `eth_send` begins, and returns at once if the frame is out of range. -/
def Sender.call (s : Sender) (frame : List UInt8) : Option Sender :=
  match s.pc with
  | .idle =>
    if frame.length = 0 ∨ bufferSize < frame.length then
      some { s with tx := { s.tx with returned := s.tx.returned ++ [(frame, false)] } }
    else some { s with pc := .loaded frame s.tx.head }
  | _ => none

/-- A statement of the call. -/
def Sender.send (s : Sender) : Option Sender :=
  match s.pc with
  | .idle => none
  | pc => some ⟨(sendStep txBufs pc s.tx).2, (sendStep txBufs pc s.tx).1⟩

/-- **The transmit ring.** -/
def senderMachine (m : Mem) : Machine Sender SendAct where
  init := ⟨txInit txBufs m, .idle⟩
  step
    | .call frame, s => s.call frame
    | .send, s => s.send txBufs
    | .transmit, s => s.tx.transmit.map fun tx => { s with tx := tx }
    | .clear len status, s => (s.tx.clear len status).map fun tx => { s with tx := tx }

/-! ## The invariant -/

/-- The frames for which `eth_send` has returned true. -/
def Tx.accepted (s : Tx) : List (List UInt8) := (s.returned.filter (·.2)).map (·.1)

/-- The frame of a call that has handed it over and not returned yet. -/
def TxPc.pending : TxPc → List (List UInt8)
  | .handed frame _ => [frame]
  | _ => []

/-- The frames handed over to the device. -/
def Tx.sent (s : Tx) (pc : TxPc) : List (List UInt8) := s.accepted ++ pc.pending

/-- What is known at each point of a call, by the number `k` of frames handed over. -/
def TxAt (s : Tx) (k : ℕ) : TxPc → Prop
  | .idle => s.head = k % ringDepth
  | .loaded frame idx => s.head = k % ringDepth ∧ idx = k % ringDepth ∧ frame.length ≤ bufferSize
  | .free frame idx => s.head = k % ringDepth ∧ idx = k % ringDepth ∧ frame.length ≤ bufferSize ∧
      k < s.cleared + ringDepth
  | .copied frame idx => s.head = k % ringDepth ∧ idx = k % ringDepth ∧
      frame.length ≤ bufferSize ∧ k < s.cleared + ringDepth ∧
      readBytes s.mem (txBufs + bufferSize * idx) frame.length = frame
  | .handed _ idx => ∃ j, k = j + 1 ∧ s.head = j % ringDepth ∧ idx = j % ringDepth

/-- **The invariant of the transmit ring**, for a call at `pc`. -/
structure TxInv (s : Tx) (pc : TxPc) : Prop where
  cleared_le : s.cleared ≤ (s.sent pc).length
  sent_le : (s.sent pc).length ≤ s.cleared + ringDepth
  devIdx_eq : s.devIdx = s.cleared % ringDepth
  ring : RingInv s.desc txBufs s.cleared (s.sent pc).length
  /-- The frames handed over and not returned are in their slots. -/
  holds : ∀ k (hk : k < (s.sent pc).length), s.cleared ≤ k →
    (s.desc (k % ringDepth)).len = ((s.sent pc)[k]).length ∧
      readBytes s.mem (txBufs + bufferSize * (k % ringDepth)) ((s.sent pc)[k]).length =
        (s.sent pc)[k]
  bounded : ∀ f ∈ s.sent pc, f.length ≤ bufferSize
  /-- The device has transmitted the frames of the descriptors it returned, and the one it holds. -/
  transmitted_len : s.transmitted.length = s.cleared + s.sending.toNat
  transmitted_prefix : s.transmitted <+: s.sent pc
  at_pc : TxAt txBufs s (s.sent pc).length pc

theorem Tx.accepted_append (s : Tx) (frame : List UInt8) (ok : Bool) :
    ({ s with returned := s.returned ++ [(frame, ok)] } : Tx).accepted =
      s.accepted ++ if ok then [frame] else [] := by
  cases ok <;> simp [Tx.accepted]

namespace TxInv

variable {txBufs} {s s' : Tx} {pc pc' : TxPc}

/-- The descriptor at the head is the device's exactly when the ring is full. -/
theorem own_head_iff (hi : TxInv txBufs s pc) :
    (s.desc ((s.sent pc).length % ringDepth)).Own ↔
      (s.sent pc).length = s.cleared + ringDepth := by
  rw [hi.ring.own_pos, inWindow_front_iff hi.cleared_le hi.sent_le (by decide)]

/-- And then all of them are. -/
theorem own_head_iff_all (hi : TxInv txBufs s pc) :
    (s.desc ((s.sent pc).length % ringDepth)).Own ↔ ∀ i < ringDepth, (s.desc i).Own := by
  refine ⟨fun hown i hlt => ?_, fun hall => hall _ (Nat.mod_lt _ (by decide))⟩
  rw [hi.ring.own_iff i hlt, hi.own_head_iff.1 hown]
  exact inWindow_full hlt

/-- A step of the call that neither hands over a frame nor writes a buffer. -/
theorem congr (hi : TxInv txBufs s pc) (hsent : s'.sent pc' = s.sent pc) (hdesc : s'.desc = s.desc)
    (hmem : s'.mem = s.mem) (hcleared : s'.cleared = s.cleared) (hdev : s'.devIdx = s.devIdx)
    (hsending : s'.sending = s.sending) (htrans : s'.transmitted = s.transmitted)
    (hat : TxAt txBufs s' (s.sent pc).length pc') : TxInv txBufs s' pc' where
  cleared_le := by rw [hsent, hcleared]; exact hi.cleared_le
  sent_le := by rw [hsent, hcleared]; exact hi.sent_le
  devIdx_eq := by rw [hdev, hcleared]; exact hi.devIdx_eq
  ring := by rw [hsent, hcleared, hdesc]; exact hi.ring
  holds := by rw [hsent, hcleared, hdesc, hmem]; exact hi.holds
  bounded := by rw [hsent]; exact hi.bounded
  transmitted_len := by rw [htrans, hcleared, hsending]; exact hi.transmitted_len
  transmitted_prefix := by rw [htrans, hsent]; exact hi.transmitted_prefix
  at_pc := by rw [hsent]; exact hat

theorem loaded {frame : List UInt8} {idx : ℕ} (hi : TxInv txBufs s (.loaded frame idx)) :
    TxInv txBufs (sendStep txBufs (.loaded frame idx) s).2
      (sendStep txBufs (.loaded frame idx) s).1 := by
  obtain ⟨hhead, hidx, hlen⟩ := hi.at_pc
  by_cases hown : (s.desc idx).Own
  · have hstep : sendStep txBufs (.loaded frame idx) s =
        (.idle, { s with returned := s.returned ++ [(frame, false)] }) := if_pos hown
    have hsent : ({ s with returned := s.returned ++ [(frame, false)] } : Tx).sent .idle =
        s.sent (.loaded frame idx) := by
      rw [Tx.sent, Tx.accepted_append]
      simp [Tx.sent, TxPc.pending]
    rw [hstep]
    exact hi.congr hsent rfl rfl rfl rfl rfl rfl hhead
  · have hstep : sendStep txBufs (.loaded frame idx) s = (.free frame idx, s) := if_neg hown
    have hroom : (s.sent (.loaded frame idx)).length < s.cleared + ringDepth := by
      refine Nat.lt_of_le_of_ne hi.sent_le fun hfull => hown ?_
      rw [hidx]
      exact hi.own_head_iff.2 hfull
    rw [hstep]
    exact hi.congr rfl rfl rfl rfl rfl rfl rfl ⟨hhead, hidx, hlen, hroom⟩

/-- The copy of the frame: the buffer is not that of a descriptor of the device. -/
theorem free {frame : List UInt8} {idx : ℕ} (hi : TxInv txBufs s (.free frame idx)) :
    TxInv txBufs (sendStep txBufs (.free frame idx) s).2
      (sendStep txBufs (.free frame idx) s).1 := by
  obtain ⟨hhead, hidx, hlen, hroom⟩ := hi.at_pc
  have hholds : ∀ k (hk : k < (s.sent (.free frame idx)).length), s.cleared ≤ k →
      readBytes (writeBytes s.mem (txBufs + bufferSize * idx) frame)
        (txBufs + bufferSize * (k % ringDepth)) ((s.sent (.free frame idx))[k]).length =
      (s.sent (.free frame idx))[k] := by
    intro k hk hle
    have hne : idx ≠ k % ringDepth := by
      rw [hidx]
      exact (slot_ne_of_lt hk (by omega)).symm
    rw [readBytes_writeBytes_buffer _ _ hne (hi.bounded _ (List.getElem_mem hk)) hlen]
    exact (hi.holds k hk hle).2
  exact {
    cleared_le := hi.cleared_le
    sent_le := hi.sent_le
    devIdx_eq := hi.devIdx_eq
    ring := hi.ring
    holds := fun k hk hle => ⟨(hi.holds k hk hle).1, hholds k hk hle⟩
    bounded := hi.bounded
    transmitted_len := hi.transmitted_len
    transmitted_prefix := hi.transmitted_prefix
    at_pc := ⟨hhead, hidx, hlen, hroom, readBytes_writeBytes_self _ _ _ rfl⟩ }

/-- The descriptor is handed over. -/
theorem copied {frame : List UInt8} {idx : ℕ} (hi : TxInv txBufs s (.copied frame idx)) :
    TxInv txBufs (sendStep txBufs (.copied frame idx) s).2
      (sendStep txBufs (.copied frame idx) s).1 := by
  obtain ⟨hhead, hidx, hlen, hroom, hbytes⟩ := hi.at_pc
  have hcleared := hi.cleared_le
  have hsent : ({ s with desc := setFlags s.desc idx (sendFlags idx frame.length) } : Tx).sent
      (.handed frame idx) = s.sent (.copied frame idx) ++ [frame] := by
    simp [Tx.sent, Tx.accepted, TxPc.pending]
  have hone : (s.sent (.copied frame idx) ++ [frame]).length =
      (s.sent (.copied frame idx)).length + 1 := by simp
  have hring : RingInv (setFlags s.desc idx (sendFlags idx frame.length)) txBufs s.cleared
      ((s.sent (.copied frame idx)).length + 1) := by
    have h := hi.ring.handOver hcleared (sendFlags_own idx frame.length)
      (hidx ▸ sendFlags_eor idx frame.length)
    rwa [← hidx] at h
  show TxInv txBufs { s with desc := setFlags s.desc idx (sendFlags idx frame.length) }
    (.handed frame idx)
  exact {
    cleared_le := by rw [hsent, hone]; dsimp only; omega
    sent_le := by rw [hsent, hone]; exact hroom
    devIdx_eq := hi.devIdx_eq
    ring := by rw [hsent, hone]; exact hring
    holds := by
      rw [hsent]
      intro k hk hle
      rw [hone] at hk
      dsimp only at hle ⊢
      rcases Nat.lt_succ_iff_lt_or_eq.1 hk with hk' | rfl
      · have hne : k % ringDepth ≠ idx := by
          rw [hidx]
          exact slot_ne_of_lt hk' (by omega)
        rw [setFlags_of_ne hne, List.getElem_append_left hk']
        exact hi.holds k hk' hle
      · rw [← hidx, setFlags_self, Desc.len_eq, List.getElem_concat_length rfl]
        exact ⟨sendFlags_len _ _ hlen, hbytes⟩
    bounded := by
      rw [hsent]
      intro f hf
      rcases List.mem_append.1 hf with hf | hf
      · exact hi.bounded f hf
      · obtain rfl := List.mem_singleton.1 hf
        exact hlen
    transmitted_len := hi.transmitted_len
    transmitted_prefix := by
      rw [hsent]
      exact hi.transmitted_prefix.trans (List.prefix_append _ _)
    at_pc := by
      rw [hsent]
      exact ⟨_, hone, hhead, hidx⟩ }

theorem handed {frame : List UInt8} {idx : ℕ} (hi : TxInv txBufs s (.handed frame idx)) :
    TxInv txBufs (sendStep txBufs (.handed frame idx) s).2
      (sendStep txBufs (.handed frame idx) s).1 := by
  obtain ⟨k, hk, -, hidx⟩ := hi.at_pc
  have hsent : (sendStep txBufs (.handed frame idx) s).2.sent .idle =
      s.sent (.handed frame idx) := by
    simp [sendStep, Tx.sent, Tx.accepted, TxPc.pending]
  refine hi.congr hsent rfl rfl rfl rfl rfl rfl ?_
  show (idx + 1) % ringDepth = (s.sent (.handed frame idx)).length % ringDepth
  rw [hk, hidx, Nat.mod_add_mod]

/-- **A statement of `eth_send`** keeps the invariant. -/
theorem send (hi : TxInv txBufs s pc) :
    TxInv txBufs (sendStep txBufs pc s).2 (sendStep txBufs pc s).1 := by
  cases pc with
  | idle => exact hi
  | loaded frame idx => exact hi.loaded
  | free frame idx => exact hi.free
  | copied frame idx => exact hi.copied
  | handed frame idx => exact hi.handed

/-- **The device transmits a frame.** -/
theorem transmit (hi : TxInv txBufs s pc) (h : s.transmit = some s') : TxInv txBufs s' pc := by
  unfold Tx.transmit at h
  split at h
  swap
  · cases h
  obtain ⟨hown, hsending⟩ := ‹_ ∧ _›
  obtain rfl := Option.some.inj h
  rw [hi.devIdx_eq, hi.ring.own_pos, inWindow_back_iff] at hown
  have htrans : s.transmitted.length = s.cleared := by
    rw [hi.transmitted_len, hsending, Bool.toNat_false, Nat.add_zero]
  obtain ⟨hlen, hbytes⟩ := hi.holds _ hown (Nat.le_refl _)
  rw [hi.devIdx_eq, hi.ring.bufAddr_pos, hlen, hbytes]
  exact {
    cleared_le := hi.cleared_le
    sent_le := hi.sent_le
    devIdx_eq := rfl
    ring := hi.ring
    holds := hi.holds
    bounded := hi.bounded
    transmitted_len := by simp [htrans]
    transmitted_prefix := by
      have hprefix := List.prefix_iff_eq_take.1 hi.transmitted_prefix
      rw [htrans] at hprefix
      rw [List.prefix_iff_eq_take, List.length_append, List.length_singleton, htrans]
      show _ = (s.sent pc).take (s.cleared + 1)
      rw [List.take_succ_eq_append_getElem hown, ← hprefix]
    at_pc := by
      have h := hi.at_pc
      cases pc <;> exact h }

/-- **The device returns a descriptor.** -/
theorem clear {len status : ℕ} (hi : TxInv txBufs s pc) (h : s.clear len status = some s') :
    TxInv txBufs s' pc := by
  unfold Tx.clear at h
  split at h
  swap
  · cases h
  rename_i hsending
  obtain rfl := Option.some.inj h
  have htrans : s.transmitted.length = s.cleared + 1 := by
    rw [hi.transmitted_len, hsending, Bool.toNat_true]
  have hlt : s.cleared < (s.sent pc).length := by
    have := hi.transmitted_prefix.length_le
    omega
  have hle := hi.sent_le
  have hroom : (s.sent pc).length < s.cleared + 1 + ringDepth := by omega
  -- the frames that stay are in other slots
  have hne : ∀ k, s.cleared + 1 ≤ k → k < (s.sent pc).length →
      k % ringDepth ≠ s.cleared % ringDepth := by
    intro k h₁ h₂
    exact (slot_ne_of_lt h₁ (by omega)).symm
  rw [hi.devIdx_eq, hi.ring.nextDesc_eq]
  exact {
    cleared_le := hlt
    sent_le := hroom.le
    devIdx_eq := rfl
    ring := hi.ring.giveBack hlt hle len status
    holds := by
      intro k hk hle'
      dsimp only
      rw [setFlags_of_ne (hne k hle' hk)]
      exact hi.holds k hk (Nat.le_of_succ_le hle')
    bounded := hi.bounded
    transmitted_len := htrans
    transmitted_prefix := hi.transmitted_prefix
    at_pc := by
      have h := hi.at_pc
      cases pc with
      | idle => exact h
      | loaded frame idx => exact h
      | free frame idx => exact ⟨h.1, h.2.1, h.2.2.1, hroom⟩
      | copied frame idx =>
        obtain ⟨hhead, hidx, hlen, -, hbytes⟩ := h
        exact ⟨hhead, hidx, hlen, hroom, hbytes⟩
      | handed frame idx => exact h }

theorem init (m : Mem) : TxInv txBufs (txInit txBufs m) .idle where
  cleared_le := Nat.le_refl _
  sent_le := Nat.zero_le _
  devIdx_eq := rfl
  ring := {
    own_iff := fun i _ => iff_of_false
      (fun h => by
        have := (Desc.own_iff _).1 h
        rw [show (txInit txBufs m).desc i = ⟨idleFlags i, 0, txBufs + bufferSize * i⟩ from rfl,
          idleFlags_own] at this
        cases this) not_inWindow_self
    eor_iff := fun i _ => (Desc.eor_iff _).trans (idleFlags_eor i)
    bufAddr_eq := fun _ _ => rfl }
  holds _ hk := absurd hk (Nat.not_lt_zero _)
  bounded _ hf := absurd hf List.not_mem_nil
  transmitted_len := rfl
  transmitted_prefix := List.prefix_refl _
  at_pc := rfl

end TxInv

/-! ## The protocol -/

/-- **The protocol of the transmit ring.** -/
structure TxProtocol (s : Sender) : Prop where
  /-- The frames transmitted are the first of the frames accepted, the one of a call about to return
  included, -/
  in_order : s.tx.transmitted <+: s.tx.accepted ++ s.pc.pending
  /-- and all of them when the device owns no descriptor. -/
  drained : (∀ i < ringDepth, ¬ (s.tx.desc i).Own) →
    s.tx.transmitted = s.tx.accepted ++ s.pc.pending
  /-- A frame in range is refused exactly when the device owns all descriptors, -/
  refused : ∀ s', s.send txBufs = some s' →
    ((∃ frame, s'.tx.returned = s.tx.returned ++ [(frame, false)]) ↔
      (∃ frame idx, s.pc = .loaded frame idx) ∧ ∀ i < ringDepth, (s.tx.desc i).Own)
  /-- and then nothing changes. -/
  unchanged : ∀ s', s.send txBufs = some s' → ∀ frame,
    s'.tx.returned = s.tx.returned ++ [(frame, false)] →
    s' = ⟨{ s.tx with returned := s'.tx.returned }, .idle⟩
  /-- No step changes a buffer whose descriptor the device owns. -/
  untouched : ∀ m a s', (senderMachine txBufs m).step a s = some s' → ∀ i < ringDepth,
    (s.tx.desc i).Own → readBytes s'.tx.mem (txBufs + bufferSize * i) bufferSize =
      readBytes s.tx.mem (txBufs + bufferSize * i) bufferSize
  /-- The end of the ring is marked on the last descriptor only. -/
  endOfRing : ∀ i < ringDepth, (s.tx.desc i).Eor ↔ i = ringDepth - 1

theorem Sender.inv_step {m : Mem} {s s' : Sender} {a : SendAct} (hi : TxInv txBufs s.tx s.pc)
    (h : (senderMachine txBufs m).step a s = some s') : TxInv txBufs s'.tx s'.pc := by
  obtain ⟨tx, pc⟩ := s
  cases a with
  | call frame =>
    cases pc with
    | idle =>
      simp only [senderMachine, Sender.call] at h
      split at h
      · obtain rfl := Option.some.inj h
        have hsent : ({ tx with returned := tx.returned ++ [(frame, false)] } : Tx).sent .idle =
            tx.sent .idle := by
          rw [Tx.sent, Tx.accepted_append]
          simp [Tx.sent, TxPc.pending]
        exact hi.congr hsent rfl rfl rfl rfl rfl rfl hi.at_pc
      · obtain rfl := Option.some.inj h
        have hhead : tx.head = (tx.sent .idle).length % ringDepth := hi.at_pc
        exact hi.congr rfl rfl rfl rfl rfl rfl rfl ⟨hhead, hhead, by omega⟩
    | _ => cases h
  | send =>
    have hsend := hi.send
    cases pc with
    | idle => cases h
    | _ =>
      obtain rfl := Option.some.inj h
      exact hsend
  | transmit =>
    obtain ⟨tx', htx, rfl⟩ := Option.map_eq_some_iff.1 h
    exact hi.transmit htx
  | clear len status =>
    obtain ⟨tx', htx, rfl⟩ := Option.map_eq_some_iff.1 h
    exact hi.clear htx

namespace TxInv

variable {txBufs} {s s' : Sender}

theorem drained (hi : TxInv txBufs s.tx s.pc) (hnone : ∀ i < ringDepth, ¬ (s.tx.desc i).Own) :
    s.tx.transmitted = s.tx.accepted ++ s.pc.pending := by
  refine hi.transmitted_prefix.eq_of_length_le ?_
  by_contra hlt
  have hlen := hi.transmitted_len
  have hown : (s.tx.desc (s.tx.cleared % ringDepth)).Own := by
    rw [hi.ring.own_pos, inWindow_back_iff]
    omega
  exact hnone _ (Nat.mod_lt _ (by decide)) hown

/-- What a statement does to the history of returns. -/
theorem refused_iff (hi : TxInv txBufs s.tx s.pc) (h : s.send txBufs = some s') :
    (∃ frame, s'.tx.returned = s.tx.returned ++ [(frame, false)]) ↔
      (∃ frame idx, s.pc = .loaded frame idx) ∧ ∀ i < ringDepth, (s.tx.desc i).Own := by
  obtain ⟨tx, pc⟩ := s
  cases pc with
  | idle => cases h
  | loaded frame idx =>
    obtain rfl := Option.some.inj h
    obtain ⟨-, hidx, -⟩ := hi.at_pc
    have hall : (tx.desc idx).Own ↔ ∀ i < ringDepth, (tx.desc i).Own := by
      rw [hidx]
      exact hi.own_head_iff_all
    by_cases hown : (tx.desc idx).Own
    · simp only [sendStep, if_pos hown]
      exact iff_of_true ⟨frame, rfl⟩ ⟨⟨frame, idx, rfl⟩, hall.1 hown⟩
    · simp only [sendStep, if_neg hown]
      exact iff_of_false (by simp) fun h => hown (hall.2 h.2)
  | free frame idx =>
    obtain rfl := Option.some.inj h
    exact iff_of_false (by simp [sendStep]) fun h => by simp at h
  | copied frame idx =>
    obtain rfl := Option.some.inj h
    exact iff_of_false (by simp [sendStep]) fun h => by simp at h
  | handed frame idx =>
    obtain rfl := Option.some.inj h
    exact iff_of_false (by simp [sendStep]) fun h => by simp at h

theorem unchanged {frame : List UInt8} (h : s.send txBufs = some s')
    (hret : s'.tx.returned = s.tx.returned ++ [(frame, false)]) :
    s' = ⟨{ s.tx with returned := s'.tx.returned }, .idle⟩ := by
  obtain ⟨tx, pc⟩ := s
  cases pc with
  | idle => cases h
  | loaded frame' idx =>
    obtain rfl := Option.some.inj h
    by_cases hown : (tx.desc idx).Own
    · simp [sendStep, if_pos hown]
    · simp [sendStep, if_neg hown] at hret
  | _ =>
    obtain rfl := Option.some.inj h
    simp [sendStep] at hret

theorem untouched {m : Mem} {a : SendAct} (hi : TxInv txBufs s.tx s.pc)
    (h : (senderMachine txBufs m).step a s = some s') {i : ℕ} (hlt : i < ringDepth)
    (hown : (s.tx.desc i).Own) : readBytes s'.tx.mem (txBufs + bufferSize * i) bufferSize =
      readBytes s.tx.mem (txBufs + bufferSize * i) bufferSize := by
  obtain ⟨tx, pc⟩ := s
  cases a with
  | call frame =>
    cases pc with
    | idle =>
      simp only [senderMachine, Sender.call] at h
      split at h <;> (obtain rfl := Option.some.inj h; rfl)
    | _ => cases h
  | send =>
    cases pc with
    | idle => cases h
    | free frame idx =>
      obtain rfl := Option.some.inj h
      obtain ⟨-, hidx, hlen, hroom⟩ := hi.at_pc
      -- the descriptor of the copy is not the device's
      have hne : idx ≠ i := by
        rintro rfl
        rw [hidx, hi.own_head_iff] at hown
        omega
      exact readBytes_writeBytes_buffer _ _ hne (Nat.le_refl _) hlen
    | loaded frame idx =>
      obtain rfl := Option.some.inj h
      by_cases hidx : (tx.desc idx).Own <;> simp [sendStep, hidx]
    | _ =>
      obtain rfl := Option.some.inj h
      rfl
  | transmit =>
    obtain ⟨tx', htx, rfl⟩ := Option.map_eq_some_iff.1 h
    unfold Tx.transmit at htx
    split at htx
    · rw [← Option.some.inj htx]
    · cases htx
  | clear len status =>
    obtain ⟨tx', htx, rfl⟩ := Option.map_eq_some_iff.1 h
    unfold Tx.clear at htx
    split at htx
    · rw [← Option.some.inj htx]
    · cases htx

end TxInv

/-- **The transmit ring**: the protocol holds in every state that the caller and the device
reach. -/
theorem tx_protocol {m : Mem} {s : Sender} (h : (senderMachine txBufs m).Reachable s) :
    TxProtocol txBufs s := by
  have hi : TxInv txBufs s.tx s.pc :=
    h.invariant (I := fun s => TxInv txBufs s.tx s.pc) (TxInv.init m)
      fun hi _ hs => Sender.inv_step txBufs hi hs
  exact {
    in_order := hi.transmitted_prefix
    drained := hi.drained
    refused := fun s' hs => hi.refused_iff hs
    unchanged := fun s' hs frame hret => TxInv.unchanged hs hret
    untouched := fun m a s' hs i hlt hown => hi.untouched hs hlt hown
    endOfRing := hi.ring.eor_iff }

/-- A frame is sent, and transmitted before the call returns. -/
def sendOne : List SendAct :=
  [.call [1, 2, 3], .send, .send, .send, .transmit, .send, .clear 0 0]

theorem tx_protocol_sendOne : ∃ s, (senderMachine 0x80000000 fun _ => 0).run sendOne
    ⟨txInit 0x80000000 fun _ => 0, .idle⟩ = some s ∧ s.tx.transmitted = [[1, 2, 3]] ∧
      s.tx.returned = [([1, 2, 3], true)] ∧ TxProtocol 0x80000000 s := by
  obtain ⟨s, hrun, htrans, hret⟩ : ∃ s, (senderMachine 0x80000000 fun _ => 0).run sendOne
    ⟨txInit 0x80000000 fun _ => 0, .idle⟩ = some s ∧ s.tx.transmitted = [[1, 2, 3]] ∧
      s.tx.returned = [([1, 2, 3], true)] := ⟨_, rfl, rfl, rfl⟩
  exact ⟨s, hrun, htrans, hret, tx_protocol 0x80000000 (Machine.reachable_of_run hrun)⟩

end RvvmHal.Eth
