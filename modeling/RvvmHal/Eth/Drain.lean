import RvvmHal.Eth.Rx
import RvvmHal.Foundations.Loop
import Mathlib.Data.Finset.Card

/-!
# Draining the receive ring

`eth_irq_handler` and `net_poll` call `eth_recv` until it returns 0. The same 0 is returned for a
ready descriptor without payload, so either loop stops behind the first descriptor that holds no
more than an FCS: it drains the ring exactly when no such descriptor has a ready one behind it
(`drain_iff`).
-/

namespace RvvmHal.Eth

open Bytes Cyclic Loop

/-! ## A whole call of `eth_recv` -/

/-- The fields of an `eth_t` that the receive path uses, the memory it reads, and the interrupt
status register of the device. -/
structure Nic where
  up : Bool
  desc : Descs
  mem : Mem
  head : ℕ
  isr : BitVec 16

variable (rxBufs : ℕ)

/-- `eth_recv`: the bytes copied to the caller, whose number it returns. -/
def ethRecv (e : Nic) (maxlen : ℕ) : List UInt8 × Nic :=
  if !e.up then ([], e)
  else
    let idx := e.head
    let flags := (e.desc idx).flagsLen
    if (e.desc idx).Own then ([], e)
    else
      let len := recvLen flags maxlen
      (readBytes e.mem (rxBufs + bufferSize * idx) len,
        { e with
          desc := setFlags e.desc idx (armFlags idx)
          head := (idx + 1) % ringDepth })

/-- The receive ring of a NIC that is up, as the statements of `eth_recv` see it. -/
def Rx.nic (s : Rx) (isr : BitVec 16) : Nic := ⟨true, s.desc, s.mem, s.head, isr⟩

section

variable {rxBufs} {e : Nic} {s : Rx} {isr : BitVec 16} {maxlen : ℕ}

/-- The statements of a call that finds nothing. -/
theorem recvStep_own (h : (s.desc s.head).Own) :
    (recvStep rxBufs (.loaded maxlen s.head) s).1 = .idle ∧
      ethRecv rxBufs (s.nic isr) maxlen =
        ([], (recvStep rxBufs (.loaded maxlen s.head) s).2.nic isr) := by
  unfold recvStep ethRecv Rx.nic
  simp [h]

/-- The four statements of a call that finds a frame. -/
theorem recvStep_ready (h : ¬ (s.desc s.head).Own) :
    ∃ r s', Nat.iterate (fun c => recvStep rxBufs c.1 c.2) 4 (.loaded maxlen s.head, s) =
        (.idle, s') ∧
      s'.returned = s.returned ++ [some r] ∧
      ethRecv rxBufs (s.nic isr) maxlen = (r.copied, s'.nic isr) := by
  have hload : recvStep rxBufs (.loaded maxlen s.head) s =
      (.got maxlen s.head (s.desc s.head).flagsLen, s) := if_neg h
  refine ⟨_, _, by rw [Function.iterate_succ_apply, hload]; rfl, rfl, ?_⟩
  unfold ethRecv Rx.nic
  simp only [Bool.not_true, Bool.false_eq_true, if_false, h]
  rfl

theorem ethRecv_own (h : (e.desc e.head).Own) : ethRecv rxBufs e maxlen = ([], e) := by
  unfold ethRecv
  simp [h]

theorem ethRecv_ready (hup : e.up = true) (h : ¬ (e.desc e.head).Own) :
    ethRecv rxBufs e maxlen =
      (readBytes e.mem (rxBufs + bufferSize * e.head) (recvLen (e.desc e.head).flagsLen maxlen),
        { e with
          desc := setFlags e.desc e.head (armFlags e.head)
          head := (e.head + 1) % ringDepth }) := by
  unfold ethRecv
  simp [h, hup]

/-- A call returns something exactly when the descriptor is ready and longer than an FCS. -/
theorem ethRecv_pos_iff (hup : e.up = true) :
    0 < (ethRecv rxBufs e bufferSize).1.length ↔
      ¬ (e.desc e.head).Own ∧ 4 < (e.desc e.head).len := by
  by_cases hown : (e.desc e.head).Own
  · rw [ethRecv_own hown]
    simp [hown]
  · rw [ethRecv_ready hup hown]
    simp only [length_readBytes, recvLen_eq, Desc.len_eq, not_false_eq_true, true_and, hown,
      bufferSize]
    omega

/-- The descriptors that are the driver's. -/
def Nic.readyCount (e : Nic) : ℕ :=
  ((Finset.range ringDepth).filter fun i => ¬ (e.desc i).Own).card

theorem Nic.readyCount_le : e.readyCount ≤ ringDepth := by
  have hle := Finset.card_filter_le (Finset.range ringDepth) fun i => ¬ (e.desc i).Own
  rwa [Finset.card_range] at hle

/-- A call that takes a descriptor hands it back. -/
theorem ethRecv_readyCount_lt (hup : e.up = true) (hhead : e.head < ringDepth)
    (h : ¬ (e.desc e.head).Own) : (ethRecv rxBufs e maxlen).2.readyCount < e.readyCount := by
  rw [ethRecv_ready hup h]
  apply Finset.card_lt_card
  refine Finset.ssubset_iff_subset_ne.2 ⟨fun i hi => ?_, fun heq => ?_⟩
  · obtain ⟨hlt, hready⟩ := Finset.mem_filter.1 hi
    refine Finset.mem_filter.2 ⟨hlt, ?_⟩
    dsimp only at hready
    by_cases hne : i = e.head
    · rwa [hne]
    · rwa [setFlags_of_ne hne] at hready
  · have hmem : e.head ∈ (Finset.range ringDepth).filter fun i => ¬ (e.desc i).Own :=
      Finset.mem_filter.2 ⟨Finset.mem_range.2 hhead, h⟩
    rw [← heq] at hmem
    refine (Finset.mem_filter.1 hmem).2 ?_
    dsimp only
    rw [setFlags_self, Desc.own_iff]
    exact armFlags_own _

end

/-! ## The two loops -/

variable {ω : Type*}

/-- A round of `while ((n = eth_recv(e, buf, sizeof(buf))) > 0) cb(buf, n);`. -/
def drainBody (cb : List UInt8 → ω → ω) (s : Nic × ω) : Iter (Nic × ω) (Nic × ω) :=
  let r := ethRecv rxBufs s.1 bufferSize
  if 0 < r.1.length then .next (r.2, cb r.1 s.2) else .stop (r.2, s.2)

/-- The drain loop, with a round more than there are descriptors. -/
def drain (cb : List UInt8 → ω → ω) (e : Nic) (w : ω) : Option (Nic × ω) :=
  iterate (drainBody rxBufs cb) (ringDepth + 1) (e, w)

/-- `eth_irq_bind`, with the callback applied to its context: the callback acts on the rest of the
program, `ω`. -/
structure EthIrqBind (ω : Type*) where
  cb : Option (List UInt8 → ω → ω)

/-- `eth_irq_handler`: the status bits that were read are written back and so cleared. -/
def ethIrqHandler (bind : Option (EthIrqBind ω)) (e : Nic) (w : ω) : Option (Nic × ω) :=
  match bind with
  | none => some (e, w)
  | some b =>
    let isr := e.isr
    let e := { e with isr := e.isr &&& ~~~isr }
    match b.cb with
    | none => some (e, w)
    | some cb => drain rxBufs cb e w

/-- What `net_poll` calls of lwIP, with `true` for `ERR_OK`. -/
structure Lwip (ω : Type*) where
  Pbuf : Type
  pbufAlloc : ℕ → ω → Option Pbuf × ω
  pbufTake : Pbuf → List UInt8 → ω → Bool × ω
  pbufFree : Pbuf → ω → ω
  input : Pbuf → ω → Bool × ω
  sysCheckTimeouts : ω → ω

/-- What `net_poll` does with a frame. -/
def Lwip.frame (lw : Lwip ω) (buf : List UInt8) (w : ω) : ω :=
  match lw.pbufAlloc buf.length w with
  | (none, w) => w
  | (some p, w) =>
    match lw.pbufTake p buf w with
    | (false, w) => lw.pbufFree p w
    | (true, w) =>
      match lw.input p w with
      | (false, w) => lw.pbufFree p w
      | (true, w) => w

/-- `net_poll`. -/
def netPoll (lw : Lwip ω) (inited : Bool) (e : Nic) (w : ω) : Option (Nic × ω) :=
  if !inited then some (e, w)
  else (drain rxBufs lw.frame e w).map fun s => (s.1, lw.sysCheckTimeouts s.2)

/-! ## What a run of the loop consumes -/

/-- The slot that is `k` descriptors ahead of the head. -/
def Nic.slot (e : Nic) (k : ℕ) : ℕ := (e.head + k) % ringDepth

/-- The descriptor that is `k` ahead of the head is the driver's. -/
def Nic.Ready (e : Nic) (k : ℕ) : Prop := ¬ (e.desc (e.slot k)).Own

/-- **The ring is drained**: every descriptor of the ready run that began at the head is back with
the device, and so is the descriptor that `rx_head` stands at. -/
structure Drained (e e' : Nic) : Prop where
  consumed : ∀ k < ringDepth, (∀ i ≤ k, e.Ready i) → (e'.desc (e.slot k)).Own
  head_own : (e'.desc e'.head).Own

/-- A ready descriptor with a ready one behind it, in the run that begins at the head, is longer
than an FCS. -/
def PayloadBeforeLast (e : Nic) : Prop :=
  ∀ k, k + 1 < ringDepth → (∀ i ≤ k + 1, e.Ready i) → 4 < (e.desc (e.slot k)).len

/-- The interrupt status is no part of it. -/
theorem drained_isr {e e' : Nic} {isr : BitVec 16} :
    Drained { e with isr := isr } e' ↔ Drained e e' :=
  ⟨fun h => ⟨h.consumed, h.head_own⟩, fun h => ⟨h.consumed, h.head_own⟩⟩

/-- The loop has gone through `j` descriptors since `e`. -/
structure Passed (e t : Nic) (j : ℕ) : Prop where
  up : t.up = true
  isr_eq : t.isr = e.isr
  head_eq : t.head = e.slot j
  le : j ≤ ringDepth
  ready : ∀ i < j, e.Ready i
  own : ∀ i < j, (t.desc (e.slot i)).Own
  rest : ∀ i, j ≤ i → i < ringDepth → t.desc (e.slot i) = e.desc (e.slot i)

section

variable {rxBufs} {e t t' : Nic} {j : ℕ}

theorem Nic.slot_ne {i k : ℕ} (h : i < k) (hk : k < ringDepth) : e.slot i ≠ e.slot k :=
  slot_ne_of_lt (by omega) (by omega)

theorem Nic.slot_ringDepth : e.slot ringDepth = e.slot 0 := Nat.add_mod_right _ _

theorem Nic.slot_succ : (e.slot j + 1) % ringDepth = e.slot (j + 1) := Nat.mod_add_mod _ _ _

theorem Nic.slot_lt : e.slot j < ringDepth := Nat.mod_lt _ (by decide)

theorem Passed.zero (hup : e.up = true) (hhead : e.head < ringDepth) : Passed e e 0 where
  up := hup
  isr_eq := rfl
  head_eq := (Nat.mod_eq_of_lt hhead).symm
  le := Nat.zero_le _
  ready i hi := absurd hi (Nat.not_lt_zero i)
  own i hi := absurd hi (Nat.not_lt_zero i)
  rest _ _ _ := rfl

namespace Passed

/-- Behind a whole lap the head is at a descriptor that has been re-armed. -/
theorem head_own_of_lap (h : Passed e t ringDepth) : (t.desc t.head).Own := by
  rw [h.head_eq, Nic.slot_ringDepth]
  exact h.own 0 (by decide)

/-- The descriptor at the head is as it was, until the lap is complete. -/
theorem desc_head (h : Passed e t j) (hj : j < ringDepth) : t.desc t.head = e.desc (e.slot j) := by
  rw [h.head_eq]
  exact h.rest j (Nat.le_refl j) hj

variable (rxBufs) in
/-- A call that takes the descriptor at the head goes one descriptor further. -/
theorem ethRecv (h : Passed e t j) (hown : ¬ (t.desc t.head).Own) (maxlen : ℕ) :
    j < ringDepth ∧ Passed e (Eth.ethRecv rxBufs t maxlen).2 (j + 1) := by
  have hj : j < ringDepth := by
    refine Nat.lt_of_le_of_ne h.le ?_
    rintro rfl
    exact hown h.head_own_of_lap
  rw [ethRecv_ready h.up hown]
  refine ⟨hj, ?_⟩
  exact {
    up := h.up
    isr_eq := h.isr_eq
    head_eq := by
      dsimp only
      rw [h.head_eq, Nic.slot_succ]
    le := hj
    ready := by
      intro i hi
      rcases Nat.lt_succ_iff_lt_or_eq.1 hi with hi | rfl
      · exact h.ready i hi
      · rw [h.desc_head hj] at hown
        exact hown
    own := by
      intro i hi
      dsimp only
      rcases Nat.lt_succ_iff_lt_or_eq.1 hi with hi | rfl
      · rw [h.head_eq, setFlags_of_ne (Nic.slot_ne hi hj)]
        exact h.own i hi
      · rw [h.head_eq, setFlags_self, Desc.own_iff]
        exact armFlags_own _
    rest := by
      intro i hi hlt
      dsimp only
      rw [h.head_eq, setFlags_of_ne (Nic.slot_ne hi hlt).symm]
      exact h.rest i (by omega) hlt }

/-- When the head is at a descriptor of the device, the ready run has been consumed. -/
theorem drained (h : Passed e t j) (hown : (t.desc t.head).Own) : Drained e t where
  consumed := by
    intro k hk hready
    by_cases hlt : k < j
    · exact h.own k hlt
    · have hj : j < ringDepth := by omega
      rw [h.desc_head hj] at hown
      exact absurd hown (hready j (by omega))
  head_own := hown

/-- Every run of ready descriptors ends in front of one that the head has stopped at. -/
theorem lt_of_ready {k : ℕ} (h : Passed e t j) (hown : (t.desc t.head).Own) (hk : k < ringDepth)
    (hready : ∀ i ≤ k, e.Ready i) : k < j := by
  by_contra hge
  rw [h.desc_head (by omega)] at hown
  exact hready j (by omega) hown

end Passed

/-- The states that the loop visits: the head has passed only descriptors with a payload. -/
def Drains (e : Nic) (t : Nic × ω) : Prop :=
  ∃ j, Passed e t.1 j ∧ ∀ i < j, 4 < (e.desc (e.slot i)).len

variable {cb : List UInt8 → ω → ω} {s s' r : Nic × ω}

theorem drainBody_next (hb : drainBody rxBufs cb s = .next s') :
    0 < (ethRecv rxBufs s.1 bufferSize).1.length ∧ s'.1 = (ethRecv rxBufs s.1 bufferSize).2 := by
  unfold drainBody at hb
  dsimp only at hb
  split at hb
  · cases hb
    exact ⟨‹_›, rfl⟩
  · cases hb

theorem drainBody_stop (hb : drainBody rxBufs cb s = .stop r) :
    ¬ 0 < (ethRecv rxBufs s.1 bufferSize).1.length ∧
      r.1 = (ethRecv rxBufs s.1 bufferSize).2 := by
  unfold drainBody at hb
  dsimp only at hb
  split at hb
  · cases hb
  · cases hb
    exact ⟨‹_›, rfl⟩

theorem drainBody_ne_hang : drainBody rxBufs cb s ≠ .hang := by
  intro hb
  unfold drainBody at hb
  dsimp only at hb
  split at hb <;> cases hb

/-- **A round that goes on** passes a descriptor with a payload. -/
theorem Drains.next (h : Drains e s) (hb : drainBody rxBufs cb s = .next s') : Drains e s' := by
  obtain ⟨j, hp, hlen⟩ := h
  obtain ⟨hpos, hs'⟩ := drainBody_next hb
  obtain ⟨hown, hlong⟩ := (ethRecv_pos_iff hp.up).1 hpos
  obtain ⟨hj, hp'⟩ := hp.ethRecv rxBufs hown bufferSize
  rw [hp.desc_head hj] at hlong
  rw [← hs'] at hp'
  refine ⟨j + 1, hp', fun i hi => ?_⟩
  rcases Nat.lt_succ_iff_lt_or_eq.1 hi with hi | rfl
  · exact hlen i hi
  · exact hlong

/-- **The last round** drains the ring unless it takes a descriptor without payload that has a
ready one behind it. -/
theorem Drains.stop (h : Drains e s) (hb : drainBody rxBufs cb s = .stop r) :
    (PayloadBeforeLast e → Drained e r.1) ∧ ((r.1.desc r.1.head).Own → PayloadBeforeLast e) := by
  obtain ⟨j, hp, hlen⟩ := h
  obtain ⟨hpos, hr⟩ := drainBody_stop hb
  rw [ethRecv_pos_iff hp.up] at hpos
  rw [hr]
  by_cases hown : (s.1.desc s.1.head).Own
  · -- nothing was ready
    rw [ethRecv_own hown]
    refine ⟨fun _ => hp.drained hown, fun _ k hk hready => ?_⟩
    have hlt := hp.lt_of_ready hown hk hready
    exact hlen k (by omega)
  · -- the descriptor taken has no payload
    obtain ⟨hj, hp'⟩ := hp.ethRecv rxBufs hown bufferSize
    have hshort : ¬ 4 < (e.desc (e.slot j)).len := by
      rw [← hp.desc_head hj]
      exact fun hlong => hpos ⟨hown, hlong⟩
    refine ⟨fun hpay => hp'.drained ?_, fun hown' k hk hready => ?_⟩
    · by_contra hready
      have hne : j + 1 ≠ ringDepth := by
        intro heq
        exact hready (heq ▸ hp').head_own_of_lap
      refine hshort (hpay j (by omega) fun i hi => ?_)
      rcases Nat.lt_succ_iff_lt_or_eq.1 (Nat.lt_succ_of_le hi) with hi | rfl
      · exact hp'.ready i hi
      · rw [hp'.desc_head (by omega)] at hready
        exact hready
    · have hlt := hp'.lt_of_ready hown' hk hready
      exact hlen k (by omega)

theorem Drains.isr_eq (h : Drains e s) (hb : drainBody rxBufs cb s = .stop r) :
    r.1.isr = e.isr := by
  obtain ⟨j, hp, -⟩ := h
  rw [(drainBody_stop hb).2]
  by_cases hown : (s.1.desc s.1.head).Own
  · rw [ethRecv_own hown]
    exact hp.isr_eq
  · exact (hp.ethRecv rxBufs hown bufferSize).2.isr_eq

/-- A round that goes on leaves fewer descriptors to the driver. -/
theorem Drains.readyCount_lt (h : Drains e s) (hb : drainBody rxBufs cb s = .next s') :
    s'.1.readyCount < s.1.readyCount := by
  obtain ⟨j, hp, -⟩ := h
  obtain ⟨hpos, hs'⟩ := drainBody_next hb
  obtain ⟨hown, -⟩ := (ethRecv_pos_iff hp.up).1 hpos
  rw [hs']
  exact ethRecv_readyCount_lt hp.up (hp.head_eq ▸ Nic.slot_lt) hown

variable (rxBufs) in
/-- **A run of the loop** returns, and drains the ring exactly when no ready descriptor is behind
one without payload. -/
theorem drain_spec (cb : List UInt8 → ω → ω) (w : ω) (hup : e.up = true)
    (hhead : e.head < ringDepth) :
    ∃ r, drain rxBufs cb e w = some r ∧ r.1.isr = e.isr ∧
      (Drained e r.1 ↔ PayloadBeforeLast e) := by
  have hdrains : ∀ t, Visits (drainBody rxBufs cb) (e, w) t → Drains e t := by
    intro t hv
    refine hv.invariant ⟨0, .zero hup hhead, fun i hi => absurd hi (Nat.not_lt_zero i)⟩ ?_
    intro t t' ht hb
    exact ht.next hb
  obtain ⟨r, hr⟩ : ∃ r, drain rxBufs cb e w = some r :=
    iterate_of_measure (fun t => t.1.readyCount) (fun t t' hv hb => (hdrains t hv).readyCount_lt hb)
      (fun _ _ => drainBody_ne_hang) (Nat.lt_succ_of_le Nic.readyCount_le)
  obtain ⟨t, hv, hstop⟩ := exists_stop_of_iterate hr
  obtain ⟨hpay, hown⟩ := (hdrains t hv).stop hstop
  exact ⟨r, hr, (hdrains t hv).isr_eq hstop, fun hd => hown hd.head_own, hpay⟩

end

/-- **The drain**: the handler with a callback bound, and `net_poll` once it is set up, return from
their loops, and leave no ready frame behind exactly when every ready descriptor of the run that
begins at `rx_head`, but for the last, is longer than an FCS; the handler has acknowledged the
interrupt in any case. -/
theorem drain_iff (cb : List UInt8 → ω → ω) (lw : Lwip ω) (e : Nic) (w : ω)
    (hup : e.up = true) (hhead : e.head < ringDepth) :
    (∃ r, ethIrqHandler rxBufs (some ⟨some cb⟩) e w = some r ∧ r.1.isr = 0 ∧
      (Drained e r.1 ↔ PayloadBeforeLast e)) ∧
    ∃ r, netPoll rxBufs lw true e w = some r ∧ (Drained e r.1 ↔ PayloadBeforeLast e) := by
  constructor
  · obtain ⟨r, hr, hisr, hiff⟩ := drain_spec rxBufs
      (e := { e with isr := e.isr &&& ~~~e.isr }) cb w hup hhead
    exact ⟨r, hr, hisr.trans (BitVec.and_not_self _), drained_isr.symm.trans hiff⟩
  · obtain ⟨r, hr, -, hiff⟩ := drain_spec rxBufs lw.frame w hup hhead
    refine ⟨(r.1, lw.sysCheckTimeouts r.2), ?_, hiff⟩
    unfold netPoll
    rw [hr]
    rfl

/-- A ring whose first two descriptors are ready, with the given lengths. -/
def twoReady (len₀ len₁ : ℕ) : Nic where
  up := true
  desc i := ⟨if i = 0 then len₀ else if i = 1 then len₁ else armFlags i, 0, bufferSize * i⟩
  mem _ := 0
  head := 0
  isr := 1

/-- A callback that keeps the lengths of the frames it is called with. -/
def keepLengths (frame : List UInt8) (w : List ℕ) : List ℕ := w ++ [frame.length]

/-- A stack that keeps the lengths of the frames it is given. -/
def keepingLwip : Lwip (List ℕ) where
  Pbuf := Unit
  pbufAlloc _ w := (some (), w)
  pbufTake _ buf w := (true, keepLengths buf w)
  pbufFree _ w := w
  input _ w := (true, w)
  sysCheckTimeouts w := w

theorem drain_iff_lastEmpty :
    (∃ r, ethIrqHandler 0 (some ⟨some keepLengths⟩) (twoReady 68 4) [] = some r ∧
      r.1.isr = 0 ∧ Drained (twoReady 68 4) r.1) ∧
    ∃ r, netPoll 0 keepingLwip true (twoReady 68 4) [] = some r ∧
      Drained (twoReady 68 4) r.1 := by
  have hpay : PayloadBeforeLast (twoReady 68 4) := by
    intro k hk hready
    rcases k with _ | k
    · decide
    · exact absurd (by decide) (hready 2 (by omega))
  obtain ⟨⟨r, hr, hisr, hiff⟩, r', hr', hiff'⟩ :=
    drain_iff 0 keepLengths keepingLwip (twoReady 68 4) [] rfl (by decide)
  exact ⟨⟨r, hr, hisr, hiff.2 hpay⟩, r', hr', hiff'.2 hpay⟩

/-- **A frame is left behind**: the first descriptor holds an FCS and nothing else, and both loops
stop in front of the frame of 64 bytes in the second. -/
theorem frame_left_behind :
    (∃ r, ethIrqHandler 0 (some ⟨some keepLengths⟩) (twoReady 4 68) [] = some r ∧
      r.2 = [] ∧ r.1.isr = 0 ∧ r.1.head = 1 ∧ ¬ (r.1.desc r.1.head).Own) ∧
    ∃ r, netPoll 0 keepingLwip true (twoReady 4 68) [] = some r ∧
      r.2 = [] ∧ r.1.head = 1 ∧ ¬ (r.1.desc r.1.head).Own :=
  ⟨⟨_, rfl, rfl, by decide, rfl, by decide⟩, ⟨_, rfl, rfl, rfl, by decide⟩⟩

end RvvmHal.Eth
