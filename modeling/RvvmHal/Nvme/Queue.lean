import RvvmHal.Nvme.Entry
import RvvmHal.Foundations.Machine

/-!
# The completion queue

`submit_and_wait` on one queue, against a controller that posts completions in slot order with the
phase tag of the lap and never overwrites an entry that the head doorbell has not released. The
driver is a small-step program: it rings the submission doorbell, polls up to `spinLimit` times,
and either gives up or consumes an entry and then rings the head doorbell. The controller may act
between any two of these steps.

The two parties share nothing but the bytes of the queue. `CqInv` relates them: the last 64 posted
entries lie in their slots with the tag of their lap, and a slot that was never posted to is zero.
A poll succeeds exactly when an entry is waiting (`CqInv.entryReady_iff`), so what the driver
consumes is a prefix of what the controller posted (`cq_fifo`).
-/

namespace RvvmHal.Nvme

open Bytes

/-! ## Completion entries -/

/-- A completion as the controller fills it in, without its phase tag: the first three dwords, the
command identifier and the status field. -/
structure Cqe where
  head : List UInt8
  cid : ℕ
  status : ℕ
  length_head : head.length = 12
  cid_lt : cid < 2 ^ 16
  status_lt : status < 2 ^ 15

/-- The last dword of an entry: CID, phase tag and status. -/
def Cqe.dword (e : Cqe) (phase : Bool) : ℕ :=
  e.cid + phase.toNat * 2 ^ 16 + e.status * 2 ^ 17

/-- The 16 bytes of an entry. -/
def Cqe.bytes (e : Cqe) (phase : Bool) : List UInt8 := e.head ++ leBytes 4 (e.dword phase)

/-- The phase tag in a last dword, as the driver tests it. -/
def cqePhase (d : ℕ) : Bool := d &&& cqePbMask ≠ 0

/-- The status in a last dword, as the driver extracts it. -/
def cqeStatus (d : ℕ) : ℕ := d >>> 17

/-- The tag of the lap that the `k`-th entry belongs to: set on even laps. -/
def lapPhase (k : ℕ) : Bool := k / queueDepth % 2 = 0

theorem Cqe.dword_lt (e : Cqe) (phase : Bool) : e.dword phase < 256 ^ 4 := by
  have h₁ := e.cid_lt
  have h₂ := e.status_lt
  have h₃ : phase.toNat ≤ 1 := Bool.toNat_le phase
  rw [Cqe.dword]
  omega

@[simp] theorem Cqe.length_bytes (e : Cqe) (phase : Bool) : (e.bytes phase).length = 16 := by
  simp [Cqe.bytes, e.length_head]

@[simp] theorem cqePhase_dword (e : Cqe) (phase : Bool) : cqePhase (e.dword phase) = phase := by
  have h₁ := e.cid_lt
  rw [cqePhase, show cqePbMask = 2 ^ 16 from rfl, Bool.eq_iff_iff, decide_eq_true_iff,
    Word.and_two_pow_ne_zero, Cqe.dword]
  cases phase
  · simp only [Bool.toNat_false, Bool.false_eq_true, iff_false]
    omega
  · simp only [Bool.toNat_true, iff_true]
    omega

@[simp] theorem cqeStatus_dword (e : Cqe) (phase : Bool) : cqeStatus (e.dword phase) = e.status := by
  have h₁ := e.cid_lt
  have h₃ : phase.toNat ≤ 1 := Bool.toNat_le phase
  rw [cqeStatus, Word.shiftRight_eq, Cqe.dword]
  omega

@[simp] theorem cqePhase_zero : cqePhase 0 = false := by decide

theorem lapPhase_sub {k : ℕ} (h : queueDepth ≤ k) : lapPhase (k - queueDepth) = !lapPhase k := by
  simp only [queueDepth] at h
  simp only [lapPhase, queueDepth]
  by_cases hk : k / 64 % 2 = 0
  · have : (k - 64) / 64 % 2 = 1 := by omega
    simp [hk, this]
  · have : (k - 64) / 64 % 2 = 0 := by omega
    simp [hk, this]

theorem lapPhase_succ (k : ℕ) :
    lapPhase (k + 1) = if (k % queueDepth + 1) % queueDepth = 0 then !lapPhase k else lapPhase k := by
  simp only [lapPhase, queueDepth]
  split
  · by_cases hk : k / 64 % 2 = 0
    · have : (k + 1) / 64 % 2 = 1 := by omega
      simp [hk, this]
    · have : (k + 1) / 64 % 2 = 0 := by omega
      simp [hk, this]
  · rw [show (k + 1) / 64 = k / 64 by omega]

/-! ## The machine -/

/-- Where the driver is in `submit_and_wait`: outside of it, in the poll loop with the given value
of `spin`, or between the update of the head and the ring of the head doorbell. -/
inductive Pc
  | idle
  | poll (spin : ℕ)
  | ring (status : ℕ)
  deriving DecidableEq

/-- The number of entries consumed and not yet released. -/
def Pc.unreleased : Pc → ℕ
  | .ring _ => 1
  | _ => 0

/-- An entry as the driver consumed it: the slot and the dword it read. -/
structure Taken where
  slot : ℕ
  dword : ℕ
  deriving DecidableEq

/-- One completion queue: the driver's variables, the shared bytes, and the histories of the
entries posted, released and consumed. -/
structure Cq where
  mem : Mem
  head : ℕ
  phase : Bool
  pc : Pc
  posted : List Cqe
  released : ℕ
  consumed : List Taken

/-- The bound of the poll loop. -/
abbrev spinLimit : ℕ := 16 * 1000 * 1000

/-- The value `submit_and_wait` returns when it gives up. -/
abbrev timeoutStatus : ℕ := 0xFFFF

/-- The dword that a poll at the current head reads. -/
def Cq.peek (s : Cq) : ℕ := cqeR32 s.mem (s.head * 16) cqeCidPbSf

/-- A poll at this moment consumes an entry. -/
def Cq.EntryReady (s : Cq) : Prop := cqePhase s.peek = s.phase

instance (s : Cq) : Decidable s.EntryReady := inferInstanceAs (Decidable (_ = _))

/-- Entering the poll loop, after the submission doorbell. -/
def Cq.enter (s : Cq) : Option Cq :=
  if s.pc = .idle then some { s with pc := .poll 0 } else none

/-- One iteration of the poll loop. -/
def Cq.pollOnce (s : Cq) : Option Cq :=
  match s.pc with
  | .poll spin =>
    if spin < spinLimit then
      if s.EntryReady then
        let head := (s.head + 1) % queueDepth
        some { s with
          head := head
          phase := if head = 0 then !s.phase else s.phase
          pc := .ring (cqeStatus s.peek)
          consumed := s.consumed ++ [⟨s.head, s.peek⟩] }
      else some { s with pc := .poll (spin + 1) }
    else none
  | _ => none

/-- The end of the poll loop without a completion. -/
def Cq.giveUp (s : Cq) : Option Cq :=
  if s.pc = .poll spinLimit then some { s with pc := .idle } else none

/-- The ring of the head doorbell, which releases the consumed entry. -/
def Cq.ringHead (s : Cq) : Option Cq :=
  match s.pc with
  | .ring _ => some { s with pc := .idle, released := s.released + 1 }
  | _ => none

/-- The controller posts a completion in the next slot, with the tag of the lap, unless that would
overwrite an entry not yet released. -/
def Cq.post (s : Cq) (e : Cqe) : Option Cq :=
  let k := s.posted.length
  if k < s.released + queueDepth then
    some { s with
      mem := writeBytes s.mem (k % queueDepth * 16) (e.bytes (lapPhase k))
      posted := s.posted ++ [e] }
  else none

/-- The steps of the queue. -/
inductive CqAct
  | enter
  | poll
  | giveUp
  | ringHead
  | post (e : Cqe)

/-- The queue as `nvme_init_nth` leaves it: zeroed memory, and an expected phase of 1. -/
def cqInit : Cq where
  mem := fun _ => 0
  head := 0
  phase := true
  pc := .idle
  posted := []
  released := 0
  consumed := []

/-- **The completion queue** of one driver and one controller. -/
def cqMachine : Machine Cq CqAct where
  init := cqInit
  step
    | .enter, s => s.enter
    | .poll, s => s.pollOnce
    | .giveUp, s => s.giveUp
    | .ringHead, s => s.ringHead
    | .post e, s => s.post e

/-! ## What each step does -/

theorem Cq.enter_eq {s s' : Cq} (h : s.enter = some s') :
    s.pc = .idle ∧ s' = { s with pc := .poll 0 } := by
  simp only [Cq.enter] at h
  split at h
  · exact ⟨by assumption, (Option.some.inj h).symm⟩
  · cases h

theorem Cq.pollOnce_cases {s s' : Cq} (h : s.pollOnce = some s') :
    ∃ spin, s.pc = .poll spin ∧ spin < spinLimit ∧
      ((s.EntryReady ∧ s' = { s with
          head := (s.head + 1) % queueDepth
          phase := if (s.head + 1) % queueDepth = 0 then !s.phase else s.phase
          pc := .ring (cqeStatus s.peek)
          consumed := s.consumed ++ [⟨s.head, s.peek⟩] }) ∨
        (¬ s.EntryReady ∧ s' = { s with pc := .poll (spin + 1) })) := by
  rw [Cq.pollOnce] at h
  split at h
  · rename_i spin hpc
    split at h
    · rename_i hspin
      refine ⟨spin, hpc, hspin, ?_⟩
      split at h
      · exact Or.inl ⟨by assumption, (Option.some.inj h).symm⟩
      · exact Or.inr ⟨by assumption, (Option.some.inj h).symm⟩
    · cases h
  · cases h

theorem Cq.giveUp_eq {s s' : Cq} (h : s.giveUp = some s') :
    s.pc = .poll spinLimit ∧ s' = { s with pc := .idle } := by
  rw [Cq.giveUp] at h
  split at h
  · exact ⟨by assumption, (Option.some.inj h).symm⟩
  · cases h

theorem Cq.ringHead_eq {s s' : Cq} (h : s.ringHead = some s') :
    ∃ st, s.pc = .ring st ∧ s' = { s with pc := .idle, released := s.released + 1 } := by
  rw [Cq.ringHead] at h
  split at h
  · exact ⟨_, by assumption, (Option.some.inj h).symm⟩
  · cases h

theorem Cq.post_eq {s s' : Cq} {e : Cqe} (h : s.post e = some s') :
    s.posted.length < s.released + queueDepth ∧ s' = { s with
      mem := writeBytes s.mem (s.posted.length % queueDepth * 16) (e.bytes (lapPhase s.posted.length))
      posted := s.posted ++ [e] } := by
  simp only [Cq.post] at h
  split at h
  · exact ⟨by assumption, (Option.some.inj h).symm⟩
  · cases h

/-! ## The invariant -/

/-- The dword in slot `i`. -/
def Cq.slotDword (s : Cq) (i : ℕ) : ℕ := readLe s.mem (i * 16 + 12) 4

theorem Cq.peek_eq (s : Cq) : s.peek = s.slotDword s.head := by
  rw [Cq.peek, cqeR32_eq, Cq.slotDword]

/-- **The queue invariant.** -/
structure CqInv (s : Cq) : Prop where
  /-- The driver's head and phase are those of the number of entries consumed. -/
  head_eq : s.head = s.consumed.length % queueDepth
  phase_eq : s.phase = lapPhase s.consumed.length
  /-- Entries are released after they are consumed, one at a time. -/
  released_eq : s.consumed.length = s.released + s.pc.unreleased
  /-- Nothing is consumed before it is posted, and no slot is posted to twice in between. -/
  consumed_le : s.consumed.length ≤ s.posted.length
  posted_le : s.posted.length ≤ s.released + queueDepth
  /-- The last 64 posted entries lie in their slots with the tag of their lap. -/
  slots : ∀ j (hj : j < s.posted.length), s.posted.length ≤ j + queueDepth →
    s.slotDword (j % queueDepth) = s.posted[j].dword (lapPhase j)
  /-- Slots not yet posted to are zero. -/
  blank : ∀ i, s.posted.length ≤ i → i < queueDepth → s.slotDword i = 0
  /-- What was consumed is what was posted. -/
  history : ∀ j (hj : j < s.consumed.length), ∃ hp : j < s.posted.length,
    s.consumed[j] = ⟨j % queueDepth, s.posted[j].dword (lapPhase j)⟩

namespace CqInv

variable {s s' : Cq}

/-- The next entry, if posted, is what a poll reads. -/
theorem peek_of_lt (hi : CqInv s) (h : s.consumed.length < s.posted.length) :
    s.peek = s.posted[s.consumed.length].dword (lapPhase s.consumed.length) := by
  have hr := hi.released_eq
  have hp := hi.posted_le
  rw [Cq.peek_eq, hi.head_eq]
  exact hi.slots _ h (by omega)

/-- **The phase tag tells a waiting entry from a stale one.** -/
theorem entryReady_iff (hi : CqInv s) :
    s.EntryReady ↔ s.consumed.length < s.posted.length := by
  constructor
  · intro hready
    by_contra hle
    have heq : s.posted.length = s.consumed.length := by have := hi.consumed_le; omega
    rw [Cq.EntryReady, Cq.peek_eq, hi.head_eq, hi.phase_eq] at hready
    rcases Nat.lt_or_ge s.consumed.length queueDepth with hlt | hge
    · -- first lap: the slot is still blank
      rw [hi.blank _ (by rw [heq, Nat.mod_eq_of_lt hlt]) (Nat.mod_lt _ (by decide)),
        cqePhase_zero] at hready
      have : s.consumed.length / queueDepth = 0 := Nat.div_eq_of_lt hlt
      simp [lapPhase, this] at hready
    · -- a later lap: the slot holds the entry of the lap before
      have hj : s.consumed.length - queueDepth < s.posted.length := by
        simp only [queueDepth] at *
        omega
      have hslot := hi.slots (s.consumed.length - queueDepth) hj (by omega)
      rw [← Nat.mod_eq_sub_mod hge] at hslot
      rw [hslot, cqePhase_dword, lapPhase_sub hge] at hready
      simp at hready
  · intro h
    rw [Cq.EntryReady, hi.peek_of_lt h, cqePhase_dword, hi.phase_eq]

theorem init : CqInv cqInit where
  head_eq := rfl
  phase_eq := rfl
  released_eq := rfl
  consumed_le := le_rfl
  posted_le := Nat.zero_le _
  slots _ hj := absurd hj (Nat.not_lt_zero _)
  blank _ _ _ := rfl
  history _ hj := absurd hj (Nat.not_lt_zero _)

theorem enter (hi : CqInv s) (h : s.enter = some s') : CqInv s' := by
  obtain ⟨hpc, rfl⟩ := Cq.enter_eq h
  have hr := hi.released_eq
  rw [hpc] at hr
  exact { hi with released_eq := hr }

theorem giveUp (hi : CqInv s) (h : s.giveUp = some s') : CqInv s' := by
  obtain ⟨hpc, rfl⟩ := Cq.giveUp_eq h
  have hr := hi.released_eq
  rw [hpc] at hr
  exact { hi with released_eq := hr }

theorem ringHead (hi : CqInv s) (h : s.ringHead = some s') : CqInv s' := by
  obtain ⟨st, hpc, rfl⟩ := Cq.ringHead_eq h
  have hr := hi.released_eq
  have hp := hi.posted_le
  rw [hpc] at hr
  exact { hi with
    released_eq := hr
    posted_le := by simp only; omega }

theorem pollOnce (hi : CqInv s) (h : s.pollOnce = some s') : CqInv s' := by
  obtain ⟨spin, hpc, -, ⟨hready, rfl⟩ | ⟨-, rfl⟩⟩ := Cq.pollOnce_cases h
  · have hlt := hi.entryReady_iff.1 hready
    have hr := hi.released_eq
    have hhead : (s.head + 1) % queueDepth = (s.consumed.length + 1) % queueDepth := by
      rw [hi.head_eq, Nat.mod_add_mod]
    exact {
      head_eq := by simpa using hhead
      phase_eq := by
        simp only [List.length_append, List.length_singleton]
        rw [lapPhase_succ, Nat.mod_add_mod, hhead, hi.phase_eq]
      released_eq := by
        rw [hpc] at hr
        simpa [Pc.unreleased] using hr
      consumed_le := by simpa using Nat.succ_le_of_lt hlt
      posted_le := hi.posted_le
      slots := hi.slots
      blank := hi.blank
      history := by
        intro j hj
        simp only [List.length_append, List.length_singleton] at hj
        rcases Nat.lt_succ_iff_lt_or_eq.1 hj with hj' | rfl
        · obtain ⟨hp, he⟩ := hi.history j hj'
          exact ⟨hp, by rw [List.getElem_append_left hj', he]⟩
        · refine ⟨hlt, ?_⟩
          rw [List.getElem_concat_length rfl, hi.peek_of_lt hlt, hi.head_eq] }
  · have hr := hi.released_eq
    rw [hpc] at hr
    exact { hi with released_eq := hr }

theorem post {e : Cqe} (hi : CqInv s) (h : s.post e = some s') : CqInv s' := by
  obtain ⟨hroom, rfl⟩ := Cq.post_eq h
  have hr := hi.released_eq
  have hc := hi.consumed_le
  simp only [queueDepth] at hroom
  -- what the write does to each slot
  have hsame : ∀ m i, readLe (writeBytes m (i * 16) (e.bytes (lapPhase s.posted.length)))
      (i * 16 + 12) 4 = e.dword (lapPhase s.posted.length) := by
    intro m i
    have hlen : i * 16 + 12 = i * 16 + e.head.length := by rw [e.length_head]
    rw [Cqe.bytes, ← writeBytes_append, hlen, readLe_writeBytes_leBytes _ _ (Cqe.dword_lt e _)]
  have hother : ∀ m i j, i ≠ j → readLe (writeBytes m (i * 16)
      (e.bytes (lapPhase s.posted.length))) (j * 16 + 12) 4 = readLe m (j * 16 + 12) 4 := by
    intro m i j hij
    refine readLe_writeBytes_of_disjoint _ _ _ ?_
    rw [Cqe.length_bytes]
    omega
  exact {
    head_eq := hi.head_eq
    phase_eq := hi.phase_eq
    released_eq := hi.released_eq
    consumed_le := by simp only [List.length_append]; omega
    posted_le := by simp only [List.length_append, List.length_singleton, queueDepth]; omega
    slots := by
      intro j hj hle
      simp only [List.length_append, List.length_singleton, queueDepth] at hj hle
      rcases Nat.lt_succ_iff_lt_or_eq.1 hj with hj' | rfl
      · rw [List.getElem_append_left hj', ← hi.slots j hj' (by simp only [queueDepth]; omega)]
        exact hother _ _ _ (by simp only [queueDepth]; omega)
      · rw [List.getElem_concat_length rfl]
        exact hsame _ _
    blank := by
      intro i hle hlt
      simp only [List.length_append, List.length_singleton, queueDepth] at hle hlt
      rw [← hi.blank i (by omega) hlt]
      exact hother _ _ _ (by simp only [queueDepth]; omega)
    history := by
      intro j hj
      obtain ⟨hp, he⟩ := hi.history j hj
      exact ⟨by simp only [List.length_append]; omega, by rw [he, List.getElem_append_left hp]⟩ }

theorem step {a : CqAct} (hi : CqInv s) (h : cqMachine.step a s = some s') : CqInv s' := by
  cases a with
  | enter => exact hi.enter h
  | poll => exact hi.pollOnce h
  | giveUp => exact hi.giveUp h
  | ringHead => exact hi.ringHead h
  | post e => exact hi.post h

theorem of_reachable (h : cqMachine.Reachable s) : CqInv s :=
  h.invariant init fun hi _ hs => hi.step hs

end CqInv

/-! ## First in, first out -/

/-- **The completion queue is first in, first out.** In every reachable state the entries consumed
are the first entries posted, each read from its slot and with the tag of its lap; head and
expected phase are those of the number of entries consumed; and the next poll takes an entry
exactly when one is waiting. -/
theorem cq_fifo {s : Cq} (h : cqMachine.Reachable s) :
    s.head = s.consumed.length % queueDepth ∧
      s.phase = decide (s.consumed.length / queueDepth % 2 = 0) ∧
      s.consumed.length ≤ s.posted.length ∧
      (∀ j (hj : j < s.consumed.length), ∃ hp : j < s.posted.length,
        s.consumed[j] = ⟨j % queueDepth, s.posted[j].dword (decide (j / queueDepth % 2 = 0))⟩) ∧
      (s.EntryReady ↔ s.consumed.length < s.posted.length) :=
  have hi := CqInv.of_reachable h
  ⟨hi.head_eq, hi.phase_eq, hi.consumed_le, hi.history, hi.entryReady_iff⟩

/-- The beginning of a completion entry that carries nothing. -/
def blankHead : List UInt8 := List.replicate 12 0

theorem length_blankHead : blankHead.length = 12 := rfl

theorem status_zero_lt : 0 < 2 ^ 15 := Nat.two_pow_pos 15

/-- A successful completion of the first command. -/
def firstCqe : Cqe where
  head := blankHead
  cid := 1
  status := 0
  length_head := length_blankHead
  cid_lt := by decide
  status_lt := status_zero_lt

/-- One command: it is submitted, polled once too early, completed, and consumed. -/
def oneCommand : List CqAct :=
  [.enter, .poll, .post firstCqe, .poll, .ringHead]

theorem cq_fifo_oneCommand :
    ∃ s, cqMachine.run oneCommand cqInit = some s ∧ s.consumed.length = 1 ∧
      s.head = 1 % queueDepth := by
  have hrun : cqMachine.run oneCommand cqMachine.init = some _ := rfl
  exact ⟨_, hrun, rfl, (cq_fifo (Machine.reachable_of_run hrun)).1⟩

end RvvmHal.Nvme
